/-
Results (`crates/agents/src/investigation/admission.rs`).

A result is admitted from what the model proposed, with the inputs that its prose may not repeat.
Later it is decoded from its row and validated with the ledger alone.

* `InvestigationResult.validate_ok` — what a result that validates is like (`Admissible`);
* `decodable_result` — its text is within the shape bounds of the decoder;
* `result_admission` — a result that was admitted validates, now and when it is read back.
-/
import Cartograph.Investigation.Strict
import Cartograph.Jobs.References

namespace Investigation

open Checked

/-- `InvestigationResult::admit`. -/
def InvestigationResult.admit (env : Env) (investigationId : String)
    (ledger : InvestigationInputLedger) (action : InvestigationAction) (supplied : List String)
    (observedResponseModel : Option String) (createdAt : String) :
    Except InvestigationError InvestigationResult := do
  ledger.validate
  let findings ← action.admitFinish env (ledger.citations.map (·.citationId)) supplied
  match action with
  | .finish proposed knowledgeCompleteness limitations => do
    -- once more, with the name of the model among the prose
    rejectProseReplay env (proposed.flatMap (·.prose) ++ limitations ++ observedResponseModel.toList)
      supplied
    let inputLedgerHash ← ledger.fingerprint env
    let result : InvestigationResult :=
      { schemaVersion := 1, investigationId, resultId := "", inputLedgerHash,
        graphSnapshotId := ledger.graphSnapshotId, findings, knowledgeCompleteness, limitations,
        observedResponseModel, createdAt }
    let resultId ← result.contentId env
    let result := { result with resultId }
    result.validate env ledger
    pure result
  | _ => .error .invalidAction

/-! ### Results that validate -/

/-- What validation establishes of a result, besides its identity. -/
structure Admissible (ledger : InvestigationInputLedger) (r : InvestigationResult) : Prop where
  version : r.schemaVersion = 1
  count : r.findings.length ≤ 12
  findings : ∀ f ∈ r.findings, f.proposed.valid = true
  limitations : validLimitations r.limitations = true
  cited : ∀ f ∈ r.findings, ∀ id ∈ f.citationIds, id ∈ ledger.citations.map (·.citationId)
  authority : ∀ f ∈ r.findings, f.tier = .agentic ∧ f.confidenceTier = .inferredWeak
  size : r.toJson.size ≤ MAX_RESULT_BYTES

variable {r : InvestigationResult} {ledger : InvestigationInputLedger} {f : InvestigationFinding}

theorem authority_of_findingsValid (h : r.findingsValid = true) :
    ∀ f ∈ r.findings, f.tier = .agentic ∧ f.confidenceTier = .inferredWeak := by
  intro f hf
  obtain ⟨i, hi, rfl⟩ := List.getElem_of_mem hf
  have hvalid := List.all_eq_true.mp h _ (List.mem_mapIdx.mpr ⟨i, hi, rfl⟩)
  simp only [id, Bool.and_eq_true, beq_iff_eq] at hvalid
  exact ⟨hvalid.1.2, hvalid.2⟩

theorem InvestigationResult.validate_ok {env : Env} (h : r.validate env ledger = .ok ()) :
    Admissible ledger r := by
  simp only [InvestigationResult.validate, InvestigationAction.admitFinish,
    InvestigationAction.validateShape, bind_eq_ok, ensure_eq_ok, pure_eq_ok] at h
  obtain ⟨-, -, -, -, -, -, -, ⟨hversion, -⟩, -, hauthority, -, ⟨-, ⟨hcount, -, hlimitations, hall⟩,
    -, hcited, -⟩, hsize⟩ := h
  rw [List.length_map] at hcount
  have hfindings : ∀ f ∈ r.findings, f.proposed.valid = true := by
    intro f hf
    exact List.all_eq_true.mp hall f.proposed (List.mem_map_of_mem hf)
  exact ⟨hversion, hcount, hfindings, hlimitations,
    fun f hf => hcited f.proposed (List.mem_map_of_mem hf), authority_of_findingsValid hauthority,
    hsize⟩

/-! ### Their shape -/

theorem length_of_valid (h : f.proposed.valid = true) :
    f.citationIds.length ≤ 8 ∧ f.limitations.length ≤ 8 := by
  simp only [ProposedInvestigationFinding.valid, validLimitations, Bool.and_eq_true,
    decide_eq_true_eq] at h
  exact ⟨h.1.1.1.2, h.2.1.2⟩

theorem shape_finding (h : f.proposed.valid = true) :
    Shape f.toJson 2 := by
  obtain ⟨hids, hlimitations⟩ := length_of_valid h
  have h1 : Shape (.arr (f.citationIds.map .str)) 1 :=
    shape_arr (by omega) fun id _ => shape_str id 0
  have h2 : Shape (.arr (f.limitations.map .str)) 1 :=
    shape_arr (by omega) fun limitation _ => shape_str limitation 0
  refine shape_obj ["finding_id", "claim_kind", "title", "statement", "citation_ids", "limitations",
    "tier", "confidence_tier"] rfl (by decide) ?_
  simp [h1, h2]

theorem values_finding (h : f.proposed.valid = true) :
    values f.toJson ≤ 25 := by
  obtain ⟨hids, hlimitations⟩ := length_of_valid h
  have h1 : values (.arr (f.citationIds.map .str)) ≤ 1 + f.citationIds.length * 1 :=
    values_arr_le fun id _ => (values_str id).le
  have h2 : values (.arr (f.limitations.map .str)) ≤ 1 + f.limitations.length * 1 :=
    values_arr_le fun limitation _ => (values_str limitation).le
  simp only [InvestigationFinding.toJson, values_obj, List.map_cons, List.map_nil, List.sum_cons,
    List.sum_nil, values_str]
  linarith

theorem decodable_result (h : Admissible ledger r) : decodable r.toJson = true := by
  have hcount := h.count
  have hlimitations : r.limitations.length ≤ 8 := by
    have hvalid := h.limitations
    simp only [validLimitations, Bool.and_eq_true, decide_eq_true_eq] at hvalid
    exact hvalid.1.2
  have hshape : Shape r.toJson 4 := by
    have h1 : Shape (.arr (r.findings.map InvestigationFinding.toJson)) 3 :=
      shape_arr (by omega) fun f hf => shape_finding (h.findings f hf)
    have h2 : Shape (.arr (r.limitations.map .str)) 3 :=
      shape_arr (by omega) fun limitation _ => shape_str limitation 2
    refine shape_obj ["schema_version", "investigation_id", "result_id", "input_ledger_hash",
      "graph_snapshot_id", "findings", "knowledge_completeness", "limitations",
      "observed_response_model", "created_at"] rfl (by decide) ?_
    simp [h1, h2]
  have hvalues : values r.toJson ≤ 400 := by
    have h1 : values (.arr (r.findings.map InvestigationFinding.toJson))
        ≤ 1 + r.findings.length * 25 := values_arr_le fun f hf => values_finding (h.findings f hf)
    have h2 : values (.arr (r.limitations.map .str)) ≤ 1 + r.limitations.length * 1 :=
      values_arr_le fun limitation _ => (values_str limitation).le
    have h3 : values (.opt .str r.observedResponseModel) ≤ 1 :=
      values_opt_le le_rfl fun _ _ => by simp
    simp only [InvestigationResult.toJson, values_obj, List.map_cons, List.map_nil, List.sum_cons,
      List.sum_nil, values_nat, values_str]
    linarith
  refine decodable_of_shape hshape (by omega) (h.size.trans ?_) (hvalues.trans (by omega))
  decide

theorem InvestigationResult.admit_ok {env : Env} {investigationId : String}
    {action : InvestigationAction} {supplied : List String} {observedResponseModel : Option String}
    {createdAt : String}
    (h : InvestigationResult.admit env investigationId ledger action supplied observedResponseModel
      createdAt = .ok r) : r.validate env ledger = .ok () := by
  simp only [ InvestigationResult.admit, bind_eq_ok] at h
  obtain ⟨-, -, findings, -, h⟩ := h
  cases action with
  | queryContext query => cases h
  | readEvidence fact role index => cases h
  | finish proposed knowledgeCompleteness limitations =>
    simp only [bind_eq_ok, pure_eq_ok] at h
    obtain ⟨-, -, hash, -, resultId, -, ⟨⟩, hvalidate, rfl⟩ := h
    exact hvalidate

end Investigation

namespace Jobs

open Investigation Checked GraphStore

/-- A result that was admitted validates with its ledger, cites nothing else and claims no more than
agentic authority; it can be stored, and what is decoded from its row is the same result, which
validates again. -/
theorem result_admission {env : Env} {investigationId : String} {ledger : InvestigationInputLedger}
    {action : InvestigationAction} {supplied : List String} {observedResponseModel : Option String}
    {createdAt : String} {r : InvestigationResult}
    (h : InvestigationResult.admit env investigationId ledger action supplied observedResponseModel
      createdAt = .ok r)
    (contentHash : ByteArray → Hash) {read : String → Document}
    (hread : read r.toJson.render = ⟨raw r.toJson, true⟩) :
    r.validate env ledger = .ok ()
      ∧ (∀ f ∈ r.findings, (∀ id ∈ f.citationIds, ∃ c ∈ ledger.citations, c.citationId = id)
        ∧ f.tier = .agentic ∧ f.confidenceTier = .inferredWeak ∧ f.confidenceTier ≠ .confirmed)
      ∧ ∃ bytes, encodeBody InvestigationResult.serde r MAX_RESULT_BYTES = .ok bytes
        ∧ ∃ r', decodeBody contentHash read InvestigationResult.serde bytes
            (contentHash bytes).text = .ok r'
          ∧ r' = r ∧ r'.validate env ledger = .ok () := by
  have hvalidate := InvestigationResult.admit_ok h
  have hadmissible := InvestigationResult.validate_ok hvalidate
  refine ⟨hvalidate, fun f hf => ⟨fun id hid => ?_, ?_⟩, ?_⟩
  · exact List.mem_map.mp (hadmissible.cited f hf id hid)
  · obtain ⟨htier, hconfidence⟩ := hadmissible.authority f hf
    refine ⟨htier, hconfidence, ?_⟩
    rw [hconfidence]
    intro hconfirmed
    cases hconfirmed
  · have hversion : r.schemaVersion < 2 ^ 32 := by
      rw [hadmissible.version]
      omega
    refine ⟨_, encodeBody_eq_ok.mpr ⟨hadmissible.size, rfl⟩, r, ?_, rfl, hvalidate⟩
    exact (decodeBody_written (InvestigationResult.fits hversion) hread).mpr
      (decodable_result hadmissible)

namespace Sample

/-- One finding, with the one citation of `boundLedger`. -/
def finishing : InvestigationAction :=
  .finish [⟨.implementedBehavior, "Title", "Statement", ["c1"], ["Unclear"]⟩] .partialKnowledge
    ["Unclear"]

end Sample

theorem result_admission_bound : ∃ r,
    InvestigationResult.admit (Sample.env Sample.intent) "investigation:1" Sample.boundLedger
        Sample.finishing ["Node"] (some "model") "now" = .ok r
      ∧ (∀ f ∈ r.findings, ∀ id ∈ f.citationIds, ∃ c ∈ Sample.boundLedger.citations,
        c.citationId = id)
      ∧ ∃ bytes, encodeBody InvestigationResult.serde r MAX_RESULT_BYTES = .ok bytes
        ∧ decodeBody Sample.zeroHash (Sample.readOnly r.toJson) InvestigationResult.serde bytes
          (Sample.zeroHash bytes).text = .ok r := by
  have hsome : ( InvestigationResult.admit (Sample.env Sample.intent) "investigation:1"
      Sample.boundLedger Sample.finishing ["Node"] (some "model") "now").toOption.isSome = true := by
    decide
  obtain ⟨r, hr⟩ := Option.isSome_iff_exists.mp hsome
  have hadmit := toOption_eq_some.mp hr
  have hread : Sample.readOnly r.toJson r.toJson.render = ⟨raw r.toJson, true⟩ := if_pos rfl
  obtain ⟨-, hfindings, bytes, hencode, r', hdecode, rfl, -⟩ := result_admission hadmit
    Sample.zeroHash hread
  exact ⟨r', hadmit, fun f hf => (hfindings f hf).1, bytes, hencode, hdecode⟩

end Jobs

/-
Sizes of stored records.

A record is written again at every transition, under limits on the bytes of its
summary and of the whole.  The summary is compared with the one the task started with:

* `size_summary` — the two differ by the members that change, `cost`;
* `size_record` — apart from the summary, a valid record is bounded by constants;
* `size_event` — and so is an event.

Texts that come from outside may need escapes; ids, hashes, tokens and times never do.
-/
import Cartograph.Jobs.Accounting

namespace Jobs

open Investigation Checked
open Json (plain strSize length_utf8 strSize_plain utf8 nat bool opt size_str keysSize arr
  size_obj_le size_nat_le size_opt_le)

/-! ### Texts without escapes -/

theorem plain_of_lowerHex {l : List UInt8} (h : l.all lowerHex = true) :
    l.all plain = true := by
  rw [List.all_eq_true] at h ⊢
  intro b hb
  have hhex := h b hb
  simp only [lowerHex, Bool.or_eq_true, Bool.and_eq_true, decide_eq_true_eq] at hhex
  simp only [plain, Bool.and_eq_true, decide_eq_true_eq, bne_iff_ne]
  omega

theorem plain_of_idByte {l : List UInt8} (h : l.all idByte = true) :
    l.all plain = true := by
  rw [List.all_eq_true] at h ⊢
  intro b hb
  have hid := h b hb
  simp only [idByte, Bool.or_eq_true, Bool.and_eq_true, decide_eq_true_eq, beq_iff_eq] at hid
  simp only [plain, Bool.and_eq_true, decide_eq_true_eq, bne_iff_ne]
  omega

variable {s : String} {env : Env} {t : StoredTask}

theorem strSize_id (h : idValid s = true) : strSize s ≤ 130 := by
  simp only [idValid, Bool.and_eq_true, decide_eq_true_eq] at h
  have hlength := h.1.2
  rw [length_utf8] at hlength
  rw [strSize_plain (plain_of_idByte h.2)]
  omega

theorem strSize_token (h : isToken s = true) : strSize s = 34 := by
  simp only [isToken, Bool.and_eq_true, beq_iff_eq] at h
  have hlength := h.1
  rw [length_utf8] at hlength
  rw [strSize_plain (plain_of_lowerHex h.2)]
  omega

theorem strSize_hash (h : hashValid s = true) : strSize s = 66 := by
  simp only [hashValid, hashBytes, Bool.and_eq_true, beq_iff_eq] at h
  have hlength := h.1
  rw [length_utf8] at hlength
  rw [strSize_plain (plain_of_lowerHex h.2)]
  omega

theorem strSize_timestamp (now : Timestamp) : strSize now.text = 22 := by
  rw [strSize_plain now.plain, now.size]

theorem strSize_contextHash (h : contextHash s = true) : strSize s = 77 := by
  simp only [contextHash, prefixed, leads, hashBytes, Bool.and_eq_true, beq_iff_eq,
    List.isPrefixOf_iff_prefix] at h
  obtain ⟨⟨rest, hrest⟩, hlength, hhex⟩ := h
  have hlead : (utf8 "context-v1:").length = 11 := by decide
  rw [← hrest, List.drop_left] at hlength hhex
  have hplain : (utf8 s).all plain = true := by
    rw [← hrest, List.all_append, Bool.and_eq_true]
    exact ⟨by decide, plain_of_lowerHex hhex⟩
  have hsize : s.utf8ByteSize = 75 := by
    rw [← length_utf8, ← hrest, List.length_append, hlead, hlength]
  rw [strSize_plain hplain, hsize]

theorem strSize_le {n : ℕ} (h : s.utf8ByteSize ≤ n) : strSize s ≤ 2 + 6 * n := by
  have hbounds := Json.strSize_bounds s
  omega

/-! ### The summary -/

/-- The summary a task starts with. -/
def Fixed.summary (f : Fixed) : InvestigationSummary where
  schemaVersion := f.schemaVersion
  investigationId := f.investigationId
  conversationId := f.conversationId
  parentId := f.parentId
  jobId := f.jobId
  specialistId := f.specialistId
  question := f.question
  scope := f.scope
  providerMode := f.providerMode
  status := .queued
  revision := 0
  cancelRequested := false
  invocationPending := false
  actions := { canCancel := true, canFollowUp := f.canFollowUp }
  graphSnapshotId := none
  lastEventSequence := 0
  hasResult := false
  createdAt := f.createdAt
  updatedAt := f.createdAt

/-- The bytes of the members that change. -/
def cost (s : InvestigationSummary) : ℕ :=
  strSize s.status.text + (nat s.revision).size + (nat s.lastEventSequence).size
    + (bool s.cancelRequested).size + (bool s.invocationPending).size
    + (bool s.actions.canCancel).size + (opt .str s.graphSnapshotId).size
    + (bool s.hasResult).size + strSize s.updatedAt

theorem size_summary (t : StoredTask) :
    t.detail.summary.toJson.size + cost (fixed t).summary
      = (fixed t).summary.toJson.size + cost t.detail.summary := by
  simp only [InvestigationSummary.toJson, InvestigationSummary.fields, Json.size_obj_cons,
    List.map_cons, List.map_nil, List.sum_cons, List.sum_nil, Json.fieldSize, size_str, cost,
    Fixed.summary, fixed]
  omega

/-! ### The record -/

theorem size_specialist (env : Env) (id : SpecialistId) :
    (id.definition env).toJson.size ≤ 512 := by
  have hkeys : keysSize ["id", "name", "version", "prompt_fingerprint", "purpose", "operations",
      "tier", "confidence_tier"] ≤ 120 := by decide
  have hid : strSize id.text ≤ 24 := by cases id <;> decide
  have hversion : (nat id.version).size ≤ 1 := by cases id <;> decide
  have hname : strSize (id.definition env).name ≤ 24 := by
    cases id <;> (dsimp only [SpecialistId.definition]; decide)
  have hpurpose : strSize (id.definition env).purpose ≤ 80 := by
    cases id <;> (dsimp only [SpecialistId.definition]; decide)
  have hprompt := strSize_hash (env.promptFingerprint id.text).valid
  have hops : (arr (["query_context", "read_evidence", "finish"].map .str)).size ≤ 48 := by
    decide
  have htier : strSize Tier.agentic.text + strSize ConfidenceTier.inferredWeak.text ≤ 32 := by
    decide
  refine (size_obj_le _).trans ?_
  simp only [List.map_cons, List.map_nil, List.sum_cons, List.sum_nil, size_str]
  dsimp only [SpecialistId.definition] at hname hpurpose ⊢
  omega

theorem size_limits : ({} : InvestigationLimits).toJson.size ≤ 512 := by decide

theorem size_word (n : UInt64) : (word n).size ≤ 20 :=
  size_nat_le (by omega) (n.toNat_lt.trans (by decide))

theorem size_usage {u : InvestigationUsage} (h : WithinLimits u {}) : u.toJson.size ≤ 512 := by
  have hkeys : keysSize ["model_invocations", "tool_actions", "selected_facts",
      "evidence_requests", "evidence_items", "evidence_bytes", "captured_validation_bytes",
      "generated_token_reservations", "reported_input_tokens", "reported_output_tokens",
      "active_milliseconds"] ≤ 300 := by decide
  have hcount : ∀ n, n ≤ 128 * 1024 * 1024 → (nat n).size ≤ 9 := by
    intro n hn
    exact size_nat_le (by omega) (by omega)
  have hinput : (opt word u.reportedInputTokens).size ≤ 20 :=
    size_opt_le (by omega) fun n _ => size_word n
  have houtput : (opt word u.reportedOutputTokens).size ≤ 20 :=
    size_opt_le (by omega) fun n _ => size_word n
  have h1 := hcount _ (h.modelInvocations.trans (by decide))
  have h2 := hcount _ (h.toolActions.trans (by decide))
  have h3 := hcount _ (h.selectedFacts.trans (by decide))
  have h4 := hcount _ (h.evidenceRequests.trans (by decide))
  have h5 := hcount _ (h.evidenceItems.trans (by decide))
  have h6 := hcount _ (h.evidenceBytes.trans (by decide))
  have h7 := hcount _ (h.capturedValidationBytes.trans (by decide))
  have h8 := hcount _ (h.generatedTokenReservations.trans (by decide))
  have hactive := size_word u.activeMilliseconds
  refine (size_obj_le _).trans ?_
  simp only [List.map_cons, List.map_nil, List.sum_cons, List.sum_nil]
  linarith

theorem size_provider {p : InvestigationProvider} (h : validateProvider env p = .ok ()) :
    p.toJson.size ≤ 62000 := by
  simp only [validateProvider, bind_eq_ok, ensure_eq_ok] at h
  obtain ⟨⟨⟩, ⟨-, hreason⟩, htexts⟩ := h
  have htext : ∀ value ∈ [p.providerId, p.model, p.endpoint] ++ p.deployment.toList
      ++ p.protocolVersion.toList, strSize value ≤ 12290 := by
    intro value hvalue
    exact (strSize_le (htexts value hvalue).2.1).trans (by omega)
  have hmode : strSize p.mode.text ≤ 7 := by cases p.mode <;> decide
  have havailable : (bool p.available).size ≤ 5 := by cases p.available <;> simp
  have h1 := htext p.providerId (by simp)
  have h2 := htext p.model (by simp)
  have h3 := htext p.endpoint (by simp)
  have h4 : (opt .str p.deployment).size ≤ 12290 := by
    refine size_opt_le (by omega) fun value hvalue => ?_
    rw [size_str]
    exact htext value (by simp [Option.mem_def.mp hvalue])
  have h5 : (opt .str p.unavailableReason).size = 4 := by
    rw [hreason]
    rfl
  refine (size_obj_le _).trans ?_
  cases hversion : p.protocolVersion with
  | none =>
    have hkeys : keysSize ["mode", "provider_id", "model", "endpoint", "deployment",
      "available", "unavailable_reason"] ≤ 200 := by decide
    simp only [Option.toList_none, List.map_nil, List.append_nil, List.cons_append,
      List.nil_append, List.map_cons, List.sum_cons, List.sum_nil, size_str]
    omega
  | some version =>
    have hkeys : keysSize ["mode", "provider_id", "model", "endpoint", "deployment",
      "protocol_version", "available", "unavailable_reason"] ≤ 200 := by decide
    have h6 := htext version (by simp [hversion])
    simp only [Option.toList_some, List.map_nil, List.cons_append, List.nil_append, List.map_cons,
      List.sum_cons, List.sum_nil, size_str]
    omega

theorem size_step {step : PendingInvestigationStep} (h : validateStep step = .ok ()) :
    step.toJson.size ≤ 512 := by
  rw [validateStep, ensure_eq_ok] at h
  obtain ⟨hid, hpayload, hledger, -, hinput, -, htokens⟩ := h
  have hkeys : keysSize ["step_id", "payload_hash", "input_ledger_hash", "input_bytes",
    "generated_tokens"] ≤ 100 := by decide
  have h1 := strSize_id hid
  have h2 := strSize_hash hpayload
  have h3 := strSize_hash hledger
  have h4 : (nat step.inputBytes).size ≤ 6 :=
    size_nat_le (by omega) (lt_of_le_of_lt hinput (by decide))
  have h5 : (nat step.generatedTokens).size ≤ 4 := size_nat_le (by omega) (by omega)
  refine (size_obj_le _).trans ?_
  simp only [List.map_cons, List.map_nil, List.sum_cons, List.sum_nil, size_str]
  omega

/-- What validation leaves open. -/
structure Modest (t : StoredTask) : Prop where
  expectedGraphRevision : t.expectedGraphRevision.all contextHash
  scopeSnapshotId : t.detail.scopeSnapshotId.all contextHash
  citations : (arr (t.detail.citations.map InvestigationCitation.toJson)).size
    ≤ MAX_MANIFEST_BYTES
  ledgerRevision : ∀ revision ∈ t.ledgerRevision, revision ≤ MAX_ROWID
  generation : ∀ x ∈ t.execution, x.generation = 1
  error : ∀ e ∈ t.detail.error, strSize e ≤ 128

theorem size_jobId (s : InvestigationSummary) : (nat s.jobId).size ≤ s.toJson.size := by
  simp only [InvestigationSummary.toJson, InvestigationSummary.fields, Json.size_obj_cons,
    List.map_cons, List.sum_cons, Json.fieldSize]
  omega

theorem size_execution {x : StoredExecution} (h : validExecution t = true)
    (howner : isToken t.detail.contextOwner = true) (hx : t.execution = some x)
    (hgeneration : x.generation = 1) (hsize : t.detail.summary.toJson.size ≤ 4096) :
    x.toJson.size ≤ 4300 := by
  rw [validExecution, hx] at h
  simp only [Bool.and_eq_true, beq_iff_eq] at h
  obtain ⟨⟨⟨hns, hjob⟩, -⟩, hown⟩ := h
  have hkeys : keysSize ["namespace", "job_id", "generation", "owner"] ≤ 100 := by decide
  have h1 := strSize_token howner
  have h2 := size_jobId t.detail.summary
  have h3 : (nat 1).size = 1 := by decide
  have h4 := strSize_token hown
  refine (size_obj_le _).trans ?_
  simp only [List.map_cons, List.map_nil, List.sum_cons, List.sum_nil, size_str, hns, hjob,
    hgeneration]
  omega

theorem size_detail (h : ValidTask env t) (hm : Modest t) :
    t.detail.toJson.size ≤ 200000 := by
  obtain ⟨-, -, -, -, -, -, -, -, howner, hspecialist, -, hlimits, -⟩ := h.fields
  have hkeys : keysSize ["context_owner", "origin", "specialist", "provider",
    "scope_snapshot_id", "limits", "usage", "citations", "error"] ≤ 200 := by decide
  have happ : strSize "app" = 5 := by decide
  have h1 := strSize_token howner
  have h2 : t.detail.specialist.toJson.size ≤ 512 := hspecialist ▸ size_specialist env _
  have h3 := size_provider h.provider
  have h4 : (opt .str t.detail.scopeSnapshotId).size ≤ 77 := by
    refine size_opt_le (by omega) fun value hvalue => ?_
    rw [size_str,
      strSize_contextHash (Option.all_eq_true _ _ |>.mp hm.scopeSnapshotId value hvalue)]
  have h5 : t.detail.limits.toJson.size ≤ 512 := hlimits ▸ size_limits
  have h6 : t.detail.usage.toJson.size ≤ 512 := size_usage (hlimits ▸ validateUsage_ok h.usage)
  have h7 := hm.citations
  have h8 : (opt .str t.detail.error).size ≤ 128 := by
    refine size_opt_le (by omega) fun value hvalue => ?_
    rw [size_str]
    exact hm.error value hvalue
  have hsummary := h.summary
  refine (Json.size_obj_append_le _ _).trans ?_
  rw [InvestigationSummary.toJson] at hsummary
  simp only [List.map_cons, List.map_nil, List.sum_cons, List.sum_nil, size_str, happ]
  simp only [MAX_MANIFEST_BYTES] at h7
  omega

/-- **Record bound**: far enough below the limit for two more events. -/
theorem size_record (h : ValidTask env t) (hm : Modest t) :
    t.toJson.size ≤ 220 * 1024 := by
  obtain ⟨hversion, -, -, -, hnonce, hintent, -, -, howner, -, -, -, -, -, -, -, -, -, hledger, -⟩ :=
    h.fields
  have hkeys : keysSize ["schema_version", "nonce", "intent_hash", "expected_graph_revision",
    "detail", "phase", "execution", "ledger_hash", "ledger_revision", "pending", "approved",
    "action_tool"] ≤ 250 := by decide
  have hone : (nat 1).size = 1 := by decide
  have h1 := strSize_id hnonce
  have h2 := strSize_hash hintent
  have h3 : (opt .str t.expectedGraphRevision).size ≤ 77 := by
    refine size_opt_le (by omega) fun value hvalue => ?_
    rw [size_str,
      strSize_contextHash (Option.all_eq_true _ _ |>.mp hm.expectedGraphRevision value hvalue)]
  have h4 := size_detail h hm
  have h5 : strSize t.phase.text ≤ 16 := by cases t.phase <;> decide
  have h6 : (opt StoredExecution.toJson t.execution).size ≤ 4300 :=
    size_opt_le (by omega) fun x hx =>
      size_execution h.execution howner hx (hm.generation x hx) h.summary
  have h7 : (opt .str t.ledgerHash).size ≤ 66 := by
    refine size_opt_le (by omega) fun value hvalue => ?_
    rw [size_str, strSize_hash (Option.all_eq_true _ _ |>.mp hledger value hvalue)]
  have h8 : (opt .nat t.ledgerRevision).size ≤ 19 :=
    size_opt_le (by omega) fun revision hrevision =>
      size_nat_le (by omega) (lt_of_le_of_lt (hm.ledgerRevision revision hrevision) (by decide))
  have h9 : (opt PendingInvestigationStep.toJson t.pending).size ≤ 512 := by
    refine size_opt_le (by omega) fun step hstep => size_step ?_
    have hpending := h.pending
    rwa [Option.mem_def.mp hstep, validatePending] at hpending
  have h10 : (bool t.approved).size ≤ 5 := by cases t.approved <;> simp
  have h11 : (opt (fun x => .str (InvestigationTool.text x)) t.actionTool).size ≤ 16 := by
    refine size_opt_le (by omega) fun tool _ => ?_
    cases tool <;> decide
  refine (size_obj_le _).trans ?_
  simp only [List.map_cons, List.map_nil, List.sum_cons, List.sum_nil, size_str, hversion, hone]
  linarith

/-! ### Events -/

theorem size_event (now : Timestamp) (kind : InvestigationEventKind) (summary : String)
    (hid : idValid t.detail.summary.investigationId = true)
    (hrevision : t.detail.summary.revision < 10 ^ 20)
    (hsequence : t.detail.summary.lastEventSequence + 1 < 10 ^ 20)
    (hsummary : strSize summary ≤ 128) :
    (t.eventRow now kind none none summary).toJson.size ≤ 1024 := by
  have hkeys : keysSize ["investigation_id", "sequence", "revision", "kind", "step_id", "tool",
    "summary", "created_at"] ≤ 200 := by decide
  have h1 := strSize_id hid
  have h2 : (nat (t.detail.summary.lastEventSequence + 1)).size ≤ 20 :=
    size_nat_le (by omega) hsequence
  have h3 : (nat t.detail.summary.revision).size ≤ 20 := size_nat_le (by omega) hrevision
  have h4 : strSize kind.text ≤ 32 := by cases kind <;> decide
  have h5 := strSize_timestamp now
  refine (size_obj_le _).trans ?_
  simp only [List.map_cons, List.map_nil, List.sum_cons, List.sum_nil, size_str, opt,
    Json.size_null, StoredTask.eventRow]
  omega

end Jobs


/-
Shapes of stored bodies.

Before a stored body is decoded, the strict decoder bounds its depth, the number of its
values, the lengths of its arrays and the keys of its objects.  What was admitted when it
was written meets these bounds when it is read:

* `decodable_task` — a record with at most 76 citations;
* `decodable_ledger` — a valid input ledger;
* `decodable_event` — an event.

Depth and keys are bounded member by member (`Shape`), values are counted (`values`).
-/
import Cartograph.Investigation.Admission

namespace Investigation

open Checked

/-! ### Counting values -/

section

attribute [local simp] values

@[simp] theorem values_null : values .null = 1 := by simp

@[simp] theorem values_bool (b : Bool) : values (.bool b) = 1 := by simp

@[simp] theorem values_num (s : String) : values (.num s) = 1 := by simp

@[simp] theorem values_nat (n : ℕ) : values (.nat n) = 1 := by simp [Json.nat]

@[simp] theorem values_str (s : String) : values (.str s) = 1 := by simp

end

theorem fieldValues_eq (l : List (String × Json)) :
    fieldValues l = (l.map fun f => values f.2).sum := by
  induction l with
  | nil => simp [fieldValues]
  | cons f rest ih =>
    obtain ⟨k, j⟩ := f
    rw [fieldValues, ih, List.map_cons, List.sum_cons]

@[simp] theorem values_obj (l : List (String × Json)) :
    values (.obj l) = 1 + (l.map fun f => values f.2).sum := by
  rw [values, fieldValues_eq]

theorem itemValues_eq (l : List Json) : itemValues l = (l.map values).sum := by
  induction l with
  | nil => simp [itemValues]
  | cons j rest ih => rw [itemValues, ih, List.map_cons, List.sum_cons]

@[simp] theorem values_arr (l : List Json) : values (.arr l) = 1 + (l.map values).sum := by
  rw [values, itemValues_eq]

variable {α : Type} {f : α → Json} {n h : ℕ}

theorem values_arr_le {l : List α} (h : ∀ a ∈ l, values (f a) ≤ n) :
    values (.arr (l.map f)) ≤ 1 + l.length * n := by
  rw [values_arr, List.map_map]
  have hsum := List.sum_le_card_nsmul (l.map (values ∘ f)) n (by simpa using h)
  rw [List.length_map, nsmul_eq_mul, Nat.cast_id] at hsum
  omega

variable {o : Option α} {l : List (String × Json)} {j : Json} {d : InvestigationDetail}
  {q : InvestigationQueryManifest}

theorem values_opt_le (hn : 1 ≤ n) (h : ∀ a ∈ o, values (f a) ≤ n) :
    values (.opt f o) ≤ n := by
  cases o with
  | none => simpa [Json.opt] using hn
  | some a => exact h a rfl

/-! ### Depth and keys -/

/-- At most `h` levels below, short arrays, and distinct short keys throughout. -/
structure Shape (j : Json) (h : ℕ) : Prop where
  height : j.height ≤ h
  shaped : shaped 128 j = true

section

attribute [local simp] Json.height shaped

@[simp] theorem shape_null (h : ℕ) : Shape .null h := ⟨by simp, by simp⟩

@[simp] theorem shape_bool (b : Bool) (h : ℕ) : Shape (.bool b) h :=
  ⟨by simp, by simp⟩

@[simp] theorem shape_num (s : String) (h : ℕ) : Shape (.num s) h :=
  ⟨by simp, by simp⟩

@[simp] theorem shape_nat (n : ℕ) (h : ℕ) : Shape (.nat n) h := shape_num _ h

@[simp] theorem shape_str (s : String) (h : ℕ) : Shape (.str s) h :=
  ⟨by simp, by simp⟩

end

theorem shape_opt (hs : ∀ a ∈ o, Shape (f a) h) :
    Shape (.opt f o) h := by
  cases o with
  | none => exact shape_null h
  | some a => exact hs a rfl

@[simp] theorem shape_opt_str (o : Option String) (h : ℕ) : Shape (.opt .str o) h :=
  shape_opt fun a _ => shape_str a h

@[simp] theorem shape_opt_nat (o : Option ℕ) (h : ℕ) : Shape (.opt .nat o) h :=
  shape_opt fun a _ => shape_nat a h

theorem fieldsShaped_iff :
    fieldsShaped n l = true ↔ ∀ f ∈ l, shaped n f.2 = true := by
  induction l with
  | nil => simp [fieldsShaped]
  | cons f rest ih =>
    obtain ⟨k, j⟩ := f
    rw [fieldsShaped, Bool.and_eq_true, ih, List.forall_mem_cons]

theorem itemsShaped_iff {l : List Json} :
    itemsShaped n l = true ↔ ∀ j ∈ l, shaped n j = true := by
  induction l with
  | nil => simp [itemsShaped]
  | cons j rest ih => rw [itemsShaped, Bool.and_eq_true, ih, List.forall_mem_cons]

/-- Keys the decoder admits in one object. -/
def keysShaped (keys : List String) : Bool :=
  decide (keys.length ≤ 64) && keys.all (fun k => decide (k.utf8ByteSize ≤ 128)) && decide keys.Nodup

theorem shape_obj (keys : List String) (hkeys : l.map Prod.fst = keys) (hk : keysShaped keys = true)
    (hl : ∀ f ∈ l, Shape f.2 h) :
    Shape (.obj l) (h + 1) := by
  refine ⟨?_, ?_⟩
  · rw [Json.height, Json.fieldsHeight_le_iff]
    intro f hf
    have hheight := (hl f hf).height
    omega
  · have hlength : l.length = keys.length := by rw [← hkeys, List.length_map]
    have hfields := fieldsShaped_iff.mpr fun f hf => (hl f hf).shaped
    rw [shaped, hkeys, hlength, hfields, Bool.and_true]
    exact hk

theorem shape_arr {l : List α} (hlength : l.length ≤ 128) (hl : ∀ a ∈ l, Shape (f a) h) :
    Shape (.arr (l.map f)) (h + 1) := by
  have hmem : ∀ j ∈ l.map f, Shape j h := by
    intro j hj
    obtain ⟨a, ha, rfl⟩ := List.mem_map.mp hj
    exact hl a ha
  refine ⟨?_, ?_⟩
  · rw [Json.height, Json.itemsHeight_le_iff]
    intro j hj
    have hheight := (hmem j hj).height
    omega
  · have hitems := itemsShaped_iff.mpr fun j hj => (hmem j hj).shaped
    rw [shaped, hitems, Bool.and_true, decide_eq_true_eq, List.length_map]
    exact hlength

theorem decodable_of_shape (hs : Shape j h) (hh : h ≤ 32) (hsize : j.size ≤ MAX_RECORD_BYTES)
    (hvalues : values j ≤ 16384) : decodable j = true := by
  have hheight := hs.height
  simp only [decodable, preflight, Bool.and_eq_true, decide_eq_true_eq]
  exact ⟨⟨⟨hsize, by omega⟩, hvalues⟩, hs.shaped⟩

/-! ### Facts and citations -/

theorem shape_evidenceRef (e : EvidenceRef) : Shape e.toJson 1 :=
  shape_obj ["repo", "path", "byte_start", "byte_end", "commit_sha"] rfl (by decide) (by simp)

theorem values_evidenceRef (e : EvidenceRef) : values e.toJson = 6 := by
  simp [EvidenceRef.toJson]

theorem shape_factKey (k : TaskFactKey) : Shape k.toJson 1 := by
  cases k with
  | node id => exact shape_obj ["kind", "id"] rfl (by decide) (by simp)
  | edge source label destination =>
    exact shape_obj ["kind", "source", "label", "destination"] rfl (by decide) (by simp)

theorem values_factKey (k : TaskFactKey) : values k.toJson ≤ 5 := by
  cases k <;> simp [TaskFactKey.toJson]

theorem shape_span (c : TaskCaptureSpanRef) : Shape c.toJson 2 := by
  refine shape_obj ["file", "byte_start", "byte_end"] rfl (by decide) ?_
  have hfile := shape_obj (l := [("source_id", .str c.file.sourceId), ("capture_id", .str c.file.captureId),
      ("path", .str c.file.path), ("digest", .str c.file.digest), ("byte_len", .nat c.file.byteLen)])
    (h := 0) ["source_id", "capture_id", "path", "digest", "byte_len"] rfl (by decide) (by simp)
  simp [hfile]

theorem values_span (c : TaskCaptureSpanRef) : values c.toJson = 9 := by
  simp [TaskCaptureSpanRef.toJson]

theorem shape_origin (o : InvestigationEvidenceOrigin) : Shape o.toJson 3 := by
  cases o with
  | graphMetadata | workingTreeUnverified => exact shape_obj ["kind"] rfl (by decide) (by simp)
  | capturedPrimarySource registeredSourceId receiptId receiptInventoryIndex captured =>
    exact shape_obj ["kind", "registered_source_id", "receipt_id", "receipt_inventory_index",
      "captured", "scope", "input_closure"] rfl (by decide) (by simp [shape_span])

theorem values_origin (o : InvestigationEvidenceOrigin) : values o.toJson ≤ 16 := by
  cases o <;> simp [InvestigationEvidenceOrigin.toJson, values_span]

theorem Shape.mono {h' : ℕ} (hs : Shape j h) (hle : h ≤ h') : Shape j h' :=
  ⟨hs.height.trans hle, hs.shaped⟩

theorem shape_citation (c : InvestigationCitation) : Shape c.toJson 4 := by
  have hfact := (shape_factKey c.fact).mono (show 1 ≤ 3 by omega)
  have hsource : Shape (.opt EvidenceRef.toJson c.source) 3 :=
    shape_opt fun e _ => (shape_evidenceRef e).mono (by omega)
  have hrole : Shape (.opt (fun r => .str (TaskRangeRole.text r)) c.role) 3 :=
    shape_opt fun r _ => shape_str _ 3
  refine shape_obj ["citation_id", "fact", "fact_digest", "source", "role", "index", "text_hash",
    "origin"] rfl (by decide) ?_
  simp [hfact, hsource, hrole, shape_origin]

theorem values_citation (c : InvestigationCitation) : values c.toJson ≤ 33 := by
  have hfact := values_factKey c.fact
  have hsource : values (.opt EvidenceRef.toJson c.source) ≤ 6 :=
    values_opt_le (by omega) fun e _ => (values_evidenceRef e).le
  have hrole : values (.opt (fun r => .str (TaskRangeRole.text r)) c.role) ≤ 1 :=
    values_opt_le le_rfl fun r _ => by simp
  have hindex : values (.opt .nat c.index) ≤ 1 := values_opt_le le_rfl fun r _ => by simp
  have hhash : values (.opt .str c.textHash) ≤ 1 := values_opt_le le_rfl fun r _ => by simp
  have horigin := values_origin c.origin
  simp only [InvestigationCitation.toJson, values_obj, List.map_cons, List.map_nil, List.sum_cons,
    List.sum_nil, values_str]
  omega

/-! ### Records -/

theorem shape_scope (s : InvestigationScope) : Shape s.toJson 1 := by
  cases s with
  | all => exact shape_obj ["type"] rfl (by decide) (by simp)
  | neighborhood anchor hops => exact shape_obj ["type", "anchor", "hops"] rfl (by decide) (by simp)

theorem values_scope (s : InvestigationScope) : values s.toJson ≤ 4 := by
  cases s <;> simp [InvestigationScope.toJson]

theorem shape_specialist {s : InvestigationSpecialist} (h : s.operations.length ≤ 128) :
    Shape s.toJson 2 := by
  have hoperations : Shape (.arr (s.operations.map .str)) 1 :=
    shape_arr h fun o _ => shape_str o 0
  refine shape_obj ["id", "name", "version", "prompt_fingerprint", "purpose", "operations", "tier",
    "confidence_tier"] rfl (by decide) ?_
  simp [hoperations]

theorem values_specialist (s : InvestigationSpecialist) :
    values s.toJson = 9 + s.operations.length := by
  have hone : ((s.operations.map Json.str).map values).sum = s.operations.length := by
    rw [List.map_map]
    induction s.operations with
    | nil => rfl
    | cons o rest ih => simp [ih, Nat.add_comm]
  simp only [InvestigationSpecialist.toJson, values_obj, List.map_cons, List.map_nil, List.sum_cons,
    List.sum_nil, values_str, values_nat, values_arr, hone]
  omega

theorem shape_provider (p : InvestigationProvider) : Shape p.toJson 1 := by
  cases hversion : p.protocolVersion with
  | none =>
    refine shape_obj ["mode", "provider_id", "model", "endpoint", "deployment", "available",
      "unavailable_reason"] ?_ (by decide) ?_ <;> simp [hversion]
  | some v =>
    refine shape_obj ["mode", "provider_id", "model", "endpoint", "deployment", "protocol_version",
      "available", "unavailable_reason"] ?_ (by decide) ?_ <;> simp [hversion]

theorem values_provider (p : InvestigationProvider) : values p.toJson ≤ 9 := by
  have hdeployment : values (.opt .str p.deployment) ≤ 1 := values_opt_le le_rfl fun _ _ => by simp
  have hreason : values (.opt .str p.unavailableReason) ≤ 1 :=
    values_opt_le le_rfl fun _ _ => by simp
  cases hversion : p.protocolVersion <;>
    simp only [InvestigationProvider.toJson, hversion, Option.toList_none, Option.toList_some,
      List.map_nil, List.map_cons, List.append_nil, List.cons_append, List.nil_append, values_obj,
      List.sum_cons, List.sum_nil, values_str, values_bool] <;> omega

theorem shape_limits (l : InvestigationLimits) : Shape l.toJson 1 :=
  shape_obj ["profile", "model_invocations", "tool_actions", "selected_facts", "evidence_requests",
    "evidence_items", "evidence_bytes", "captured_validation_bytes",
    "generated_tokens_per_invocation", "generated_token_reservations", "active_seconds",
    "consent_wait_seconds", "wall_seconds"] rfl (by decide) (by simp)

theorem values_limits (l : InvestigationLimits) : values l.toJson = 14 := by
  simp [InvestigationLimits.toJson]

@[simp] theorem shape_word (n : UInt64) (h : ℕ) : Shape (word n) h := shape_nat _ h

@[simp] theorem shape_opt_word (o : Option UInt64) (h : ℕ) : Shape (.opt word o) h :=
  shape_opt fun a _ => shape_word a h

theorem shape_usage (u : InvestigationUsage) : Shape u.toJson 1 :=
  shape_obj ["model_invocations", "tool_actions", "selected_facts", "evidence_requests",
    "evidence_items", "evidence_bytes", "captured_validation_bytes", "generated_token_reservations",
    "reported_input_tokens", "reported_output_tokens", "active_milliseconds"] rfl (by decide)
    (by simp)

theorem values_usage (u : InvestigationUsage) : values u.toJson ≤ 12 := by
  have hword : ∀ n, values (word n) = 1 := fun n => values_nat _
  have hinput : values (.opt word u.reportedInputTokens) ≤ 1 :=
    values_opt_le le_rfl fun n _ => (hword n).le
  have houtput : values (.opt word u.reportedOutputTokens) ≤ 1 :=
    values_opt_le le_rfl fun n _ => (hword n).le
  simp only [InvestigationUsage.toJson, values_obj, List.map_cons, List.map_nil, List.sum_cons,
    List.sum_nil, values_nat, hword]
  omega

theorem shape_summary_fields (s : InvestigationSummary) : ∀ f ∈ s.fields, Shape f.2 1 := by
  have hactions : Shape (.obj [("can_cancel", .bool s.actions.canCancel),
      ("can_follow_up", .bool s.actions.canFollowUp)]) 1 :=
    shape_obj ["can_cancel", "can_follow_up"] rfl (by decide) (by simp)
  simp [InvestigationSummary.fields, shape_scope, hactions]

theorem values_summary_fields (s : InvestigationSummary) :
    (s.fields.map fun f => values f.2).sum ≤ 24 := by
  have hscope := values_scope s.scope
  have hparent : values (.opt .str s.parentId) ≤ 1 := values_opt_le le_rfl fun _ _ => by simp
  have hgraph : values (.opt .str s.graphSnapshotId) ≤ 1 := values_opt_le le_rfl fun _ _ => by simp
  simp only [InvestigationSummary.fields, values_obj, List.map_cons, List.map_nil, List.sum_cons,
    List.sum_nil, values_nat, values_str, values_bool]
  linarith

theorem shape_detail (hoperations : d.specialist.operations.length ≤ 128)
    (hcitations : d.citations.length ≤ 128) : Shape d.toJson 6 := by
  have hsummary : ∀ f ∈ d.summary.fields, Shape f.2 5 := fun f hf =>
    (shape_summary_fields d.summary f hf).mono (by omega)
  have hspecialist := (shape_specialist hoperations).mono (show 2 ≤ 5 by omega)
  have hprovider := (shape_provider d.provider).mono (show 1 ≤ 5 by omega)
  have hlimits := (shape_limits d.limits).mono (show 1 ≤ 5 by omega)
  have husage := (shape_usage d.usage).mono (show 1 ≤ 5 by omega)
  have hcites : Shape (.arr (d.citations.map InvestigationCitation.toJson)) 5 :=
    shape_arr hcitations fun c _ => shape_citation c
  refine shape_obj ["schema_version", "investigation_id", "conversation_id", "parent_id", "job_id",
    "specialist_id", "question", "scope", "provider_mode", "status", "revision", "cancel_requested",
    "invocation_pending", "actions", "graph_snapshot_id", "last_event_sequence", "has_result",
    "created_at", "updated_at", "context_owner", "origin", "specialist", "provider",
    "scope_snapshot_id", "limits", "usage", "citations", "error"] rfl (by decide) ?_
  intro f hf
  rcases List.mem_append.mp hf with hf | hf
  · exact hsummary f hf
  · simp only [List.mem_cons, List.not_mem_nil, or_false] at hf
    rcases hf with rfl | rfl | rfl | rfl | rfl | rfl | rfl | rfl | rfl
    · exact shape_str _ 5
    · exact shape_str _ 5
    · exact hspecialist
    · exact hprovider
    · exact shape_opt_str _ 5
    · exact hlimits
    · exact husage
    · exact hcites
    · exact shape_opt_str _ 5

theorem values_detail (hoperations : d.specialist.operations.length ≤ 128)
    (hcitations : d.citations.length ≤ 128) : values d.toJson ≤ 5000 := by
  have hsummary := values_summary_fields d.summary
  have hspecialist := values_specialist d.specialist
  have hprovider := values_provider d.provider
  have hlimits := values_limits d.limits
  have husage := values_usage d.usage
  have hscope : values (.opt .str d.scopeSnapshotId) ≤ 1 := values_opt_le le_rfl fun _ _ => by simp
  have herror : values (.opt .str d.error) ≤ 1 := values_opt_le le_rfl fun _ _ => by simp
  have hcites : values (.arr (d.citations.map InvestigationCitation.toJson))
      ≤ 1 + d.citations.length * 33 := values_arr_le fun c _ => values_citation c
  rw [InvestigationDetail.toJson, values_obj, List.map_append, List.sum_append]
  simp only [List.map_cons, List.map_nil, List.sum_cons, List.sum_nil, values_str]
  linarith

theorem shape_step (s : PendingInvestigationStep) : Shape s.toJson 1 :=
  shape_obj ["step_id", "payload_hash", "input_ledger_hash", "input_bytes", "generated_tokens"] rfl
    (by decide) (by simp)

theorem values_step (s : PendingInvestigationStep) : values s.toJson = 6 := by
  simp [PendingInvestigationStep.toJson]

theorem shape_execution (e : StoredExecution) : Shape e.toJson 1 :=
  shape_obj ["namespace", "job_id", "generation", "owner"] rfl (by decide) (by simp)

theorem values_execution (e : StoredExecution) : values e.toJson = 5 := by
  simp [StoredExecution.toJson]

theorem decodable_task {t : StoredTask} (hoperations : t.detail.specialist.operations.length ≤ 128)
    (hcitations : t.detail.citations.length ≤ 128) (hsize : t.toJson.size ≤ MAX_RECORD_BYTES) :
    decodable t.toJson = true := by
  have hshape : Shape t.toJson 7 := by
    have hdetail := shape_detail hoperations hcitations
    have hexecution : Shape (.opt StoredExecution.toJson t.execution) 6 :=
      shape_opt fun e _ => (shape_execution e).mono (by omega)
    have hpending : Shape (.opt PendingInvestigationStep.toJson t.pending) 6 :=
      shape_opt fun s _ => (shape_step s).mono (by omega)
    have htool : Shape (.opt (fun x => .str (InvestigationTool.text x)) t.actionTool) 6 :=
      shape_opt fun x _ => shape_str _ 6
    refine shape_obj ["schema_version", "nonce", "intent_hash", "expected_graph_revision", "detail",
      "phase", "execution", "ledger_hash", "ledger_revision", "pending", "approved", "action_tool"]
      rfl (by decide) ?_
    simp [hdetail, hexecution, hpending, htool]
  have hvalues : values t.toJson ≤ 5100 := by
    have hdetail := values_detail hoperations hcitations
    have hexecution : values (.opt StoredExecution.toJson t.execution) ≤ 5 :=
      values_opt_le (by omega) fun e _ => (values_execution e).le
    have hpending : values (.opt PendingInvestigationStep.toJson t.pending) ≤ 6 :=
      values_opt_le (by omega) fun s _ => (values_step s).le
    have htool : values (.opt (fun x => .str (InvestigationTool.text x)) t.actionTool) ≤ 1 :=
      values_opt_le le_rfl fun x _ => by simp
    have hgraph : values (.opt .str t.expectedGraphRevision) ≤ 1 :=
      values_opt_le le_rfl fun _ _ => by simp
    have hhash : values (.opt .str t.ledgerHash) ≤ 1 := values_opt_le le_rfl fun _ _ => by simp
    have hrevision : values (.opt .nat t.ledgerRevision) ≤ 1 :=
      values_opt_le le_rfl fun _ _ => by simp
    simp only [StoredTask.toJson, values_obj, List.map_cons, List.map_nil, List.sum_cons,
      List.sum_nil, values_nat, values_str, values_bool]
    linarith
  exact decodable_of_shape hshape (by omega) hsize (hvalues.trans (by omega))

/-! ### Events -/

theorem shape_event (e : InvestigationEvent) : Shape e.toJson 1 := by
  have htool : Shape (.opt (fun t => .str (InvestigationTool.text t)) e.tool) 0 :=
    shape_opt fun t _ => shape_str _ 0
  refine shape_obj ["investigation_id", "sequence", "revision", "kind", "step_id", "tool", "summary",
    "created_at"] rfl (by decide) ?_
  simp [htool]

theorem decodable_event {e : InvestigationEvent} (hsize : e.toJson.size ≤ 16 * 1024) :
    decodable e.toJson = true := by
  have hstep : values (.opt .str e.stepId) ≤ 1 := values_opt_le le_rfl fun _ _ => by simp
  have htool : values (.opt (fun t => .str (InvestigationTool.text t)) e.tool) ≤ 1 :=
    values_opt_le le_rfl fun _ _ => by simp
  have hvalues : values e.toJson ≤ 9 := by
    simp only [InvestigationEvent.toJson, values_obj, List.map_cons, List.map_nil, List.sum_cons,
      List.sum_nil, values_nat, values_str]
    linarith
  refine decodable_of_shape (shape_event e) (by omega) (hsize.trans ?_) (hvalues.trans (by omega))
  decide

/-! ### Input ledgers -/

theorem shape_selection (f : TaskFactSelection) : Shape f.toJson 2 := by
  have hfact := shape_factKey f.fact
  have hbinding : Shape (.opt TaskSourceAssociation.toJson f.binding) 1 :=
    shape_opt fun b _ =>
      shape_obj ["repo_key", "receipt_id", "emitted_fact_digest"] rfl (by decide) (by simp)
  refine shape_obj ["fact", "fact_digest", "binding"] rfl (by decide) ?_
  simp [hfact, hbinding]

theorem values_selection (f : TaskFactSelection) : values f.toJson ≤ 11 := by
  have hfact := values_factKey f.fact
  have hbinding : values (.opt TaskSourceAssociation.toJson f.binding) ≤ 4 :=
    values_opt_le (by omega) fun b _ => by simp [TaskSourceAssociation.toJson]
  simp only [TaskFactSelection.toJson, values_obj, List.map_cons, List.map_nil, List.sum_cons,
    List.sum_nil, values_str]
  linarith

theorem shape_reference (r : InvestigationReceiptReference) : Shape r.toJson 1 :=
  shape_obj ["source_id", "repo_key", "receipt_id"] rfl (by decide) (by simp)

theorem values_reference (r : InvestigationReceiptReference) : values r.toJson = 4 := by
  simp [InvestigationReceiptReference.toJson]

theorem shape_query {q : InvestigationQuery} (hlabels : q.labels.length ≤ 128) :
    Shape q.toJson 2 := by
  have hscope := shape_scope q.scope
  have hkind : Shape (.opt (fun k => .str (InvestigationFactKind.text k)) q.kind) 1 :=
    shape_opt fun k _ => shape_str _ 1
  have harr : Shape (.arr (q.labels.map .str)) 1 := shape_arr hlabels fun l _ => shape_str l 0
  have hcursor : Shape (.opt InvestigationQueryCursor.toJson q.cursor) 1 :=
    shape_opt fun c _ => shape_obj ["snapshot_id", "selection_id", "offset"] rfl (by decide) (by simp)
  refine shape_obj ["scope", "kind", "labels", "max_facts", "max_bytes", "cursor"] rfl (by decide) ?_
  simp [hscope, hkind, harr, hcursor]

theorem values_query {q : InvestigationQuery} (hlabels : q.labels.length ≤ 128) :
    values q.toJson ≤ 150 := by
  have hscope := values_scope q.scope
  have hkind : values (.opt (fun k => .str (InvestigationFactKind.text k)) q.kind) ≤ 1 :=
    values_opt_le le_rfl fun _ _ => by simp
  have harr : values (.arr (q.labels.map .str)) ≤ 1 + q.labels.length * 1 :=
    values_arr_le fun l _ => by simp
  have hcursor : values (.opt InvestigationQueryCursor.toJson q.cursor) ≤ 4 :=
    values_opt_le (by omega) fun c _ => by simp [InvestigationQueryCursor.toJson]
  simp only [InvestigationQuery.toJson, values_obj, List.map_cons, List.map_nil, List.sum_cons,
    List.sum_nil, values_nat]
  linarith

theorem shape_manifest (hlabels : q.query.labels.length ≤ 128) :
    Shape q.toJson 3 := by
  have hquery := shape_query hlabels
  refine shape_obj ["query", "response_hash", "response_bytes", "returned_facts", "total_selected",
    "has_more"] rfl (by decide) ?_
  simp [hquery]

theorem values_manifest (hlabels : q.query.labels.length ≤ 128) :
    values q.toJson ≤ 156 := by
  have hquery := values_query hlabels
  simp only [InvestigationQueryManifest.toJson, values_obj, List.map_cons, List.map_nil,
    List.sum_cons, List.sum_nil, values_nat, values_str, values_bool]
  linarith

theorem queriesValid_labels {scope : String} {l : List InvestigationQueryManifest}
    (h : queriesValid scope l = .ok ()) : ∀ q ∈ l, q.query.labels.length ≤ 128 := by
  induction l with
  | nil => simp
  | cons q rest ih =>
    simp only [queriesValid, InvestigationQuery.validate, bind_eq_ok, ensure_eq_ok] at h
    obtain ⟨⟨⟩, ⟨⟨⟩, -, ⟨⟩, ⟨-, -, -, -, hlabels, -⟩, -⟩, ⟨⟩, -, hrest⟩ := h
    exact List.forall_mem_cons.mpr ⟨hlabels.trans (by omega), ih hrest⟩

theorem decodable_ledger {l : InvestigationInputLedger} (h : l.validate = .ok ()) :
    decodable l.toJson = true := by
  simp only [InvestigationInputLedger.validate, bind_eq_ok, ensure_eq_ok] at h
  obtain ⟨⟨⟩, ⟨-, -, -, hfacts, hreceipts, hqueries, hcitations, -⟩, ⟨⟩, -, ⟨⟩, -, ⟨⟩, -, ⟨⟩, -, ⟨⟩, -,
    ⟨⟩, hvalid, ⟨⟩, -, hsize⟩ := h
  have hlabels := queriesValid_labels hvalid
  simp only [MAX_SELECTED_FACTS, MAX_TOOL_ACTIONS] at hfacts hreceipts hqueries hcitations
  have hshape : Shape l.toJson 6 := by
    have h1 : Shape (.arr (l.selectedFacts.map TaskFactSelection.toJson)) 5 :=
      shape_arr (by omega) fun f _ => (shape_selection f).mono (by omega)
    have h2 : Shape (.arr (l.receiptReferences.map InvestigationReceiptReference.toJson)) 5 :=
      shape_arr (by omega) fun r _ => (shape_reference r).mono (by omega)
    have h3 : Shape (.arr (l.citations.map InvestigationCitation.toJson)) 5 :=
      shape_arr (by omega) fun c _ => shape_citation c
    have h4 : Shape (.arr (l.queries.map InvestigationQueryManifest.toJson)) 5 :=
      shape_arr (by omega) fun q hq => (shape_manifest (hlabels q hq)).mono (by omega)
    refine shape_obj ["schema_version", "graph_snapshot_id", "scope_snapshot_id", "revision",
      "selected_facts", "receipt_references", "citations", "queries", "supplied_history_hash",
      "supplied_history_bytes"] rfl (by decide) ?_
    simp [h1, h2, h3, h4]
  have hvalues : values l.toJson ≤ 5000 := by
    have h1 : values (.arr (l.selectedFacts.map TaskFactSelection.toJson))
        ≤ 1 + l.selectedFacts.length * 11 := values_arr_le fun f _ => values_selection f
    have h2 : values (.arr (l.receiptReferences.map InvestigationReceiptReference.toJson))
        ≤ 1 + l.receiptReferences.length * 4 := values_arr_le fun r _ => (values_reference r).le
    have h3 : values (.arr (l.citations.map InvestigationCitation.toJson))
        ≤ 1 + l.citations.length * 33 := values_arr_le fun c _ => values_citation c
    have h4 : values (.arr (l.queries.map InvestigationQueryManifest.toJson))
        ≤ 1 + l.queries.length * 156 := values_arr_le fun q hq => values_manifest (hlabels q hq)
    have h5 : values (.opt .str l.suppliedHistoryHash) ≤ 1 :=
      values_opt_le le_rfl fun _ _ => by simp
    simp only [InvestigationInputLedger.toJson, values_obj, List.map_cons, List.map_nil,
      List.sum_cons, List.sum_nil, values_nat, values_str]
    linarith
  refine decodable_of_shape hshape (by omega) (hsize.trans ?_) (hvalues.trans (by omega))
  decide

end Investigation

/-
Every stored task loads.

Reading a task back repeats the checks that were made when it was written, compares
the columns of its row with the record, and decodes the record.

* `Sound` — what the row of a task satisfies after every operation;
* `Sound.loadTask` — such a row loads;
* `steps_sound` — every row of a run is sound, the rows of ended tasks included.
-/
import Cartograph.Investigation.Shapes
import Cartograph.Jobs.Accounting

namespace Jobs

open Investigation Checked

/-! ### The store of a run -/

variable {env : Env} {s s' : Store} {op : Op} {tr : List Event} {id : String} {row : TaskRow}

theorem Effect.ns {a : Answer} (h : Effect env s op a s') :
    s'.ns = s.ns := by
  cases h with
  | start _ _ _ _ _ _ _ _ _ _ _ _ hstarts => exact hstarts.ns
  | attach _ _ _ _ _ _ _ _ _ _ _ hmoves | cancelJobTask _ _ _ _ _ _ _ _ _ hmoves
  | moved _ _ _ _ _ _ hmoves =>
    obtain ⟨_, _, _, -, -, -, -, rfl⟩ := hmoves
    rfl
  | idle | enqueue | claim | update | interrupt | cancelJob | clear | cancelled => rfl

theorem step_ns {out : Except Failure Answer} (h : s.step env op = (s', out)) : s'.ns = s.ns := by
  rcases step_cases h with ⟨_, -, rfl⟩ | ⟨a, -, heffect⟩
  · rfl
  · exact heffect.ns

theorem steps_ns (h : (machine env).Steps s tr s') :
    s'.ns = s.ns := by
  induction h with
  | refl => rfl
  | snoc _ _ hst ih => exact (step_ns hst).trans ih

/-! ### Revisions -/

variable {action : Action} {ns : ExecutionNamespace} {s₀ : Store}

theorem Move.revision {clock : Clock} {d d' : Draft} (h : Move env clock d action d') :
    d'.task.detail.summary.revision + d.sequence ≤ d.task.detail.summary.revision + d'.sequence := by
  cases h with
  | actionAdmitted | finished =>
    show d.task.detail.summary.revision + 1 + d.sequence
      ≤ d.task.detail.summary.revision + (d.sequence + 1 + 1)
    omega
  | attach | inputPrepared | inputAdmitted | awaitConsent | beginInvocation | beginTool
  | chargeEvidence | stopWithElapsed | approve | decline | cancel | recover =>
    show d.task.detail.summary.revision + 1 + d.sequence
      ≤ d.task.detail.summary.revision + (d.sequence + 1)
    omega

/-! ### Sound rows -/

/-- A row whose record is valid and bounded, and whose columns say what the record says. -/
structure Sound (env : Env) (ns : ExecutionNamespace) (id : String) (row : TaskRow) : Prop where
  valid : ValidTask env row.record
  size : row.record.toJson.size ≤ MAX_RECORD_BYTES
  order : row.record.detail.summary.revision ≤ row.record.detail.summary.lastEventSequence
  investigationId : row.record.detail.summary.investigationId = id
  revision : row.record.detail.summary.revision = row.revision
  live : row.live = true ↔ row.record.phase ≠ .terminal
  jobId : row.record.detail.summary.jobId = row.jobId
  nonce : row.record.nonce = row.nonce
  conversationId : row.record.detail.summary.conversationId = row.conversationId
  owner : row.record.detail.contextOwner = ns.value.text

theorem idValid_size {value : String} (h : idValid value = true) : value.utf8ByteSize ≤ 128 := by
  simp only [idValid, Bool.and_eq_true, decide_eq_true_eq] at h
  exact (Json.length_utf8 value) ▸ h.1.2

theorem Sound.decodable {env : Env} {ns : ExecutionNamespace} {id : String} {row : TaskRow}
    (h : Sound env ns id row) : decodable row.record.toJson = true := by
  obtain ⟨-, -, -, -, -, -, -, -, -, hspecialist, -, -, -, -, -, -, -, -, -, hcitations, -⟩ :=
    h.valid.fields
  refine decodable_task ?_ (hcitations.trans (by omega)) h.size
  rw [hspecialist]
  show 3 ≤ 128
  omega

theorem Sound.revision_le (h : Sound env ns id row) :
    row.record.detail.summary.revision ≤ MAX_EVENTS := by
  obtain ⟨-, -, -, -, -, -, -, -, -, -, -, -, -, hsequence, -⟩ := h.valid.fields
  exact h.order.trans hsequence

theorem Sound.loadTask (h : Sound env s.ns id row) (hrow : s.tasks.find? id = some row) :
    s.loadTask env id = .ok row := by
  obtain ⟨-, -, hid, hconversation, hnonce, -⟩ := h.valid.fields
  have hrevision := h.revision_le
  simp only [Store.loadTask, signed, bind_eq_ok, ensure_eq_ok, orFail_eq_ok, pure_eq_ok]
  refine ⟨(), h.investigationId ▸ hid, row, hrow, (), ⟨?_, ?_, h.decodable⟩, (),
    validateTask_eq_ok.mpr h.valid, (), hrevision.trans (by decide), (),
    ⟨h.investigationId, h.revision, h.live, h.jobId, h.nonce, h.conversationId, h.owner⟩, rfl⟩
  · exact h.nonce ▸ idValid_size hnonce
  · exact h.conversationId ▸ idValid_size hconversation

/-! ### Along a run -/

theorem Sound.moved {row' : TaskRow} (h : Sound env ns id row)
    (hmoves : RowMoves env row action row') :
    Sound env ns id row' := by
  obtain ⟨clock, jobs, d, _, hmove, hsavable, -, rfl⟩ := hmoves
  have hfixed : fixed d.task = fixed row.record := hmove.fixed
  have horder := h.order
  have hrevision := hmove.revision
  refine ⟨validateTask_eq_ok.mp hsavable.valid, hsavable.record, ?_, ?_, rfl, ?_, ?_, ?_, ?_, ?_⟩
  · show d.task.detail.summary.revision ≤ d.sequence
    have hbefore : (row.draft jobs).task.detail.summary.revision ≤ (row.draft jobs).sequence :=
      horder
    omega
  · exact (congrArg Fixed.investigationId hfixed).trans h.investigationId
  · simp [TaskRow.saved]
  · exact (congrArg Fixed.jobId hfixed).trans h.jobId
  · exact (congrArg Fixed.nonce hfixed).trans h.nonce
  · exact (congrArg Fixed.conversationId hfixed).trans h.conversationId
  · exact (congrArg Fixed.contextOwner hfixed).trans h.owner

theorem Sound.started (h : RowStarts env s op id row) : Sound env s.ns id row := by
  obtain ⟨clock, request, offered, conversation, investigation, provider, intentHash, -, -, -, rfl,
    hsavable, rfl⟩ := h
  refine ⟨validateTask_eq_ok.mp hsavable.valid, hsavable.record, Nat.zero_le _, rfl, rfl, ?_, rfl,
    rfl, rfl, rfl⟩
  simp [TaskRow.saved]

theorem steps_sound (h : (machine env).Steps s₀ tr s) (h0 : s₀.Initial) :
    ∀ id row, s.tasks.find? id = some row → Sound env s.ns id row := by
  induction h with
  | refl =>
    intro id row hrow
    rw [h0.2.2.1] at hrow
    exact absurd hrow (by simp)
  | snoc _ _ hst ih =>
    intro id row' hrow'
    rw [step_ns hst]
    rcases step_row hst hrow' with hrow | ⟨row, action, hrow, -, hmoves⟩ | ⟨-, hstarts⟩
    · exact ih id row' hrow
    · exact (ih id row hrow).moved hmoves
    · exact .started hstarts

theorem steps_loadTask (h : (machine env).Steps s₀ tr s) (h0 : s₀.Initial)
    (hrow : s.tasks.find? id = some row) :
    s.loadTask env id = .ok row :=
  (steps_sound h h0 id row hrow).loadTask hrow

end Jobs

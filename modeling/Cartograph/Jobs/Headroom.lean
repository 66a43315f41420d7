/-
Room to end a task.

A task is ended by a cancellation, a stop of its worker or a recovery, and each of them
writes the record again.  What a task leaves free is decided when it is created: `spare`
counts the bytes of its summary up to the limit.

* `Paced` — revisions and event numbers by phase, in every state;
* `Headroom` — and what else of a task is bounded while it is live;
* `HasRoom` — the summaries that leave enough for every ending;
* `always_endable` — along runs that create only such tasks, no ending is refused for
  want of capacity.
-/
import Cartograph.Jobs.Sizes

namespace Jobs

open Investigation Checked
open Json (strSize nat size_nat_pos size_nat_le opt bool size_false arr)

/-! ### What a refusal means -/

section

variable {env : Env}

theorem validateProvider_ne_capacity {p : InvestigationProvider} :
    validateProvider env p ≠ .error .capacity := by
  intro h
  simp only [validateProvider, bind_eq_error, ensure_eq_error] at h
  rcases h with ⟨-, h⟩ | ⟨_, -, -, h⟩
  · exact absurd h (by simp)
  · exact absurd h (by simp)

theorem validatePending_ne_capacity {step : Option PendingInvestigationStep} :
    validatePending step ≠ .error .capacity := by
  intro h
  cases step with
  | none => exact pure_ne_error h
  | some step =>
    rw [validatePending, validateStep, ensure_eq_error] at h
    exact absurd h.2 (by simp)

variable {t : StoredTask}

theorem validateTask_ne_capacity (husage : validateUsage t.detail.usage t.detail.limits = .ok ())
    (hsummary : t.detail.summary.toJson.size ≤ 4096) :
    validateTask env t ≠ .error .capacity := by
  intro h
  simp only [validateTask, encode, bind_eq_error, ensure_eq_error] at h
  rcases h with ⟨-, h⟩ | ⟨_, -, h | ⟨_, -, h | ⟨_, -, h | ⟨_, -, ⟨-, h⟩ | ⟨_, -, ⟨-, h⟩ | ⟨_, -, h |
    ⟨_, -, ⟨-, h⟩ | ⟨_, -, h, -⟩⟩⟩⟩⟩⟩⟩⟩
  · exact absurd h (by simp)
  · exact absurd (admitted_eq_error h) (by simp)
  · exact validateProvider_ne_capacity h
  · rw [husage] at h
    exact absurd h (by simp)
  · exact absurd h (by simp)
  · exact absurd h (by simp)
  · exact validatePending_ne_capacity h
  · exact absurd h (by simp)
  · exact h hsummary

variable {clock : Clock} {d : Draft} {step : Option String} {tool : Option InvestigationTool}
  {summary id : String} {row : TaskRow} {revision sequence : ℕ} {action : Action}
  {kind : InvestigationEventKind}

theorem note_ne_capacity
    (hrevision : d.task.detail.summary.revision + 1 < 2 ^ 64)
    (hsequence : d.sequence + 1 ≤ eventMaximum d.task.phase kind)
    (hsize : ((d.task.bumped (clock 0)).eventRow (clock 1) kind step tool summary).toJson.size
      ≤ 16 * 1024) :
    note clock d kind step tool summary ≠ .error .capacity := by
  intro h
  simp only [note, bump, event, encode, bind_eq_error, bind_eq_ok, ensure_eq_error, ensure_eq_ok,
    pure_eq_ok] at h
  rcases h with (⟨h, -⟩ | ⟨_, -, h⟩) | ⟨_, ⟨_, -, rfl⟩, ⟨h, -⟩ | ⟨_, -, ⟨h, -⟩ | ⟨_, -, ⟨-, h⟩ |
    ⟨_, -, h⟩⟩⟩⟩
  · exact h hrevision
  · exact pure_ne_error h
  · exact h hsequence
  · exact h hsize
  · exact absurd h (by simp)
  · exact pure_ne_error h

variable {s : Store}

theorem loadTask_ne_capacity (h : ∀ row, s.tasks.find? id = some row → ValidTask env row.record) :
    s.loadTask env id ≠ .error .capacity := by
  intro hload
  rcases loadTask_error hload with h' | h' | ⟨row, hrow, herror⟩
  · exact absurd h' (by simp)
  · exact absurd h' (by simp)
  · rw [validateTask_eq_ok.mpr (h row hrow)] at herror
    exact absurd herror (by simp)

/-- What a draft must leave room for to be saved. -/
structure Fits (env : Env) (d : Draft) (row : TaskRow) : Prop where
  usage : validateUsage d.task.detail.usage d.task.detail.limits = .ok ()
  summary : d.task.detail.summary.toJson.size ≤ 4096
  record : ValidTask env d.task → d.task.toJson.size ≤ MAX_RECORD_BYTES
  total : ValidTask env d.task →
    (row.saved d).bytes d.task.detail.summary.investigationId ≤ TASK_CAPACITY

theorem saveTask_ne_capacity (hrow : s.tasks.find? d.task.detail.summary.investigationId = some row)
    (h : Fits env d row) :
    s.saveTask env d revision true ≠ .error .capacity := by
  intro hsave
  simp only [Store.saveTask, encode, signed, checkTaskCapacity, bind_eq_error, ensure_eq_error,
    orFail_eq_error, orFail_eq_ok] at hsave
  rcases hsave with hv | ⟨⟨⟩, hv, ⟨hr, -⟩ | ⟨_, -, ⟨-, he⟩ | ⟨_, -, ⟨-, he⟩ | ⟨_, -, ⟨-, he⟩ |
    ⟨row', hrow', ⟨-, he⟩ | ⟨_, -, ⟨hb, -⟩ | ⟨_, -, he⟩⟩⟩⟩⟩⟩⟩
  · exact validateTask_ne_capacity h.usage h.summary hv
  · exact hr (h.record (validateTask_eq_ok.mp hv))
  · exact absurd he (by simp)
  · exact absurd he (by simp)
  · exact absurd he (by simp)
  · exact absurd he (by simp)
  · rw [hrow, Option.some_inj] at hrow'
    subst hrow'
    exact hb (h.total (validateTask_eq_ok.mp hv))
  · exact pure_ne_error he

/-! ### Revisions and event numbers by phase -/

/-- The bytes the first summary leaves free. -/
def spare (s : InvestigationSummary) : ℕ := 4096 - s.toJson.size

def Fixed.spare (f : Fixed) : ℕ := Jobs.spare f.summary

/-- One for a requested cancellation, which takes a revision and an event number. -/
def extra (t : StoredTask) : ℕ := if t.detail.summary.cancelRequested then 1 else 0

def At (t : StoredTask) (revision sequence : ℕ) : Prop :=
  t.detail.summary.revision = revision + extra t
    ∧ t.detail.summary.lastEventSequence = sequence + extra t

/-- Not yet prepared: no snapshot is recorded. -/
def unprepared (t : StoredTask) : Bool := t.phase == .queued || t.phase == .preparing

/-- How far a cloud task gets with `room` bytes, at most 83: a second consent would not fit
any more. -/
def Slow (room : ℕ) (t : StoredTask) : Prop :=
  match t.phase with
  | .ready => At t 2 3 ∨ 10 ≤ t.detail.summary.lastEventSequence ∧ 83 ≤ room
  | .consent => 83 ≤ room ∧ if t.approved then At t 4 5 else At t 3 4
  | .invocation => 83 ≤ room ∧ At t 5 6
  | .action => 83 ≤ room ∧ 8 ≤ t.detail.summary.lastEventSequence
  | .tool => 83 ≤ room ∧ 9 ≤ t.detail.summary.lastEventSequence
  | _ => True

structure Paced (t : StoredTask) : Prop where
  order : t.detail.summary.revision + 1 ≤ t.detail.summary.lastEventSequence
  bound : t.detail.summary.lastEventSequence ≤ 93 + extra t
  createdAt : strSize t.detail.summary.createdAt = 22
  updatedAt : strSize t.detail.summary.updatedAt = 22
  queued : t.phase = .queued → At t 0 1 ∧ t.detail.summary.cancelRequested = false
  preparing : t.phase = .preparing → At t 1 2
  early : unprepared t = true → t.detail.summary.graphSnapshotId = none
  later : unprepared t = false →
    74 ≤ (fixed t).spare ∧ t.detail.summary.graphSnapshotId.any contextHash = true
  slow : t.detail.provider.mode = .cloud → (fixed t).spare ≤ 83 → Slow (fixed t).spare t

/-- The digits of the two counters. -/
def digits (revision sequence : ℕ) : ℕ := (nat revision).size + (nat sequence).size

theorem two_le_digits (revision sequence : ℕ) : 2 ≤ digits revision sequence := by
  have h1 := size_nat_pos revision
  have h2 := size_nat_pos sequence
  rw [digits]
  omega

theorem digits_small (h1 : revision < 10) (h2 : sequence < 10) :
    digits revision sequence = 2 := by
  have h3 : (nat revision).size ≤ 1 := size_nat_le (by omega) (by omega)
  have h4 : (nat sequence).size ≤ 1 := size_nat_le (by omega) (by omega)
  have h5 := two_le_digits revision sequence
  rw [digits] at h5 ⊢
  omega

theorem digits_le (h1 : revision < 100) (h2 : sequence < 100) :
    digits revision sequence ≤ 4 := by
  have h3 : (nat revision).size ≤ 2 := size_nat_le (by omega) (by omega)
  have h4 : (nat sequence).size ≤ 2 := size_nat_le (by omega) (by omega)
  rw [digits]
  omega

theorem three_le_digits (h : 10 ≤ sequence) :
    3 ≤ digits revision sequence := by
  have h1 := size_nat_pos revision
  have h2 : ¬ (nat sequence).size ≤ 1 := by
    rw [Json.size_nat_le_iff (by omega)]
    omega
  rw [digits]
  omega

/-- What the members that change cost in a live phase, without the two counters. -/
def liveCost : Phase → ℕ
  | .queued => 53
  | .preparing => 56
  | .ready | .action | .tool => 127
  | .consent => 136
  | .invocation => 126
  | .terminal => 0

theorem size_snapshot {o : Option String} (h : o.any contextHash = true) :
    (opt .str o).size = 77 := by
  obtain ⟨g, rfl, hg⟩ := (Option.any_eq_true _ _).mp h
  rw [opt, Json.size_str, strSize_contextHash hg]

theorem Paced.snapshot (hp : Paced t) :
    (opt .str t.detail.summary.graphSnapshotId).size = if unprepared t then 4 else 77 := by
  cases he : unprepared t with
  | true =>
    rw [hp.early he]
    rfl
  | false => exact size_snapshot (hp.later he).2

theorem size_flags {b b' : Bool} (h : b' = !b) : (bool b).size + (bool b').size = 9 := by
  subst h
  cases b <;> simp

theorem ValidTask.status_cost (hv : ValidTask env t) (hlive : t.phase ≠ .terminal) :
    strSize t.detail.summary.status.text + (if unprepared t then 4 else 77)
      + (bool (decide (t.phase = .invocation))).size + 36 = liveCost t.phase := by
  have hstatus := hv.status
  unfold validStatus at hstatus
  unfold unprepared
  cases hphase : t.phase <;> simp only [hphase, Bool.and_eq_true, beq_iff_eq] at hstatus
  case terminal => exact absurd hphase hlive
  all_goals simp_all only
  all_goals decide

theorem ValidTask.no_result (hv : ValidTask env t) (hlive : t.phase ≠ .terminal) :
    t.detail.summary.hasResult = false:= by
  have hstatus := hv.status
  have hresult := hv.result
  unfold validStatus at hstatus
  cases hphase : t.phase <;> simp_all

theorem cost_live (hv : ValidTask env t)
    (hlive : t.phase ≠ .terminal)
    (hsnapshot : (opt .str t.detail.summary.graphSnapshotId).size
      = if unprepared t then 4 else 77)
    (hupdated : strSize t.detail.summary.updatedAt = 22) :
    cost t.detail.summary = liveCost t.phase
      + digits t.detail.summary.revision t.detail.summary.lastEventSequence := by
  obtain ⟨-, -, -, -, -, -, -, -, -, -, -, -, -, -, hcan, -, hpending, -⟩ := hv.fields
  have hflags : (bool t.detail.summary.cancelRequested).size
      + (bool t.detail.summary.actions.canCancel).size = 9 := by
    refine size_flags ?_
    cases hc : t.detail.summary.cancelRequested <;> simp_all
  have hinvocation : t.detail.summary.invocationPending = decide (t.phase = .invocation) := by
    cases hi : t.detail.summary.invocationPending <;> simp_all
  rw [cost, digits, hsnapshot, hupdated, hv.no_result hlive, hinvocation, ← hv.status_cost hlive,
    size_false]
  omega

theorem cost_first {f : Fixed} (h : strSize f.createdAt = 22) : cost f.summary = 55 := by
  have hqueued : strSize InvestigationStatus.queued.text = 8 := by decide
  have hzero : (nat 0).size = 1 := by decide
  rw [cost]
  simp only [Fixed.summary, hqueued, hzero, h, Json.size_true, size_false, opt,
    Json.size_null]

theorem ValidTask.cost_le (hv : ValidTask env t)
    (hcreated : strSize t.detail.summary.createdAt = 22) :
    cost t.detail.summary ≤ 55 + (fixed t).spare := by
  have hsize := size_summary t
  have hsummary := hv.summary
  rw [cost_first (f := fixed t) hcreated] at hsize
  rw [Fixed.spare, spare]
  omega

theorem summary_fits (hcreated : strSize t.detail.summary.createdAt = 22)
    (hspare : 0 < (fixed t).spare) (hcost : cost t.detail.summary ≤ 55 + (fixed t).spare) :
    t.detail.summary.toJson.size ≤ 4096 := by
  have hsize := size_summary t
  rw [cost_first (f := fixed t) hcreated] at hsize
  rw [Fixed.spare, spare] at hspare hcost
  omega

theorem ValidTask.spare_le (hv : ValidTask env t) (hlive : t.phase ≠ .terminal)
    (hlater : unprepared t = false)
    (hsnapshot : t.detail.summary.graphSnapshotId.any contextHash = true)
    (hcreated : strSize t.detail.summary.createdAt = 22)
    (hupdated : strSize t.detail.summary.updatedAt = 22) :
    liveCost t.phase + digits t.detail.summary.revision t.detail.summary.lastEventSequence
      ≤ 55 + (fixed t).spare := by
  have hsize := size_snapshot hsnapshot
  rw [← cost_live hv hlive (by rw [hsize, hlater]; rfl) hupdated]
  exact hv.cost_le hcreated

/-! ### The pace of a move -/

variable {t t' : StoredTask}

theorem Paced.next (hp : Paced t) (hfixed : fixed t' = fixed t)
    (hrevision : t'.detail.summary.revision = t.detail.summary.revision + 1)
    (hsequence : t.detail.summary.lastEventSequence + 1 ≤ t'.detail.summary.lastEventSequence)
    (hbound : t'.detail.summary.lastEventSequence ≤ 93)
    (hupdated : strSize t'.detail.summary.updatedAt = 22) (hlater : unprepared t' = false)
    (hsnapshot : t'.detail.summary.graphSnapshotId.any contextHash = true)
    (hspare : 74 ≤ (fixed t).spare)
    (hslow : t.detail.provider.mode = .cloud → (fixed t).spare ≤ 83 → Slow (fixed t).spare t') :
    Paced t' := by
  have horder := hp.order
  have hcreated : t'.detail.summary.createdAt = t.detail.summary.createdAt :=
    congrArg Fixed.createdAt hfixed
  have hprovider : t'.detail.provider = t.detail.provider := congrArg Fixed.provider hfixed
  simp only [unprepared, Bool.or_eq_false_iff, beq_eq_false_iff_ne] at hlater
  refine ⟨?_, ?_, ?_, hupdated, fun h => absurd h hlater.1, fun h => absurd h hlater.2, ?_, ?_, ?_⟩
  · omega
  · omega
  · rw [hcreated]
    exact hp.createdAt
  · intro h
    simp only [unprepared, Bool.or_eq_true, beq_iff_eq] at h
    rcases h with h | h
    · exact absurd h hlater.1
    · exact absurd h hlater.2
  · intro _
    rw [hfixed]
    exact ⟨hspare, hsnapshot⟩
  · intro hmode hle
    rw [hprovider] at hmode
    rw [hfixed] at hle ⊢
    exact hslow hmode hle

theorem At.next {revision sequence : ℕ} (h : At t revision sequence)
    (hcancel : t'.detail.summary.cancelRequested = t.detail.summary.cancelRequested)
    (hrevision : t'.detail.summary.revision = t.detail.summary.revision + 1)
    (hsequence : t'.detail.summary.lastEventSequence = t.detail.summary.lastEventSequence + 1) :
    At t' (revision + 1) (sequence + 1) := by
  have hextra : extra t' = extra t := by rw [extra, extra, hcancel]
  obtain ⟨h1, h2⟩ := h
  rw [At, hextra]
  omega

theorem At.cancelled (h : At t revision sequence)
    (hbefore : t.detail.summary.cancelRequested = false)
    (hcancel : t'.detail.summary.cancelRequested = true)
    (hrevision : t'.detail.summary.revision = t.detail.summary.revision + 1)
    (hsequence : t'.detail.summary.lastEventSequence = t.detail.summary.lastEventSequence + 1) :
    At t' revision sequence := by
  have hextra : extra t = 0 := by simp [extra, hbefore]
  have hextra' : extra t' = 1 := by simp [extra, hcancel]
  obtain ⟨h1, h2⟩ := h
  rw [At, hextra']
  omega

theorem unprepared_eq_false (h1 : t.phase ≠ .queued) (h2 : t.phase ≠ .preparing) :
    unprepared t = false := by
  simp [unprepared, h1, h2]

variable {ledger : InvestigationInputLedger}

theorem validate_snapshots (h : ledger.validate = .ok ()) :
    contextHash ledger.graphSnapshotId = true ∧ contextHash ledger.scopeSnapshotId = true := by
  simp only [InvestigationInputLedger.validate, bind_eq_ok, ensure_eq_ok] at h
  obtain ⟨_, ⟨-, hgraph, hscope, -⟩, -⟩ := h
  exact ⟨hgraph, hscope⟩

theorem MAX_EVENTS_eq : MAX_EVENTS = 96 := rfl

theorem Paced.cancelled (hp : Paced t) (hfixed : fixed t' = fixed t)
    (hbefore : t.detail.summary.cancelRequested = false)
    (hcancel : t'.detail.summary.cancelRequested = true) (hphase : t'.phase = t.phase)
    (hqueued : t.phase ≠ .queued) (happroved : t'.approved = t.approved)
    (hrevision : t'.detail.summary.revision = t.detail.summary.revision + 1)
    (hsequence : t'.detail.summary.lastEventSequence = t.detail.summary.lastEventSequence + 1)
    (hsnapshot : t'.detail.summary.graphSnapshotId = t.detail.summary.graphSnapshotId)
    (hupdated : strSize t'.detail.summary.updatedAt = 22) : Paced t' := by
  have horder := hp.order
  have hbound := hp.bound
  -- the event of the cancellation is the one that `extra` allows for
  have hextra : extra t = 0 := by simp [extra, hbefore]
  have hextra' : extra t' = 1 := by simp [extra, hcancel]
  have hunprepared : unprepared t' = unprepared t := by rw [unprepared, unprepared, hphase]
  have hcreated : t'.detail.summary.createdAt = t.detail.summary.createdAt :=
    congrArg Fixed.createdAt hfixed
  have hprovider : t'.detail.provider = t.detail.provider := congrArg Fixed.provider hfixed
  have hat : ∀ a b, At t a b → At t' a b := fun a b h =>
    h.cancelled hbefore hcancel hrevision hsequence
  refine ⟨?_, ?_, ?_, hupdated, ?_, ?_, ?_, ?_, ?_⟩
  · omega
  · omega
  · rw [hcreated]
    exact hp.createdAt
  · intro h
    exact absurd (hphase.symm.trans h) hqueued
  · intro h
    exact hat 1 2 (hp.preparing (hphase.symm.trans h))
  · intro h
    rw [hsnapshot]
    exact hp.early (hunprepared.symm.trans h)
  · intro h
    rw [hfixed, hsnapshot]
    exact hp.later (hunprepared.symm.trans h)
  · intro hmode hle
    rw [hprovider] at hmode
    rw [hfixed] at hle ⊢
    have hslow := hp.slow hmode hle
    -- the phase stays, so each bound is the one before, moved by one
    rw [Slow, hphase, happroved]
    unfold Slow at hslow
    cases hp' : t.phase with
    | ready =>
      simp only [hp'] at hslow ⊢
      rcases hslow with hfirst | ⟨hlong, hroom⟩
      · exact .inl (hat 2 3 hfirst)
      · exact .inr ⟨by omega, hroom⟩
    | consent =>
      simp only [hp'] at hslow ⊢
      refine ⟨hslow.1, ?_⟩
      have hstep := hslow.2
      split_ifs at hstep ⊢
      · exact hat 4 5 hstep
      · exact hat 3 4 hstep
    | invocation =>
      simp only [hp'] at hslow ⊢
      exact ⟨hslow.1, hat 5 6 hslow.2⟩
    | action | tool =>
      simp only [hp'] at hslow ⊢
      omega
    | queued | preparing | terminal => trivial

theorem Move.paced {d' : Draft} (h : Move env clock d action d') (hp : Paced d.task)
    (hlive : d'.task.phase ≠ .terminal) (hv' : ValidTask env d'.task) : Paced d'.task := by
  have hfixed := h.fixed
  have hlater (hqueued) (hpreparing) := hp.later (unprepared_eq_false hqueued hpreparing)
  cases h with
  | attach identity hphase _ hcancel hseq =>
    have hqueued := (hp.queued hphase).1
    have horder := hp.order
    -- nothing is prepared yet: only the counters are bounded
    refine ⟨?_, ?_, hp.createdAt, strSize_timestamp _, ?_, ?_, ?_, ?_, ?_⟩
    · show d.task.detail.summary.revision + 1 + 1 ≤ d.task.detail.summary.lastEventSequence + 1
      omega
    · show d.task.detail.summary.lastEventSequence + 1 ≤ _
      exact hseq.trans (Nat.le_add_right _ _)
    · intro h
      exact absurd h (by simp [attached])
    · intro _
      exact hqueued.next rfl rfl rfl
    · intro _
      exact hp.early (by simp [unprepared, hphase])
    · intro h
      exact absurd h (by simp [unprepared, attached])
    · intro _ _
      trivial
  | inputPrepared ledger usage fingerprint hphase _ hcancel hcont hseq =>
    have hsnapshot := (validate_snapshots hcont.valid).1
    -- the snapshot is recorded, so there was room for it
    have hspare : 74 ≤ (Jobs.fixed d.task).spare := by
      have hready := hv'.spare_le hlive rfl hsnapshot hp.createdAt (strSize_timestamp _)
      have hdigits := two_le_digits (d.task.detail.summary.revision + 1)
        (d.task.detail.summary.lastEventSequence + 1)
      have hcost : 127 + digits (d.task.detail.summary.revision + 1)
          (d.task.detail.summary.lastEventSequence + 1) ≤ 55 + (Jobs.fixed d.task).spare :=
        hfixed ▸ hready
      omega
    refine hp.next hfixed rfl le_rfl hseq (strSize_timestamp _) rfl hsnapshot hspare ?_
    intro _ _
    exact .inl ((hp.preparing hphase).next rfl rfl rfl)
  | inputAdmitted ledger usage fingerprint hphase hcancel hcont hseq =>
    obtain ⟨hspare, -⟩ := hlater (by simp [hphase]) (by simp [hphase])
    refine hp.next hfixed rfl le_rfl hseq (strSize_timestamp _) rfl
      (validate_snapshots hcont.valid).1 hspare ?_
    intro hmode hle
    have hslow := hp.slow hmode hle
    simp only [Slow, hphase] at hslow
    exact .inr ⟨Nat.succ_le_succ hslow.2, hslow.1⟩
  | awaitConsent step hphase hcancel _ hmode hseq =>
    obtain ⟨hspare, hsnapshot⟩ := hlater (by simp [hphase]) (by simp [hphase])
    have hconsent := hv'.spare_le hlive rfl hsnapshot hp.createdAt (strSize_timestamp _)
    have hcost : 136 + digits (d.task.detail.summary.revision + 1)
        (d.task.detail.summary.lastEventSequence + 1) ≤ 55 + (Jobs.fixed d.task).spare :=
      hfixed ▸ hconsent
    refine hp.next hfixed rfl le_rfl hseq (strSize_timestamp _) rfl hsnapshot hspare ?_
    intro _ hle
    have hslow := hp.slow hmode hle
    simp only [Slow, hphase] at hslow
    rcases hslow with hfirst | ⟨hlong, -⟩
    · have hdigits := two_le_digits (d.task.detail.summary.revision + 1)
        (d.task.detail.summary.lastEventSequence + 1)
      exact ⟨by omega, hfirst.next rfl rfl rfl⟩
    · -- one digit more than the first time
      have hdigits : 3 ≤ digits (d.task.detail.summary.revision + 1)
        (d.task.detail.summary.lastEventSequence + 1) := three_le_digits (by omega)
      omega
  | beginInvocation step hcancel hinv hseq =>
    have hphase := mayInvoke_phase hinv.may
    obtain ⟨hspare, hsnapshot⟩ := hlater
      (by rcases hphase with h | h <;> simp [h]) (by rcases hphase with h | h <;> simp [h])
    refine hp.next hfixed rfl le_rfl hseq (strSize_timestamp _) rfl hsnapshot hspare ?_
    intro hmode hle
    have hmay := hinv.may
    simp only [mayInvoke, hmode, ensure_eq_ok] at hmay
    have hslow := hp.slow hmode hle
    simp only [Slow, hmay.1, hmay.2.1, if_true] at hslow
    exact ⟨hslow.1, hslow.2.next rfl rfl rfl⟩
  | actionAdmitted response tool usage hcancel hans hseq =>
    have hphase := hans.phase
    obtain ⟨hspare, hsnapshot⟩ := hlater (by simp [hphase]) (by simp [hphase])
    refine hp.next hfixed rfl (Nat.le_succ _) hseq (strSize_timestamp _) rfl hsnapshot hspare ?_
    intro hmode hle
    have hslow := hp.slow hmode hle
    simp only [Slow, hphase, At] at hslow
    refine ⟨hslow.1, ?_⟩
    show 8 ≤ d.task.detail.summary.lastEventSequence + 1 + 1
    omega
  | beginTool tool hphase _ hcancel hseq =>
    obtain ⟨hspare, hsnapshot⟩ := hlater (by simp [hphase]) (by simp [hphase])
    refine hp.next hfixed rfl le_rfl hseq (strSize_timestamp _) rfl hsnapshot hspare ?_
    intro hmode hle
    have hslow := hp.slow hmode hle
    simp only [Slow, hphase] at hslow
    exact ⟨hslow.1, Nat.succ_le_succ hslow.2⟩
  | chargeEvidence validationBytes hphase hcancel hseq =>
    obtain ⟨hspare, hsnapshot⟩ := hlater (by simp [hphase]) (by simp [hphase])
    refine hp.next hfixed rfl le_rfl hseq (strSize_timestamp _)
      (unprepared_eq_false (by simp [charged, hphase]) (by simp [charged, hphase]))
      hsnapshot hspare ?_
    intro hmode hle
    have hslow := hp.slow hmode hle
    simp only [Slow, phase_noted, charged, hphase] at hslow ⊢
    exact ⟨hslow.1, Nat.le_succ_of_le hslow.2⟩
  | approve revision stepId payloadHash hdecides hcancel hseq =>
    have hphase := hdecides.phase
    obtain ⟨hspare, hsnapshot⟩ := hlater (by simp [hphase]) (by simp [hphase])
    refine hp.next hfixed rfl le_rfl hseq (strSize_timestamp _)
      (unprepared_eq_false (by simp [consented, hphase]) (by simp [consented, hphase]))
      hsnapshot hspare ?_
    intro hmode hle
    have hslow := hp.slow hmode hle
    simp only [Slow, phase_noted, approved_noted, consented, hphase, hdecides.undecided, if_true,
      Bool.false_eq_true, if_false] at hslow ⊢
    exact ⟨hslow.1, hslow.2.next rfl rfl rfl⟩
  | cancel hlive0 hcancel hseq =>
    -- a queued task ends at once when it is cancelled, and this one is live
    have hqueued : d.task.phase ≠ .queued := by
      intro hphase
      exact hlive (by simp [Draft.cancelledBy, cancelRequested, hphase])
    have hphase : (d.cancelledBy clock).task.phase = d.task.phase := by
      simp [Draft.cancelledBy, cancelRequested, hqueued]
    exact hp.cancelled hfixed hcancel rfl hphase hqueued rfl rfl rfl rfl (strSize_timestamp _)
  | finished | stopWithElapsed | decline | recover => exact absurd rfl hlive

/-! ### Modest records -/

theorem Modest.congr (h : Modest t) (h1 : t'.expectedGraphRevision = t.expectedGraphRevision)
    (h2 : t'.detail.scopeSnapshotId = t.detail.scopeSnapshotId)
    (h3 : t'.detail.citations = t.detail.citations) (h4 : t'.ledgerRevision = t.ledgerRevision)
    (h5 : t'.execution = t.execution) (h6 : ∀ e ∈ t'.detail.error, strSize e ≤ 128) :
    Modest t' := by
  refine ⟨?_, ?_, ?_, ?_, ?_, h6⟩
  · rw [h1]
    exact h.expectedGraphRevision
  · rw [h2]
    exact h.scopeSnapshotId
  · rw [h3]
    exact h.citations
  · rw [h4]
    exact h.ledgerRevision
  · rw [h5]
    exact h.generation

theorem size_citations (ledger : InvestigationInputLedger) :
    (arr (ledger.citations.map InvestigationCitation.toJson)).size ≤ ledger.toJson.size := by
  simp only [InvestigationInputLedger.toJson, Json.size_obj_cons, List.map_cons, List.sum_cons,
    Json.fieldSize]
  omega

theorem modest_withInput {fingerprint : String} {usage : InvestigationUsage} {first : Bool}
    (h : Modest d.task) (hcont : Continues env d ledger usage fingerprint) :
    Modest (d.withInput clock ledger fingerprint usage first).task where
  expectedGraphRevision := h.expectedGraphRevision
  scopeSnapshotId := (validate_snapshots hcont.valid).2
  citations := (size_citations ledger).trans hcont.bounded
  ledgerRevision := by
    intro revision hrevision
    obtain rfl : ledger.revision = revision := Option.some_inj.mp hrevision
    exact hcont.revision
  generation := h.generation
  error := h.error

theorem strSize_message (reason : InvestigationStopReason) :
    strSize reason.message ≤ 128 := by
  cases reason <;> decide

theorem strSize_recoverError (t : StoredTask) : strSize (recoverError t) ≤ 128 := by
  unfold recoverError
  split_ifs <;> decide

variable {status : InvestigationStatus}

theorem modest_ended {cancelled : Bool} {error : String} (h : Modest t)
    (herror : strSize error ≤ 128) (h' : t' = ended t status cancelled error) : Modest t' := by
  subst h'
  refine h.congr rfl rfl rfl rfl rfl ?_
  intro e he
  obtain rfl : error = e := Option.some_inj.mp he
  exact herror

theorem modest_noted (h : Modest d.task) :
    Modest (d.noted clock kind step tool summary).task :=
  h.congr rfl rfl rfl rfl rfl h.error

theorem modest_recorded {now : Timestamp} (h : Modest d.task) :
    Modest (d.recorded now kind step tool summary).task :=
  h.congr rfl rfl rfl rfl rfl h.error

variable {reason : InvestigationStopReason}

theorem modest_stopped (h : Modest d.task) :
    Modest (d.stopped clock reason).task := by
  rw [Draft.stopped, task_syncTerminalJob]
  exact modest_noted (modest_ended h (strSize_message reason) rfl)

theorem Move.modest {d' : Draft} (h : Move env clock d action d') (hm : Modest d.task)
    (hattach : ∀ identity, action = .attach identity → identity.generation = 1) :
    Modest d'.task := by
  cases h with
  | attach identity =>
    refine modest_noted ⟨hm.expectedGraphRevision, hm.scopeSnapshotId, hm.citations,
      hm.ledgerRevision, ?_, hm.error⟩
    intro x hx
    obtain rfl : identity = x := Option.some_inj.mp hx
    exact hattach identity rfl
  | inputPrepared _ _ _ _ _ _ hcont | inputAdmitted _ _ _ _ _ hcont =>
    exact modest_withInput hm hcont
  | awaitConsent | beginTool | chargeEvidence | approve =>
    exact modest_noted (hm.congr rfl rfl rfl rfl rfl hm.error)
  | beginInvocation =>
    rw [Draft.invoked]
    exact modest_noted (hm.congr rfl rfl rfl rfl rfl hm.error)
  | actionAdmitted =>
    rw [Draft.responded]
    exact modest_recorded (modest_noted (hm.congr rfl rfl rfl rfl rfl hm.error))
  | finished =>
    rw [task_syncTerminalJob, Draft.responded]
    exact modest_recorded (modest_noted (hm.congr rfl rfl rfl rfl rfl hm.error))
  | stopWithElapsed | decline => exact modest_stopped (hm.congr rfl rfl rfl rfl rfl hm.error)
  | cancel =>
    rw [Draft.cancelledBy, task_cancelOpenJob]
    exact modest_noted (hm.congr rfl rfl rfl rfl rfl hm.error)
  | recover =>
    rw [Draft.recovered, task_syncTerminalJob]
    exact modest_noted (modest_ended hm (strSize_recoverError _) rfl)

theorem acts_attach {op : Op} {identity : StoredExecution}
    (h : s.acts op = some (id, .attach identity)) : identity.generation = 1 := by
  cases op with
  | claimExecution clock plan reservation owner =>
    obtain ⟨_, -, heq⟩ := Option.map_eq_some_iff.mp h
    simp only [Prod.mk.injEq, Action.attach.injEq] at heq
    rw [← heq.2]
  | _ => simp [Store.acts, Store.about] at h

/-! ### Everything a task stores -/

/-- What a task stores besides its record. -/
def TaskRow.base (row : TaskRow) (id : String) : ℕ :=
  1024 + (64 + id.utf8ByteSize + row.nonce.utf8ByteSize + row.conversationId.utf8ByteSize)
    + row.rows.bytes id

theorem bytes_eq_base (row : TaskRow) (id : String) :
    row.bytes id = row.base id + row.record.toJson.size := by
  rw [TaskRow.bytes, TaskRow.base]
  omega

theorem bytes_noted (d : Draft) (clock : Clock) (kind : InvestigationEventKind)
    (step : Option String) (tool : Option InvestigationTool) (summary : String) (id : String) :
    (d.noted clock kind step tool summary).rows.bytes id ≤ d.rows.bytes id
      + (((d.task.bumped (clock 0)).eventRow (clock 1) kind step tool summary).toJson.size + 320) := by
  have hput := Table.sum_put_le (fun r => r.2.toJson.size + 64 + 256) d.rows.events
    (d.task.detail.summary.lastEventSequence + 1)
    ((d.task.bumped (clock 0)).eventRow (clock 1) kind step tool summary)
  simp only [Rows.bytes, bodyBytes, List.map_map, Function.comp_def, inputs_noted,
    invocations_noted, responses_noted, result_noted, refs_noted, events_noted] at hput ⊢
  omega

/-! ### Room for an ending -/

/-- What an ending may cost from a phase, without the two counters. -/
def finalCost : Phase → ℕ
  | .queued | .preparing => 59
  | .ready | .action | .tool => 132
  | .consent | .invocation => 136
  | .terminal => 0

/-- Room for every ending.  Up to 73 bytes a task cannot record its snapshot and ends
before it is prepared; up to 83 bytes a cloud task does not get to a second consent. -/
def HasRoom (s : InvestigationSummary) : Prop :=
  (6 ≤ spare s ∧ spare s ≤ 73) ∨ 85 ≤ spare s
    ∨ (s.providerMode = .cloud ∧ 79 ≤ spare s ∧ spare s ≤ 83)

theorem HasRoom.pos {s : InvestigationSummary} (h : HasRoom s) : 0 < spare s := by
  rcases h with h | h | h <;> omega

theorem extra_le_one (t : StoredTask) : extra t ≤ 1 := by
  unfold extra
  split_ifs <;> omega

theorem finalCost_le (hv : ValidTask env t) (hp : Paced t) (hroom : HasRoom (fixed t).summary) :
    finalCost t.phase + digits (t.detail.summary.revision + 1)
      (t.detail.summary.lastEventSequence + 1) ≤ 55 + (fixed t).spare := by
  have horder := hp.order
  have hbound := hp.bound
  have hextra := extra_le_one t
  have hdigits : digits (t.detail.summary.revision + 1)
      (t.detail.summary.lastEventSequence + 1) ≤ 4 := digits_le (by omega) (by omega)
  have hsmall : ∀ a b, At t a b → a < 8 → b < 8 → digits (t.detail.summary.revision + 1)
      (t.detail.summary.lastEventSequence + 1) = 2 := by
    rintro a b ⟨h1, h2⟩ ha hb
    exact digits_small (by omega) (by omega)
  have hmode : t.detail.provider.mode = (fixed t).summary.providerMode := by
    obtain ⟨-, -, -, -, -, -, -, -, -, -, hmode, -⟩ := hv.fields
    exact hmode
  change (6 ≤ (fixed t).spare ∧ (fixed t).spare ≤ 73) ∨ 85 ≤ (fixed t).spare
    ∨ (_ ∧ 79 ≤ (fixed t).spare ∧ (fixed t).spare ≤ 83) at hroom
  rcases hroom with ⟨hlow, hhigh⟩ | hlow | ⟨hcloud, hlow, hhigh⟩
  · -- the task was never prepared
    cases hphase : t.phase with
    | queued =>
      have h := hsmall 0 1 (hp.queued hphase).1 (by omega) (by omega)
      rw [finalCost]
      omega
    | preparing =>
      have h := hsmall 1 2 (hp.preparing hphase) (by omega) (by omega)
      rw [finalCost]
      omega
    | terminal =>
      rw [finalCost]
      omega
    | ready | consent | invocation | action | tool =>
      have h := (hp.later (by simp [unprepared, hphase])).1
      omega
  · -- room for the longest ending, whatever the phase
    cases t.phase <;> rw [finalCost] <;> omega
  · -- a consent in between: the pace of the first step decides
    have hslow := hp.slow (hmode.trans hcloud) hhigh
    unfold Slow at hslow
    cases hphase : t.phase with
    | ready =>
      simp only [hphase] at hslow
      rw [finalCost]
      rcases hslow with hfirst | ⟨-, h⟩
      · have h := hsmall 2 3 hfirst (by omega) (by omega)
        omega
      · omega
    | consent =>
      simp only [hphase] at hslow
      rw [finalCost]
      have hstep := hslow.2
      split_ifs at hstep
      · have h := hsmall 4 5 hstep (by omega) (by omega)
        omega
      · have h := hsmall 3 4 hstep (by omega) (by omega)
        omega
    | invocation =>
      simp only [hphase] at hslow
      have h := hsmall 5 6 hslow.2 (by omega) (by omega)
      rw [finalCost]
      omega
    | action | tool =>
      simp only [hphase] at hslow
      rw [finalCost]
      omega
    | queued | preparing | terminal =>
      rw [finalCost]
      omega

/-- What a record is changed to before the event of its ending is noted. -/
structure Closes (t t' : StoredTask) (kind : InvestigationEventKind) : Prop where
  fixed : fixed t' = fixed t
  usage : validateUsage t'.detail.usage t'.detail.limits
    = validateUsage t.detail.usage t.detail.limits
  revision : t'.detail.summary.revision = t.detail.summary.revision
  sequence : t'.detail.summary.lastEventSequence = t.detail.summary.lastEventSequence
  snapshot : t'.detail.summary.graphSnapshotId = t.detail.summary.graphSnapshotId
  hasResult : t'.detail.summary.hasResult = t.detail.summary.hasResult
  modest : Modest t → Modest t'
  ending : (t'.phase = .terminal
      ∧ strSize t'.detail.summary.status.text
          + (bool t'.detail.summary.cancelRequested).size
        ≤ if t.phase = .invocation then 22 else 18)
    ∨ (t'.phase = t.phase ∧ t'.detail.summary.status = t.detail.summary.status
      ∧ t.detail.summary.cancelRequested = false
      ∧ t'.detail.summary.cancelRequested = true ∧ kind = .cancelRequested)

section Closing

theorem liveCost_le (phase : Phase) : liveCost phase ≤ finalCost phase := by
  cases phase <;> decide

theorem Closes.cost_le (h : Closes t t' kind) (hv : ValidTask env t) (hp : Paced t)
    (hlive : t.phase ≠ .terminal) (now : Timestamp) :
    cost ((t'.bumped now).sequenced).detail.summary ≤ finalCost t.phase
      + digits (t.detail.summary.revision + 1) (t.detail.summary.lastEventSequence + 1) := by
  have hsnapshot : (opt .str t'.detail.summary.graphSnapshotId).size
      = if unprepared t then 4 else 77 := by
    rw [h.snapshot]
    exact hp.snapshot
  have hresult : t'.detail.summary.hasResult = false := by
    rw [h.hasResult]
    exact hv.no_result hlive
  have htime := strSize_timestamp now
  rw [cost, digits]
  simp only [StoredTask.sequenced, StoredTask.bumped, hsnapshot, hresult, htime, h.revision,
    h.sequence, size_false]
  rcases h.ending with ⟨hphase, hstatus⟩ | ⟨hphase, hstatus, -, hcancel, -⟩
  · simp only [hphase, ne_eq, not_true_eq_false, decide_false, Bool.false_and, reduceCtorEq,
      size_false]
    have hfinal : (if t.phase = .invocation then 22 else 18) + (if unprepared t then 4 else 77) + 37
        ≤ finalCost t.phase := by
      unfold unprepared
      cases hp' : t.phase
      case terminal => exact absurd hp' hlive
      all_goals decide
    omega
  · have hlivecost := hv.status_cost hlive
    have hle := liveCost_le t.phase
    simp only [hphase, hstatus, hcancel, Bool.not_true, Bool.and_false, size_false,
      Json.size_true]
    omega

theorem Closes.event_le (h : Closes t t' kind) (hv : ValidTask env t) (hp : Paced t)
    (hsummary : strSize summary ≤ 128) (now now' : Timestamp) :
    ((t'.bumped now).eventRow now' kind none none summary).toJson.size ≤ 1024 := by
  have horder := hp.order
  have hbound := hp.bound
  have hextra := extra_le_one t
  have hrevision := h.revision
  have hsequence := h.sequence
  refine size_event now' kind summary ?_ ?_ ?_ hsummary
  · have hid : t'.detail.summary.investigationId = t.detail.summary.investigationId :=
      congrArg Fixed.investigationId h.fixed
    obtain ⟨-, -, hvalid, -⟩ := hv.fields
    show idValid t'.detail.summary.investigationId = true
    rw [hid]
    exact hvalid
  · show t'.detail.summary.revision + 1 < 10 ^ 20
    omega
  · show t'.detail.summary.lastEventSequence + 1 < 10 ^ 20
    omega

theorem Closes.note_ne_capacity (h : Closes t t' kind) (hv : ValidTask env t) (hp : Paced t)
    (hsummary : strSize summary ≤ 128) (clock : Clock) (rows : Rows) (jobs : Table ℕ JobRow) :
    note clock ⟨t', rows, jobs⟩ kind none none summary ≠ .error .capacity := by
  have horder := hp.order
  have hbound := hp.bound
  have hextra := extra_le_one t
  have hrevision := h.revision
  have hsequence := h.sequence
  refine Jobs.note_ne_capacity ?_ ?_ ?_
  · show t'.detail.summary.revision + 1 < 2 ^ 64
    omega
  · show t'.detail.summary.lastEventSequence + 1 ≤ eventMaximum t'.phase kind
    unfold eventMaximum
    have hmax := MAX_EVENTS_eq
    rcases h.ending with ⟨hphase, -⟩ | ⟨-, -, hcancel, -, hkind⟩
    · rw [if_pos hphase]
      omega
    · have hnone : extra t = 0 := by simp [extra, hcancel]
      split_ifs <;> omega
  · exact (h.event_le hv hp hsummary _ _).trans (by omega)

end Closing

/-! ### The invariant -/

/-- Ending a task also settles its job, which no limit is about. -/
def Draft.withJobs (d : Draft) (jobs : Table ℕ JobRow) : Draft := ⟨d.task, d.rows, jobs⟩

@[simp] theorem task_withJobs (d : Draft) (jobs : Table ℕ JobRow) : (d.withJobs jobs).task = d.task :=
  rfl

@[simp] theorem rows_withJobs (d : Draft) (jobs : Table ℕ JobRow) : (d.withJobs jobs).rows = d.rows :=
  rfl

/-- What is bounded in a live task. -/
structure Headroom (id : String) (row : TaskRow) : Prop where
  named : row.record.detail.summary.investigationId = id
  paced : Paced row.record
  modest : Modest row.record
  base : row.base id ≤ TASK_CAPACITY - TERMINAL_RESERVE + 1344 * extra row.record

variable {t' : StoredTask}

theorem base_saved_le (row : TaskRow) (clock : Clock) (jobs jobs' : Table ℕ JobRow) (id : String)
    (hevent : ((t'.bumped (clock 0)).eventRow (clock 1) kind none none summary).toJson.size ≤ 1024)
    :
    (row.saved ((Draft.noted ⟨t', row.rows, jobs⟩ clock kind none none summary).withJobs jobs')
      ).base id ≤ row.base id + 1344 := by
  have hbytes := bytes_noted ⟨t', row.rows, jobs⟩ clock kind none none summary id
  dsimp only at hbytes
  rw [TaskRow.base, TaskRow.base]
  show 1024 + (64 + id.utf8ByteSize + row.nonce.utf8ByteSize + row.conversationId.utf8ByteSize)
    + (Draft.noted ⟨t', row.rows, jobs⟩ clock kind none none summary).rows.bytes id ≤ _
  omega

/-- **Room for an ending**: it is saved, or refused for another reason. -/
theorem Closes.fits (h : Closes row.record t' kind) (hv : ValidTask env row.record)
    (hh : Headroom id row) (hlive : row.record.phase ≠ .terminal)
    (hroom : HasRoom (Jobs.fixed row.record).summary) (hsummary : strSize summary ≤ 128)
    (clock : Clock) (jobs jobs' : Table ℕ JobRow) :
    Fits env ((Draft.noted ⟨t', row.rows, jobs⟩ clock kind none none summary).withJobs jobs')
      row := by
  have hfixed : Jobs.fixed (Draft.noted ⟨t', row.rows, jobs⟩ clock kind none none summary).task
      = Jobs.fixed row.record := (fixed_noted _ _ _ _ _ _).trans h.fixed
  have hid : (Draft.noted ⟨t', row.rows, jobs⟩ clock kind none none summary
      ).task.detail.summary.investigationId = id :=
    (congrArg Fixed.investigationId hfixed).trans hh.named
  have hcreated : strSize (Draft.noted ⟨t', row.rows, jobs⟩ clock kind none none summary
      ).task.detail.summary.createdAt = 22 := by
    have hsame := congrArg Fixed.createdAt hfixed
    exact (congrArg strSize hsame).trans hh.paced.createdAt
  -- what an ending costs is spared for it
  have hcost := (h.cost_le hv hh.paced hlive (clock 0)).trans (finalCost_le hv hh.paced hroom)
  have hrecord : ValidTask env (Draft.noted ⟨t', row.rows, jobs⟩ clock kind none none summary).task →
      (Draft.noted ⟨t', row.rows, jobs⟩ clock kind none none summary).task.toJson.size
        ≤ 220 * 1024 :=
    fun hvalid => size_record hvalid (modest_noted (h.modest hh.modest))
  refine ⟨?_, ?_, ?_, ?_⟩
  · show validateUsage t'.detail.usage t'.detail.limits = .ok ()
    rw [h.usage]
    exact hv.usage
  · rw [task_withJobs]
    refine summary_fits hcreated ?_ ?_
    · rw [hfixed]
      exact hroom.pos
    · rw [hfixed]
      exact hcost
  · intro hvalid
    exact (hrecord hvalid).trans (by decide)
  · intro hvalid
    have hbase := base_saved_le row clock jobs jobs' id (h.event_le hv hh.paced hsummary _ _)
    have hsize := hrecord hvalid
    have hbefore := hh.base
    have hextra := extra_le_one row.record
    -- the reserve for endings is as large as the largest record
    have hcapacity : TASK_CAPACITY - TERMINAL_RESERVE + 256 * 1024 = TASK_CAPACITY := by decide
    show (row.saved ((Draft.noted ⟨t', row.rows, jobs⟩ clock kind none none summary).withJobs jobs')
      ).bytes (Draft.noted ⟨t', row.rows, jobs⟩ clock kind none none summary
      ).task.detail.summary.investigationId ≤ TASK_CAPACITY
    rw [hid, bytes_eq_base]
    have hsaved : (row.saved ((Draft.noted ⟨t', row.rows, jobs⟩ clock kind none none summary
      ).withJobs jobs')).record.toJson.size ≤ 220 * 1024 := hsize
    omega

/-! ### The three endings -/

theorem closes_cancelRequested (hcancel : t.detail.summary.cancelRequested = false) :
    Closes t (cancelRequested t) .cancelRequested where
  fixed := rfl
  usage := rfl
  revision := rfl
  sequence := rfl
  snapshot := rfl
  hasResult := rfl
  modest := fun h => h.congr rfl rfl rfl rfl rfl h.error
  ending := by
    by_cases hqueued : t.phase = .queued
    · refine .inl ⟨if_pos hqueued, ?_⟩
      show strSize (if t.phase = .queued then InvestigationStatus.cancelled
        else t.detail.summary.status).text + (bool true).size ≤ _
      rw [if_pos hqueued, hqueued]
      decide
    · exact .inr ⟨if_neg hqueued, if_neg hqueued, hcancel, rfl, rfl⟩

theorem validateUsage_ended (t : StoredTask) (status : InvestigationStatus) (cancelled : Bool)
    (error : String) :
    validateUsage (ended t status cancelled error).detail.usage t.detail.limits
      = validateUsage t.detail.usage t.detail.limits := by
  unfold ended
  by_cases hphase : t.phase = .invocation
  · simp only [hphase, if_true]
    rfl
  · simp only [hphase, if_false]

theorem closes_ended {cancelled : Bool}
    {error : String} (herror : strSize error ≤ 128)
    (hstatus : strSize status.text + (bool cancelled).size
      ≤ if t.phase = .invocation then 22 else 18) :
    Closes t (ended t status cancelled error) kind where
  fixed := rfl
  usage := validateUsage_ended t status cancelled error
  revision := rfl
  sequence := rfl
  snapshot := rfl
  hasResult := rfl
  modest := fun h => modest_ended h herror rfl
  ending := .inl ⟨rfl, hstatus⟩

theorem size_bool_le (b : Bool) : (bool b).size ≤ 5 := by
  cases b <;> simp

theorem closes_stopped (ms : UInt64) (hreason : reason = .outcomeUnknown → t.phase = .invocation) :
    Closes t (ended (elapsed t ms) (stopStatus (elapsed t ms) reason)
      (stopCancelled (elapsed t ms) reason) reason.message) (stopKind (elapsed t ms) reason) := by
  have hclose : Closes (elapsed t ms) (ended (elapsed t ms) (stopStatus (elapsed t ms) reason)
      (stopCancelled (elapsed t ms) reason) reason.message) (stopKind (elapsed t ms) reason) := by
    refine closes_ended (strSize_message reason) ?_
    have hunknown : strSize InvestigationStatus.outcomeUnknown.text = 17 := by decide
    have hcancelled : strSize InvestigationStatus.cancelled.text = 11 := by decide
    have hfailed : strSize InvestigationStatus.failed.text = 8 := by decide
    have hflag := size_bool_le (stopCancelled (elapsed t ms) reason)
    unfold stopStatus
    by_cases hr : reason = .outcomeUnknown
    · have hphase : (elapsed t ms).phase = .invocation := hreason hr
      rw [if_pos (by simp [hr]), if_pos hphase]
      omega
    · rw [if_neg (by simpa using hr)]
      split_ifs <;> omega
  exact ⟨hclose.fixed, hclose.usage, hclose.revision, hclose.sequence, hclose.snapshot,
    hclose.hasResult, fun h => hclose.modest (h.congr rfl rfl rfl rfl rfl h.error), hclose.ending⟩

theorem closes_recovered (t : StoredTask) :
    Closes t (ended t (recoverStatus t) t.detail.summary.cancelRequested (recoverError t))
      (recoverKind t) := by
  refine closes_ended (strSize_recoverError t) ?_
  have hunknown : strSize InvestigationStatus.outcomeUnknown.text = 17 := by decide
  have hinterrupted : strSize InvestigationStatus.interrupted.text = 13 := by decide
  have hflag := size_bool_le t.detail.summary.cancelRequested
  unfold recoverStatus
  by_cases hphase : t.phase = .invocation
  · rw [if_pos (by simp [hphase]), if_pos hphase]
    omega
  · rw [if_neg (by simpa using hphase), if_neg hphase]
    omega

/-! ### The invariant along a run -/

theorem strSize_cancelSummary : strSize
    "Cancellation requested; outstanding provider work retains its execution lease." ≤ 128 := by
  decide

theorem Headroom.moved {jobs : Table ℕ JobRow} {terminal : Bool} (hh : Headroom id row)
    (hv : ValidTask env row.record) (hmove : Move env clock (row.draft jobs) action d)
    (hsavable : Savable env d row terminal)
    (hflag : terminal = true → d.task.phase = .terminal ∨ action = .cancel)
    (hattach : ∀ identity, action = .attach identity → identity.generation = 1)
    (hlive : d.task.phase ≠ .terminal) : Headroom id (row.saved d) := by
  have hid : d.task.detail.summary.investigationId = id :=
    hmove.investigationId.trans hh.named
  refine ⟨hid, hmove.paced hh.paced hlive (validateTask_eq_ok.mp hsavable.valid),
    hmove.modest hh.modest hattach, ?_⟩
  by_cases hcancel : action = .cancel
  · -- a cancellation may use what is set aside, for its one event
    subst hcancel
    cases hmove with
    | cancel _ hbefore =>
      have hclose := closes_cancelRequested hbefore
      have hbase := base_saved_le row clock jobs ((row.draft jobs).cancelledBy clock).jobs id
        (hclose.event_le hv hh.paced strSize_cancelSummary (clock 0) (clock 1))
      have hold := hh.base
      have hextra : extra row.record = 0 := if_neg (Bool.eq_false_iff.mp hbefore)
      have hextra' : extra (row.saved ((row.draft jobs).cancelledBy clock)).record = 1 := rfl
      rw [hextra']
      refine le_trans hbase ?_
      omega
  · have hcapacity := hsavable.capacity
    have hfalse : terminal = false := by
      cases terminal with
      | false => rfl
      | true =>
        rcases hflag rfl with h | h
        · exact absurd h hlive
        · exact absurd h hcancel
    rw [hfalse, hid, bytes_eq_base] at hcapacity
    simp only [Bool.false_eq_true, if_false] at hcapacity
    omega

theorem Headroom.started {op : Op} (h : RowStarts env s op id row) :
    Headroom id row := by
  obtain ⟨clock, request, offered, conversation, investigation, provider, intentHash, -, hvalid, -,
    rfl, hsavable, rfl⟩ := h
  have hcapacity := hsavable.capacity
  rw [bytes_eq_base] at hcapacity
  simp only [StartInvestigationRequest.validate, bind_eq_ok, ensure_eq_ok] at hvalid
  obtain ⟨⟨⟩, -, ⟨⟩, ⟨-, -, -, -, hexpected, -⟩, -⟩ := hvalid
  have hcitations : (arr []).size ≤ MAX_MANIFEST_BYTES := by decide
  refine ⟨rfl, ⟨le_rfl, Nat.le_add_left _ _, strSize_timestamp _, strSize_timestamp _,
    fun _ => ⟨⟨rfl, rfl⟩, rfl⟩, ?_, fun _ => rfl, ?_, fun _ _ => trivial⟩,
    ⟨hexpected, rfl, hcitations, ?_, ?_, ?_⟩, ?_⟩
  -- the task is queued, and has neither a snapshot nor an identity nor an outcome
  · rintro ⟨⟩
  · rintro ⟨⟩
  · rintro _ ⟨⟩
  · rintro _ ⟨⟩
  · rintro _ ⟨⟩
  exact (Nat.le_add_right _ _).trans (hcapacity.trans (Nat.le_add_right _ _))

theorem steps_headroom {s0 s : Store} {tr : List Event} (h : (machine env).Steps s0 tr s)
    (h0 : s0.Initial) :
    ∀ id row, s.tasks.find? id = some row → row.record.phase ≠ .terminal → Headroom id row := by
  induction h with
  | refl =>
    intro id row hrow
    rw [h0.2.2.1] at hrow
    exact absurd hrow (by simp)
  | @snoc tr s1 s2 op out hs _ hst ih =>
    intro id row' hrow' hlive
    rcases step_row hst hrow' with hrow |
      ⟨row, action, hrow, hdoes, ⟨clock, jobs, d, _, hmove, hsavable, hflag, rfl⟩⟩ | ⟨-, hstarts⟩
    · exact ih id row' hrow hlive
    · refine (ih id row hrow hmove.live).moved (steps_valid hs h0 id row hrow) hmove hsavable hflag
        ?_ hlive
      rintro identity rfl
      exact acts_attach hdoes.1
    · exact .started hstarts

/-! ### Runs of roomy tasks -/

/-- The event creates task `id`. -/
def Creates (e : Event) (id : String) : Prop :=
  e.pre.tasks.find? id = none ∧ (e.post.tasks.find? id).isSome

/-- A task the event creates leaves room for every ending. -/
def Roomy (env : Env) (e : Event) : Prop :=
  ∀ clock request offered conversation investigation,
    e.op = .startInvestigation clock request offered conversation investigation →
    Creates e (newId investigation) →
    HasRoom (createdSummary request (newId investigation) (newConversation request conversation)
      (env.redactText request.question).1 (e.pre.jobSeq + 1) (clock 0))

theorem summary_started (env : Env) (clock : Clock) (s : Store) (request : StartInvestigationRequest)
    (provider : InvestigationProvider) (intentHash : String) (conversation investigation : Token) :
    (fixed (startDraft env clock s request provider intentHash conversation investigation).task
      ).summary = createdSummary request (newId investigation)
        (newConversation request conversation) (env.redactText request.question).1 (s.jobSeq + 1)
        (clock 0) := rfl

theorem steps_roomy {s0 s : Store} {tr : List Event} (h : (machine env).Steps s0 tr s)
    (h0 : s0.Initial) (hroomy : ∀ e ∈ tr, Roomy env e) :
    ∀ id row, s.tasks.find? id = some row → HasRoom (fixed row.record).summary := by
  induction h with
  | refl =>
    intro id row hrow
    rw [h0.2.2.1] at hrow
    exact absurd hrow (by simp)
  | @snoc tr s1 s2 op out hs _ hst ih =>
    intro id row' hrow'
    have hbefore := ih fun e he => hroomy e (List.mem_append_left _ he)
    rcases step_row hst hrow' with hrow |
      ⟨row, action, hrow, -, ⟨clock, jobs, d, _, hmove, -, -, rfl⟩⟩ | ⟨hnone, hstarts⟩
    · exact hbefore id row' hrow
    · have hfixed : fixed (row.saved d).record = fixed row.record := hmove.fixed
      rw [hfixed]
      exact hbefore id row hrow
    · obtain ⟨clock, request, offered, conversation, investigation, provider, intentHash, rfl, -, -,
        rfl, -, rfl⟩ := hstarts
      have hroom := hroomy _ (List.mem_append_right _ (List.mem_singleton_self _)) clock request
        offered conversation investigation rfl ⟨hnone, Option.isSome_of_eq_some hrow'⟩
      rw [TaskRow.saved, summary_started]
      exact hroom

/-- Cancellation, a stop of the worker, and recovery after its death. -/
def Op.ending : Op → Bool
  | .cancelInvestigation _ _ | .recoverInvestigation _ _ _ => true
  | .advanceInvestigation _ _ _ transition => transition.stopping
  | _ => false

/-! ### No ending is refused for want of capacity -/

/-- What a run of roomy tasks keeps. -/
structure Endable (env : Env) (s : Store) : Prop where
  valid : ∀ id row, s.tasks.find? id = some row → ValidTask env row.record
  headroom : ∀ id row, s.tasks.find? id = some row → row.record.phase ≠ .terminal → Headroom id row
  room : ∀ id row, s.tasks.find? id = some row → HasRoom (fixed row.record).summary

section Endable

theorem Endable.loadTask (h : Endable env s) (id : String) :
    s.loadTask env id ≠ .error .capacity :=
  loadTask_ne_capacity (h.valid id)

theorem Endable.closes (h : Endable env s) (hload : Loaded env s id row)
    (hlive : row.record.phase ≠ .terminal) (hclose : Closes row.record t' kind)
    (hsummary : strSize summary ≤ 128) (clock : Clock) (jobs' : Table ℕ JobRow) (revision : ℕ) :
    note clock ⟨t', row.rows, s.jobs⟩ kind none none summary ≠ .error .capacity
    ∧ s.saveTask env ((Draft.noted ⟨t', row.rows, s.jobs⟩ clock kind none none summary).withJobs jobs')
        revision true ≠ .error .capacity := by
  have hv := h.valid id row hload.stored
  have hh := h.headroom id row hload.stored hlive
  have hid : t'.detail.summary.investigationId = id :=
    (congrArg Fixed.investigationId hclose.fixed).trans hh.named
  have hrow : s.tasks.find? t'.detail.summary.investigationId = some row := by
    rw [hid]
    exact hload.stored
  refine ⟨hclose.note_ne_capacity hv hh.paced hsummary clock row.rows s.jobs, ?_⟩
  exact saveTask_ne_capacity hrow
    (hclose.fits hv hh hlive (h.room id row hload.stored) hsummary clock s.jobs jobs')

theorem Endable.cancelTask (h : Endable env s) (clock : Clock) (id : String) :
    s.cancelTask env clock id ≠ .error .capacity := by
  intro herror
  simp only [Store.cancelTask, bind_eq_error] at herror
  rcases herror with hload | ⟨row, hload, herror⟩
  · exact h.loadTask id hload
  · split_ifs at herror with hlive
    · have hloaded := loadTask_ok hload
      have hclose := closes_cancelRequested hlive.2
      have hends := h.closes hloaded hlive.1 hclose strSize_cancelSummary clock
        ((row.draft s.jobs).cancelledBy clock).jobs row.record.detail.summary.revision
      simp only [requestCancel, bind_eq_error, bind_eq_ok, pure_eq_ok, note_eq_ok] at herror
      rcases herror with (hnote | ⟨_, -, hp⟩) | ⟨_, ⟨_, ⟨-, -, -, rfl⟩, rfl⟩, hsave | ⟨_, -, hp⟩⟩
      · exact hends.1 hnote
      · exact pure_ne_error hp
      · exact hends.2 hsave
      · exact pure_ne_error hp
    · exact pure_ne_error herror

theorem strSize_recoverSummary (t : StoredTask) : strSize (recoverSummary t) ≤ 128 := by
  unfold recoverSummary
  split_ifs <;> decide

theorem Endable.recover (h : Endable env s) (clock : Clock)
    (candidate : InvestigationRecoveryCandidate) (reservation : ExecutionReservation) :
    s.recoverInvestigation env clock candidate reservation ≠ .error .capacity := by
  intro herror
  simp only [Store.recoverInvestigation, bind_eq_error, ensure_eq_error] at herror
  rcases herror with ⟨-, he⟩ | ⟨_, -, ⟨-, he⟩ | ⟨_, -, hload | ⟨row, hload, herror⟩⟩⟩
  · exact absurd he (by simp)
  · exact absurd he (by simp)
  · exact h.loadTask _ hload
  · split_ifs at herror with hstale
    · exact pure_ne_error herror
    · rw [not_or] at hstale
      have hends := h.closes (loadTask_ok hload) hstale.1 (closes_recovered row.record)
        (strSize_recoverSummary row.record) clock ((row.draft s.jobs).recovered clock).jobs
        row.record.detail.summary.revision
      simp only [recoverDraft, bind_eq_error, bind_eq_ok, pure_eq_ok, note_eq_ok] at herror
      rcases herror with (hnote | ⟨_, -, hp⟩) | ⟨_, ⟨_, ⟨-, -, -, rfl⟩, rfl⟩, hsave | ⟨_, -, hp⟩⟩
      · exact hends.1 hnote
      · exact pure_ne_error hp
      · exact hends.2 hsave
      · exact pure_ne_error hp

theorem stop_eq (clock : Clock) (d : Draft) (reason : InvestigationStopReason) :
    stop clock d reason = (do
      ensure (reason = .outcomeUnknown → d.task.phase = .invocation) .stale
      let d' ← note clock
        ⟨ended d.task (stopStatus d.task reason) (stopCancelled d.task reason) reason.message,
          d.rows, d.jobs⟩ (stopKind d.task reason) none none reason.message
      pure (syncTerminalJob d')) := rfl

theorem Endable.stop (h : Endable env s) (clock : Clock) (x : JobExecution) (revision : ℕ)
    (reason : InvestigationStopReason) (ms : UInt64) :
    s.advanceInvestigation env clock x revision (.stopWithElapsed reason ms) ≠ .error .capacity := by
  intro herror
  simp only [Store.advanceInvestigation, checkIdentity, Store.checkJob, bind_eq_error,
    ensure_eq_error, orFail_eq_error] at herror
  rcases herror with ⟨-, he⟩ | ⟨_, -, ⟨-, he⟩ | ⟨_, -, ⟨-, he⟩ | ⟨id, -, hload | ⟨row, hload, ⟨-, he⟩ |
    ⟨_, -, ⟨-, he⟩ | ⟨_, -, ⟨-, he⟩ | ⟨_, -, ⟨-, he⟩ | ⟨_, hlive, ⟨-, he⟩ | ⟨_, -, herror⟩⟩⟩⟩⟩⟩⟩⟩⟩
  · exact absurd he (by simp)
  · exact absurd he (by simp)
  · exact absurd he (by simp)
  · exact h.loadTask id hload
  · exact absurd he (by simp)
  · exact absurd he (by simp)
  · exact absurd he (by simp)
  · exact absurd he (by simp)
  · exact absurd he (by simp)
  · rw [ensure_eq_ok] at hlive
    simp only [InvestigationTransition.apply, Jobs.stopWithElapsed, stop_eq, bind_eq_error,
      bind_eq_ok, ensure_eq_error, ensure_eq_ok, pure_eq_ok, note_eq_ok] at herror
    rcases herror with (⟨-, he⟩ | ⟨_, -, ⟨-, he⟩ | ⟨_, hreason, hnote | ⟨_, -, hp⟩⟩⟩) |
      ⟨_, ⟨_, -, _, hreason, _, ⟨-, -, -, rfl⟩, rfl⟩, hsave | ⟨_, -, hp⟩⟩
    · exact absurd he (by simp)
    · exact absurd he (by simp)
    · exact (h.closes (loadTask_ok hload) hlive (closes_stopped ms hreason) (strSize_message reason)
        clock s.jobs revision).1 hnote
    · exact pure_ne_error hp
    · exact (h.closes (loadTask_ok hload) hlive (closes_stopped ms hreason) (strSize_message reason)
        clock ((Draft.stopped { row.draft s.jobs with task := elapsed row.record ms } clock reason
          ).jobs) revision).2 hsave
    · exact pure_ne_error hp

end Endable

theorem report_eq_capacity {α : Type} {answer : α → Answer}
    {r : Except InvestigationStoreError (α × Store)}
    (h : report .task answer r = .error (.task .capacity)) : r = .error .capacity := by
  cases r with
  | ok p => exact absurd h (by simp [report])
  | error e =>
    simp only [report, Except.error.injEq, Failure.task.injEq] at h
    rw [h]

/-- **A task can always be ended**: along a run in which every task was created with room
for it, no cancellation, no stop of a worker and no recovery is refused for want of
capacity, in any state on the way. -/
theorem always_endable {env : Env} {s₀ s : Store} {tr : List Event} {op : Op} (h₀ : s₀.Initial)
    (hs : (machine env).Steps s₀ tr s) (hroomy : ∀ e ∈ tr, Roomy env e) (hop : op.ending = true) :
    (s.step env op).2 ≠ .error (.task .capacity) := by
  have hend : Endable env s :=
    ⟨steps_valid hs h₀, steps_headroom hs h₀, steps_roomy hs h₀ hroomy⟩
  intro herror
  obtain ⟨hperform, -⟩ := transact_error.mp (Prod.ext rfl herror)
  cases op with
  | cancelInvestigation clock id =>
    exact hend.cancelTask clock id (report_eq_capacity hperform)
  | recoverInvestigation clock candidate reservation =>
    exact hend.recover clock candidate reservation (report_eq_capacity hperform)
  | advanceInvestigation clock x revision transition =>
    cases transition with
    | stopWithElapsed reason ms =>
      exact hend.stop clock x revision reason ms (report_eq_capacity hperform)
    | _ => exact absurd hop (by simp [Op.ending, InvestigationTransition.stopping])
  | _ => exact absurd hop (by simp [Op.ending])

/-- The sample leaves 3,540 bytes, and can be cancelled while it is prepared. -/
theorem always_endable_preparing :
    (((machine (Sample.env Sample.intent)).exec Sample.empty Sample.begun).tasks.find?
        Sample.taskId).map (fun row => row.record.phase) = some .preparing
    ∧ (((machine (Sample.env Sample.intent)).exec Sample.empty Sample.begun).step
        (Sample.env Sample.intent) (.cancelInvestigation Sample.clock Sample.taskId)).2
      ≠ .error (.task .capacity) := by
  obtain ⟨row, hrow, hfields⟩ := Option.map_eq_some_iff.mp Sample.begun_row.1
  refine ⟨Option.map_eq_some_iff.mpr ⟨row, hrow, congrArg Prod.fst hfields⟩,
    always_endable Sample.empty_initial
    (Machine.steps_exec (M := machine (Sample.env Sample.intent)) fun _ _ _ => trivial) ?_ rfl⟩
  intro e he clock request offered conversation investigation hop _
  simp only [Sample.begun, Machine.trace, List.mem_cons, List.not_mem_nil, or_false] at he
  rcases he with rfl | rfl
  · obtain ⟨rfl, rfl, rfl, rfl, rfl⟩ := Op.startInvestigation.inj hop
    exact .inr (.inl (by decide))
  · exact absurd hop (by simp [Sample.claim])

/-! ### A task without room -/

theorem machine_step (env : Env) (s : Store) (op : Op) : (machine env).step s op = s.step env op :=
  rfl

theorem step_startInvestigation {s s' : Store} {request : StartInvestigationRequest}
    {offered : Option InvestigationProvider} {conversation investigation : Token}
    {start : InvestigationStart}
    (h : s.startInvestigation env clock request offered conversation investigation
      = .ok (start, s')) :
    s.step env (.startInvestigation clock request offered conversation investigation)
      = (s', .ok (.started start)) :=
  transact_ok.mpr (report_eq_ok.mpr ⟨start, h, rfl⟩)

theorem step_cancelInvestigation_error {e : InvestigationStoreError}
    (h : s.cancelTask env clock id = .error e) :
    s.step env (.cancelInvestigation clock id) = (s, .error (.task e)) := by
  refine transact_error.mpr ⟨?_, rfl⟩
  rw [Store.perform, Store.cancelInvestigation, h]
  rfl

end

namespace Sample

/-- A question of 594 bytes that takes 3,544 in the summary. -/
def longQuestion : String := String.ofList (List.replicate 590 '\x01') ++ "Why?"

def longRequest : StartInvestigationRequest := { request with question := longQuestion }

/-- The intent hash of `longRequest`. -/
def longIntent : Hash :=
  ⟨"9b8e13ec9f6cd4ceccb6baa3a35d63d2cc54b49ce0f42ee8a8c4e4ad47e67cea", by decide +kernel⟩

def longStart : Op :=
  .startInvestigation clock longRequest (some (provider .cloud)) owner investigation

/-- The task and its first event. -/
def longDraft : Draft :=
  startDraft (env longIntent) clock empty longRequest (provider .cloud) longIntent.text owner
    investigation

theorem text_longQuestion : text longQuestion MAX_QUESTION_BYTES = true := by
  have hlist : longQuestion.toList = List.replicate 590 '\x01' ++ "Why?".toList := by
    exact String.toList_append.trans (congrArg (· ++ "Why?".toList) String.toList_ofList)
  rw [text, hlist]
  decide +kernel

theorem unredacted_longQuestion : unredacted (env longIntent) longQuestion MAX_QUESTION_BYTES = true := by
  have hok : redactedHistoryText (env longIntent) longQuestion MAX_QUESTION_BYTES
      = .ok longQuestion := by
    simp only [redactedHistoryText, bind_eq_ok, ensure_eq_ok, pure_eq_ok]
    exact ⟨(), ⟨text_longQuestion, by decide⟩, (), text_longQuestion, rfl⟩
  rw [unredacted, hok]
  exact beq_self_eq_true _

/-- Another question, for the checks that do not look at it. -/
def asking (question : String) (t : StoredTask) : StoredTask :=
  { t with detail := { t.detail with summary := { t.detail.summary with question := question } } }

theorem validFields_asking {env : Env} {t : StoredTask} (question : String)
    (hquestion : unredacted env t.detail.summary.question MAX_QUESTION_BYTES = true)
    (h : validFields env (asking question t)) : validFields env t := by
  obtain ⟨h1, h2, h3, h4, h5, h6, h7, h8, h9, h10, h11, h12, -, hrest⟩ := h
  exact ⟨h1, h2, h3, h4, h5, h6, h7, h8, h9, h10, h11, h12, hquestion, hrest⟩

def longTask : StoredTask :=
  newTask (env longIntent) clock empty longRequest (provider .cloud) longIntent.text owner
    investigation

/-- The draft of the cancellation, whose summary is three bytes too long. -/
def longCancelled : Draft := longDraft.cancelledBy clock

theorem records_long : ∀ t ∈ [longTask, longDraft.task, longCancelled.task],
    validFields (env longIntent) (asking "Why?" t)
    ∧ validateProvider (env longIntent) t.detail.provider = .ok ()
    ∧ validateUsage t.detail.usage t.detail.limits = .ok () ∧ validStatus t = true
    ∧ (t.detail.summary.hasResult = true ↔ t.detail.summary.status = .completed)
    ∧ validExecution t = true ∧ validatePending t.pending = .ok () ∧ validPresence t := by
  decide

theorem sizes_long :
    longRequest.toJson.size ≤ 8 * 1024
    ∧ longTask.detail.summary.toJson.size ≤ 4096
    ∧ longDraft.task.detail.summary.toJson.size ≤ 4096
    ∧ ¬ longCancelled.task.detail.summary.toJson.size ≤ 4096
    ∧ longTask.toJson.size ≤ MAX_RECORD_BYTES ∧ longDraft.task.toJson.size ≤ MAX_RECORD_BYTES
    ∧ decodable longDraft.task.toJson = true
    ∧ ((insertedRow empty longTask).saved longDraft).bytes taskId ≤ TASK_CAPACITY - TERMINAL_RESERVE
    ∧ (longTask.eventRow (clock 1) .created none none "Investigation created.").toJson.size
      ≤ 16 * 1024
    ∧ (((cancelRequested longDraft.task).bumped (clock 0)).eventRow (clock 1) .cancelRequested none
        none "Cancellation requested; outstanding provider work retains its execution lease."
        ).toJson.size ≤ 16 * 1024 := by
  decide +kernel

theorem validate_longRequest : longRequest.validate = .ok () := by
  simp only [StartInvestigationRequest.validate, bind_eq_ok, ensure_eq_ok]
  exact ⟨(), rfl, (), ⟨rfl, text_longQuestion, by decide, rfl, rfl, rfl, rfl, by decide⟩,
    sizes_long.1⟩

theorem validTask_long (ht : t ∈ [longTask, longDraft.task, longCancelled.task])
    (hquestion : t.detail.summary.question = longQuestion) (hscope : t.detail.summary.scope = .all)
    (hsummary : t.detail.summary.toJson.size ≤ 4096) : ValidTask (env longIntent) t := by
  obtain ⟨hfields, hprovider, husage, hstatus, hresult, hexecution, hpending, hpresence⟩ :=
    records_long t ht
  have hunredacted : unredacted (env longIntent) t.detail.summary.question MAX_QUESTION_BYTES
      = true := by
    rw [hquestion]
    exact unredacted_longQuestion
  have hvalidscope : t.detail.summary.scope.validate = .ok () := by
    rw [hscope]
    rfl
  exact ⟨validFields_asking "Why?" hunredacted hfields, hvalidscope, hprovider, husage, hstatus,
    hresult, hexecution, hpending, hpresence, hsummary⟩

theorem validTask_longTask : ValidTask (env longIntent) longTask :=
  validTask_long (by simp) rfl rfl sizes_long.2.1

theorem validTask_longDraft : ValidTask (env longIntent) longDraft.task :=
  validTask_long (by simp) rfl rfl sizes_long.2.2.1

/-- With its conversation and its job, before the task. -/
def longJob : Store :=
  { empty with
    jobs := longDraft.jobs, jobSeq := 1, attempts := empty.attempts.put 1 .unclaimed
    conversations := empty.conversations.put ("conversation:" ++ owner.text) (clock 0).text }

def longInserted : Store :=
  { longJob with tasks := empty.tasks.put taskId (insertedRow empty longTask), taskSeq := 1 }

theorem insertTask_long : longJob.insertTask (env longIntent) longTask = .ok longInserted := by
  simp only [Store.insertTask, encode, signed, bind_eq_ok, ensure_eq_ok, pure_eq_ok]
  exact ⟨(), validateTask_eq_ok.mpr validTask_longTask, (), sizes_long.2.2.2.2.1, (), by decide, (),
    ⟨rfl, fun r hr => absurd hr (by simp [longJob, empty, Table.empty]), by decide⟩, rfl⟩

/-- The store after the start. -/
def longStore : Store :=
  { longInserted with
    tasks := longInserted.tasks.put taskId ((insertedRow empty longTask).saved longDraft) }

theorem saveTask_long : longInserted.saveTask (env longIntent) longDraft 0 true = .ok longStore := by
  obtain ⟨-, -, -, -, -, hrecord, -, hbytes, -⟩ := sizes_long
  have hroom : TASK_CAPACITY - TERMINAL_RESERVE ≤ TASK_CAPACITY := by decide
  simp only [Store.saveTask, encode, signed, checkTaskCapacity, bind_eq_ok, ensure_eq_ok,
    orFail_eq_ok, pure_eq_ok]
  exact ⟨(), validateTask_eq_ok.mpr validTask_longDraft, (), hrecord, (), by decide, (),
    by decide, insertedRow empty longTask, Table.find?_put _ _ _ _, (), rfl, (), hbytes.trans hroom,
    rfl⟩

theorem createTask_long :
    empty.createTask (env longIntent) clock longRequest (provider .cloud) longIntent.text owner
      investigation = .ok (longDraft.task.detail, longStore) := by
  obtain ⟨-, -, -, -, -, -, -, hbytes, hcreated, -⟩ := sizes_long
  have hcapacity : empty.checkStartCapacity true = .ok () := ensure_eq_ok.mpr (by decide)
  have hquestion : redactedHistoryText (env longIntent) longQuestion MAX_QUESTION_BYTES
      = .ok longQuestion := by
    simp only [redactedHistoryText, bind_eq_ok, ensure_eq_ok, pure_eq_ok]
    exact ⟨(), ⟨text_longQuestion, by decide⟩, (), text_longQuestion, rfl⟩
  have hevent : event (clock 1) ⟨longTask, .empty, longInserted.jobs⟩ .created none none
      "Investigation created." = .ok longDraft := by
    refine event_eq_ok.mpr ⟨⟨by decide, rfl⟩, hcreated, rfl⟩
  have hfits : checkTaskCapacity ((insertedRow empty longTask).saved longDraft) taskId false
      = .ok () := ensure_eq_ok.mpr hbytes
  have hprovider : validateProvider (env longIntent) (provider .cloud) = .ok () :=
    (records_long longTask (by simp)).2.1
  simp only [Store.createTask, bind_eq_ok, admitted_eq_ok, orFail_eq_ok, pure_eq_ok, Prod.exists]
  exact ⟨(), hprovider, (), hcapacity, "conversation:" ++ owner.text, rfl, (), rfl,
    _, rfl, 1, longJob, rfl, longQuestion, hquestion, longInserted, insertTask_long, longDraft, hevent,
    longStore, saveTask_long, _, Table.find?_put _ _ _ _, (), hfits, rfl⟩

theorem step_longStart :
    (machine (env longIntent)).step empty longStart
      = (longStore, .ok (.started ⟨longDraft.task.detail, true⟩)) := by
  have hstart : empty.startInvestigation (env longIntent) clock longRequest
      (some (provider .cloud)) owner investigation
      = .ok (⟨longDraft.task.detail, true⟩, longStore) := by
    refine bind_eq_ok.mpr ⟨(), admitted_eq_ok.mpr validate_longRequest, ?_⟩
    refine bind_eq_ok.mpr ⟨longIntent.text, admitted_eq_ok.mpr ?_, ?_⟩
    · refine bind_eq_ok.mpr ⟨(), validate_longRequest, bind_eq_ok.mpr
        ⟨longRequest.toJson.render, ?_, rfl⟩⟩
      exact bind_eq_ok.mpr ⟨(), ensure_eq_ok.mpr sizes_long.1, rfl⟩
    · exact bind_eq_ok.mpr ⟨provider .cloud, rfl, bind_eq_ok.mpr ⟨_, createTask_long, rfl⟩⟩
  exact (machine_step _ _ _).trans (step_startInvestigation hstart)

theorem loadTask_long : longStore.loadTask (env longIntent) taskId
    = .ok ((insertedRow empty longTask).saved longDraft) := by
  obtain ⟨-, -, -, -, -, -, hdecodable, -⟩ := sizes_long
  simp only [Store.loadTask, signed, bind_eq_ok, ensure_eq_ok, orFail_eq_ok, pure_eq_ok]
  exact ⟨(), by decide, _, Table.find?_put _ _ _ _, (), ⟨by decide, by decide, hdecodable⟩, (),
    validateTask_eq_ok.mpr validTask_longDraft, (), by decide, (), by decide, rfl⟩

theorem validateTask_longCancelled :
    validateTask (env longIntent) longCancelled.task = .error .capacity := by
  obtain ⟨hfields, hprovider, husage, hstatus, hresult, hexecution, hpending, hpresence⟩ :=
    records_long longCancelled.task (by simp)
  refine bind_eq_error.mpr (.inr ⟨(), ensure_eq_ok.mpr ?_, ?_⟩)
  · exact validFields_asking "Why?" unredacted_longQuestion hfields
  refine bind_eq_error.mpr (.inr ⟨(), rfl, ?_⟩)
  refine bind_eq_error.mpr (.inr ⟨(), hprovider, ?_⟩)
  refine bind_eq_error.mpr (.inr ⟨(), husage, ?_⟩)
  refine bind_eq_error.mpr (.inr ⟨(), ensure_eq_ok.mpr ⟨hstatus, hresult⟩, ?_⟩)
  refine bind_eq_error.mpr (.inr ⟨(), ensure_eq_ok.mpr hexecution, ?_⟩)
  refine bind_eq_error.mpr (.inr ⟨(), hpending, ?_⟩)
  refine bind_eq_error.mpr (.inr ⟨(), ensure_eq_ok.mpr hpresence, ?_⟩)
  exact ensure_eq_error.mpr ⟨sizes_long.2.2.2.1, rfl⟩

theorem cancelTask_long :
    longStore.cancelTask (env longIntent) clock taskId = .error .capacity := by
  have hnote : requestCancel clock (((insertedRow empty longTask).saved longDraft).draft
      longStore.jobs) = .ok longCancelled := by
    obtain ⟨-, -, -, -, -, -, -, -, -, hcancelled⟩ := sizes_long
    exact bind_eq_ok.mpr ⟨_, note_eq_ok.mpr ⟨by decide, ⟨by decide, by decide⟩, hcancelled, rfl⟩,
      rfl⟩
  refine bind_eq_error.mpr (.inr ⟨_, loadTask_long, ?_⟩)
  rw [if_pos (by decide)]
  refine bind_eq_error.mpr (.inr ⟨longCancelled, hnote, ?_⟩)
  refine bind_eq_error.mpr (.inl ?_)
  exact bind_eq_error.mpr (.inl validateTask_longCancelled)

end Sample

/-- The summary of this task takes its 4,096 bytes to the last one.  `cancelled` is three
letters longer than `queued`, and so the task cannot be cancelled. -/
theorem cancel_without_room :
    ∃ s, (machine (Sample.env Sample.longIntent)).Reachable s
      ∧ (s.tasks.find? Sample.taskId).map (fun row => (row.record.phase,
          row.record.detail.summary.cancelRequested)) = some (.queued, false)
      ∧ (s.step (Sample.env Sample.longIntent)
          (.cancelInvestigation Sample.clock Sample.taskId)).2 = .error (.task .capacity) := by
  refine ⟨Sample.longStore, ⟨Sample.empty, _, Sample.empty_initial,
    Machine.Steps.refl.snoc trivial Sample.step_longStart⟩, ?_, ?_⟩
  · rw [show Sample.longStore.tasks.find? Sample.taskId = some _ from Table.find?_put _ _ _ _]
    rfl
  · rw [step_cancelInvestigation_error Sample.cancelTask_long]

end Jobs

/-
The exit of a worker settles its task.

Of the reasons a worker stops for, one is admitted in one phase only: that the outcome of
a call is unknown.  It is raised between the invocation and the admission of its answer,
and during that time nobody else changes the phase.  A stop that finds the task changed
is tried again, and what the others can change wears out (`Jobs.remaining`).

* `meets_checkNewWork`, `meets_transition` and so on — one triple for each routine of the loop;
* `meets_execute` — the loop ends the task or leaves a failure that can be stopped for;
* `meets_stop` — the stop of such a failure ends the task within its three attempts;
* `worker_settles` — the run as a whole.
-/
import Cartograph.Specialist.Loop

namespace Specialist

open Jobs Investigation Comp

section Conditions

variable (w : Worker)

/-! ### Conditions on the store -/

/-- The task of the worker, in its hands. -/
def Worker.Holds (s : Store) : Prop := Owned w.env w.execution w.id s

/-- The row of the task. -/
abbrev Worker.Row (s : Store) (row : TaskRow) : Prop := OwnedRow w.env w.execution w.id s row

def Worker.AtPhase (phase : Phase) (s : Store) : Prop :=
  ∃ row, w.Row s row ∧ row.record.phase = phase

/-- An outstanding invocation. -/
def Worker.Invoked (s : Store) : Prop := w.Holds s ∧ w.AtPhase .invocation s

def Worker.Ended (s : Store) : Prop := w.AtPhase .terminal s

/-- The others can raise the revision fewer than `n` times. -/
def Worker.Left (n : ℕ) (s : Store) : Prop := ∃ row, w.Row s row ∧ remaining row.record < n

/-- A detail the worker has read, with what the others have done since. -/
def Worker.Seen (d : InvestigationDetail) (n : ℕ) (s : Store) : Prop :=
  ∃ (t : StoredTask) (row : TaskRow), w.Row s row ∧ Yields t row.record ∧ t.detail = d
    ∧ ValidTask w.env t ∧ remaining t < n

/-- What a failure leaves behind: it can be stopped for. -/
structure Worker.Leaves (f : Failure) (s : Store) : Prop where
  holds : w.Holds s
  settled : f = .alreadyTerminal → w.Ended s
  unknown : f.reason = some .outcomeUnknown → w.Invoked s
  attempts : f ≠ .attemptsExhausted

end Conditions

variable {s s' : Store} {row : TaskRow} {n revision : ℕ} {d : InvestigationDetail}
  {E : InvestigationStoreError → Store → Prop} {transition : InvestigationTransition}

section Conditions

variable {w : Worker}

abbrev Worker.Around (w : Worker) : Store → Store → Prop := Others w.env w.execution w.id

theorem Worker.Row.unique {row' : TaskRow} (h : w.Row s row) (h' : w.Row s row') :
    row = row' := Option.some.inj (h.stored.symm.trans h'.stored)

theorem holds_stable : Stable w.Around w.Holds := fun _ _ h hothers => owned_others h hothers

theorem Worker.Holds.around (h : w.Holds s) (hothers : w.Around s s') (hrow : w.Row s row) :
    ∃ row', w.Row s' row' ∧ Yields row.record row'.record := by
  obtain ⟨row', hrow'⟩ := (owned_others h hothers).row
  exact ⟨row', hrow', foreign_yields h hothers hrow hrow'⟩

theorem invoked_stable : Stable w.Around w.Invoked := by
  rintro s s' ⟨h, row, hrow, hphase⟩ hothers
  obtain ⟨row', hrow', hyields⟩ := h.around hothers hrow
  refine ⟨holds_stable s s' h hothers, row', hrow', ?_⟩
  rw [hyields.phase_eq (by simp [hphase]), hphase]

theorem left_stable : Stable w.Around fun s => w.Holds s ∧ w.Left n s := by
  rintro s s' ⟨h, row, hrow, hleft⟩ hothers
  obtain ⟨row', hrow', hyields⟩ := h.around hothers hrow
  exact ⟨holds_stable s s' h hothers, row', hrow', hyields.remaining_le.trans_lt hleft⟩

theorem seen_stable :
    Stable w.Around fun s => w.Holds s ∧ w.Seen d n s := by
  rintro s s' ⟨h, t, row, hrow, hyields, hdetail, hvalid, hleft⟩ hothers
  obtain ⟨row', hrow', hyields'⟩ := h.around hothers hrow
  exact ⟨holds_stable s s' h hothers, t, row', hrow', hyields.trans hyields', hdetail, hvalid, hleft⟩

theorem terminal_iff {env : Env} {t : StoredTask} (h : ValidTask env t) :
    terminal t.detail.summary.status = true ↔ t.phase = .terminal := by
  have hstatus := h.status
  unfold validStatus at hstatus
  cases hphase : t.phase <;> simp only [hphase] at hstatus
  case terminal =>
    refine ⟨fun _ => rfl, fun _ => ?_⟩
    cases hs : t.detail.summary.status <;> simp_all [terminal]
  all_goals
    simp only [Bool.and_eq_true, beq_iff_eq] at hstatus
    simp_all [terminal]

end Conditions

/-! ### Failures -/

/-- A failure that is no reason to doubt the outcome of a call. -/
structure Mild (f : Failure) : Prop where
  settled : f ≠ .alreadyTerminal
  unknown : f.reason ≠ some .outcomeUnknown
  attempts : f ≠ .attemptsExhausted

theorem mild_host (e : HostError) : Mild (.host e) := by
  refine ⟨by simp, ?_, by simp⟩
  cases e <;> simp [Failure.reason]

theorem mild_store (e : InvestigationStoreError) : Mild (.store e) := by
  refine ⟨by simp, ?_, by simp⟩
  cases e <;> simp [Failure.reason]

variable {reason : InvestigationStopReason}

theorem mild_stop (h : reason ≠ .outcomeUnknown) :
    Mild (.stop reason) := ⟨by simp, by simpa [Failure.reason] using h, by simp⟩

theorem mild_notSent (code : FailureCode) : Mild (providerFailure (notSent code)) := by
  refine mild_stop ?_
  cases code <;> simp [notSent]

section Rules

variable {w : Worker} {α : Type} {P : Store → Prop} {Q : α → Store → Prop} {f : Failure}

theorem Mild.leaves (h : Mild f) (hs : w.Holds s) : w.Leaves f s :=
  ⟨hs, fun hf => absurd hf h.settled, fun hf => absurd hf h.unknown, h.attempts⟩

theorem meets_fail_mild (h : Mild f) (hP : ∀ s, P s → w.Holds s) :
    Meets P (fail f : Comp Store Failure α) Q w.Leaves :=
  meets_fail fun s hs => h.leaves (hP s hs)

theorem meets_check_mild {p : Prop} [Decidable p] (h : Mild f) (hP : ∀ s, P s → w.Holds s) :
    Meets P (check p f) (fun _ => P) w.Leaves:=
  meets_check (fun _ _ hs => hs) fun _ s hs => h.leaves (hP s hs)

theorem meets_outside_mild {p : Except Failure α → Prop} (h : ∀ e, p (.error e) → Mild e)
    (hP : ∀ s, P s → w.Holds s) : Meets P (outside p) (fun _ => P) w.Leaves :=
  meets_outside (fun _ _ _ hs => hs) fun e s he hs => (h e he).leaves (hP s hs)

section

variable (hP : ∀ s, P s → w.Holds s)
include hP

theorem meets_host :
    Meets P (host : Comp Store Failure α) (fun _ => P) w.Leaves := by
  refine meets_outside_mild ?_ hP
  intro e he
  obtain ⟨h, rfl⟩ := he e rfl
  exact mild_host h

theorem meets_lock : Meets P lock (fun _ => P) w.Leaves := by
  refine meets_outside_mild ?_ hP
  rintro e (he | he)
  · exact absurd he (by simp)
  · obtain rfl := Except.error.inj he
    exact mild_host _

theorem meets_deadline : Meets P deadline (fun _ => P) w.Leaves := by
  refine meets_outside_mild ?_ hP
  rintro e (he | he)
  · exact absurd he (by simp)
  · obtain rfl := Except.error.inj he
    exact mild_host _

theorem meets_admissible :
    Meets P (admissible : Comp Store Failure α) (fun _ => P) w.Leaves := by
  refine meets_outside_mild ?_ hP
  intro e he
  rw [he e rfl]
  exact mild_stop (by simp)

theorem meets_undispatched :
    Meets P (undispatched : Comp Store Failure α) (fun _ => P) w.Leaves := by
  refine meets_outside_mild ?_ hP
  intro e he
  obtain ⟨code, rfl⟩ := he e rfl
  exact mild_notSent code

end

end Rules

/-! ### Reads -/

section Reads

variable {w : Worker} {P : Store → Prop}

section

variable (hstable : Stable w.Around P)
include hstable

theorem meets_read {α : Type} {f : Store → Except InvestigationStoreError α}
    (hP : ∀ s, P s → w.Holds s) :
    Meets P ((w.read f).mapError .store) (fun _ => P) w.Leaves := by
  refine meets_mapError (meets_atomic hstable ?_ ?_)
  · intro s a s' hs hf
    rw [← (Prod.mk.inj hf).1]
    exact hs
  · intro s e s' hs hf
    rw [← (Prod.mk.inj hf).1]
    exact (mild_store e).leaves (hP s hs)

theorem meets_investigation (hP : ∀ s, P s → w.Holds s) :
    Meets P (w.investigation w.id)
      (fun d s => P s ∧ ∃ row, w.Row s row ∧ row.record.detail = d) E := by
  refine meets_atomic hstable ?_ ?_
  · intro s d s' hs hf
    obtain ⟨rfl, hload⟩ := Prod.mk.inj hf
    obtain ⟨row, hload, hdetail⟩ := Checked.bind_eq_ok.mp hload
    obtain ⟨row', hrow⟩ := (hP s hs).row
    obtain rfl : row' = row := Except.ok.inj (hrow.loadTask.symm.trans hload)
    exact ⟨hs, row', hrow, Checked.pure_eq_ok.mp hdetail⟩
  · intro s e s' hs hf
    obtain ⟨-, hload⟩ := Prod.mk.inj hf
    obtain ⟨row, hrow⟩ := (hP s hs).row
    rcases Checked.bind_eq_error.mp hload with hload | ⟨_, -, hp⟩
    · exact absurd (hrow.loadTask.symm.trans hload) (by simp)
    · exact absurd hp Checked.pure_ne_error

theorem meets_checkExecution {ε : Type} {E : ε → Store → Prop} :
    Meets P w.checkExecution (fun _ => P) E := by
  refine meets_atomic hstable ?_ ?_
  · intro s a s' hs hf
    rw [← (Prod.mk.inj hf).1]
    exact hs
  · intro s e s' _ hf
    exact absurd (Prod.mk.inj hf).2 (by simp)

end

theorem meets_check_terminal (hP : ∀ s, P s → w.Holds s) (d : InvestigationDetail) :
    Meets (fun s => P s ∧ ∃ row, w.Row s row ∧ row.record.detail = d)
      (check (terminal d.summary.status = false) .alreadyTerminal) (fun _ => P) w.Leaves := by
  refine meets_check (fun _ s hs => hs.1) ?_
  rintro hterminal s ⟨hs, row, hrow, rfl⟩
  refine ⟨hP s hs, fun _ => ⟨row, hrow, ?_⟩, by simp [Failure.reason], by simp⟩
  exact (terminal_iff hrow.sound.valid).mp (by simpa using hterminal)

theorem meets_checkNewWork (hstable : Stable w.Around P) (hP : ∀ s, P s → w.Holds s) :
    Meets P w.checkNewWork (fun _ => P) w.Leaves := by
  refine meets_bind (meets_deadline hP) fun _ => meets_bind (meets_lock hP) fun _ => ?_
  refine meets_bind (meets_mapError (meets_investigation hstable hP)) fun d => ?_
  refine meets_bind (meets_check_mild (mild_stop (by simp)) fun s hs => hP s hs.1) fun _ => ?_
  refine meets_bind (meets_check_terminal hP d) fun _ => ?_
  refine meets_bind (meets_checkExecution hstable) fun checked => ?_
  split_ifs
  · -- cancelled, or not the worker's any more
    split <;> exact meets_fail_mild (mild_stop (by simp)) hP
  · refine meets_bind (meets_check_mild (mild_stop (by simp)) hP) fun _ => ?_
    exact meets_pure fun _ hs => hs

end Reads

/-! ### Transitions -/

variable {P : Store → Prop}

section Transitions

variable {w : Worker} {detail : InvestigationDetail}

theorem holds_advanced {clock : Clock} (h : w.Holds s)
    (hadvance : s.advanceInvestigation w.env clock w.execution revision transition
      = .ok (detail, s')) : w.Holds s' := by
  have hstep : s.step w.env (.advanceInvestigation clock w.execution revision transition)
      = (s', .ok (.detail detail)) :=
    Checked.transact_ok.mpr (report_eq_ok.mpr ⟨detail, hadvance, rfl⟩)
  have hallows : s.workerAllows (.advanceInvestigation clock w.execution revision transition) :=
    trivial
  exact owned_step h hallows hstep

theorem row_advanced {clock : Clock} (h : w.Holds s)
    (hadvance : s.advanceInvestigation w.env clock w.execution revision transition
      = .ok (detail, s')) :
    ∃ row d, w.Row s row ∧ Move w.env clock (row.draft s.jobs) (.advance transition) d
      ∧ w.Row s' (row.saved d) := by
  obtain ⟨id, hid, row, d, terminal, hload, hmove, -, -, rfl⟩ := advanceInvestigation_ok hadvance
  obtain rfl : id = w.id := Option.some.inj (hid.symm.trans h.taskIdForJob)
  obtain ⟨row0, hrow0⟩ := h.row
  obtain rfl : row = row0 := Option.some.inj (hload.stored.symm.trans hrow0.stored)
  obtain ⟨row', hrow'⟩ := (holds_advanced h hadvance).row
  obtain rfl : row' = row.saved d := by
    have hstored := hrow'.stored
    rw [Table.find?_put, if_pos rfl] at hstored
    exact (Option.some.inj hstored).symm
  exact ⟨row, d, hrow0, hmove, hrow'⟩

/-- **Rule of transitions**, for whatever is known of the store before. -/
theorem meets_advance {Q : InvestigationDetail → Store → Prop}
    (hstable : Stable w.Around P) (hok : ∀ s s' clock detail, P s →
      s.advanceInvestigation w.env clock w.execution revision transition = .ok (detail, s') →
      Q detail s') (herror : ∀ s clock e, P s →
      s.advanceInvestigation w.env clock w.execution revision transition = .error e → E e s) :
    Meets P (w.advanceInvestigation revision transition) Q E := by
  refine meets_bind (meets_any fun _ _ hs => hs) fun clock => meets_atomic hstable ?_ ?_
  · intro s detail s' hs hf
    exact hok s s' clock detail hs (Checked.transact_ok.mp hf)
  · intro s e s' hs hf
    obtain ⟨hadvance, rfl⟩ := Checked.transact_error.mp hf
    exact herror s' clock e hs hadvance

theorem meets_transition (detail : InvestigationDetail) (transition : InvestigationTransition) :
    Meets w.Holds (w.transition detail transition) (fun _ => w.Holds) w.Leaves := by
  refine meets_bind (meets_lock fun _ hs => hs) fun _ => meets_mapError ?_
  refine meets_advance holds_stable ?_ ?_
  · exact fun s s' clock detail' hs hadvance => holds_advanced hs hadvance
  · exact fun s clock e hs _ => (mild_store e).leaves hs

theorem meets_beginInvocation (detail : InvestigationDetail) (step : PendingInvestigationStep) :
    Meets w.Holds (w.transition detail (.beginInvocation step)) (fun _ => w.Invoked) w.Leaves := by
  refine meets_bind (meets_lock fun _ hs => hs) fun _ => meets_mapError ?_
  refine meets_advance holds_stable ?_ ?_
  · intro s s' clock detail' hs hadvance
    obtain ⟨row, d, -, hmove, hrow'⟩ := row_advanced hs hadvance
    refine ⟨holds_advanced hs hadvance, row.saved d, hrow', ?_⟩
    cases hmove with
    | beginInvocation => rfl
  · exact fun s clock e hs _ => (mild_store e).leaves hs

end Transitions

/-! ### Before a call -/

section Preparation

variable {w : Worker}

theorem meets_parentHistory : Meets w.Holds w.parentHistory (fun _ => w.Holds) w.Leaves := by
  have hP : ∀ s, w.Holds s → w.Holds s := fun _ hs => hs
  unfold Worker.parentHistory
  cases w.request.parentId with
  | none => exact meets_pure fun _ hs => hs
  | some parentId =>
    refine meets_bind (meets_lock hP) fun _ => meets_bind (meets_read holds_stable hP) fun _ => ?_
    refine meets_bind (meets_check_mild (mild_stop (by simp)) hP) fun _ => ?_
    exact meets_bind (meets_read holds_stable hP) fun _ => meets_host hP

theorem meets_descriptor (hP : ∀ s, P s → w.Holds s) :
    Meets P w.descriptor (fun _ => P) w.Leaves := by
  unfold Worker.descriptor
  cases w.provider.boundedProfile with
  | error _ => exact meets_fail_mild (mild_host _) hP
  | ok profile =>
    refine meets_bind (meets_check_mild (mild_host _) hP) fun _ => ?_
    refine meets_bind (meets_check_mild (mild_host _) hP) fun _ => ?_
    exact meets_pure fun _ hs => hs

theorem meets_prepareBounded (hP : ∀ s, P s → w.Holds s) :
    Meets P w.prepareBounded (fun _ => P) w.Leaves := by
  unfold Worker.prepareBounded
  cases w.provider.boundedProfile with
  | error code => exact meets_fail_mild (mild_notSent code) hP
  | ok profile =>
    exact meets_bind (meets_undispatched hP) fun _ => meets_pure fun _ hs => hs

theorem meets_authorizeBounded (prepared : PreparedBoundedCompletion)
    (hP : ∀ s, P s → w.Holds s) : Meets P (w.authorizeBounded prepared) (fun _ => P) w.Leaves := by
  unfold Worker.authorizeBounded
  cases w.provider.boundedProfile with
  | error code => exact meets_fail_mild (mild_notSent code) hP
  | ok profile =>
    exact meets_bind (meets_check_mild (mild_notSent _) hP) fun _ => meets_undispatched hP

theorem meets_pendingStep (detail : InvestigationDetail) (ledger : InvestigationInputLedger)
    (prepared : PreparedBoundedCompletion) (inputBytes : ℕ) (hP : ∀ s, P s → w.Holds s) :
    Meets P (w.pendingStep detail ledger prepared inputBytes) (fun _ => P) w.Leaves := by
  constructor
  · rintro s step s' hs ⟨rfl, -⟩
    exact hs
  · rintro s e s' hs ⟨rfl, hfail⟩
    split at hfail
    · obtain rfl := Except.error.inj hfail
      exact (mild_host _).leaves (hP s' hs)
    · exact absurd hfail (by simp)

theorem meets_awaitRound (step : PendingInvestigationStep) :
    Meets w.Holds (w.awaitRound step) (fun _ => w.Holds) w.Leaves := by
  have hP : ∀ s, w.Holds s → w.Holds s := fun _ hs => hs
  refine meets_bind (meets_any fun _ _ hs => hs) fun _ => ?_
  refine meets_bind (meets_check_mild (mild_stop (by simp)) hP) fun _ => ?_
  refine meets_bind (meets_lock hP) fun _ => ?_
  refine meets_bind (meets_mapError (meets_investigation holds_stable hP)) fun d => ?_
  refine meets_bind (meets_check_terminal hP d) fun _ => ?_
  refine meets_bind (meets_check_mild (mild_stop (by simp)) hP) fun _ => ?_
  refine meets_bind (meets_checkExecution holds_stable) fun _ => ?_
  refine meets_bind (meets_check_mild (mild_stop (by simp)) hP) fun _ => ?_
  refine meets_bind (meets_read holds_stable hP) fun observed => ?_
  split
  · exact meets_fail_mild (mild_stop (by simp)) hP
  · refine meets_bind (meets_check_mild (mild_stop (by simp)) hP) fun _ => ?_
    split_ifs
    · exact meets_pure fun _ hs => hs
    · exact meets_bind (meets_host hP) fun _ => meets_pure fun _ hs => hs

theorem meets_awaitConsent (detail : InvestigationDetail) (step : PendingInvestigationStep) :
    Meets w.Holds (w.awaitConsent detail step) (fun _ => w.Holds) w.Leaves := by
  have hP : ∀ s, w.Holds s → w.Holds s := fun _ hs => hs
  have hround : ∀ _ : Unit, Meets w.Holds (w.awaitRound step)
      (fun r s => Sum.elim (fun _ => w.Holds s) (fun _ => w.Holds s) r) w.Leaves := by
    intro _
    refine (meets_awaitRound step).mono (fun _ hs => hs) ?_ fun _ _ he => he
    rintro (_ | _) s hs
    · exact hs
    · exact hs
  refine meets_bind (meets_any fun _ _ hs => hs) fun _ => ?_
  refine meets_bind (meets_check_mild (mild_stop (by simp)) hP) fun _ => ?_
  refine meets_bind (meets_lock hP) fun _ => ?_
  refine meets_bind (meets_check_mild (mild_host _) hP) fun _ => ?_
  refine meets_bind (meets_check_mild (mild_store _) hP) fun _ => ?_
  refine meets_bind (meets_transition detail _) fun _ => meets_bind (meets_lock hP) fun _ => ?_
  refine meets_bind (meets_onError (meets_iterate hround ()) fun e => ?_) fun _ => ?_
  · -- the preview is cleared after every failure
    refine meets_bind (Q := fun _ => w.Leaves e) (meets_outside (fun _ _ _ hs => hs) ?_) fun _ => ?_
    · rintro e' s (he | he) hs
      · exact absurd he (by simp)
      · obtain rfl := Except.error.inj he
        exact (mild_host _).leaves hs.holds
    · exact meets_fail fun _ hs => hs
  · exact meets_pure fun _ hs => hs

theorem meets_consented (detail : InvestigationDetail) (step : PendingInvestigationStep) :
    Meets w.Holds (w.consented detail step) (fun _ => w.Holds) w.Leaves := by
  unfold Worker.consented
  split_ifs
  · exact meets_awaitConsent detail step
  · exact meets_pure fun _ hs => hs

end Preparation

/-! ### After a call -/

section Completion

variable {w : Worker}

theorem meets_seen (hstable : Stable w.Around P) (hP : ∀ s, P s → w.Holds s ∧ w.Left n s) :
    Meets P (w.investigation w.id)
      (fun d s => P s ∧ (w.Holds s ∧ w.Seen d n s) ∧ ∃ row, w.Row s row ∧ row.record.detail = d)
      E := by
  refine (meets_investigation hstable fun s hs => (hP s hs).1).mono (fun _ hs => hs) ?_
    fun _ _ he => he
  rintro d s ⟨hs, row, hrow, rfl⟩
  obtain ⟨row', hrow', hleft⟩ := (hP s hs).2
  obtain rfl := Worker.Row.unique hrow hrow'
  exact ⟨hs, ⟨(hP s hs).1, row.record, row, hrow, .same rfl, rfl, hrow.sound.valid, hleft⟩, row,
    hrow, rfl⟩

theorem left_of_stale (hseen : w.Seen d (n + 1) s)
    (hsame : ∀ row, w.Row s row → row.record.detail = d → False) : w.Left n s := by
  obtain ⟨t, row, hrow, hyields, rfl, -, hleft⟩ := hseen
  cases hyields with
  | same heq => exact (hsame row hrow (congrArg StoredTask.detail heq)).elim
  | raised _ hrem _ => exact ⟨row, hrow, by omega⟩

theorem detail_of_revision (hseen : w.Seen d n s) (hrow : w.Row s row)
    (hrev : row.record.detail.summary.revision = d.summary.revision) : row.record.detail = d := by
  obtain ⟨t, row', hrow', hyields, rfl, -, -⟩ := hseen
  obtain rfl := Worker.Row.unique hrow hrow'
  rw [hyields.eq_of_revision hrev]

theorem meets_finishOnce (response : InvestigationResponseMeta) (result : InvestigationResult)
    (n : ℕ) :
    Meets (fun s => w.Invoked s ∧ w.Left (n + 1) s) (w.finishOnce response result)
      (fun r s => r.elim (w.Invoked s ∧ w.Left n s) fun _ => w.Ended s) w.Leaves := by
  have hleft : ∀ s, w.Invoked s ∧ w.Left (n + 1) s → w.Holds s ∧ w.Left (n + 1) s :=
    fun _ hs => ⟨hs.1.1, hs.2⟩
  have hstable : Stable w.Around fun s => w.Invoked s ∧ w.Left (n + 1) s := by
    intro s s' hs hothers
    exact ⟨invoked_stable s s' hs.1 hothers, (left_stable s s' (hleft s hs) hothers).2⟩
  refine meets_bind (meets_lock fun s hs => hs.1.1) fun _ => ?_
  refine meets_bind (meets_mapError (meets_seen hstable hleft)) fun d => ?_
  -- the answer of the store, as a value
  have hadvance : Meets (fun s => w.Invoked s ∧ w.Seen d (n + 1) s)
      (w.advanceInvestigation d.summary.revision (.actionAdmitted response none (some result)))
      (fun _ => w.Ended)
      (fun e s => w.Invoked s ∧ (e = .stale → w.Left n s)) := by
    refine meets_advance ?_ ?_ ?_
    · intro s s' hs hothers
      exact ⟨invoked_stable s s' hs.1 hothers, (seen_stable s s' ⟨hs.1.1, hs.2⟩ hothers).2⟩
    · intro s s' clock detail hs hok
      obtain ⟨row, d', -, hmove, hrow'⟩ := row_advanced hs.1.1 hok
      refine ⟨row.saved d', hrow', ?_⟩
      cases hmove with
      | finished => rfl
    · rintro s clock e ⟨⟨hholds, row, hrow, hphase⟩, hseen⟩ herror
      refine ⟨⟨hholds, row, hrow, hphase⟩, ?_⟩
      rintro rfl
      refine left_of_stale hseen ?_
      rintro row' hrow' rfl
      obtain rfl := Worker.Row.unique hrow hrow'
      exact hholds.finish_not_stale hrow hphase clock response result herror
  refine meets_bind (Q := Either (fun _ => w.Ended)
    fun e s => w.Invoked s ∧ (e = .stale → w.Left n s)) ?_ ?_
  · refine meets_result (hadvance.mono ?_ (fun _ _ h => h) fun _ _ h => h)
    exact fun s hs => ⟨hs.1.1, hs.2.1.2⟩
  · rintro (e | detail)
    · cases e
      case stale => exact meets_pure fun s hs => ⟨hs.1, hs.2 rfl⟩
      all_goals
        refine meets_fail fun s hs => ⟨hs.1.1, by simp, fun _ => hs.1, by simp⟩
    · exact meets_pure fun s hs => hs

/-- **The three attempts to admit a result suffice.** -/
theorem meets_admitFinish (response : InvestigationResponseMeta) (result : InvestigationResult) :
    Meets w.Invoked (w.admitFinish response result) (fun _ => w.Ended) w.Leaves := by
  have hattempts := meets_attempts (I := fun n s => w.Invoked s ∧ w.Left n s)
    (Q := fun _ => w.Ended) (E := w.Leaves) (m := w.finishOnce response result) ?_
    (meets_finishOnce response result) 3
  · refine meets_bind (hattempts.mono ?_ (fun _ _ h => h) fun _ _ h => h) ?_
    · rintro s ⟨hholds, row, hrow, hphase⟩
      exact ⟨⟨hholds, row, hrow, hphase⟩, row, hrow, (remaining_le row.record).trans_lt (by omega)⟩
    · rintro (_ | detail)
      · exact ⟨fun s _ _ hs => hs.elim, fun s _ _ hs => hs.elim⟩
      · exact meets_pure fun _ hs => hs
  · rintro s ⟨-, row, -, hlt⟩
    omega

theorem meets_sink (detail : InvestigationDetail) (transition : InvestigationTransition) :
    Meets w.Holds ((w.transition detail transition).mapError acquisitionError) (fun _ => w.Holds)
      (fun _ => w.Holds) :=
  meets_mapError ((meets_transition detail transition).mono (fun _ hs => hs) (fun _ _ hs => hs)
    fun _ _ he => he.holds)

theorem meets_sinkCheck :
    Meets w.Holds (w.checkNewWork.mapError acquisitionError) (fun _ => w.Holds)
      (fun _ => w.Holds) :=
  meets_mapError ((meets_checkNewWork holds_stable fun _ hs => hs).mono (fun _ hs => hs)
    (fun _ _ hs => hs) fun _ _ he => he.holds)

theorem meets_acquire (course : Acquisition) :
    Meets w.Holds (w.acquire course) (fun _ => w.Holds) (fun _ => w.Holds) := by
  induction course with
  | done ledger => exact meets_pure fun _ hs => hs
  | failed error => exact meets_fail fun _ hs => hs
  | reserveValidation bytes next ih =>
    refine meets_bind (meets_bind meets_sinkCheck fun detail => ?_) fun _ => ih
    exact meets_sink detail _
  | publishInput ledger usage next ih =>
    refine meets_bind (meets_bind meets_sinkCheck fun detail => ?_) fun _ => ih
    exact meets_bind (meets_any fun _ _ hs => hs) fun elapsed => meets_sink detail _

theorem meets_useTool (response : InvestigationResponseMeta) (action : InvestigationAction) :
    Meets w.Holds (w.useTool response action) (fun _ => w.Holds) w.Leaves := by
  have hcheck : Meets w.Holds w.checkNewWork (fun _ => w.Holds) w.Leaves :=
    meets_checkNewWork holds_stable fun _ hs => hs
  refine meets_bind hcheck fun detail => ?_
  split
  · exact meets_fail_mild (mild_stop (by simp)) fun _ hs => hs
  · refine meets_bind (meets_transition detail _) fun _ => meets_bind hcheck fun detail => ?_
    refine meets_bind (meets_transition detail _) fun _ => ?_
    refine meets_bind (meets_any fun _ _ hs => hs) fun course => ?_
    refine meets_bind (Q := fun _ => w.Holds) (meets_mapError ?_) fun _ => ?_
    · exact (meets_acquire course).mono (fun _ hs => hs) (fun _ _ hs => hs)
        fun e _ hs => (mild_host e).leaves hs
    · exact meets_bind hcheck fun _ => meets_pure fun _ hs => hs

theorem meets_responseMeta (stepId : String) (completion : BoundedCompletion)
    (hP : ∀ s, P s → w.Holds s) :
    Meets P (responseMeta stepId completion) (fun _ => P) w.Leaves := by
  refine meets_bind (meets_any fun _ _ hs => hs) fun _ => meets_bind (meets_host hP) fun _ => ?_
  exact meets_bind (meets_any fun _ _ hs => hs) fun _ => meets_pure fun _ hs => hs

theorem meets_recordEgress (hP : ∀ s, P s → w.Holds s) :
    Meets P w.recordEgress (fun _ => P) w.Leaves := by
  unfold Worker.recordEgress
  split_ifs
  · exact meets_host hP
  · exact meets_pure fun _ hs => hs

theorem meets_admit (prepared : PreparedBoundedCompletion) (step : PendingInvestigationStep)
    (completion : BoundedCompletion) :
    Meets w.Invoked ( w.admit prepared step completion)
      (fun r s => Sum.elim (fun _ => w.Holds s) (fun _ => w.Ended s) r) w.Leaves := by
  have hP : ∀ s, w.Invoked s → w.Holds s := fun _ hs => hs.1
  refine meets_bind (meets_check_mild (mild_stop (by simp)) hP) fun _ => ?_
  refine meets_bind (meets_recordEgress hP) fun _ => ?_
  refine meets_bind (meets_admissible hP) fun _ => meets_bind (meets_admissible hP) fun action => ?_
  refine meets_bind (meets_responseMeta step.stepId completion hP) fun response => ?_
  split_ifs
  · refine meets_bind (meets_lock hP) fun _ => meets_bind (meets_admissible hP) fun result => ?_
    exact meets_bind (meets_admitFinish response result) fun _ => meets_pure fun _ hs => hs
  · refine meets_bind ((meets_useTool response action).mono hP (fun _ _ hs => hs)
      fun _ _ he => he) fun _ => ?_
    exact meets_pure fun _ hs => hs

theorem meets_completeBounded : Meets w.Invoked completeBounded (fun _ => w.Invoked) w.Leaves := by
  refine meets_outside (fun _ _ _ hs => hs) ?_
  intro e s he hs
  obtain ⟨error, rfl⟩ := he e rfl
  exact ⟨hs.1, by simp [providerFailure], fun _ => hs, by simp [providerFailure]⟩

end Completion

/-! ### The loop -/

section Loop

variable {w : Worker}

theorem meets_round (ledger : InvestigationInputLedger) :
    Meets w.Holds (w.round ledger)
      (fun r s => Sum.elim (fun _ => w.Holds s) (fun _ => w.Ended s) r) w.Leaves := by
  have hP : ∀ s, w.Holds s → w.Holds s := fun _ hs => hs
  have hI : ∀ s, w.Invoked s → w.Holds s := fun _ hs => hs.1
  have hcheck := meets_checkNewWork (w := w) holds_stable hP
  refine meets_bind hcheck fun detail => ?_
  refine meets_bind (meets_check_mild (mild_stop (by simp)) hP) fun _ => ?_
  refine meets_bind (meets_descriptor hP) fun _ => ?_
  refine meets_bind (meets_check_mild (mild_stop (by simp)) hP) fun _ => ?_
  refine meets_bind (meets_host hP) fun inputBytes => meets_bind (meets_lock hP) fun _ => ?_
  refine meets_bind (meets_prepareBounded hP) fun prepared => ?_
  refine meets_bind (meets_pendingStep detail ledger prepared inputBytes hP) fun step => ?_
  refine meets_bind hcheck fun detail => meets_bind (meets_consented detail step) fun _ => ?_
  refine meets_bind hcheck fun _ => meets_bind (meets_lock hP) fun _ => ?_
  refine meets_bind (meets_authorizeBounded prepared hP) fun _ => meets_bind hcheck fun detail => ?_
  refine meets_bind (meets_beginInvocation detail step) fun _ => meets_bind (meets_lock hI) fun _ => ?_
  refine meets_bind (meets_deadline hI) fun _ => meets_bind meets_completeBounded fun completion => ?_
  exact meets_admit prepared step completion

/-- **The loop** ends the task, or leaves a failure it can be stopped for. -/
theorem meets_execute : Meets w.Holds w.execute (fun _ => w.Ended) w.Leaves := by
  have hP : ∀ s, w.Holds s → w.Holds s := fun _ hs => hs
  have hcheck := meets_checkNewWork (w := w) holds_stable hP
  refine meets_bind hcheck fun _ => meets_bind meets_parentHistory fun _ => ?_
  refine meets_bind (meets_host hP) fun ledger => meets_bind hcheck fun detail => ?_
  refine meets_bind (meets_any fun _ _ hs => hs) fun _ => ?_
  refine meets_bind (meets_transition detail _) fun _ => ?_
  exact meets_iterate (I := fun _ => w.Holds) (fun ledger => meets_round ledger) ledger

end Loop

/-! ### The stop -/

variable {E : Empty → Store → Prop}

section Stop

variable {w : Worker}

/-- The reason of a stop is one the phase admits. -/
def Worker.Stoppable (w : Worker) (reason : InvestigationStopReason) (s : Store) : Prop :=
  w.Holds s ∧ (reason = .outcomeUnknown → w.Invoked s)

theorem stoppable_stable :
    Stable w.Around (w.Stoppable reason) :=
  fun s s' hs hothers => ⟨holds_stable s s' hs.1 hothers,
    fun hreason => invoked_stable s s' (hs.2 hreason) hothers⟩

/-- A stop ended, or found the task ended, unless there was no capacity for it. -/
structure Worker.Fine (w : Worker) (settled : Settled) (s : Store) : Prop where
  attempts : settled ≠ .exhausted
  refused : ∀ e, settled = .refused e → e = .capacity
  ended : settled ≠ .refused .capacity → w.Ended s

theorem right_le_max (a b : UInt64) : b ≤ max a b := by
  show b ≤ (if a ≤ b then b else a)
  split_ifs with h
  · exact UInt64.le_refl b
  · exact UInt64.le_of_lt (UInt64.not_le.mp h)

theorem meets_stopOnce (reason : InvestigationStopReason) (elapsed : UInt64) (n : ℕ) :
    Meets (fun s => w.Stoppable reason s ∧ w.Left (n + 1) s) (w.stopOnce reason elapsed)
      (fun _ => w.Ended)
      (fun e s => (e = .stale ∧ w.Stoppable reason s ∧ w.Left n s) ∨ e = .capacity) := by
  have hleft : ∀ s, w.Stoppable reason s ∧ w.Left (n + 1) s → w.Holds s ∧ w.Left (n + 1) s :=
    fun _ hs => ⟨hs.1.1, hs.2⟩
  have hstable : Stable w.Around fun s => w.Stoppable reason s ∧ w.Left (n + 1) s := by
    intro s s' hs hothers
    exact ⟨stoppable_stable s s' hs.1 hothers, (left_stable s s' (hleft s hs) hothers).2⟩
  refine meets_bind (meets_seen hstable hleft) fun d => ?_
  -- a task that has ended by now is settled
  split_ifs with hterminal
  · refine meets_pure ?_
    rintro s ⟨-, -, row, hrow, rfl⟩
    exact ⟨row, hrow, (terminal_iff hrow.sound.valid).mp hterminal⟩
  refine meets_bind (Q := fun _ => w.Ended) ?_ fun _ => meets_pure fun _ hs => hs
  refine Meets.mono (P := fun s => w.Stoppable reason s ∧ w.Seen d (n + 1) s) ?_ ?_
    (fun _ _ h => h) fun _ _ h => h
  · refine meets_advance ?_ ?_ ?_
    · intro s s' hs hothers
      exact ⟨stoppable_stable s s' hs.1 hothers, (seen_stable s s' ⟨hs.1.1, hs.2⟩ hothers).2⟩
    · intro s s' clock detail hs hok
      obtain ⟨row, d', -, hmove, hrow'⟩ := row_advanced hs.1.1 hok
      refine ⟨row.saved d', hrow', ?_⟩
      cases hmove with
      | stopWithElapsed => rfl
    · rintro s clock e ⟨hstoppable, hseen⟩ herror
      obtain ⟨row, hrow⟩ := hstoppable.1.row
      by_cases hrev : row.record.detail.summary.revision = d.summary.revision
      · -- nothing has changed, and the stop fits
        have hdetail := detail_of_revision hseen hrow hrev
        subst hdetail
        refine .inr (hstoppable.1.stop_refused hrow ?_ clock ?_ (right_le_max _ _) herror)
        · exact fun hphase => hterminal ((terminal_iff hrow.sound.valid).mpr hphase)
        · intro hreason
          obtain ⟨-, row', hrow', hphase⟩ := hstoppable.2 hreason
          obtain rfl := Worker.Row.unique hrow hrow'
          exact hphase
      · -- someone else has moved it: one attempt less, and nothing written
        have hstale := hstoppable.1.advance_stale hrow clock hrev
          (.stopWithElapsed reason (max elapsed d.usage.activeMilliseconds))
        obtain rfl : e = .stale := Except.error.inj (herror.symm.trans hstale)
        refine .inl ⟨rfl, hstoppable, left_of_stale hseen ?_⟩
        rintro row' hrow' rfl
        obtain rfl := Worker.Row.unique hrow hrow'
        exact hrev rfl
  · exact fun s hs => ⟨hs.1.1, hs.2.1.2⟩

/-- **The three attempts to stop suffice.** -/
theorem meets_stop (reason : InvestigationStopReason) (elapsed : UInt64) :
    Meets (w.Stoppable reason) (w.stop reason elapsed) w.Fine E := by
  have hattempts := meets_attempts (I := fun n s => w.Stoppable reason s ∧ w.Left n s)
    (Q := w.Fine) (E := E) (m := do
      let attempt ← (w.stopOnce reason elapsed).result
      pure (Settled.ofAttempt attempt)) ?_ ?_ 3
  · refine meets_bind (hattempts.mono ?_ (fun _ _ h => h) fun _ _ h => h) ?_
    · rintro s hs
      obtain ⟨row, hrow⟩ := hs.1.row
      exact ⟨hs, row, hrow, (remaining_le row.record).trans_lt (by omega)⟩
    · rintro (_ | settled)
      · exact ⟨fun s _ _ hs => hs.elim, fun s _ _ hs => hs.elim⟩
      · exact meets_pure fun _ hs => hs
  · rintro s ⟨-, row, -, hlt⟩
    omega
  · intro n
    refine meets_bind (Q := Either (fun _ => w.Ended) fun e s =>
      (e = .stale ∧ w.Stoppable reason s ∧ w.Left n s) ∨ e = .capacity)
      (meets_result (meets_stopOnce reason elapsed n)) ?_
    rintro (e | (_ | detail))
    · refine meets_pure ?_
      rintro s (⟨rfl, hs⟩ | rfl)
      · exact hs
      · exact ⟨by simp, fun e he => (Settled.refused.inj he).symm, fun hne => absurd rfl hne⟩
    · exact meets_pure fun s hs => ⟨by simp, fun e he => absurd he (by simp), fun _ => hs⟩
    · exact meets_pure fun s hs => ⟨by simp, fun e he => absurd he (by simp), fun _ => hs⟩

end Stop

/-! ### The run -/

section Run

variable {w : Worker}

/-- How a run may return. -/
structure Worker.Settles (w : Worker) (exit : Exit) (s : Store) : Prop where
  finish : exit.failure ≠ some .attemptsExhausted
  stop : exit.settled ≠ some .exhausted
  refused : ∀ e, exit.settled = some (.refused e) → e = .capacity
  ended : exit.settled ≠ some (.refused .capacity) → w.Ended s

theorem meets_run : Meets w.Holds w.run w.Settles E := by
  have hP : ∀ s, w.Holds s → w.Holds s := fun _ hs => hs
  have hloop : Meets w.Holds (do
      lock
      let _ ← (w.investigation w.id).mapError .store
      w.execute) (fun _ => w.Ended) w.Leaves := by
    refine meets_bind (meets_lock hP) fun _ => meets_bind (meets_read holds_stable hP) fun _ => ?_
    exact meets_execute
  refine meets_bind (Q := Either (fun _ => w.Ended) w.Leaves) (meets_result hloop) ?_
  rintro (failure | _)
  · cases hreason : failure.reason with
    | none =>
      have hterminal : failure = .alreadyTerminal := by
        cases failure with
        | alreadyTerminal => rfl
        | host e | store e => cases e <;> simp [Failure.reason] at hreason
        | stop reason | attemptsExhausted => simp [Failure.reason] at hreason
      subst hterminal
      refine meets_pure fun s hs => ⟨by simp, by simp, by simp, fun _ => hs.settled rfl⟩
    | some reason =>
      simp only [hreason]
      refine meets_assume (p := failure ≠ .attemptsExhausted) (fun s hs => hs.attempts) fun hne => ?_
      refine meets_bind (Q := fun _ => w.Stoppable reason) (meets_any ?_) fun elapsed => ?_
      · rintro _ s hs
        exact ⟨hs.holds, fun hunknown => hs.unknown (hunknown ▸ hreason)⟩
      refine meets_bind (meets_stop reason elapsed (E := E)) fun settled => meets_pure ?_
      intro s hs
      refine ⟨by simpa using hne, by simpa using hs.attempts, ?_, ?_⟩
      · exact fun e he => hs.refused e (Option.some.inj he)
      · exact fun hcapacity => hs.ended fun heq => hcapacity (congrArg some heq)
  · exact meets_pure fun s hs => ⟨by simp, by simp, by simp, fun _ => hs⟩

end Run

/-- **The exit of a worker settles its task.**  The worker has claimed the job of the task and
holds its lock; whatever the provider and the tools answer and whatever the others do in between,
a run that returns leaves the task ended: no attempts are used up, and only for want of
capacity is a stop refused. -/
theorem worker_settles {w : Worker} {s₀ s s₁ s' : Store} {tr : List Jobs.Event} {clock : Clock}
    {plan : ClaimPlan} {reservation : ExecutionReservation} {owner : Token} {job : Job}
    {r : Except Empty Exit} (h₀ : s₀.Initial) (hs : (workerMachine w.env).Steps s₀ tr s)
    (hclaim : s.step w.env (.claimExecution clock plan reservation owner)
      = (s₁, .ok (.claimed job w.execution)))
    (htask : s.taskIdForJob w.execution.id = some w.id) (hlock : w.execution.verified = true)
    (hrun : w.run s₁ r s') :
    ∃ exit, r = .ok exit ∧ exit.failure ≠ some .attemptsExhausted
      ∧ exit.settled ≠ some .exhausted
      ∧ (∀ e, exit.settled = some (.refused e) → e = .capacity)
      ∧ (exit.settled ≠ some (.refused .capacity) →
          ∃ row, s'.tasks.find? w.id = some row ∧ row.record.phase = .terminal) := by
  have howned : w.Holds s₁ := claimed_owned ⟨s₀, tr, h₀, hs⟩ hclaim htask hlock
  cases r with
  | error e => exact e.elim
  | ok exit =>
    have hsettles := (meets_run (E := fun e _ => e.elim)).ok s₁ exit s' howned hrun
    refine ⟨exit, rfl, hsettles.finish, hsettles.stop, hsettles.refused, fun hcapacity => ?_⟩
    obtain ⟨row, hrow, hphase⟩ := hsettles.ended hcapacity
    exact ⟨row, hrow.stored, hphase⟩

namespace Sample

open Jobs.Sample

def worker : Worker where
  env := env intent
  execution := handle
  id := taskId
  request := request
  provider := ⟨.cloud, .error .unsupported⟩

def started : Store := (workerMachine worker.env).exec empty [start]

/-- The store after the worker has claimed its job. -/
def claimed : Store := (started.step worker.env (claim (KIND_PREFIX ++ taskId))).1

/-- The stop of a run that finds its mutex poisoned at once. -/
def stopping : Store × Except InvestigationStoreError InvestigationDetail :=
  Checked.transact (Store.advanceInvestigation worker.env clock handle 1
    (.stopWithElapsed .operational 0)) claimed

end Sample

/-- A worker that fails at once stops its task. -/
theorem worker_settles_poisoned :
    ∃ s', Sample.worker.run Sample.claimed
        (.ok ⟨some (.host .operational), some .published⟩) s'
      ∧ ∃ row, s'.tasks.find? Jobs.Sample.taskId = some row ∧ row.record.phase = .terminal := by
  have hseen : ((Sample.claimed.loadTask Sample.worker.env Jobs.Sample.taskId).toOption.map
      fun row => (row.record.detail.summary.status, row.record.detail.summary.revision,
        row.record.detail.usage.activeMilliseconds)) = some (.preparing, 1, 0) := by decide +kernel
  have hstopped : Sample.stopping.2.toOption.isSome = true := by decide +kernel
  obtain ⟨row, hrow, hvalues⟩ := Option.map_eq_some_iff.mp hseen
  obtain ⟨detail, hdetail⟩ := Option.isSome_iff_exists.mp hstopped
  simp only [Prod.mk.injEq] at hvalues
  obtain ⟨hstatus, hrevision, hms⟩ := hvalues
  have hload : Sample.claimed.loadTask Sample.worker.env Jobs.Sample.taskId = .ok row :=
    Checked.toOption_eq_some.mp hrow
  have hread : (Sample.claimed, (Sample.claimed.loadTask Sample.worker.env Jobs.Sample.taskId >>=
      fun row => pure row.record.detail)) = (Sample.claimed, .ok row.record.detail) := by
    rw [hload, Checked.ok_bind]
    rfl
  have hadvance : Sample.worker.advanceInvestigation 1 (.stopWithElapsed .operational 0)
      Sample.claimed (.ok detail) Sample.stopping.1 :=
    .inl ⟨Jobs.Sample.clock, Sample.claimed, ⟨⟨_, rfl⟩, rfl⟩, Sample.claimed, .refl,
      Checked.eq_ok_of_toOption hdetail⟩
  -- the first attempt to stop the task goes through
  have honce : Sample.worker.stopOnce .operational 0 Sample.claimed (.ok (some detail))
      Sample.stopping.1 := by
    refine .inl ⟨row.record.detail, Sample.claimed, ⟨Sample.claimed, .refl, hread⟩, ?_⟩
    simp only [hstatus, hrevision, hms, terminal]
    exact .inl ⟨detail, Sample.stopping.1, hadvance, rfl, rfl⟩
  have hattempts : Sample.worker.stop .operational 0 Sample.claimed (.ok .published)
      Sample.stopping.1 := by
    refine .inl ⟨some .published, Sample.stopping.1, .inl ⟨some .published, Sample.stopping.1, ?_,
      rfl, rfl⟩, rfl, rfl⟩
    exact .inl ⟨.ok (some detail), Sample.stopping.1, ⟨_, honce, rfl⟩, rfl, rfl⟩
  have hrun : Sample.worker.run Sample.claimed (.ok ⟨some (.host .operational), some .published⟩)
      Sample.stopping.1 := by
    refine .inl ⟨.error (.host .operational), Sample.claimed, ⟨_, .inr ⟨_, ⟨.inr rfl, rfl⟩, rfl⟩,
      rfl⟩, ?_⟩
    refine .inl ⟨0, Sample.claimed, ⟨⟨0, rfl⟩, rfl⟩, ?_⟩
    exact .inl ⟨.published, Sample.stopping.1, hattempts, rfl, rfl⟩
  -- the claim the worker runs for
  have hok : ((Sample.started.step Sample.worker.env
      (Jobs.Sample.claim (KIND_PREFIX ++ Jobs.Sample.taskId))).2.toOption.isSome) = true := by
    decide +kernel
  obtain ⟨answer, hanswered⟩ := Option.isSome_iff_exists.mp hok
  have hstep : Sample.started.step Sample.worker.env
      (Jobs.Sample.claim (KIND_PREFIX ++ Jobs.Sample.taskId)) = (Sample.claimed, .ok answer) :=
    Checked.eq_ok_of_toOption hanswered
  obtain ⟨job, rfl⟩ := claimed_answer hstep
  have hns : Sample.started.ns = Jobs.Sample.ns := by decide +kernel
  rw [hns] at hstep
  have hstart : (workerMachine Sample.worker.env).Steps Jobs.Sample.empty _ Sample.started :=
    Machine.steps_exec fun s op hop => by
      obtain rfl := List.mem_singleton.mp hop
      trivial
  obtain ⟨exit, hexit, -, -, -, hended⟩ := worker_settles (w := Sample.worker)
    Jobs.Sample.empty_initial hstart hstep (by decide +kernel) rfl hrun
  obtain rfl := Except.ok.inj hexit
  exact ⟨Sample.stopping.1, hrun, hended (by simp)⟩

end Specialist

/-
A task in the hands of its worker.

The worker that claimed the job of a task holds the only handle of it, and while it holds
the lock of the job nobody recovers the task.  What the others can still do to the task
is to cancel it, and to decide about a step that waits for consent.

* `Owned` — the task is attached to the handle, and the job is still the handle's or gone;
* `owned_step` — every operation of the application keeps it that way;
* `Yields` — what the others leave of the record: they raise its revision, and each time
  they do they have less left to do (`remaining`);
* `foreign_yields` — an operation of the others yields.
-/
import Cartograph.Jobs.EventLog

namespace Jobs

open Investigation Checked

variable {s' : Store} {t t' : StoredTask} {clock : Clock} {plan : ClaimPlan}
  {reservation : ExecutionReservation} {owner : Token} {env : Env} {s : Store}

theorem steps_of_worker {tr : List Event} (h : (workerMachine env).Steps s tr s') :
    (machine env).Steps s tr s':= by
  induction h with
  | refl => exact .refl
  | snoc _ _ hst ih => exact ih.snoc trivial hst

/-! ### What is left for the others -/

/-- How often the others can still raise the revision of a working task. -/
def remaining (t : StoredTask) : ℕ :=
  if t.phase = .terminal then 0
  else (if t.detail.summary.cancelRequested = true then 0 else 1)
    + (if t.phase = .consent ∧ t.approved = false then 1 else 0)

theorem remaining_le (t : StoredTask) : remaining t ≤ 2 := by
  unfold remaining
  split_ifs <;> omega

/-- What the others make of a record. -/
inductive Yields (t t' : StoredTask) : Prop
  | same : t' = t → Yields t t'
  | raised : t.detail.summary.revision < t'.detail.summary.revision → remaining t' < remaining t →
      (t'.phase = t.phase ∨ t.phase = .consent ∧ t'.phase = .terminal) → Yields t t'

theorem Yields.trans {t1 t2 : StoredTask} (h : Yields t t1) (h' : Yields t1 t2) :
    Yields t t2 := by
  cases h with
  | same heq => exact heq ▸ h'
  | raised hrev hrem hphase =>
    cases h' with
    | same heq =>
      subst heq
      exact .raised hrev hrem hphase
    | raised hrev' hrem' hphase' =>
      refine .raised (hrev.trans hrev') (hrem'.trans hrem) ?_
      rcases hphase with hphase | ⟨hconsent, hterminal⟩
      · rwa [hphase] at hphase'
      · -- an ended task has nothing left
        have hzero : remaining t1 = 0 := if_pos hterminal
        omega

theorem Yields.remaining_le (h : Yields t t') : remaining t' ≤ remaining t := by
  cases h with
  | same heq => rw [heq]
  | raised _ hrem _ => exact hrem.le

theorem Yields.eq_of_revision (h : Yields t t')
    (hrev : t'.detail.summary.revision = t.detail.summary.revision) : t' = t := by
  cases h with
  | same heq => exact heq
  | raised hlt _ _ => omega

theorem Yields.phase_eq (h : Yields t t') (hconsent : t.phase ≠ .consent) :
    t'.phase = t.phase := by
  cases h with
  | same heq => rw [heq]
  | raised _ _ hphase => exact hphase.resolve_right fun hc => hconsent hc.1

/-- The moves the others have. -/
def Action.foreign : Action → Bool
  | .approve _ _ _ | .decline _ _ _ | .cancel => true
  | _ => false

theorem Move.yields {d d' : Draft} {action : Action} (h : Move env clock d action d')
    (hforeign : action.foreign = true) (hqueued : d.task.phase ≠ .queued) :
    Yields d.task d'.task := by
  cases h with
  | approve _ _ _ hdecides hcancel =>
    refine .raised (Nat.lt_succ_self _) ?_ (.inl rfl)
    simp [remaining, consented, hdecides.phase, hdecides.undecided, hcancel]
  | decline _ _ _ hdecides hcancel =>
    refine .raised (Nat.lt_succ_self _) ?_ (.inr ⟨hdecides.phase, rfl⟩)
    have hzero : remaining (Draft.stopped { d with task := declining d.task } clock
      .consentDeclined).task = 0 := if_pos rfl
    rw [hzero]
    simp [remaining, hdecides.phase, hdecides.undecided, hcancel]
  | cancel hlive hcancel =>
    have hphase : (d.cancelledBy clock).task.phase = d.task.phase := if_neg hqueued
    refine .raised (Nat.lt_succ_self _) ?_ (.inl hphase)
    have hflag : (d.cancelledBy clock).task.detail.summary.cancelRequested = true := rfl
    have happroved : (d.cancelledBy clock).task.approved = d.task.approved := rfl
    rw [remaining, remaining, hphase, hflag, happroved, if_neg hlive, if_neg hlive, hcancel]
    simp
  | attach | inputPrepared | inputAdmitted | awaitConsent | beginInvocation | actionAdmitted
  | finished | beginTool | chargeEvidence | stopWithElapsed | recover =>
    exact absurd hforeign (by simp [Action.foreign])

/-! ### Ownership -/

/-- The identity a task is attached under. -/
def JobExecution.identity (x : JobExecution) : StoredExecution :=
  ⟨x.ns.value.text, x.id, x.generation, x.owner.text⟩

/-- Task `id` is worked on under the handle `x`, in a state the application reaches. -/
structure Owned (env : Env) (x : JobExecution) (id : String) (s : Store) : Prop where
  reachable : (workerMachine env).Reachable s
  verified : x.verified = true
  ns : x.ns = s.ns
  attached : s.attachedTo id = some x.identity
  attempt : s.jobs.find? x.id = none ∨ (s.attempts.find? x.id).any x.attempted = true

section Owned

variable {x : JobExecution} {id : String}

theorem Owned.agreement (h : Owned env x id s) : s.Agreement :=
  h.reachable.invariant (fun _ => Store.Initial.agreement)
    fun _ _ _ _ hs hallows hst => step_agreement hs hallows hst

/-- The row of an owned task. -/
structure OwnedRow (env : Env) (x : JobExecution) (id : String) (s : Store) (row : TaskRow) :
    Prop where
  stored : s.tasks.find? id = some row
  execution : row.record.execution = some x.identity
  sound : Sound env s.ns id row
  log : row.log.Log

theorem Owned.row (h : Owned env x id s) : ∃ row, OwnedRow env x id s row := by
  obtain ⟨row, hrow, hexec⟩ := Option.bind_eq_some_iff.mp h.attached
  obtain ⟨s0, tr, h0, hs⟩ := h.reachable
  have hsteps := steps_of_worker hs
  exact ⟨row, hrow, hexec, steps_sound hsteps h0 id row hrow, steps_log hsteps h0 id row hrow⟩

variable {row : TaskRow}

section

variable (h : OwnedRow env x id s row)
include h

theorem OwnedRow.loadTask :
    s.loadTask env id = .ok row := h.sound.loadTask h.stored

theorem OwnedRow.jobId :
    row.record.detail.summary.jobId = x.id ∧ row.jobId = x.id := by
  have hvalid := h.sound.valid.execution
  simp only [validExecution, h.execution, Bool.and_eq_true, beq_iff_eq] at hvalid
  have hid : row.record.detail.summary.jobId = x.id := hvalid.1.1.2.symm
  exact ⟨hid, h.sound.jobId ▸ hid⟩

theorem OwnedRow.not_queued :
    row.record.phase ≠ .queued := by
  intro hqueued
  have hstatus := h.sound.valid.status
  simp [validStatus, hqueued, h.execution] at hstatus

end

section

variable (h : Owned env x id s)
include h

theorem Owned.taskIdForJob : s.taskIdForJob x.id = some id := by
  obtain ⟨row, hrow⟩ := h.row
  cases hfind : s.taskIdForJob x.id with
  | none => exact absurd hrow.jobId.2 (taskIdForJob_eq_none hfind hrow.stored)
  | some id' =>
    obtain ⟨row', hrow', hjob⟩ := taskIdForJob_eq_some hfind
    rw [h.agreement.distinct id' id row' row hrow' hrow.stored (hjob.trans hrow.jobId.2.symm)]

theorem Owned.not_claimed {a : Answer}
    (heffect : Effect env s (.claimExecution clock plan reservation owner) a s') :
    plan.id ≠ x.id ∨ s' = s := by
  by_cases hid : plan.id = x.id
  · have htask := h.taskIdForJob
    rw [← hid] at htask
    cases heffect with
    | idle _ => exact .inr rfl
    | claim _ _ _ _ _ _ _ hnone =>
      rw [hnone] at htask
      exact absurd htask (by simp)
    | attach _ _ _ _ _ _ id' _ _ hid' _ hmoves =>
      obtain rfl : id' = id := Option.some.inj (hid'.symm.trans htask)
      obtain ⟨row, hrow⟩ := h.row
      obtain ⟨row', d, _, hload, hmove, -⟩ := hmoves
      obtain rfl : row' = row := Option.some.inj (hload.stored.symm.trans hrow.stored)
      cases hmove with
      | attach _ _ hnone =>
        change row'.record.execution = none at hnone
        rw [hrow.execution] at hnone
        exact absurd hnone (by simp)
    | update _ _ _ _ hop => exact absurd hop (by simp [Op.update?])
    | moved _ _ _ _ habout => exact absurd habout (by simp [Store.about])
  · exact .inl hid

/-- **Ownership lasts**, whoever does what. -/
theorem owned_step {op : Op} {out : Except Failure Answer}
    (hallows : s.workerAllows op) (hst : s.step env op = (s', out)) : Owned env x id s' := by
  refine ⟨?_, h.verified, h.ns.trans (step_ns hst).symm, step_attachedTo hst h.attached, ?_⟩
  · obtain ⟨s0, tr, h0, hs⟩ := h.reachable
    exact ⟨s0, _, h0, hs.snoc hallows hst⟩
  · rcases step_cases hst with ⟨_, -, rfl⟩ | ⟨a, -, heffect⟩
    · exact h.attempt
    · cases heffect.jobStep x.id with
      | same hjobs hattempts =>
        rw [hjobs, hattempts]
        exact h.attempt
      | created _ hnew =>
        obtain ⟨row, hrow⟩ := h.row
        have hused := h.agreement.used id row hrow.stored
        rw [hrow.jobId.2, hnew] at hused
        omega
      | claimed clock plan reservation owner _ hop hid =>
        subst hop
        rcases h.not_claimed heffect with hne | rfl
        · exact absurd hid hne
        · exact h.attempt
      | changed row row' hrow _ _ hattempts =>
        rw [hattempts]
        refine h.attempt.imp_left fun hnone => ?_
        rw [hrow] at hnone
        exact absurd hnone (by simp)
      | cleared _ _ _ hgone _ => exact .inl hgone

theorem Owned.holdsJob (hrow : OwnedRow env x id s row)
    (hlive : row.record.phase ≠ .terminal) : s.holdsJob x true = true := by
  have hagrees := h.agreement.agrees id row hrow.stored
  unfold Store.holdsJob
  cases hjob : s.jobs.find? x.id with
  | none => rfl
  | some job =>
    have hattempt := h.attempt.resolve_left (by simp [hjob])
    have hstatus : job.status = .running ∨ job.status = .cancelled := by
      rw [← hrow.jobId.1] at hjob
      by_cases hcancel : row.record.detail.summary.cancelRequested = true
      · exact .inr (hagrees.cancelled hlive hcancel job hjob)
      · obtain ⟨job', _, _, hjob', hrunning, -⟩ :=
          hagrees.running ⟨hrow.not_queued, hlive⟩ (by simpa using hcancel)
        rw [hjob, Option.some_inj] at hjob'
        exact .inl (hjob' ▸ hrunning)
    rcases hstatus with hstatus | hstatus <;> simp [hattempt, hstatus]

end

end Owned

theorem claimed_answer {a : Answer}
    (hst : s.step env (.claimExecution clock plan reservation owner) = (s', .ok a)) :
    ∃ job, a = .claimed job
      ⟨s.ns, plan.id, plan.attempt.generation + 1, owner, reservation.verified⟩ := by
  rcases step_cases hst with ⟨e, hout, -⟩ | ⟨a', hout, heffect⟩
  · exact absurd hout (by simp)
  obtain rfl := Except.ok.inj hout
  cases heffect with
  | idle hidle => exact absurd hidle (by simp [idles])
  | claim _ _ _ _ _ job | attach _ _ _ _ _ job => exact ⟨job, rfl⟩
  | update _ _ _ _ hop => exact absurd hop (by simp [Op.update?])
  | moved _ _ _ _ habout => exact absurd habout (by simp [Store.about])

variable {id : String} {x : JobExecution}

/-- **The claim** of the job of a task puts the task into the hands of the claimant. -/
theorem claimed_owned {job : Job} (hs : (workerMachine env).Reachable s)
    (hst : s.step env (.claimExecution clock plan reservation owner) = (s', .ok (.claimed job x)))
    (hid : s.taskIdForJob x.id = some id) (hverified : x.verified = true) :
    Owned env x id s' := by
  have hreachable : (workerMachine env).Reachable s' := by
    obtain ⟨s0, tr, h0, hrun⟩ := hs
    have hallows : (workerMachine env).enabled s (.claimExecution clock plan reservation owner) :=
      trivial
    exact ⟨s0, _, h0, hrun.snoc hallows hst⟩
  rcases step_cases hst with ⟨e, hout, -⟩ | ⟨a, hout, heffect⟩
  · exact absurd hout (by simp)
  obtain rfl := Except.ok.inj hout
  cases heffect with
  | idle hidle => exact absurd hidle (by simp [idles])
  | claim _ _ _ _ _ _ _ hnone => exact absurd (hnone.symm.trans hid) (by simp)
  | attach _ _ _ _ row _ id' _ _ hid' hgen hmoves =>
    have hacts : s.acts (.claimExecution clock plan reservation owner)
        = some (id, .attach ⟨s.ns.value.text, plan.id, 1, owner.text⟩) := by simp [Store.acts, hid]
    have hattached := (attach_step hst ⟨hacts, _, rfl⟩).2
    refine ⟨hreachable, hverified, (step_ns hst).symm, ?_, .inr ?_⟩
    · rw [hattached, JobExecution.identity, hgen]
    · rw [(hmoves.jobStep 0).2.1]
      simp [Store.claimed, JobExecution.attempted, Attempt.claimed]
  | moved _ _ _ _ habout => exact absurd habout (by simp [Store.about])

/-! ### The others -/

/-- A call of another thread or process: it has another handle, and as long as the owner
holds its lock nobody recovers the task. -/
def Foreign (x : JobExecution) (id : String) : Op → Prop
  | .advanceInvestigation _ x' _ _ => x' ≠ x
  | .recoverInvestigation _ candidate _ => candidate.id ≠ id
  | _ => True

/-- One step of the others. -/
def Others (env : Env) (x : JobExecution) (id : String) (s s' : Store) : Prop :=
  ∃ op out, s.workerAllows op ∧ Foreign x id op ∧ s.step env op = (s', out)

variable {x x' : JobExecution}

theorem JobExecution.eq_of_identity (hns : x'.ns = x.ns) (hverified : x'.verified = x.verified)
    (hid : x'.identity = x.identity) : x' = x := by
  obtain ⟨ns, jobId, generation, ⟨owner, _⟩, verified⟩ := x
  obtain ⟨ns', jobId', generation', ⟨owner', _⟩, verified'⟩ := x'
  simp only [JobExecution.identity, StoredExecution.mk.injEq] at hid hns hverified
  obtain ⟨-, rfl, rfl, rfl⟩ := hid
  obtain rfl := hns
  obtain rfl := hverified
  rfl

theorem Owned.advance_handle (h : Owned env x id s) {revision : ℕ}
    {transition : InvestigationTransition} {detail : InvestigationDetail}
    (hadvance : s.advanceInvestigation env clock x' revision transition = .ok (detail, s'))
    (htask : s.taskIdForJob x'.id = some id) : x' = x := by
  simp only [Store.advanceInvestigation, checkIdentity, bind_eq_ok, ensure_eq_ok,
    orFail_eq_ok] at hadvance
  obtain ⟨⟨⟩, hverified, ⟨⟩, hns, id', hid', row, hload, ⟨⟩, hidentity, -⟩ := hadvance
  obtain rfl : id' = id := Option.some.inj (hid'.symm.trans htask)
  obtain ⟨row', hrow'⟩ := h.row
  obtain rfl : row = row' := Except.ok.inj (hload.symm.trans hrow'.loadTask)
  refine JobExecution.eq_of_identity (hns.trans h.ns.symm) (hverified.trans h.verified.symm) ?_
  exact Option.some.inj (hidentity.symm.trans hrow'.execution)

/-- **What the others do to an owned task.** -/
theorem foreign_yields (h : Owned env x id s) (hothers : Others env x id s s') {row row' : TaskRow}
    (hrow : OwnedRow env x id s row) (hrow' : OwnedRow env x id s' row') :
    Yields row.record row'.record := by
  obtain ⟨op, out, hallows, hforeign, hst⟩ := hothers
  rcases step_task hst hrow.stored with hsame |
    ⟨action, row1, ⟨hacts, a, hout⟩, ⟨clock, jobs, d, _, hmove, -, -, rfl⟩, hrow1⟩
  · obtain rfl : row' = row := Option.some.inj (hrow'.stored.symm.trans hsame)
    exact .same rfl
  · obtain rfl : row' = row.saved d := Option.some.inj (hrow'.stored.symm.trans hrow1)
    refine hmove.yields ?_ hrow.not_queued
    -- the others neither advance nor recover nor attach this task
    cases action with
    | approve | decline | cancel => rfl
    | attach identity =>
      have hnone := (attach_step hst ⟨hacts, a, hout⟩).1
      rw [h.attached] at hnone
      exact absurd hnone (by simp)
    | advance transition =>
      exfalso
      cases op with
      | advanceInvestigation clock' x' revision transition' =>
        simp only at hout hacts
        subst hout
        obtain ⟨id', htask, heq⟩ := Option.map_eq_some_iff.mp hacts
        obtain ⟨rfl, -⟩ := Prod.mk.inj heq
        obtain ⟨detail, hadvance, -⟩ := report_eq_ok.mp (transact_ok.mp hst)
        exact hforeign (h.advance_handle hadvance htask)
      | claimExecution | cancel => simp [Store.acts] at hacts
      | _ => simp [Store.acts, Store.about] at hacts
    | recover =>
      exfalso
      cases op with
      | recoverInvestigation clock' candidate reservation =>
        obtain ⟨hid, -⟩ := Prod.mk.inj (Option.some.inj hacts)
        exact hforeign hid
      | claimExecution | cancel => simp [Store.acts] at hacts
      | _ => simp [Store.acts, Store.about] at hacts

theorem owned_others (h : Owned env x id s) (hothers : Others env x id s s') :
    Owned env x id s':= by
  obtain ⟨op, out, hallows, -, hst⟩ := hothers
  exact owned_step h hallows hst

end Jobs

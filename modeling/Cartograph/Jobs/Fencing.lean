/-
Job fencing.

Plans, candidates and handles may be presented at any time; what keeps late ones from
doing harm is the generation in `job_attempts`.  `JobStep` is what one operation of
the store can do to one job, and `Fenced` what any number of them can:

* `generations` only grow, and grow at each claim;
* a handle acts only on the attempt it was given, while the job is running;
* an ended job stays as it ended until it is claimed anew or cleared;
* a number that was used for a job is never used again.
-/
import Cartograph.Jobs.Effects

namespace Jobs

open Investigation Checked

/-- The generation of a job, if it is recorded. -/
def Store.generation (s : Store) (id : ℕ) : Option ℕ := (s.attempts.find? id).map (·.generation)

/-! ### One step and one job -/

inductive JobStep (s : Store) (op : Op) (id : ℕ) (s' : Store) : Prop
  | same : s'.jobs.find? id = s.jobs.find? id → s'.attempts.find? id = s.attempts.find? id →
      JobStep s op id s'
  | created (kind : String) : id = s.jobSeq + 1 → s'.jobSeq = s.jobSeq + 1 →
      s'.jobs.find? id = some { kind := kind } → s'.attempts.find? id = some .unclaimed →
      JobStep s op id s'
  | claimed (clock : Clock) (plan : ClaimPlan) (reservation : ExecutionReservation) (owner : Token)
      (row : JobRow) :
      op = .claimExecution clock plan reservation owner → plan.id = id →
      Planned s plan.toPlan row → s'.jobs.find? id = some row.claimed →
      s'.attempts.find? id = some (.claimed plan.attempt.generation owner) → JobStep s op id s'
  | changed (row row' : JobRow) :
      s.jobs.find? id = some row → row.status.open = true → s'.jobs.find? id = some row' →
      s'.attempts.find? id = s.attempts.find? id → JobStep s op id s'
  | cleared (row : JobRow) :
      op = .clearFinished → s.jobs.find? id = some row → s'.jobs.find? id = none →
      s'.attempts.find? id = none → JobStep s op id s'

theorem find?_claimed (s : Store) (p : Plan) (owner : Token) (k : ℕ) :
    (s.claimed p owner).jobs.find? k =
      if k = p.id then (s.jobs.find? k).map JobRow.claimed else s.jobs.find? k := by
  rw [Store.claimed, find?_updateJob]
  simp

variable {plan : ClaimPlan} {s₁ s₂ : Store}

section

variable {s s' : Store} {clock : Clock} {row : JobRow} {env : Env} {id : ℕ} {op : Op} {a : Answer}
  {out : Except Failure Answer} {x : JobExecution}

theorem jobStep_claimed {reservation : ExecutionReservation} {owner : Token}
    (hplanned : Planned s plan.toPlan row) (id : ℕ) :
    JobStep s (.claimExecution clock plan reservation owner) id (s.claimed plan.toPlan owner) := by
  by_cases hid : id = plan.id
  · subst hid
    refine .claimed clock plan reservation owner row rfl rfl hplanned ?_ ?_
    · rw [find?_claimed, if_pos rfl, hplanned.stored]
      rfl
    · simp [Store.claimed]
  · refine .same ?_ ?_
    · rw [find?_claimed, if_neg hid]
    · simp [Store.claimed, hid]

theorem Moves.jobStep {id : String} {action : Action} (h : Moves env clock s id action s') (k : ℕ) :
    (s'.jobs.find? k = s.jobs.find? k ∨ Ends s.jobs s'.jobs k) ∧ s'.attempts = s.attempts
      ∧ s'.jobSeq = s.jobSeq := by
  obtain ⟨row, d, terminal, -, hmove, -, -, rfl⟩ := h
  refine ⟨?_, rfl, rfl⟩
  rcases hmove.jobs k with hsame | ⟨-, hends⟩
  · exact .inl hsame
  · exact .inr hends

theorem find?_jobCancelled (hrow : s.jobs.find? id = some row) (hopen : row.status.open = true)
    (k : ℕ) :
    (s.jobCancelled id).jobs.find? k =
      if k = id then some (JobRow.cancelled row) else s.jobs.find? k := by
  rw [Store.jobCancelled, find?_updateJob]
  by_cases hk : k = id
  · rw [if_pos hk, if_pos hk, hk, hrow, Option.map_some, if_pos hopen]
  · rw [if_neg hk, if_neg hk]

theorem Effect.jobStep (h : Effect env s op a s') (id : ℕ) : JobStep s op id s' := by
  cases h with
  | idle | cancelled => exact .same rfl rfl
  | enqueue kind job =>
    by_cases hid : id = s.jobSeq + 1
    · exact .created kind hid rfl (by simp [hid]) (by simp [hid])
    · exact .same (by simp [hid]) (by simp [hid])
  | claim clock plan reservation owner row job hplanned => exact jobStep_claimed hplanned id
  | attach clock plan reservation owner row job taskId s' hplanned _ _ hmoves =>
    -- attaching moves the task and leaves the claimed job alone
    obtain ⟨hjobs, hattempts, -⟩ := hmoves.jobStep id
    obtain ⟨_, d, _, -, hmove, -, -, rfl⟩ := hmoves
    have hsame : d.jobs = (s.claimed plan.toPlan owner).jobs := by
      cases hmove
      rfl
    have hclaimed : JobStep s (.claimExecution clock plan reservation owner) id
        (s.claimed plan.toPlan owner) := jobStep_claimed hplanned id
    cases hclaimed with
    | same h1 h2 => exact .same (by rw [← h1, ← hsame]) h2
    | created kind h1 h2 h3 h4 => exact .created kind h1 h2 (by rw [← h3, ← hsame]) h4
    | claimed clock plan reservation owner row h1 h2 h3 h4 h5 =>
      exact .claimed clock plan reservation owner row h1 h2 h3 (by rw [← h4, ← hsame]) h5
    | changed row row' h1 h2 h3 h4 => exact .changed row row' h1 h2 (by rw [← h3, ← hsame]) h4
    | cleared row h1 => exact absurd h1 (by simp)
  | update x u row job _ hrow _ hrunning =>
    by_cases hid : id = x.id
    · subst hid
      refine .changed row (u.apply row) hrow (by rw [hrunning]; rfl) ?_ rfl
      simp [find?_updateJob, hrow]
    · exact .same (by simp [find?_updateJob, hid]) rfl
  | interrupt candidate reservation row job hplanned hrunning =>
    by_cases hid : id = candidate.id
    · subst hid
      refine .changed row { row with status := .interrupted } hplanned.stored
        (by rw [hrunning]; rfl) ?_ rfl
      simp [find?_updateJob, hplanned.stored]
    · exact .same (by simp [find?_updateJob, hid]) rfl
  | cancelJob clock jobId row job hrow hopen =>
    by_cases hid : id = jobId
    · subst hid
      exact .changed row _ hrow hopen (by rw [find?_jobCancelled hrow hopen, if_pos rfl]) rfl
    · exact .same (by rw [find?_jobCancelled hrow hopen, if_neg hid]) rfl
  | cancelJobTask clock jobId row job taskId s' hrow hopen _ hmoves =>
    obtain ⟨hjobs, hattempts, -⟩ := hmoves.jobStep id
    have hattempts' : s'.attempts.find? id = s.attempts.find? id := by rw [hattempts]; rfl
    rcases hjobs with hsame | ⟨row1, row2, h1, h2, h3, -⟩
    · rw [find?_jobCancelled hrow hopen] at hsame
      by_cases hid : id = jobId
      · subst hid
        exact .changed row _ hrow hopen (by rw [hsame, if_pos rfl]) hattempts'
      · exact .same (by rw [hsame, if_neg hid]) hattempts'
    · rw [find?_jobCancelled hrow hopen] at h1
      by_cases hid : id = jobId
      · rw [if_pos hid, Option.some_inj] at h1
        rw [← h1] at h2
        -- the job is closed by now, and no task moves a closed one
        exact absurd h2 (by simp [JobRow.cancelled, JobStatus.open])
      · rw [if_neg hid] at h1
        exact .changed row1 row2 h1 h2 h3 hattempts'
  | clear removed =>
    have hjobs : s.cleared.jobs.find? id = (s.jobs.find? id).filter fun row => !s.finished id row :=
      Table.find?_filter _ _ _
    have hattempts : s.cleared.attempts.find? id =
        (s.attempts.find? id).filter fun _ => !(s.jobs.find? id).any (s.finished id) :=
      Table.find?_filter _ _ _
    -- a finished job goes with its attempts
    cases hrow : s.jobs.find? id with
    | none =>
      refine .same (by rw [hjobs, hrow]; rfl) ?_
      rw [hattempts, hrow]
      cases s.attempts.find? id <;> rfl
    | some row =>
      by_cases hfin : s.finished id row = true
      · refine .cleared row rfl hrow (by simp [hjobs, hrow, hfin]) ?_
        rw [hattempts, hrow]
        cases s.attempts.find? id <;> simp [hfin]
      · refine .same (by simp [hjobs, hrow, hfin]) ?_
        rw [hattempts, hrow]
        cases s.attempts.find? id <;> simp [hfin]
  | start clock request offered conversation investigation provider intentHash answer s' _ _ _
      hstarts =>
    by_cases hid : id = s.jobSeq + 1
    · refine .created (KIND_PREFIX ++ newId investigation) hid hstarts.jobSeq ?_ ?_
      · rw [hstarts.jobs, startDraft, jobs_recorded]
        simp [hid]
      · rw [hstarts.attempts]
        simp [hid]
    · refine .same ?_ ?_
      · rw [hstarts.jobs, startDraft, jobs_recorded]
        simp [hid]
      · rw [hstarts.attempts]
        simp [hid]
  | moved clock taskId action s' _ _ hmoves =>
    obtain ⟨hsame | ⟨row, row', h1, h2, h3, -⟩, hattempts, -⟩ := hmoves.jobStep id
    · exact .same hsame (by rw [hattempts])
    · exact .changed row row' h1 h2 h3 (by rw [hattempts])

theorem Effect.jobSeq_le (h : Effect env s op a s') : s.jobSeq ≤ s'.jobSeq := by
  cases h with
  | enqueue => exact Nat.le_succ _
  | attach _ _ _ _ _ _ _ _ _ _ _ hmoves | cancelJobTask _ _ _ _ _ _ _ _ _ hmoves
  | moved _ _ _ _ _ _ hmoves => exact ((hmoves.jobStep 0).2.2).ge
  | start _ _ _ _ _ _ _ _ _ _ _ _ hstarts =>
    have hseq := hstarts.jobSeq
    omega
  | idle | claim | update | interrupt | cancelJob | clear | cancelled => exact le_rfl

/-- `AUTOINCREMENT` is ahead of every number in use. -/
def Store.Numbered (s : Store) : Prop :=
  ∀ id, s.jobSeq < id → s.jobs.find? id = none ∧ s.attempts.find? id = none

theorem Effect.numbered (h : Effect env s op a s') (hs : s.Numbered) : s'.Numbered := by
  intro id hid
  have hseq := h.jobSeq_le
  obtain ⟨hjobs, hattempts⟩ := hs id (by omega)
  cases h.jobStep id with
  | same h1 h2 => exact ⟨h1.trans hjobs, h2.trans hattempts⟩
  | created kind h1 h2 => omega
  | claimed clock plan reservation owner row _ h2 h3 =>
    rw [← h2, h3.stored] at hjobs
    exact absurd hjobs (by simp)
  | changed row row' h1 => simp [h1] at hjobs
  | cleared row _ h2 => simp [h2] at hjobs

/-! ### Any number of steps -/

/-- How a store can look later, seen from the numbers in use now. -/
structure Fenced (s s' : Store) : Prop where
  seq : s.jobSeq ≤ s'.jobSeq
  gone : ∀ id ≤ s.jobSeq, s.jobs.find? id = none → s'.jobs.find? id = none
  unrecorded : ∀ id ≤ s.jobSeq, s.attempts.find? id = none → s'.attempts.find? id = none
  grows : ∀ id ≤ s.jobSeq, ∀ a a', s.attempts.find? id = some a →
    s'.attempts.find? id = some a' → a.generation ≤ a'.generation
  ended : ∀ id ≤ s.jobSeq, ∀ row a, s.jobs.find? id = some row → row.status.open = false →
    s.attempts.find? id = some a → s'.attempts.find? id = none
      ∨ (∃ a', s'.attempts.find? id = some a' ∧ a.generation < a'.generation)
      ∨ s'.attempts.find? id = some a
        ∧ ∃ row', s'.jobs.find? id = some row' ∧ row'.status = row.status

theorem Fenced.refl (s : Store) : Fenced s s where
  seq := le_rfl
  gone _ _ h := h
  unrecorded _ _ h := h
  grows _ _ a a' h h' := by
    rw [h, Option.some_inj] at h'
    rw [h']
  ended _ _ row _ hrow _ ha := .inr (.inr ⟨ha, row, hrow, rfl⟩)

theorem Fenced.trans (h : Fenced s s₁) (h' : Fenced s₁ s₂) : Fenced s s₂ where
  seq := h.seq.trans h'.seq
  gone id hid hnone := h'.gone id (hid.trans h.seq) (h.gone id hid hnone)
  unrecorded id hid hnone := h'.unrecorded id (hid.trans h.seq) (h.unrecorded id hid hnone)
  grows id hid a a2 ha ha2 := by
    have hid1 : id ≤ s₁.jobSeq := hid.trans h.seq
    cases ha1 : s₁.attempts.find? id with
    | none =>
      rw [h'.unrecorded id hid1 ha1] at ha2
      exact absurd ha2 (by simp)
    | some a1 => exact (h.grows id hid a a1 ha ha1).trans (h'.grows id hid1 a1 a2 ha1 ha2)
  ended id hid row a hrow hended ha := by
    have hid1 : id ≤ s₁.jobSeq := hid.trans h.seq
    rcases h.ended id hid row a hrow hended ha with hnone | ⟨a1, ha1, hlt⟩ |
      ⟨ha1, row1, hrow1, hstatus⟩
    · exact .inl (h'.unrecorded id hid1 hnone)
    · cases ha2 : s₂.attempts.find? id with
      | none => exact .inl rfl
      | some a2 =>
        exact .inr (.inl ⟨a2, rfl, hlt.trans_le (h'.grows id hid1 a1 a2 ha1 ha2)⟩)
    · rcases h'.ended id hid1 row1 a hrow1 (by rw [hstatus, hended]) ha1 with hnone | hlater |
        ⟨ha2, row2, hrow2, hstatus2⟩
      · exact .inl hnone
      · exact .inr (.inl hlater)
      · exact .inr (.inr ⟨ha2, row2, hrow2, hstatus2.trans hstatus⟩)

theorem claim_ended (hplanned : Planned s plan.toPlan row) (hended : row.status.open = false) :
    ClaimMode.retryTerminal.allowed row plan.attempt = true := by
  obtain ⟨mode, hallowed, -⟩ := plan.allowed
  cases mode with
  | startQueued =>
    simp only [ClaimMode.allowed, Bool.and_eq_true, beq_iff_eq] at hallowed
    rw [hplanned.status, hallowed.1] at hended
    exact absurd hended (by simp [JobStatus.open])
  | retryTerminal => simpa [ClaimMode.allowed, hplanned.status] using hallowed

theorem JobStep.fenced (hseq : s.jobSeq ≤ s'.jobSeq) (h : ∀ id, JobStep s op id s') :
    Fenced s s' where
  seq := hseq
  gone id hid hnone := by
    cases h id with
    | same h1 => rw [h1, hnone]
    | created _ h1 => omega
    | claimed _ _ _ _ _ _ h2 h3 =>
      rw [← h2, h3.stored] at hnone
      exact absurd hnone (by simp)
    | changed _ _ h1 => simp [h1] at hnone
    | cleared _ _ _ h3 => exact h3
  unrecorded id hid hnone := by
    cases h id with
    | same _ h2 => rw [h2, hnone]
    | created _ h1 => omega
    | claimed _ _ _ _ _ _ h2 h3 =>
      rw [← h2, h3.attempt] at hnone
      exact absurd hnone (by simp)
    | changed _ _ _ _ _ h4 => rw [h4, hnone]
    | cleared _ _ _ _ h4 => exact h4
  grows id hid a a' ha ha' := by
    cases h id with
    | same _ h2 =>
      rw [h2, ha, Option.some_inj] at ha'
      rw [ha']
    | created _ h1 => omega
    | claimed _ plan _ owner _ _ h2 h3 _ h5 =>
      rw [← h2, h3.attempt, Option.some_inj] at ha
      rw [h5, Option.some_inj] at ha'
      rw [← ha, ← ha']
      exact Nat.le_succ _
    | changed _ _ _ _ _ h4 =>
      rw [h4, ha, Option.some_inj] at ha'
      rw [ha']
    | cleared _ _ _ _ h4 =>
      rw [h4] at ha'
      exact absurd ha' (by simp)
  ended id hid row a hrow hended ha := by
    cases h id with
    | same h1 h2 => exact .inr (.inr ⟨h2.trans ha, row, h1.trans hrow, rfl⟩)
    | created _ h1 => omega
    | claimed _ plan _ owner _ _ h2 h3 _ h5 =>
      rw [← h2, h3.attempt, Option.some_inj] at ha
      refine .inr (.inl ⟨_, h5, ?_⟩)
      rw [← ha]
      exact Nat.lt_succ_self _
    | changed row1 _ h1 h2 =>
      rw [hrow, Option.some_inj] at h1
      rw [← h1, hended] at h2
      exact absurd h2 (by simp)
    | cleared _ _ _ _ h4 => exact .inl h4

/-! ### Runs -/

theorem step_fenced (h : s.step env op = (s', out)) (hs : s.Numbered) :
    s'.Numbered ∧ Fenced s s' := by
  rcases step_cases h with ⟨e, -, rfl⟩ | ⟨a, -, heffect⟩
  · exact ⟨hs, Fenced.refl _⟩
  · exact ⟨heffect.numbered hs, JobStep.fenced heffect.jobSeq_le heffect.jobStep⟩

theorem Store.Initial.numbered (h : s.Initial) : s.Numbered := by
  intro id hid
  refine ⟨?_, by rw [h.2.1]; rfl⟩
  cases hrow : s.jobs.find? id with
  | none => rfl
  | some row =>
    have hle := h.1 id row hrow
    omega

theorem steps_fenced {tr : List Event} (h : (machine env).Steps s tr s') (hs : s.Numbered) :
    s'.Numbered ∧ Fenced s s' :=
  h.relation Fenced.refl (fun _ _ _ => Fenced.trans) (fun _ _ _ _ hn _ hst => step_fenced hst hn) hs

/-- The handle a worker updates its job with. -/
def Op.handle? : Op → Option JobExecution
  | .progressExecution x _ _ | .finishExecution x _ | .failExecution x _ => some x
  | _ => none

theorem Op.handle?_of_update? {u : Update} (h : op.update? = some (x, u)) :
    op.handle? = some x := by
  cases op with
  | progressExecution x' stage percent =>
    cases percent with
    | none => simp [Op.update?] at h
    | some percent =>
      simp only [Op.update?, Option.map_some, Option.some_inj, Prod.mk.injEq] at h
      rw [← h.1]
      rfl
  | finishExecution x' artifacts | failExecution x' error =>
    simp only [Op.update?, Option.some_inj, Prod.mk.injEq] at h
    rw [← h.1]
    rfl
  | _ => simp [Op.update?] at h

/-- The update took effect: the attempt is the handle's, the job is running, and
nothing but its row changes. -/
structure Applies (e : Event) (x : JobExecution) : Prop where
  answer : ∃ job, e.out = .ok (.update (.applied job))
  attempt : ∃ a, e.pre.attempts.find? x.id = some a ∧ a.generation = x.generation
    ∧ a.owner = some x.owner
  running : ∃ row, e.pre.jobs.find? x.id = some row ∧ row.status = .running
  frame : ∃ jobs, e.post = { e.pre with jobs := jobs }
    ∧ ∀ id, id ≠ x.id → jobs.find? id = e.pre.jobs.find? id

/-- The update was refused, or found the job ended. -/
structure Refused (e : Event) : Prop where
  answer : ∀ job, e.out ≠ .ok (.update (.applied job))
  unchanged : e.post = e.pre

theorem update_step (h : s.step env op = (s', out)) (hx : op.handle? = some x) :
    Applies ⟨s, op, out, s'⟩ x ∨ Refused ⟨s, op, out, s'⟩ := by
  rcases step_cases h with ⟨e, rfl, rfl⟩ | ⟨a, rfl, heffect⟩
  · exact .inr ⟨fun job => by simp, rfl⟩
  · cases heffect with
    | idle hidle =>
      refine .inr ⟨fun job hjob => ?_, rfl⟩
      obtain rfl : a = .update (.applied job) := by simpa using hjob
      cases op <;> simp [idles] at hidle
    | update x' u row job hop hrow hattempt hrunning =>
      have hsame := Op.handle?_of_update? hop
      rw [hx, Option.some_inj] at hsame
      subst hsame
      obtain ⟨a, ha, hattempted⟩ := (Option.any_eq_true _ _).mp hattempt
      simp only [JobExecution.attempted, Bool.and_eq_true, beq_iff_eq] at hattempted
      refine .inl ⟨⟨job, rfl⟩, ⟨a, ha, hattempted⟩, ⟨row, hrow, hrunning⟩, _, rfl, ?_⟩
      intro id hid
      rw [find?_updateJob, if_neg hid]
    | moved clock id action s' habout => cases op <;> simp_all [Op.handle?, Store.about]
    | enqueue | claim | attach | interrupt | cancelJob | cancelJobTask | clear | start |
      cancelled => simp [Op.handle?] at hx

/-- A retry of an ended job that gives it the next generation. -/
structure Retries (e : Event) (id : ℕ) : Prop where
  claim : ∃ clock plan reservation owner, e.op = .claimExecution clock plan reservation owner
    ∧ plan.id = id ∧ ClaimMode.retryTerminal.allowed plan.row plan.attempt = true
  generation : ∃ g, e.pre.generation id = some g ∧ e.post.generation id = some (g + 1)

theorem ended_step (h : s.step env op = (s', out)) (hs : s.Numbered)
    (hrow : s.jobs.find? id = some row) (hended : row.status.open = false) :
    (op = .clearFinished ∧ s'.jobs.find? id = none)
      ∨ ∃ row', s'.jobs.find? id = some row'
        ∧ (row'.status = row.status ∨ Retries ⟨s, op, out, s'⟩ id) := by
  rcases step_cases h with ⟨_, -, rfl⟩ | ⟨a, -, heffect⟩
  · exact .inr ⟨row, hrow, .inl rfl⟩
  · cases heffect.jobStep id with
    | same h1 => exact .inr ⟨row, h1.trans hrow, .inl rfl⟩
    | created _ h1 =>
      rw [(hs id (by omega)).1] at hrow
      exact absurd hrow (by simp)
    | claimed clock plan reservation owner row1 h1 h2 h3 h4 h5 =>
      rw [← h2, h3.stored, Option.some_inj] at hrow
      subst hrow
      refine .inr ⟨_, h4, .inr ⟨⟨clock, plan, reservation, owner, h1, h2, ?_⟩, ?_⟩⟩
      · have hretry := claim_ended h3 hended
        simpa [ClaimMode.allowed, h3.status] using hretry
      · refine ⟨plan.attempt.generation, ?_, ?_⟩
        · rw [Store.generation, ← h2, h3.attempt]
          rfl
        · rw [Store.generation, h5]
          rfl
    | changed row1 _ h1 h2 =>
      rw [hrow, Option.some_inj] at h1
      rw [← h1, hended] at h2
      exact absurd h2 (by simp)
    | cleared _ h1 _ h3 => exact .inl ⟨h1, h3⟩

theorem claimed_step {job : Job} (h : s.step env op = (s', .ok (.claimed job x))) :
    ∃ g, s.generation x.id = some g ∧ s'.generation x.id = some (g + 1)
      ∧ x.generation = g + 1 := by
  rcases step_cases h with ⟨_, herr, -⟩ | ⟨a, hok, heffect⟩
  · exact absurd herr (by simp)
  · obtain rfl : a = .claimed job x := by simpa using hok.symm
    cases heffect with
    | idle hidle => cases op <;> simp [idles] at hidle
    | claim clock plan reservation owner row job hplanned =>
      refine ⟨plan.attempt.generation, ?_, ?_, rfl⟩
      · rw [Store.generation, hplanned.attempt]
        rfl
      · simp [Store.generation, Store.claimed, Attempt.claimed]
    | attach clock plan reservation owner row job id s' hplanned _ _ hmoves =>
      obtain ⟨-, hattempts, -⟩ := hmoves.jobStep 0
      refine ⟨plan.attempt.generation, ?_, ?_, rfl⟩
      · rw [Store.generation, hplanned.attempt]
        rfl
      · simp [Store.generation, hattempts, Store.claimed, Attempt.claimed]
    | moved clock id action s' _ htask => simp [Answer.ofTask] at htask

theorem cancel_step (h : s.step env (.cancel clock id) = (s', .ok a)) :
    ∃ row, s'.jobs.find? id = some row ∧ row.status = .cancelled := by
  rcases step_cases h with ⟨_, herr, -⟩ | ⟨a', hok, heffect⟩
  · exact absurd herr (by simp)
  · obtain rfl : a = a' := by simpa using hok
    cases heffect with
    | idle hidle => simp [idles] at hidle
    | update _ _ _ _ hop => simp [Op.update?] at hop
    | cancelJob clock id row job hrow hopen =>
      exact ⟨_, by rw [find?_jobCancelled hrow hopen, if_pos rfl], rfl⟩
    | cancelJobTask clock id row job taskId s' hrow hopen _ hmoves =>
      obtain ⟨hsame | ⟨row1, row2, h1, h2, -⟩, -, -⟩ := hmoves.jobStep id
      · exact ⟨_, by rw [hsame, find?_jobCancelled hrow hopen, if_pos rfl], rfl⟩
      · rw [find?_jobCancelled hrow hopen, if_pos rfl, Option.some_inj] at h1
        rw [← h1] at h2
        exact absurd h2 (by simp [JobRow.cancelled, JobStatus.open])
    | moved clock id action s' habout => simp [Store.about] at habout

theorem late_update (hs : s.Numbered) (hfenced : Fenced s s₁) (h : s₁.step env op = (s₂, out))
    (hx : op.handle? = some x) (hrow : s.jobs.find? x.id = some row)
    (hended : row.status.open = false) (hold : ∀ g, s.generation x.id = some g → x.generation ≤ g) :
    s₂ = s₁ := by
  have hid : x.id ≤ s.jobSeq := by
    by_contra hlt
    rw [(hs x.id (by omega)).1] at hrow
    exact absurd hrow (by simp)
  rcases update_step h hx with happlies | hrefused
  · exfalso
    obtain ⟨a1, ha1, hgen, -⟩ := happlies.attempt
    obtain ⟨row1, hrow1, hrunning⟩ := happlies.running
    simp only at ha1 hrow1
    cases ha : s.attempts.find? x.id with
    | none =>
      rw [hfenced.unrecorded x.id hid ha] at ha1
      exact absurd ha1 (by simp)
    | some a =>
      have hle : x.generation ≤ a.generation := hold a.generation (by rw [Store.generation, ha]; rfl)
      rcases hfenced.ended x.id hid row a hrow hended ha with hnone | ⟨a', ha', hlt⟩ |
        ⟨-, row', hrow', hstatus⟩
      · rw [hnone] at ha1
        exact absurd ha1 (by simp)
      · rw [ha', Option.some_inj] at ha1
        rw [ha1] at hlt
        omega
      · rw [hrow', Option.some_inj] at hrow1
        rw [← hstatus, hrow1, hrunning] at hended
        exact absurd hended (by simp [JobStatus.open])
  · exact hrefused.unchanged

/-- **Job fencing**: in every run, over any order of operations and any handles,
generations only grow and grow at each claim; an update acts exactly for the current
attempt of a running job and otherwise changes nothing; an ended job keeps its status
until it is retried or cleared, so a cancellation wins over whatever comes late; and
the number of a cleared job never names another one. -/
theorem job_fencing {env : Env} {s₀ s s' : Store} {tr₀ tr : List Event} (h₀ : s₀.Initial)
    (hs : (machine env).Steps s₀ tr₀ s) (hs' : (machine env).Steps s tr s') :
    (∀ id g g', s.generation id = some g → s'.generation id = some g' → g ≤ g')
    ∧ (∀ e ∈ tr, ∀ job x, e.out = .ok (.claimed job x) →
        ∃ g, e.pre.generation x.id = some g ∧ e.post.generation x.id = some (g + 1)
          ∧ x.generation = g + 1)
    ∧ (∀ e ∈ tr, ∀ x, e.op.handle? = some x → Applies e x ∨ Refused e)
    ∧ (∀ e ∈ tr, ∀ id row, e.pre.jobs.find? id = some row → row.status.open = false →
        (e.op = .clearFinished ∧ e.post.jobs.find? id = none)
          ∨ ∃ row', e.post.jobs.find? id = some row'
            ∧ (row'.status = row.status ∨ Retries e id))
    ∧ (∀ e ∈ tr, ∀ clock id a, e.op = .cancel clock id → e.out = .ok a →
        ∃ row, e.post.jobs.find? id = some row ∧ row.status = .cancelled)
    ∧ (∀ e ∈ tr, ∀ x row, e.op.handle? = some x → s.jobs.find? x.id = some row →
        row.status.open = false → (∀ g, s.generation x.id = some g → x.generation ≤ g) →
        e.post = e.pre)
    ∧ (∀ e ∈ tr₀, ∀ id, e.pre.jobs.find? id ≠ none → s.jobs.find? id = none →
        s'.jobs.find? id = none) := by
  obtain ⟨hnum, -⟩ := steps_fenced hs h₀.numbered
  have hstep : ∀ e ∈ tr, e.pre.step env e.op = (e.post, e.out) ∧ e.pre.Numbered
      ∧ Fenced s e.pre := by
    intro e he
    obtain ⟨tr₁, tr₂, -, hbefore, -, hst, -⟩ := hs'.split he
    obtain ⟨hnum', hfenced⟩ := steps_fenced hbefore hnum
    exact ⟨hst, hnum', hfenced⟩
  refine ⟨?_, ?_, ?_, ?_, ?_, ?_, ?_⟩
  · intro id g g' hg hg'
    obtain ⟨a, ha, rfl⟩ := Option.map_eq_some_iff.mp hg
    obtain ⟨a', ha', rfl⟩ := Option.map_eq_some_iff.mp hg'
    refine (steps_fenced hs' hnum).2.grows id ?_ a a' ha ha'
    -- a job with a number above the sequence is not there
    by_contra hlt
    rw [(hnum id (by omega)).2] at ha
    exact absurd ha (by simp)
  · intro e he job x hout
    have hst := (hstep e he).1
    rw [hout] at hst
    exact claimed_step hst
  · intro e he x hx
    exact update_step (hstep e he).1 hx
  · intro e he id row hrow hended
    obtain ⟨hst, hnum', -⟩ := hstep e he
    exact ended_step hst hnum' hrow hended
  · intro e he clock id a hop hout
    have hst := (hstep e he).1
    rw [hop, hout] at hst
    exact cancel_step hst
  · intro e he x row hx hrow hended hold
    obtain ⟨hst, -, hfenced⟩ := hstep e he
    exact late_update hnum hfenced hst hx hrow hended hold
  · intro e he id hused hgone
    obtain ⟨tr₁, tr₂, -, hbefore, -, hst, hafter⟩ := hs.split he
    obtain ⟨hnum₁, -⟩ := steps_fenced hbefore h₀.numbered
    have hid : id ≤ e.pre.jobSeq := by
      by_contra hlt
      exact hused (hnum₁ id (by omega)).1
    -- numbers are not handed out again
    have hseq := (step_fenced hst hnum₁).2.seq.trans
      (steps_fenced hafter (step_fenced hst hnum₁).1).2.seq
    exact (steps_fenced hs' hnum).2.gone id (hid.trans hseq) hgone

end

namespace Sample

def otherOwner : Token := ⟨"33333333333333333333333333333333", by decide⟩

/-- The cancelled job is claimed again, by another owner. -/
def retry : ClaimPlan :=
  ⟨⟨ns, 1, { kind := "scan", status := .cancelled }, .claimed 0 owner⟩, .retryTerminal, rfl, rfl⟩

def scanned : List Op := [.enqueue "scan", claim "scan", .cancel clock 1]

def late : List Op :=
  [.finishExecution handle [], .claimExecution clock retry ⟨retry.target, true⟩ otherOwner,
    .finishExecution handle []]

end Sample

/-- The first owner of a job finishes late twice: after the cancellation, and again
after the retry. -/
theorem job_fencing_late :
    (((machine (Sample.env Sample.intent)).exec Sample.empty Sample.scanned).jobs.find? 1).map
        (·.status) = some .cancelled
    ∧ ((machine (Sample.env Sample.intent)).exec Sample.empty
        (Sample.scanned ++ Sample.late)).generation 1 = some 2
    ∧ ∀ e ∈ (machine (Sample.env Sample.intent)).trace
        ((machine (Sample.env Sample.intent)).exec Sample.empty Sample.scanned) Sample.late,
        e.op.handle? = some Sample.handle → e.post = e.pre := by
  refine ⟨by decide, by decide, ?_⟩
  intro e he hhandle
  obtain ⟨-, -, -, -, -, hlate, -⟩ := job_fencing Sample.empty_initial
    (Machine.steps_exec (M := machine (Sample.env Sample.intent)) fun _ i _ => trivial)
    (Machine.steps_exec fun _ i _ => trivial)
  refine hlate e he Sample.handle { kind := "scan", status := .cancelled } hhandle ?_ rfl ?_
  · decide
  · intro g hg
    have hone : ((machine (Sample.env Sample.intent)).exec Sample.empty Sample.scanned).generation 1
        = some 1 := by decide
    exact (Option.some_inj.mp (hone.symm.trans hg)).le

end Jobs

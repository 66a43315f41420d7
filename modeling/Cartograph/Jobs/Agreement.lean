/-
Jobs and tasks agree.

A task and its job are two records of one piece of work, and nine operations write
one of them or both.  `Course` sorts the moves of a task by what they do to its
phase, its flag and its job; `Agrees` is what the job table has to say about the job
of a task:

* queued, and claimed by nobody, while the task is queued;
* running at generation 1 for the recorded owner, while the task is worked on;
* cancelled or cleared, once cancellation was requested;
* ended or cleared, once the task has ended.

`job_task_agreement` is the invariant of every run of the application, in which a
task is also attached to an execution at most once.
-/
import Cartograph.Jobs.Fencing

namespace Jobs

open Investigation Checked

/-! ### The course of a task -/

/-- Neither waiting for a worker nor over. -/
def working (t : StoredTask) : Prop := t.phase ≠ .queued ∧ t.phase ≠ .terminal

/-- The job of the task is not open in `jobs`. -/
def Closed (jobs : Table ℕ JobRow) (t : StoredTask) : Prop :=
  ∀ row, jobs.find? t.detail.summary.jobId = some row → row.status.open = false

inductive Course (d : Draft) : Action → Draft → Prop
  | attached (identity : StoredExecution) (d' : Draft) :
      d.task.phase = .queued → d.task.execution = none →
      d.task.detail.summary.cancelRequested = false →
      d'.task.phase = .preparing → d'.task.detail.summary.cancelRequested = false →
      d'.task.execution = some identity → d'.jobs = d.jobs → Course d (.attach identity) d'
  | works {action : Action} (d' : Draft) :
      working d.task → working d'.task → d.task.detail.summary.cancelRequested = false →
      d'.task.detail.summary.cancelRequested = false → d'.task.execution = d.task.execution →
      d'.jobs = d.jobs → Course d action d'
  | ends {action : Action} (d' : Draft) :
      d.task.phase ≠ .terminal → d'.task.phase = .terminal →
      d'.task.execution = d.task.execution → Closed d'.jobs d'.task → Course d action d'
  | flagged (d' : Draft) :
      working d.task → d.task.detail.summary.cancelRequested = false →
      d'.task.phase = d.task.phase → d'.task.detail.summary.cancelRequested = true →
      d'.task.execution = d.task.execution →
      (∀ row, d'.jobs.find? d'.task.detail.summary.jobId = some row →
        row.status.open = false ∧ ∀ row₀, d.jobs.find? d'.task.detail.summary.jobId = some row₀ →
          row₀.status = .running → row.status = .cancelled) → Course d .cancel d'

theorem closed_syncTerminalJob (d : Draft) :
    Closed (syncTerminalJob d).jobs (syncTerminalJob d).task := by
  intro row hrow
  change (updateJob d.jobs d.task.detail.summary.jobId _ _).find? d.task.detail.summary.jobId
    = some row at hrow
  rw [find?_updateJob, if_pos rfl] at hrow
  obtain ⟨row0, -, rfl⟩ := Option.map_eq_some_iff.mp hrow
  by_cases hopen : row0.status.open = true
  · rw [if_pos hopen]
    exact terminalJobStatus_open d.task
  · rw [if_neg hopen]
    simpa using hopen

variable {t : StoredTask} {d d' : Draft} {row : JobRow} {env : Env} {clock : Clock}
  {action : Action} {attempts : Table ℕ Attempt} {identity : StoredExecution} {s s' : Store}
  {id : String} {op : Op} {out : Except Failure Answer}

theorem mayInvoke_phase {step : PendingInvestigationStep} (h : mayInvoke t step = .ok ()) :
    t.phase = .ready ∨ t.phase = .consent := by
  unfold mayInvoke at h
  cases hmode : t.detail.provider.mode with
  | localMode =>
    simp only [hmode, checkReady, bind_eq_ok, ensure_eq_ok] at h
    obtain ⟨⟨⟩, -, ⟨⟩, ⟨hphase, -⟩, -⟩ := h
    exact .inl hphase
  | cloud =>
    simp only [hmode, ensure_eq_ok] at h
    exact .inr h.1

theorem working_of_phase {p : Phase} (h : t.phase = p) (hq : p ≠ .queued) (ht : p ≠ .terminal) :
    working t := by
  rw [working, h]
  exact ⟨hq, ht⟩

theorem find?_cancelOpenJob
    (h : (cancelOpenJob d).jobs.find? d.task.detail.summary.jobId = some row) :
    row.status.open = false ∧ ∀ row0, d.jobs.find? d.task.detail.summary.jobId = some row0 →
      row0.status = .running → row.status = .cancelled := by
  change (updateJob d.jobs d.task.detail.summary.jobId _ _).find? d.task.detail.summary.jobId
    = some row at h
  rw [find?_updateJob, if_pos rfl] at h
  obtain ⟨row1, hrow1, rfl⟩ := Option.map_eq_some_iff.mp h
  by_cases hopen : row1.status.open = true
  · rw [if_pos hopen]
    exact ⟨rfl, fun _ _ _ => rfl⟩
  · rw [if_neg hopen]
    refine ⟨by simpa using hopen, fun row0 hrow0 hrunning => ?_⟩
    rw [hrow1, Option.some_inj] at hrow0
    rw [hrow0, hrunning] at hopen
    exact absurd rfl hopen

theorem Move.course (h : Move env clock d action d') : Course d action d' := by
  cases h with
  | attach identity hphase hnone hcancel =>
    exact .attached identity _ hphase hnone hcancel (by simp [attached])
      (by simpa [attached] using hcancel) (by simp [attached]) (by simp)
  | inputPrepared _ _ _ hphase _ hcancel | inputAdmitted _ _ _ hphase hcancel =>
    exact .works _ (working_of_phase hphase (by simp) (by simp))
      (by simp [working, Draft.withInput, inputTaken]) hcancel
      (by simpa [Draft.withInput, inputTaken] using hcancel)
      (by simp [Draft.withInput, inputTaken]) (by simp [Draft.withInput])
  | awaitConsent _ hphase hcancel | beginTool _ hphase _ hcancel | chargeEvidence _ hphase hcancel =>
    exact .works _ (working_of_phase hphase (by simp) (by simp))
      (by simp [working, awaiting, toolStarted, charged, hphase]) hcancel
      (by simpa [awaiting, toolStarted, charged] using hcancel)
      (by simp [awaiting, toolStarted, charged]) (by simp)
  | beginInvocation _ hcancel hinv =>
    have hwork : working d.task := by
      rcases mayInvoke_phase hinv.may with hphase | hphase <;>
        exact working_of_phase hphase (by simp) (by simp)
    exact .works _ hwork (by simp [working, Draft.invoked, invoking]) hcancel
      (by simpa [Draft.invoked, invoking] using hcancel) (by simp [Draft.invoked, invoking])
      (by simp [Draft.invoked])
  | actionAdmitted _ _ _ hcancel hans =>
    exact .works _ (working_of_phase hans.phase (by simp) (by simp))
      (by simp [working, Draft.responded, responded]) hcancel
      (by simpa [Draft.responded, responded] using hcancel)
      (by simp [Draft.responded, responded]) (by simp [Draft.responded])
  | finished _ _ _ hans =>
    exact .ends _ (working_of_phase hans.phase (by simp) (by simp)).2
      (by simp [Draft.responded, responded]) (by simp [Draft.responded, responded])
      (closed_syncTerminalJob _)
  | stopWithElapsed _ _ hlive | recover hlive =>
    exact .ends _ hlive (by simp [Draft.stopped, Draft.recovered, ended])
      (by simp [Draft.stopped, Draft.recovered, ended, elapsed]) (closed_syncTerminalJob _)
  | approve _ _ _ hdecides hcancel =>
    exact .works _ (working_of_phase hdecides.phase (by simp) (by simp))
      (by simp [working, consented, hdecides.phase]) hcancel (by simpa [consented] using hcancel)
      (by simp [consented]) (by simp)
  | decline _ _ _ hdecides =>
    exact .ends _ (working_of_phase hdecides.phase (by simp) (by simp)).2
      (by simp [Draft.stopped, ended]) (by simp [Draft.stopped, ended, declining])
      (closed_syncTerminalJob _)
  | cancel hlive hcancel =>
    -- a queued task ends, a working one is only flagged
    have hjob : ∀ row, (d.cancelledBy clock).jobs.find?
        (d.cancelledBy clock).task.detail.summary.jobId = some row → _ :=
      fun row => find?_cancelOpenJob
    by_cases hqueued : d.task.phase = .queued
    · exact .ends _ hlive (by simp [Draft.cancelledBy, cancelRequested, hqueued])
        (by simp [Draft.cancelledBy, cancelRequested]) fun row hrow => (hjob row hrow).1
    · exact .flagged _ ⟨hqueued, hlive⟩ hcancel
        (by simp [Draft.cancelledBy, cancelRequested, hqueued])
        (by simp [Draft.cancelledBy, cancelRequested])
        (by simp [Draft.cancelledBy, cancelRequested]) hjob

/-! ### Agreement -/

/-- What the tables of jobs and attempts say about the job of a task. -/
structure Agrees (jobs : Table ℕ JobRow) (attempts : Table ℕ Attempt) (t : StoredTask) : Prop where
  queued : t.phase = .queued →
    t.detail.summary.cancelRequested = false ∧ ∃ row, jobs.find? t.detail.summary.jobId = some row
      ∧ row.status = .queued ∧ attempts.find? t.detail.summary.jobId = some .unclaimed
  running : working t → t.detail.summary.cancelRequested = false →
    ∃ row identity owner, jobs.find? t.detail.summary.jobId = some row ∧ row.status = .running
      ∧ t.execution = some identity ∧ identity.owner = owner.text
      ∧ attempts.find? t.detail.summary.jobId = some (.claimed 0 owner)
  cancelled : t.phase ≠ .terminal → t.detail.summary.cancelRequested = true →
    ∀ row, jobs.find? t.detail.summary.jobId = some row → row.status = .cancelled
  ended : t.phase = .terminal → Closed jobs t

theorem Agrees.congr {jobs jobs' : Table ℕ JobRow} {attempts' : Table ℕ Attempt}
    (h : Agrees jobs attempts t)
    (hjobs : jobs'.find? t.detail.summary.jobId = jobs.find? t.detail.summary.jobId)
    (hattempts : attempts'.find? t.detail.summary.jobId = attempts.find? t.detail.summary.jobId) :
    Agrees jobs' attempts' t where
  queued := by
    rw [hjobs, hattempts]
    exact h.queued
  running := by
    rw [hjobs, hattempts]
    exact h.running
  cancelled := by
    rw [hjobs]
    exact h.cancelled
  ended := by
    unfold Closed
    rw [hjobs]
    exact h.ended

theorem Agrees.not_settled {jobs : Table ℕ JobRow} (h : Agrees jobs attempts t)
    (hrow : jobs.find? t.detail.summary.jobId = some row) (hopen : row.status.open = true) :
    ¬ settled t := by
  intro hsettled
  by_cases hphase : t.phase = .terminal
  · rw [h.ended hphase row hrow] at hopen
    exact absurd hopen (by simp)
  · have hcancel : t.detail.summary.cancelRequested = true := hsettled.resolve_left hphase
    rw [h.cancelled hphase hcancel row hrow] at hopen
    exact absurd hopen (by simp [JobStatus.open])

theorem Course.agrees (h : Course d action d') (hattach : ∀ identity, action ≠ .attach identity)
    (hid : d'.task.detail.summary.jobId = d.task.detail.summary.jobId)
    (hagrees : Agrees d.jobs attempts d.task) : Agrees d'.jobs attempts d'.task := by
  cases h with
  | attached identity => exact absurd rfl (hattach identity)
  | works _ hwork hwork' hcancel hcancel' hexec hjobs =>
    refine ⟨fun hq => absurd hq hwork'.1, fun _ _ => ?_, fun _ hc => ?_,
      fun ht => absurd ht hwork'.2⟩
    · obtain ⟨row, identity, owner, h1, h2, h3, h4, h5⟩ := hagrees.running hwork hcancel
      rw [hid, hjobs, hexec]
      exact ⟨row, identity, owner, h1, h2, h3, h4, h5⟩
    · rw [hcancel'] at hc
      exact absurd hc (by simp)
  | ends _ _ hphase _ hclosed =>
    refine ⟨fun hq => ?_, fun hw => absurd hphase hw.2, fun ht => absurd hphase ht,
      fun _ => hclosed⟩
    rw [hphase] at hq
    exact absurd hq (by simp)
  | flagged _ hwork hcancel hphase hcancel' _ hjob =>
    have hwork' : working d'.task := by
      rw [working, hphase]
      exact hwork
    refine ⟨fun hq => absurd hq hwork'.1, fun _ hc => ?_, fun _ _ row hrow => ?_,
      fun ht => absurd ht hwork'.2⟩
    · rw [hcancel'] at hc
      exact absurd hc (by simp)
    · -- the job was running, so it is cancelled now
      obtain ⟨row0, _, _, hrow0, hrunning, -⟩ := hagrees.running hwork hcancel
      rw [← hid] at hrow0
      exact (hjob row hrow).2 row0 hrow0 hrunning

theorem agrees_cancelledBy
    (hjob : ∀ row, d.jobs.find? d.task.detail.summary.jobId = some row → row.status = .cancelled) :
    Agrees (d.cancelledBy clock).jobs attempts (d.cancelledBy clock).task := by
  have hflag : (d.cancelledBy clock).task.detail.summary.cancelRequested = true := by
    simp [Draft.cancelledBy, cancelRequested]
  have hqueued : (d.cancelledBy clock).task.phase ≠ .queued := by
    by_cases hq : d.task.phase = .queued <;> simp [Draft.cancelledBy, cancelRequested, hq]
  have hjob' : ∀ row, (d.cancelledBy clock).jobs.find?
      (d.cancelledBy clock).task.detail.summary.jobId = some row → row.status = .cancelled := by
    intro row hrow
    change (updateJob d.jobs d.task.detail.summary.jobId _ _).find? d.task.detail.summary.jobId
      = some row at hrow
    rw [find?_updateJob, if_pos rfl] at hrow
    obtain ⟨row0, hrow0, rfl⟩ := Option.map_eq_some_iff.mp hrow
    have hstatus := hjob row0 hrow0
    rw [if_neg (by simp [hstatus, JobStatus.open])]
    exact hstatus
  refine ⟨fun hq => absurd hq hqueued, fun _ hc => ?_, fun _ _ => hjob', fun _ row hrow => ?_⟩
  · rw [hflag] at hc
    exact absurd hc (by simp)
  · rw [hjob' row hrow]
    rfl

theorem agrees_attached {owner : Token} (h : Move env clock d (.attach identity) d')
    (hrow : d.jobs.find? d.task.detail.summary.jobId = some row) (hrunning : row.status = .running)
    (howner : identity.owner = owner.text)
    (hattempt : attempts.find? d.task.detail.summary.jobId = some (.claimed 0 owner)) :
    Agrees d'.jobs attempts d'.task := by
  have hid := h.jobId
  cases h with
  | attach _ _ _ hcancel =>
    refine ⟨fun hq => ?_, fun _ _ => ?_, fun _ hc => ?_, fun ht => ?_⟩
    · simp [attached] at hq
    · rw [hid, jobs_noted]
      exact ⟨row, identity, owner, hrow, hrunning, by simp [attached], howner, hattempt⟩
    · simp [attached, hcancel] at hc
    · simp [attached] at ht

/-! ### The store -/

/-- Every task has a job number of its own, and agrees with its job. -/
structure Store.Agreement (s : Store) : Prop where
  jobId : ∀ id row, s.tasks.find? id = some row → row.record.detail.summary.jobId = row.jobId
  used : ∀ id row, s.tasks.find? id = some row → row.jobId ≤ s.jobSeq
  distinct : ∀ id id' row row', s.tasks.find? id = some row → s.tasks.find? id' = some row' →
    row.jobId = row'.jobId → id = id'
  agrees : ∀ id row, s.tasks.find? id = some row → Agrees s.jobs s.attempts row.record

theorem taskIdForJob_eq_some {jobId : ℕ} (h : s.taskIdForJob jobId = some id) :
    ∃ row, s.tasks.find? id = some row ∧ row.jobId = jobId := by
  obtain ⟨⟨id', row⟩, hfind, rfl⟩ := Option.map_eq_some_iff.mp h
  refine ⟨row, Table.find?_eq_some_iff.mpr (List.mem_of_find?_eq_some hfind), ?_⟩
  simpa using List.find?_some hfind

theorem taskIdForJob_eq_none {jobId : ℕ} (h : s.taskIdForJob jobId = none) {row : TaskRow}
    (hrow : s.tasks.find? id = some row) : row.jobId ≠ jobId := by
  have hnone := List.find?_eq_none.mp (Option.map_eq_none_iff.mp h) (id, row)
    (Table.find?_eq_some_iff.mp hrow)
  simpa using hnone

theorem Store.Agreement.of_jobs (h : s.Agreement) (htasks : s'.tasks = s.tasks)
    (hseq : s.jobSeq ≤ s'.jobSeq) (hsame : ∀ id row, s.tasks.find? id = some row →
      s'.jobs.find? row.jobId = s.jobs.find? row.jobId
        ∧ s'.attempts.find? row.jobId = s.attempts.find? row.jobId) : s'.Agreement := by
  refine ⟨?_, ?_, ?_, ?_⟩ <;> rw [htasks]
  · exact h.jobId
  · intro id row hrow
    exact (h.used id row hrow).trans hseq
  · exact h.distinct
  · intro id row hrow
    obtain ⟨hjobs, hattempts⟩ := hsame id row hrow
    rw [← h.jobId id row hrow] at hjobs hattempts
    exact (h.agrees id row hrow).congr hjobs hattempts

theorem Moves.agreement {s1 : Store} (h : Moves env clock s1 id action s') (hs : s.Agreement)
    (htasks : s1.tasks = s.tasks) (hseq : s1.jobSeq = s.jobSeq)
    (hother : ∀ row, s.tasks.find? id = some row → ∀ k, k ≠ row.jobId →
      s1.jobs.find? k = s.jobs.find? k ∧ s1.attempts.find? k = s.attempts.find? k)
    (hself : ∀ row d, s.tasks.find? id = some row → Move env clock (row.draft s1.jobs) action d →
      Agrees d.jobs s1.attempts d.task) : s'.Agreement := by
  obtain ⟨row, d, terminal, hload, hmove, -, -, rfl⟩ := h
  have hrow : s.tasks.find? id = some row := by rw [← htasks, hload.stored]
  have hid : d.task.detail.summary.jobId = row.jobId := hmove.jobId.trans hload.jobId
  -- a row of the new table is the saved one or an old one
  have hcases : ∀ id' row', (s1.tasks.put id (row.saved d)).find? id' = some row' →
      (id' = id ∧ row' = row.saved d) ∨ (id' ≠ id ∧ s.tasks.find? id' = some row') := by
    intro id' row' hfind
    rw [← htasks]
    exact Table.find?_put_eq_some.mp hfind
  refine ⟨?_, ?_, ?_, ?_⟩
  · intro id' row' hfind
    rcases hcases id' row' hfind with ⟨-, rfl⟩ | ⟨-, hold⟩
    · exact hid
    · exact hs.jobId id' row' hold
  · intro id' row' hfind
    show row'.jobId ≤ s1.jobSeq
    rw [hseq]
    rcases hcases id' row' hfind with ⟨-, rfl⟩ | ⟨-, hold⟩
    · exact hs.used id row hrow
    · exact hs.used id' row' hold
  · intro id1 id2 row1 row2 h1 h2 hjob
    rcases hcases id1 row1 h1 with ⟨rfl, rfl⟩ | ⟨hne1, hold1⟩ <;>
      rcases hcases id2 row2 h2 with ⟨rfl, rfl⟩ | ⟨hne2, hold2⟩
    · rfl
    · exact hs.distinct _ _ row row2 hrow hold2 hjob
    · exact hs.distinct _ _ row1 row hold1 hrow hjob
    · exact hs.distinct _ _ row1 row2 hold1 hold2 hjob
  · intro id' row' hfind
    rcases hcases id' row' hfind with ⟨rfl, rfl⟩ | ⟨hne, hold⟩
    · exact hself row d hrow hmove
    · have hjobId := hs.jobId id' row' hold
      -- tasks have jobs of their own
      have hdistinct : row'.jobId ≠ row.jobId := fun hjob =>
        hne (hs.distinct id' id row' row hold hrow hjob)
      obtain ⟨hjobs, hattempts⟩ := hother row hrow row'.jobId hdistinct
      refine (hs.agrees id' row' hold).congr ?_ ?_
      · rw [hjobId, ← hjobs]
        rcases hmove.jobs row'.jobId with hsame | ⟨hsame, -⟩
        · exact hsame
        · exact absurd (hsame.trans hload.jobId) hdistinct
      · rw [hjobId]
        exact hattempts

theorem workerAllows_handle {x : JobExecution} (hx : op.handle? = some x)
    (hallows : s.workerAllows op) : s.taskIdForJob x.id = none := by
  cases op with
  | progressExecution x' stage percent | finishExecution x' artifacts | failExecution x' error =>
    obtain rfl : x' = x := by simpa [Op.handle?] using hx
    exact hallows
  | _ => simp [Op.handle?] at hx

theorem Agrees.cleared (h : Agrees s.jobs s.attempts t) :
    Agrees s.cleared.jobs s.cleared.attempts t := by
  have hjobs : ∀ k, s.cleared.jobs.find? k = (s.jobs.find? k).filter fun row => !s.finished k row :=
    fun k => Table.find?_filter _ _ _
  have hattempts : ∀ k, s.cleared.attempts.find? k =
      (s.attempts.find? k).filter fun _ => !(s.jobs.find? k).any (s.finished k) :=
    fun k => Table.find?_filter _ _ _
  have hopen : ∀ k row, row.status.open = true → s.finished k row = false := by
    intro k row hrow
    cases hstatus : row.status <;> simp_all [Store.finished, JobStatus.open]
  have hsub : ∀ k row, s.cleared.jobs.find? k = some row → s.jobs.find? k = some row := by
    intro k row hrow
    rw [hjobs] at hrow
    exact (Option.filter_eq_some_iff.mp hrow).1
  -- a row that is open stays, and so does its attempt
  have hstay : ∀ k row, s.jobs.find? k = some row → row.status.open = true →
      s.cleared.jobs.find? k = some row ∧ s.cleared.attempts.find? k = s.attempts.find? k := by
    intro k row hrow ho
    have hfin := hopen k row ho
    refine ⟨by rw [hjobs, hrow]; simp [hfin], ?_⟩
    rw [hattempts, hrow]
    cases s.attempts.find? k <;> simp [hfin]
  refine ⟨fun hq => ?_, fun hw hc => ?_, fun ht hc row hrow => ?_, fun ht row hrow => ?_⟩
  · obtain ⟨hcancel, row, hrow, hstatus, hattempt⟩ := h.queued hq
    obtain ⟨h1, h2⟩ := hstay _ row hrow (by rw [hstatus]; rfl)
    exact ⟨hcancel, row, h1, hstatus, h2.trans hattempt⟩
  · obtain ⟨row, identity, owner, hrow, hstatus, hexec, howner, hattempt⟩ := h.running hw hc
    obtain ⟨h1, h2⟩ := hstay _ row hrow (by rw [hstatus]; rfl)
    exact ⟨row, identity, owner, h1, hstatus, hexec, howner, h2.trans hattempt⟩
  · exact h.cancelled ht hc row (hsub _ row hrow)
  · exact h.ended ht row (hsub _ row hrow)

theorem Store.Agreement.started {request : StartInvestigationRequest}
    {provider : InvestigationProvider} {intentHash : String} {conversation investigation : Token}
    (hs : s.Agreement) (h : Starts env s
      (startDraft env clock s request provider intentHash conversation investigation) id s') :
    s'.Agreement := by
  -- a row is the new one, or it was there
  have hcases : ∀ id' row', s'.tasks.find? id' = some row' →
      (id' = id ∧ row'.jobId = s.jobSeq + 1 ∧ row'.record.detail.summary.jobId = s.jobSeq + 1
        ∧ row'.record.phase = .queued ∧ row'.record.detail.summary.cancelRequested = false)
      ∨ (id' ≠ id ∧ s.tasks.find? id' = some row') := by
    intro id' row' hfind
    rw [h.tasks] at hfind
    rcases Table.find?_put_eq_some.mp hfind with ⟨rfl, rfl⟩ | ⟨hne, hold⟩
    · exact .inl ⟨rfl, rfl, rfl, rfl, rfl⟩
    · exact .inr ⟨hne, hold⟩
  have hjobs : ∀ k, s'.jobs.find? k
      = if k = s.jobSeq + 1 then some { kind := KIND_PREFIX ++ newId investigation } else s.jobs.find? k := by
    intro k
    rw [h.jobs, startDraft, jobs_recorded, Table.find?_put]
  have hattempts : ∀ k, s'.attempts.find? k
      = if k = s.jobSeq + 1 then some .unclaimed else s.attempts.find? k := by
    intro k
    rw [h.attempts, Table.find?_put]
  refine ⟨?_, ?_, ?_, ?_⟩
  · intro id' row' hfind
    rcases hcases id' row' hfind with ⟨-, h1, h2, -⟩ | ⟨-, hold⟩
    · rw [h1, h2]
    · exact hs.jobId id' row' hold
  · intro id' row' hfind
    rw [h.jobSeq]
    rcases hcases id' row' hfind with ⟨-, h1, -⟩ | ⟨-, hold⟩
    · exact h1.le
    · exact (hs.used id' row' hold).trans (Nat.le_succ _)
  · intro id1 id2 row1 row2 h1 h2 hjob
    rcases hcases id1 row1 h1 with ⟨hid1, hnew1, -⟩ | ⟨hne1, hold1⟩ <;>
      rcases hcases id2 row2 h2 with ⟨hid2, hnew2, -⟩ | ⟨hne2, hold2⟩
    · rw [hid1, hid2]
    · have hused := hs.used id2 row2 hold2
      omega
    · have hused := hs.used id1 row1 hold1
      omega
    · exact hs.distinct id1 id2 row1 row2 hold1 hold2 hjob
  · intro id' row' hfind
    rcases hcases id' row' hfind with ⟨-, -, hjobId, hphase, hcancel⟩ | ⟨-, hold⟩
    · refine ⟨fun _ => ⟨hcancel, ?_⟩, fun hw => absurd hphase hw.1, fun _ hc => ?_, fun ht => ?_⟩
      · rw [hjobId, hjobs, if_pos rfl, hattempts, if_pos rfl]
        exact ⟨_, rfl, rfl, rfl⟩
      · rw [hcancel] at hc
        exact absurd hc (by simp)
      · rw [hphase] at ht
        exact absurd ht (by simp)
    · -- older tasks have older jobs
      have hne : row'.record.detail.summary.jobId ≠ s.jobSeq + 1 := by
        have hused := hs.used id' row' hold
        rw [hs.jobId id' row' hold]
        omega
      refine (hs.agrees id' row' hold).congr ?_ ?_
      · rw [hjobs, if_neg hne]
      · rw [hattempts, if_neg hne]

/-- **Step lemma**: an operation the application performs keeps the agreement. -/
theorem Effect.agreement {a : Answer} (h : Effect env s op a s') (hallows : s.workerAllows op)
    (hs : s.Agreement) : s'.Agreement := by
  cases h with
  | idle => exact hs
  | cancelled => exact hs
  | enqueue kind job =>
    refine hs.of_jobs rfl (Nat.le_succ _) fun id row hrow => ?_
    have hused := hs.used id row hrow
    have hne : row.jobId ≠ s.jobSeq + 1 := by omega
    simp [hne]
  | claim clock plan reservation owner row job _ hnone =>
    refine hs.of_jobs rfl le_rfl fun id row hrow => ?_
    -- a claim without a task leaves the jobs of all tasks alone
    have hne := taskIdForJob_eq_none hnone hrow
    refine ⟨?_, by simp [Store.claimed, hne]⟩
    rw [Store.claimed, find?_updateJob, if_neg hne]
  | attach clock plan reservation owner row job id s' hplanned hid hgen hmoves =>
    obtain ⟨task, htask, hjobId⟩ := taskIdForJob_eq_some hid
    refine hmoves.agreement hs rfl rfl ?_ ?_
    · intro task' htask' k hk
      obtain rfl : task = task' := by simpa [htask] using htask'
      rw [hjobId] at hk
      refine ⟨?_, by simp [Store.claimed, hk]⟩
      rw [Store.claimed, find?_updateJob, if_neg hk]
    · intro task' d htask' hmove
      obtain rfl : task = task' := by simpa [htask] using htask'
      -- the task finds its job running, as the claim has left it
      have hkey : task.record.detail.summary.jobId = plan.id :=
        (hs.jobId id task htask).trans hjobId
      have hrunning : (s.claimed plan.toPlan owner).jobs.find? task.record.detail.summary.jobId
          = some row.claimed := by
        rw [hkey, Store.claimed, find?_updateJob, if_pos rfl, hplanned.stored]
        rfl
      have hattempt : (s.claimed plan.toPlan owner).attempts.find?
          task.record.detail.summary.jobId = some (.claimed 0 owner) := by
        rw [hkey, ← hgen]
        simp [Store.claimed]
      exact agrees_attached hmove hrunning rfl rfl hattempt
  | update x u row job hop =>
    have hnone := workerAllows_handle (Op.handle?_of_update? hop) hallows
    refine hs.of_jobs rfl le_rfl fun id row hrow => ⟨?_, rfl⟩
    rw [find?_updateJob, if_neg (taskIdForJob_eq_none hnone hrow)]
  | interrupt candidate reservation row job =>
    refine hs.of_jobs rfl le_rfl fun id row hrow => ⟨?_, rfl⟩
    rw [find?_updateJob, if_neg (taskIdForJob_eq_none hallows hrow)]
  | cancelJob clock id row job hrow hopen htask =>
    refine hs.of_jobs rfl le_rfl fun taskId task hfind => ⟨?_, rfl⟩
    rw [Store.jobCancelled, find?_updateJob]
    by_cases hid : task.jobId = id
    · -- an open job of a task that is settled
      exfalso
      obtain ⟨taskId', hid'⟩ : ∃ taskId', s.taskIdForJob id = some taskId' := by
        cases hnone : s.taskIdForJob id with
        | none => exact absurd hid (taskIdForJob_eq_none hnone hfind)
        | some taskId' => exact ⟨taskId', rfl⟩
      obtain ⟨task', hload, hsettled⟩ := htask taskId' hid'
      have hstored : s.tasks.find? taskId' = some task' := hload.stored
      have hjobId : task'.jobId = id := by
        obtain ⟨task'', htask'', hjobId⟩ := taskIdForJob_eq_some hid'
        rw [hstored, Option.some_inj] at htask''
        rw [htask'', hjobId]
      refine (hs.agrees taskId' task' hstored).not_settled ?_ hopen hsettled
      rw [hs.jobId taskId' task' hstored, hjobId, hrow]
    · rw [if_neg hid]
  | cancelJobTask clock id row job taskId s' hrow hopen hid hmoves =>
    obtain ⟨task, htask, hjobId⟩ := taskIdForJob_eq_some hid
    refine hmoves.agreement hs rfl rfl ?_ ?_
    · intro task' htask' k hk
      obtain rfl : task = task' := by simpa [htask] using htask'
      rw [hjobId] at hk
      refine ⟨?_, rfl⟩
      rw [Store.jobCancelled, find?_updateJob, if_neg hk]
    · intro task' d htask' hmove
      obtain rfl : task = task' := by simpa [htask] using htask'
      have hkey : task.record.detail.summary.jobId = id := (hs.jobId _ task htask).trans hjobId
      cases hmove with
      | cancel =>
        refine agrees_cancelledBy fun row' hrow' => ?_
        change (s.jobCancelled id).jobs.find? task.record.detail.summary.jobId = some row' at hrow'
        rw [hkey, Store.jobCancelled, find?_updateJob, if_pos rfl, hrow, Option.map_some,
          if_pos hopen, Option.some_inj] at hrow'
        rw [← hrow']
        rfl
  | clear removed => exact ⟨hs.jobId, hs.used, hs.distinct, fun id row hrow => (hs.agrees id row hrow).cleared⟩
  | start clock request offered conversation investigation provider intentHash answer s' _ _ _
      hstarts => exact hs.started hstarts
  | moved clock id action s' habout _ hmoves =>
    refine hmoves.agreement hs rfl rfl (fun _ _ _ _ => ⟨rfl, rfl⟩) ?_
    intro row d hrow hmove
    refine hmove.course.agrees ?_ hmove.jobId (hs.agrees id row hrow)
    -- only a claim attaches
    rintro identity rfl
    cases op <;> simp [Store.about] at habout

/-! ### Runs -/

theorem Store.Initial.agreement (h : s.Initial) : s.Agreement := by
  have hnone : ∀ id row, s.tasks.find? id ≠ some row := by
    intro id row
    rw [h.2.2.1]
    simp
  exact ⟨fun id row hrow => absurd hrow (hnone id row), fun id row hrow => absurd hrow (hnone id row),
    fun id _ row _ hrow => absurd hrow (hnone id row), fun id row hrow => absurd hrow (hnone id row)⟩

theorem step_agreement (hs : s.Agreement) (hallows : s.workerAllows op)
    (h : s.step env op = (s', out)) :
    s'.Agreement := by
  rcases step_cases h with ⟨_, -, rfl⟩ | ⟨a, -, heffect⟩
  · exact hs
  · exact heffect.agreement hallows hs

/-- The execution task `id` is attached to. -/
def Store.attachedTo (s : Store) (id : String) : Option StoredExecution :=
  (s.tasks.find? id).bind fun row => row.record.execution

theorem step_attachedTo (h : s.step env op = (s', out)) (hs : s.attachedTo id = some identity) :
    s'.attachedTo id = some identity := by
  obtain ⟨row, hrow, hexec⟩ := Option.bind_eq_some_iff.mp hs
  rcases step_task h hrow with hsame | ⟨action, row', -, ⟨clock, jobs, d, _, hmove, -, -, rfl⟩, hrow'⟩
  · rw [Store.attachedTo, hsame]
    exact hexec
  · rw [Store.attachedTo, hrow']
    show d.task.execution = some identity
    cases hmove.course with
    | attached _ _ _ hnone =>
      change row.record.execution = none at hnone
      rw [hexec] at hnone
      exact absurd hnone (by simp)
    | works _ _ _ _ _ hkeep | ends _ _ _ hkeep | flagged _ _ _ _ _ hkeep => exact hkeep.trans hexec

theorem attach_step (h : s.step env op = (s', out))
    (hdoes : Does ⟨s, op, out, s'⟩ id (.attach identity)) :
    s.attachedTo id = none ∧ s'.attachedTo id = some identity := by
  obtain ⟨row, row', hrow, ⟨clock, jobs, d, _, hmove, -, -, rfl⟩, hrow'⟩ := does_moves h hdoes rfl
  rw [Store.attachedTo, hrow, Store.attachedTo, hrow']
  cases hmove with
  | attach _ _ hnone => exact ⟨hnone, rfl⟩

/-- No two events of a run attach the same task. -/
def AttachedOnce (tr : List Event) : Prop :=
  tr.Pairwise fun e e' => ∀ id x x', Does e id (.attach x) → ¬ Does e' id (.attach x')

theorem steps_attachedOnce {tr : List Event} (h : (workerMachine env).Steps s tr s') :
    AttachedOnce tr ∧ ∀ e ∈ tr, ∀ id x, Does e id (.attach x) → s'.attachedTo id = some x := by
  induction h with
  | refl => exact ⟨List.Pairwise.nil, fun e he => absurd he (by simp)⟩
  | @snoc tr s1 s2 op out _ _ hst ih =>
    obtain ⟨hpair, hkept⟩ := ih
    refine ⟨List.pairwise_append.mpr ⟨hpair, List.pairwise_singleton _ _, ?_⟩, ?_⟩
    · intro e he e' he' id x x' hdoes hdoes'
      obtain rfl : e' = ⟨s1, op, out, s2⟩ := by simpa using he'
      have hnone := (attach_step hst hdoes').1
      rw [hkept e he id x hdoes] at hnone
      exact absurd hnone (by simp)
    · intro e he id x hdoes
      rcases List.mem_append.mp he with hold | hnew
      · exact step_attachedTo hst (hkept e hold id x hdoes)
      · obtain rfl : e = ⟨s1, op, out, s2⟩ := by simpa using hnew
        exact (attach_step hst hdoes).2

/-- **Jobs and tasks agree** in every state the application reaches, and a task is
attached to an execution at most once. -/
theorem job_task_agreement {env : Env} {s₀ s : Store} {tr : List Event} (h₀ : s₀.Initial)
    (hs : (workerMachine env).Steps s₀ tr s) :
    (∀ id row, s.tasks.find? id = some row →
      row.record.detail.summary.jobId = row.jobId ∧ Agrees s.jobs s.attempts row.record)
    ∧ AttachedOnce tr
    ∧ ∀ e ∈ tr, ∀ id x, Does e id (.attach x) → s.attachedTo id = some x := by
  have hagreement : s.Agreement :=
    hs.invariant (fun _ _ _ _ hp hen hst => step_agreement hp hen hst) h₀.agreement
  refine ⟨fun id row hrow => ?_, (steps_attachedOnce hs).1, (steps_attachedOnce hs).2⟩
  exact ⟨hagreement.jobId id row hrow, hagreement.agrees id row hrow⟩

namespace Sample

def taskId : String := "investigation:22222222222222222222222222222222"

/-- A task is started and taken by a worker. -/
def begun : List Op := [start, claim (KIND_PREFIX ++ taskId)]

theorem begun_row :
    (((machine (Sample.env Sample.intent)).exec empty begun).tasks.find? taskId).map (fun row =>
        (row.record.phase, row.record.detail.summary.lastEventSequence,
          row.record.detail.usage.reportedInputTokens, row.rows.invocations.rows))
      = some (.preparing, 2, none, [])
    ∧ (((workerMachine (Sample.env Sample.intent)).exec empty
        (begun ++ [.cancel Sample.clock 1])).tasks.find? taskId).map
          (fun row => (row.record.phase, row.record.detail.summary.cancelRequested))
      = some (.preparing, true) :=
  ⟨by decide +kernel, by decide +kernel⟩

end Sample

/-- The worker has taken the task, and then its job is cancelled. -/
theorem job_task_agreement_cancelled :
    ∃ row, ((workerMachine (Sample.env Sample.intent)).exec Sample.empty
        (Sample.begun ++ [.cancel Sample.clock 1])).tasks.find? Sample.taskId = some row
      ∧ row.record.phase = .preparing
      ∧ ∀ job, ((workerMachine (Sample.env Sample.intent)).exec Sample.empty
          (Sample.begun ++ [.cancel Sample.clock 1])).jobs.find? row.record.detail.summary.jobId
            = some job → job.status = .cancelled := by
  have hallowed : ∀ s : Store, ∀ op ∈ Sample.begun ++ [.cancel Sample.clock 1],
      s.workerAllows op := by
    intro s op hop
    simp only [Sample.begun, List.cons_append, List.nil_append, List.mem_cons, List.not_mem_nil,
      or_false] at hop
    rcases hop with rfl | rfl | rfl <;> trivial
  obtain ⟨hagree, -⟩ := job_task_agreement Sample.empty_initial
    (Machine.steps_exec (M := workerMachine (Sample.env Sample.intent)) hallowed)
  obtain ⟨row, hrow, heq⟩ := Option.map_eq_some_iff.mp Sample.begun_row.2
  obtain ⟨hprep, hcancel⟩ := Prod.mk.inj heq
  refine ⟨row, hrow, hprep, (hagree Sample.taskId row hrow).2.cancelled ?_ hcancel⟩
  rw [hprep]
  simp

end Jobs

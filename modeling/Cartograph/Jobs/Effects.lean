/-
The effects of the operations of the job store.

`Effect` says what a successful operation does to jobs and tasks together: it looks,
or it changes one job, or it moves one task, or it creates one of each.

* `perform_effect` — a successful operation does nothing else;
* `step_cases` — a step of the machine is a refusal that changes nothing, or an
  effect.

Results about runs are case analyses over `Effect` and `Move`.
-/
import Cartograph.Jobs.Moves

namespace Jobs

open Investigation Checked

/-! ### Effects of the operations -/

/-- One task is loaded, moved and saved; the job table starts the move as `s.jobs`. -/
def Moves (env : Env) (clock : Clock) (s : Store) (id : String) (action : Action) (s' : Store) :
    Prop :=
  ∃ row d terminal, Loaded env s id row ∧ Move env clock (row.draft s.jobs) action d
    ∧ Savable env d row terminal ∧ (terminal = true → d.task.phase = .terminal ∨ action = .cancel)
    ∧ s' = { s with jobs := d.jobs, tasks := s.tasks.put id (row.saved d) }

/-- Who a task operation is about, and what it does to it. -/
def Store.about (s : Store) : Op → Option (String × Action)
  | .advanceInvestigation _ x _ transition =>
    (s.taskIdForJob x.id).map fun id => (id, .advance transition)
  | .approveInvestigation _ id revision stepId payloadHash =>
    some (id, .approve revision stepId payloadHash)
  | .declineInvestigation _ id revision stepId payloadHash =>
    some (id, .decline revision stepId payloadHash)
  | .cancelInvestigation _ id => some (id, .cancel)
  | .recoverInvestigation _ candidate _ => some (candidate.id, .recover)
  | _ => none

/-- Cancellation has nothing left to do. -/
def settled (t : StoredTask) : Prop :=
  t.phase = .terminal ∨ t.detail.summary.cancelRequested = true

/-- The handle and the change of a worker's update. -/
def Op.update? : Op → Option (JobExecution × Update)
  | .progressExecution x stage percent =>
    percent.map fun percent => (x, .progress stage (max 0 (min percent 100)))
  | .finishExecution x artifacts => some (x, .finish artifacts)
  | .failExecution x error => some (x, .fail error)
  | _ => none

/-- Calls that only look, and calls that find nothing to do. -/
def idles : Op → Answer → Bool
  | .claimPlan _ _, .plan _ => true
  | .checkExecution _, .check _ => true
  | .progressExecution _ _ _, .update (.unchanged _) => true
  | .finishExecution _ _, .update (.unchanged _) => true
  | .failExecution _ _, .update (.unchanged _) => true
  | .recoverReserved _ _, .recovered none => true
  | .startInvestigation _ _ _ _ _, .started start => !start.created
  | .recoverInvestigation _ _ _, .recoveredTask none => true
  | _, _ => false

/-- The answers that show a task. -/
def Answer.ofTask : Answer → Bool
  | .detail _ | .recoveredTask (some _) => true
  | _ => false

/-- The current attempt of a job is the one of the plan. -/
structure Planned (s : Store) (p : Plan) (row : JobRow) : Prop where
  stored : s.jobs.find? p.id = some row
  kind : row.kind = p.row.kind
  status : row.status = p.row.status
  attempt : s.attempts.find? p.id = some p.attempt

def Store.jobCancelled (s : Store) (id : ℕ) : Store :=
  { s with jobs := updateJob s.jobs id (fun row => row.status.open) JobRow.cancelled }

/-- The row a start inserts, before its first event. -/
def insertedRow (s : Store) (t : StoredTask) : TaskRow where
  ordinal := s.taskSeq + 1
  nonce := t.nonce
  conversationId := t.detail.summary.conversationId
  jobId := t.detail.summary.jobId
  revision := t.detail.summary.revision
  live := decide (t.phase ≠ .terminal)
  record := t
  rows := .empty

/-- The id of a new task. -/
def newId (investigation : Token) : String := "investigation:" ++ investigation.text

/-- The conversation of a new task. -/
def newConversation (request : StartInvestigationRequest) (conversation : Token) : String :=
  request.conversationId.getD ("conversation:" ++ conversation.text)

/-- The record of a new task, as the store and the arguments of the start have it. -/
def newTask (env : Env) (clock : Clock) (s : Store) (request : StartInvestigationRequest)
    (provider : InvestigationProvider) (intentHash : String) (conversation investigation : Token) :
    StoredTask :=
  created env s request provider intentHash (newId investigation)
    (newConversation request conversation) (env.redactText request.question).1 (s.jobSeq + 1)
    (clock 0)

/-- The draft of a new task: its record, its first event, its queued job. -/
def startDraft (env : Env) (clock : Clock) (s : Store) (request : StartInvestigationRequest)
    (provider : InvestigationProvider) (intentHash : String) (conversation investigation : Token) :
    Draft :=
  Draft.recorded
    ⟨newTask env clock s request provider intentHash conversation investigation,
      .empty, s.jobs.put (s.jobSeq + 1) { kind := KIND_PREFIX ++ newId investigation }⟩
    (clock 1) .created none none "Investigation created."

/-- A new task under a fresh id, with a fresh job. -/
structure Starts (env : Env) (s : Store) (d : Draft) (id : String) (s' : Store) : Prop where
  fresh : s.tasks.find? id = none
  nonce : ∀ r ∈ s.tasks.rows, r.2.nonce ≠ d.task.nonce
  room : s.tasks.rows.length < MAX_TASKS
    ∧ (s.tasks.rows.filter fun r => r.2.live).length < MAX_LIVE_TASKS
  savable : Savable env d (insertedRow s d.task) false
  jobs : s'.jobs = d.jobs
  jobSeq : s'.jobSeq = s.jobSeq + 1
  attempts : s'.attempts = s.attempts.put (s.jobSeq + 1) .unclaimed
  tasks : s'.tasks = s.tasks.put id ((insertedRow s d.task).saved d)
  taskSeq : s'.taskSeq = s.taskSeq + 1
  ns : s'.ns = s.ns

inductive Effect (env : Env) (s : Store) : Op → Answer → Store → Prop
  | idle {op : Op} {a : Answer} : idles op a = true → Effect env s op a s
  | enqueue (kind : String) (job : Job) :
      Effect env s (.enqueue kind) (.job job)
        { s with jobs := s.jobs.put (s.jobSeq + 1) { kind := kind }, jobSeq := s.jobSeq + 1
                 attempts := s.attempts.put (s.jobSeq + 1) .unclaimed }
  | claim (clock : Clock) (plan : ClaimPlan) (reservation : ExecutionReservation) (owner : Token)
      (row : JobRow) (job : Job) :
      Planned s plan.toPlan row → s.taskIdForJob plan.id = none →
      Effect env s (.claimExecution clock plan reservation owner)
        (.claimed job ⟨s.ns, plan.id, plan.attempt.generation + 1, owner, reservation.verified⟩)
        (s.claimed plan.toPlan owner)
  | attach (clock : Clock) (plan : ClaimPlan) (reservation : ExecutionReservation) (owner : Token)
      (row : JobRow) (job : Job) (id : String) (s' : Store) :
      Planned s plan.toPlan row → s.taskIdForJob plan.id = some id →
      plan.attempt.generation = 0 →
      Moves env clock (s.claimed plan.toPlan owner) id
        (.attach ⟨s.ns.value.text, plan.id, 1, owner.text⟩) s' →
      Effect env s (.claimExecution clock plan reservation owner)
        (.claimed job ⟨s.ns, plan.id, plan.attempt.generation + 1, owner, reservation.verified⟩) s'
  | update {op : Op} (x : JobExecution) (u : Update) (row : JobRow) (job : Job) :
      op.update? = some (x, u) → s.jobs.find? x.id = some row →
      (s.attempts.find? x.id).any x.attempted = true → row.status = .running →
      Effect env s op (.update (.applied job))
        { s with jobs := updateJob s.jobs x.id (fun _ => true) fun row => u.apply row }
  | interrupt (candidate : Plan) (reservation : ExecutionReservation) (row : JobRow) (job : Job) :
      Planned s candidate row → row.status = .running →
      Effect env s (.recoverReserved candidate reservation) (.recovered (some job))
        { s with jobs := updateJob s.jobs candidate.id (fun _ => true)
                           fun row => { row with status := .interrupted } }
  | cancelJob (clock : Clock) (id : ℕ) (row : JobRow) (job : Job) :
      s.jobs.find? id = some row → row.status.open = true →
      (∀ taskId, s.taskIdForJob id = some taskId →
        ∃ task, Loaded env (s.jobCancelled id) taskId task ∧ settled task.record) →
      Effect env s (.cancel clock id) (.job job) (s.jobCancelled id)
  | cancelJobTask (clock : Clock) (id : ℕ) (row : JobRow) (job : Job) (taskId : String)
      (s' : Store) :
      s.jobs.find? id = some row → row.status.open = true → s.taskIdForJob id = some taskId →
      Moves env clock (s.jobCancelled id) taskId .cancel s' →
      Effect env s (.cancel clock id) (.job job) s'
  | clear (removed : ℕ) : Effect env s .clearFinished (.removed removed) s.cleared
  | start (clock : Clock) (request : StartInvestigationRequest)
      (offered : Option InvestigationProvider) (conversation investigation : Token)
      (provider : InvestigationProvider) (intentHash : String) (answer : InvestigationStart)
      (s' : Store) :
      request.validate = .ok () → selectedProvider request offered = some provider →
      answer.created = true →
      Starts env s (startDraft env clock s request provider intentHash conversation investigation)
        (newId investigation) s' →
      Effect env s (.startInvestigation clock request offered conversation investigation)
        (.started answer) s'
  | moved {op : Op} {a : Answer} (clock : Clock) (id : String) (action : Action) (s' : Store) :
      s.about op = some (id, action) → a.ofTask = true → Moves env clock s id action s' →
      Effect env s op a s'
  | cancelled (clock : Clock) (id : String) (row : TaskRow) (detail : InvestigationDetail) :
      Loaded env s id row → settled row.record →
      Effect env s (.cancelInvestigation clock id) (.detail detail) s

variable {env : Env} {clock : Clock} {s s' : Store} {id : String} {action : Action} {revision : ℕ}
  {detail : InvestigationDetail} {reservation : ExecutionReservation} {op : Op}
  {request : StartInvestigationRequest} {a : Answer} {out : Except Failure Answer}

variable {row : TaskRow} {x : JobExecution} {job : Job} {owner conversation investigation : Token}
  {s₁ : Store} {f : Fixed}

theorem moves_of_save {d : Draft} {terminal : Bool} (hload : Loaded env s id row)
    (hmove : Move env clock (row.draft s.jobs) action d)
    (hflag : terminal = true → d.task.phase = .terminal ∨ action = .cancel)
    (h : s.saveTask env d revision terminal = .ok s') : Moves env clock s id action s' := by
  have hid : d.task.detail.summary.investigationId = id :=
    hmove.investigationId.trans hload.investigationId
  obtain ⟨row', hfind, hsavable, rfl⟩ := saveTask_ok h
  rw [hid, hload.stored, Option.some_inj] at hfind
  subst hfind
  rw [hid]
  exact ⟨row, d, terminal, hload, hmove, hsavable, hflag, rfl⟩

theorem advanceInvestigation_ok {transition : InvestigationTransition}
    (h : s.advanceInvestigation env clock x revision transition = .ok (detail, s')) :
    ∃ id, s.taskIdForJob x.id = some id ∧ Moves env clock s id (.advance transition) s' := by
  simp only [Store.advanceInvestigation, bind_eq_ok, ensure_eq_ok, orFail_eq_ok, pure_eq_ok,
    Prod.mk.injEq] at h
  obtain ⟨⟨⟩, -, ⟨⟩, -, id, hid, row, hload, ⟨⟩, -, ⟨⟩, -, ⟨⟩, -, ⟨⟩, hlive, ⟨⟩, hcancel, d, happly,
    s₁, hsave, -, rfl⟩ := h
  refine ⟨id, hid, moves_of_save (loadTask_ok hload) (apply_move hlive hcancel happly) ?_ hsave⟩
  intro hterminal
  exact .inl (by simpa using hterminal)

theorem consentDecision_ok {stepId payloadHash : String} {approved : Bool}
    (h : s.consentDecision env clock id revision stepId payloadHash approved = .ok (detail, s')) :
    Moves env clock s id
      (if approved then .approve revision stepId payloadHash
        else .decline revision stepId payloadHash) s' := by
  simp only [Store.consentDecision, decided, bind_eq_ok, ensure_eq_ok, pure_eq_ok,
    Prod.mk.injEq] at h
  obtain ⟨row, hload, ⟨⟩, ⟨hrev, hphase, hund, hstep⟩, ⟨⟩, hcancel, d, hd, s₁, hsave, -, rfl⟩ := h
  have hdecides : Decides row.record revision stepId payloadHash := by
    refine ⟨hrev, hphase, hund, ?_⟩
    obtain ⟨step, hpending, hsame⟩ := (Option.any_eq_true _ _).mp hstep
    simp only [Bool.and_eq_true, beq_iff_eq] at hsame
    exact ⟨step, hpending, hsame⟩
  have hflag : (d.task.phase == .terminal) = true → d.task.phase = .terminal :=
    fun hterminal => by simpa using hterminal
  cases approved with
  | true =>
    simp only [if_true, note_eq_ok] at hd
    obtain ⟨-, hroom, -, rfl⟩ := hd
    have hseq := sequence_le hroom (by simp [consented, TaskRow.draft, hphase]) (by simp)
    have hmove : Move env clock (row.draft s.jobs) (.approve revision stepId payloadHash) _ :=
      .approve revision stepId payloadHash hdecides hcancel hseq
    exact moves_of_save (loadTask_ok hload) hmove (fun h => .inl (hflag h)) hsave
  | false =>
    simp only [Bool.false_eq_true, if_false] at hd
    obtain ⟨-, hseq, rfl⟩ := stop_ok hd
    have hmove : Move env clock (row.draft s.jobs) (.decline revision stepId payloadHash) _ :=
      .decline revision stepId payloadHash hdecides hcancel hseq
    exact moves_of_save (loadTask_ok hload) hmove (fun h => .inl (hflag h)) hsave

theorem cancelTask_ok (h : s.cancelTask env clock id = .ok (detail, s')) :
    Moves env clock s id .cancel s' ∨ (s' = s ∧ ∃ row, Loaded env s id row ∧ settled row.record) := by
  simp only [Store.cancelTask, bind_eq_ok] at h
  obtain ⟨row, hload, h⟩ := h
  split_ifs at h with hlive
  · simp only [bind_eq_ok, pure_eq_ok, Prod.mk.injEq] at h
    obtain ⟨d, hcancel, s₁, hsave, -, rfl⟩ := h
    obtain ⟨hseq, rfl⟩ := requestCancel_ok hcancel
    exact .inl (moves_of_save (loadTask_ok hload) (.cancel hlive.1 hlive.2 hseq)
      (fun _ => .inr rfl) hsave)
  · simp only [pure_eq_ok, Prod.mk.injEq] at h
    refine .inr ⟨h.2.symm, row, loadTask_ok hload, ?_⟩
    by_cases hphase : row.record.phase = .terminal
    · exact .inl hphase
    · refine .inr ?_
      by_contra hc
      exact hlive ⟨hphase, by simpa using hc⟩

theorem recoverInvestigation_ok {candidate : InvestigationRecoveryCandidate}
    {detail : Option InvestigationDetail}
    (h : s.recoverInvestigation env clock candidate reservation = .ok (detail, s')) :
    (detail = none ∧ s' = s)
      ∨ (∃ detail', detail = some detail') ∧ Moves env clock s candidate.id .recover s' := by
  simp only [Store.recoverInvestigation, bind_eq_ok, ensure_eq_ok] at h
  obtain ⟨⟨⟩, -, ⟨⟩, -, row, hload, h⟩ := h
  split_ifs at h with hstale
  · simp only [pure_eq_ok, Prod.mk.injEq] at h
    exact .inl ⟨h.1.symm, h.2.symm⟩
  · simp only [recoverDraft, bind_eq_ok, pure_eq_ok, note_eq_ok, Prod.mk.injEq] at h
    obtain ⟨_, ⟨d, ⟨-, hroom, -, rfl⟩, rfl⟩, s₁, hsave, hdetail, rfl⟩ := h
    rw [not_or] at hstale
    have hseq := sequence_le_terminal hroom rfl
    have hmove : Move env clock (row.draft s.jobs) .recover _ := .recover hstale.1 hseq
    exact .inr ⟨⟨_, hdetail.symm⟩, moves_of_save (loadTask_ok hload) hmove (fun _ => .inl rfl) hsave⟩

/-! ### Job operations -/

theorem metadata_eq_ok {α : Type} {r : Except InvestigationStoreError α} {a : α} :
    metadata r = .ok a ↔ r = .ok a := by
  cases r <;> simp [metadata]

theorem readState_eq_some {id : ℕ} {attempt : Option Attempt} :
    s.readState id = some (job, attempt) ↔
      s.jobs.find? id = some job.row ∧ s.attempts.find? id = attempt ∧ job.id = id
        ∧ job.recorded = (s.attempts.find? id).isSome
        ∧ job.investigationId = s.taskIdForJob id := by
  obtain ⟨jobId, row, recorded, investigationId⟩ := job
  cases h : s.jobs.find? id with
  | none => simp [Store.readState, h]
  | some row' =>
    simp only [Store.readState, h, Option.map_some, Option.some_inj, Prod.mk.injEq, Job.mk.injEq]
    constructor
    · rintro ⟨⟨rfl, rfl, rfl, rfl⟩, rfl⟩
      exact ⟨rfl, rfl, rfl, rfl, rfl⟩
    · rintro ⟨rfl, rfl, rfl, rfl, rfl⟩
      exact ⟨⟨rfl, rfl, rfl, rfl⟩, rfl⟩

theorem planned_of_matchesPlan {p : Plan} (h : s.matchesPlan p = true) :
    ∃ row, Planned s p row := by
  obtain ⟨⟨job, attempt⟩, hread, hsame⟩ := (Option.any_eq_true _ _).mp h
  obtain ⟨hjob, hattempt, -⟩ := readState_eq_some.mp hread
  simp only [Bool.and_eq_true, beq_iff_eq] at hsame
  exact ⟨job.row, hjob, hsame.1.1, hsame.1.2, hattempt.trans hsame.2⟩

@[simp] theorem taskIdForJob_jobCancelled (s : Store) (id k : ℕ) :
    (s.jobCancelled id).taskIdForJob k = s.taskIdForJob k := rfl

theorem attachExecution_ok {jobId generation : ℕ} {kind : String}
    (h : s.attachExecution env clock jobId kind generation owner = .ok s') :
    (s.taskIdForJob jobId = none ∧ s' = s) ∨
      ∃ id, s.taskIdForJob jobId = some id ∧ generation = 1
        ∧ Moves env clock s id (.attach ⟨s.ns.value.text, jobId, generation, owner.text⟩) s' := by
  unfold Store.attachExecution at h
  cases hid : s.taskIdForJob jobId with
  | none =>
    simp only [hid, bind_eq_ok, ensure_eq_ok, pure_eq_ok] at h
    obtain ⟨⟨⟩, -, rfl⟩ := h
    exact .inl ⟨rfl, rfl⟩
  | some id =>
    simp only [hid, bind_eq_ok, ensure_eq_ok, note_eq_ok] at h
    obtain ⟨⟨⟩, -, row, hload, ⟨⟩, ⟨hphase, hnone, hcancel, hgen⟩, d, ⟨-, hroom, -, rfl⟩, hsave⟩ := h
    have hseq := sequence_le hroom (by simp [attached]) (by simp)
    have hmove : Move env clock (row.draft s.jobs) (.attach _) _ :=
      .attach ⟨s.ns.value.text, jobId, generation, owner.text⟩ hphase hnone hcancel hseq
    exact .inr ⟨id, rfl, hgen, moves_of_save (loadTask_ok hload) hmove (by simp) hsave⟩

theorem claimExecution_ok {plan : ClaimPlan} {r : Job × JobExecution}
    (h : s.claimExecution env clock plan reservation owner = .ok (r, s')) :
    Effect env s (.claimExecution clock plan reservation owner) (.claimed r.1 r.2) s' := by
  simp only [Store.claimExecution, bind_eq_ok, ensure_eq_ok, metadata_eq_ok, pure_eq_ok,
    Prod.mk.injEq] at h
  obtain ⟨⟨⟩, -, ⟨⟩, hmatch, ⟨⟩, -, s₁, hattach, job, -, rfl, rfl⟩ := h
  obtain ⟨row, hplanned⟩ := planned_of_matchesPlan hmatch
  rcases attachExecution_ok hattach with ⟨hnone, rfl⟩ | ⟨id, hid, hgen, hmoves⟩
  · exact .claim clock plan reservation owner row job hplanned hnone
  · have hns : s₁.ns = s.ns := by
      obtain ⟨_, _, _, _, _, _, _, rfl⟩ := hmoves
      rfl
    rw [hns]
    rw [hgen] at hmoves
    exact .attach clock plan reservation owner row job id s₁ hplanned hid (by omega) hmoves

theorem updateExecution_ok {u : Update} {r : ExecutionUpdate} (hop : op.update? = some (x, u))
    (h : s.updateExecution x u = .ok (r, s')) :
    Effect env s op (.update r) s' := by
  simp only [Store.updateExecution, Store.checkedJob, bind_eq_ok, ensure_eq_ok, orFail_eq_ok,
    pure_eq_ok] at h
  obtain ⟨⟨⟩, -, job, ⟨⟨job', attempt⟩, hread, ⟨⟩, hattempt, rfl⟩, h⟩ := h
  obtain ⟨hjob, rfl, -⟩ := readState_eq_some.mp hread
  have hidle : ∀ job, idles op (.update (.unchanged job)) = true := by
    intro job
    cases op <;> simp_all [Op.update?, idles]
  cases hstatus : job'.row.status with
  | queued | interrupted => simp [hstatus] at h
  | cancelled | done | failed =>
    simp only [hstatus, pure_eq_ok, Prod.mk.injEq] at h
    obtain ⟨rfl, rfl⟩ := h
    exact .idle (hidle _)
  | running =>
    simp only [hstatus, bind_eq_ok, pure_eq_ok, Prod.mk.injEq] at h
    obtain ⟨job, -, rfl, rfl⟩ := h
    exact .update x u job'.row job hop hjob hattempt hstatus

theorem recoverReserved_ok {candidate : Plan} {r : Option Job}
    (h : s.recoverReserved candidate reservation = .ok (r, s')) :
    Effect env s (.recoverReserved candidate reservation) (.recovered r) s' := by
  simp only [Store.recoverReserved, bind_eq_ok] at h
  obtain ⟨⟨⟩, -, h⟩ := h
  split_ifs at h with hmatch
  · simp only [pure_eq_ok, Prod.mk.injEq] at h
    obtain ⟨rfl, rfl⟩ := h
    exact .idle rfl
  · simp only [bind_eq_ok, ensure_eq_ok, pure_eq_ok, Prod.mk.injEq] at h
    obtain ⟨⟨⟩, hrunning, job, -, rfl, rfl⟩ := h
    obtain ⟨row, hplanned⟩ := planned_of_matchesPlan (by simpa using hmatch)
    exact .interrupt candidate reservation row job hplanned (hplanned.status.trans hrunning.1)

theorem cancel_ok {id : ℕ} (h : s.cancel env clock id = .ok (job, s')) :
    Effect env s (.cancel clock id) (.job job) s' := by
  simp only [Store.cancel, Store.readJob, bind_eq_ok, ensure_eq_ok, orFail_eq_ok, metadata_eq_ok,
    pure_eq_ok, Prod.mk.injEq] at h
  obtain ⟨before, hread, ⟨⟩, hopen, s₁, hcancel, job', -, rfl, rfl⟩ := h
  obtain ⟨⟨before', attempt⟩, hstate, rfl⟩ := Option.map_eq_some_iff.mp hread
  obtain ⟨hjob, -⟩ := readState_eq_some.mp hstate
  change (s.jobCancelled id).cancelForJob env clock id = .ok s₁ at hcancel
  unfold Store.cancelForJob at hcancel
  cases hid : s.taskIdForJob id with
  | none =>
    simp only [taskIdForJob_jobCancelled, hid, pure_eq_ok] at hcancel
    subst hcancel
    exact .cancelJob clock id _ job' hjob hopen (by simp [hid])
  | some taskId =>
    simp only [taskIdForJob_jobCancelled, hid, bind_eq_ok, pure_eq_ok] at hcancel
    obtain ⟨⟨detail, s₂⟩, htask, rfl⟩ := hcancel
    rcases cancelTask_ok htask with hmoves | ⟨rfl, hsettled⟩
    · exact .cancelJobTask clock id _ job' taskId s₂ hjob hopen hid hmoves
    · refine .cancelJob clock id _ job' hjob hopen ?_
      intro taskId' hid'
      obtain rfl : taskId = taskId' := by simpa [hid] using hid'
      exact hsettled

/-! ### Starts -/

theorem insertConversation_ok {now : Timestamp} (h : s.insertConversation request id now = .ok s') :
    ∃ conversations, s' = { s with conversations := conversations } := by
  unfold Store.insertConversation at h
  split_ifs at h with hnew
  · simp only [bind_eq_ok, ensure_eq_ok, pure_eq_ok] at h
    obtain ⟨⟨⟩, -, rfl⟩ := h
    exact ⟨_, rfl⟩
  · simp only [pure_eq_ok] at h
    exact ⟨s.conversations, h.symm⟩

theorem conversationFor_ok {fresh : Token} (h : s.conversationFor request fresh = .ok id) :
    id = newConversation request fresh := by
  unfold Store.conversationFor at h
  cases hid : request.conversationId with
  | none =>
    simp only [hid, pure_eq_ok] at h
    rw [newConversation, hid, ← h]
    rfl
  | some known =>
    simp only [hid, bind_eq_ok, ensure_eq_ok, pure_eq_ok] at h
    obtain ⟨⟨⟩, -, rfl⟩ := h
    rw [newConversation, hid]
    rfl

theorem redactedHistoryText_ok {input output : String} {maximum : ℕ}
    (h : redactedHistoryText env input maximum = .ok output) :
    output = (env.redactText input).1 := by
  simp only [redactedHistoryText, bind_eq_ok, ensure_eq_ok, pure_eq_ok] at h
  obtain ⟨⟨⟩, -, ⟨⟩, -, rfl⟩ := h
  rfl

theorem createTask_ok {provider : InvestigationProvider} {intentHash : String}
    (h : s.createTask env clock request provider intentHash conversation investigation
      = .ok (detail, s')) :
    Starts env s (startDraft env clock s request provider intentHash conversation investigation)
      (newId investigation) s' := by
  simp only [Store.createTask, Store.checkStartCapacity, Store.insertJob, Store.insertTask,
    checkTaskCapacity, bind_eq_ok, ensure_eq_ok, orFail_eq_ok, pure_eq_ok, admitted_eq_ok,
    event_eq_ok, Prod.mk.injEq, Prod.exists] at h
  obtain ⟨⟨⟩, -, ⟨⟩, hroom, conversationId, hid, ⟨⟩, -, s₁, hconv, _, s₂, ⟨⟨⟩, -, rfl, rfl⟩, question,
    hquestion, s₃, ⟨⟨⟩, -, ⟨⟩, -, ⟨⟩, -, ⟨⟩, ⟨hfresh, hnonce, -⟩, rfl⟩, _, ⟨-, -, rfl⟩, s₄, hsave, row,
    hrow, ⟨⟩, hcap, -, rfl⟩ := h
  obtain ⟨conversations, rfl⟩ := insertConversation_ok hconv
  obtain rfl := conversationFor_ok hid
  obtain rfl := redactedHistoryText_ok hquestion
  obtain ⟨row', hfind, hsavable, rfl⟩ := saveTask_ok hsave
  have hkey : ∀ t : Table String TaskRow, ∀ v w : TaskRow,
      (t.put (newId investigation) v).find? (newId investigation) = some w → v = w := by
    intro t v w hw
    simpa using hw
  have hrow' := hkey _ _ _ hfind
  subst hrow'
  have hrow'' := hkey _ _ _ hrow
  subst hrow''
  refine ⟨hfresh, fun r hr => (hnonce r hr).1, ⟨hroom.1, hroom.2.1⟩,
    ⟨hsavable.valid, hsavable.record, hcap⟩, rfl, rfl, rfl, ?_, rfl, rfl⟩
  exact Table.put_put _ _ _ _

theorem startInvestigation_ok {offered : Option InvestigationProvider} {r : InvestigationStart}
    (h : s.startInvestigation env clock request offered conversation investigation = .ok (r, s')) :
    Effect env s (.startInvestigation clock request offered conversation investigation)
      (.started r) s' := by
  simp only [Store.startInvestigation, bind_eq_ok, admitted_eq_ok] at h
  obtain ⟨⟨⟩, hvalid, intentHash, -, h⟩ := h
  cases hprior : s.tasks.rows.find? fun r => r.2.nonce == request.requestNonce with
  | some prior =>
    simp only [hprior, bind_eq_ok, pure_eq_ok, Prod.mk.injEq] at h
    obtain ⟨row, -, ⟨⟩, -, rfl, rfl⟩ := h
    exact .idle rfl
  | none =>
    simp only [hprior, bind_eq_ok, orFail_eq_ok, pure_eq_ok, Prod.mk.injEq, Prod.exists] at h
    obtain ⟨provider, hprovider, detail, s₁, hcreate, rfl, rfl⟩ := h
    exact .start clock request offered conversation investigation provider intentHash _ s₁ hvalid
      hprovider rfl (createTask_ok hcreate)

/-! ### Every operation -/

/-- **Refinement**: a successful operation has one of the effects above. -/
theorem perform_effect (h : s.perform env op = .ok (a, s')) : Effect env s op a s' := by
  cases op with
  | enqueue kind =>
    simp only [Store.perform, report_eq_ok] at h
    obtain ⟨job, hr, rfl⟩ := h
    simp only [Store.enqueue, Store.insertJob, bind_eq_ok, ensure_eq_ok, pure_eq_ok, Prod.exists,
      Prod.mk.injEq] at hr
    obtain ⟨_, s₁, ⟨⟨⟩, -, rfl, rfl⟩, job', -, rfl, rfl⟩ := hr
    exact .enqueue kind job'
  | claimPlan id mode =>
    simp only [Store.perform, report_eq_ok] at h
    obtain ⟨plan, hr, rfl⟩ := h
    simp only [Store.claimPlan, bind_eq_ok, Prod.exists] at hr
    obtain ⟨job, _, -, attempt, -, hr⟩ := hr
    split_ifs at hr with hc ha
    · simp only [pure_eq_ok, Prod.mk.injEq] at hr
      rw [← hr.2]
      exact .idle rfl
  | claimExecution clock plan reservation owner =>
    simp only [Store.perform, report_eq_ok] at h
    obtain ⟨r, hr, rfl⟩ := h
    exact claimExecution_ok hr
  | recoverReserved candidate reservation =>
    simp only [Store.perform, report_eq_ok] at h
    obtain ⟨r, hr, rfl⟩ := h
    exact recoverReserved_ok hr
  | checkExecution x =>
    simp only [Store.perform, report_eq_ok] at h
    obtain ⟨check, hr, rfl⟩ := h
    simp only [Store.checkExecution, bind_eq_ok] at hr
    obtain ⟨⟨⟩, -, job, -, hr⟩ := hr
    split at hr
    all_goals first
      | (simp only [pure_eq_ok, Prod.mk.injEq] at hr; rw [← hr.2]; exact .idle rfl)
      | simp at hr
  | progressExecution x stage percent =>
    simp only [Store.perform, report_eq_ok] at h
    obtain ⟨r, hr, rfl⟩ := h
    simp only [Store.progressExecution, bind_eq_ok, orFail_eq_ok] at hr
    obtain ⟨percent', rfl, hr⟩ := hr
    exact updateExecution_ok rfl hr
  | finishExecution x artifacts | failExecution x error =>
    simp only [Store.perform, report_eq_ok] at h
    obtain ⟨r, hr, rfl⟩ := h
    exact updateExecution_ok rfl hr
  | cancel clock id =>
    simp only [Store.perform, report_eq_ok] at h
    obtain ⟨job, hr, rfl⟩ := h
    exact cancel_ok hr
  | clearFinished =>
    simp only [Store.perform, report_eq_ok] at h
    obtain ⟨removed, hr, rfl⟩ := h
    simp only [Store.clearFinished, pure_eq_ok, Prod.mk.injEq] at hr
    rw [← hr.2]
    exact .clear removed
  | startInvestigation clock request provider conversation investigation =>
    simp only [Store.perform, report_eq_ok] at h
    obtain ⟨r, hr, rfl⟩ := h
    exact startInvestigation_ok hr
  | advanceInvestigation clock x expectedRevision transition =>
    simp only [Store.perform, report_eq_ok] at h
    obtain ⟨detail, hr, rfl⟩ := h
    obtain ⟨id, hid, hmoves⟩ := advanceInvestigation_ok hr
    exact .moved clock id (.advance transition) s' (by simp [Store.about, hid]) rfl hmoves
  | approveInvestigation clock id revision stepId payloadHash
  | declineInvestigation clock id revision stepId payloadHash =>
    simp only [Store.perform, report_eq_ok] at h
    obtain ⟨detail, hr, rfl⟩ := h
    exact .moved clock id _ s' rfl rfl (consentDecision_ok hr)
  | cancelInvestigation clock id =>
    simp only [Store.perform, report_eq_ok] at h
    obtain ⟨detail, hr, rfl⟩ := h
    rcases cancelTask_ok hr with hmoves | ⟨rfl, row, hload, hsettled⟩
    · exact .moved clock id .cancel s' rfl rfl hmoves
    · exact .cancelled clock id row detail hload hsettled
  | recoverInvestigation clock candidate reservation =>
    simp only [Store.perform, report_eq_ok] at h
    obtain ⟨detail, hr, rfl⟩ := h
    rcases recoverInvestigation_ok hr with ⟨rfl, rfl⟩ | ⟨⟨detail', rfl⟩, hmoves⟩
    · exact .idle rfl
    · exact .moved clock candidate.id .recover s' rfl rfl hmoves

theorem step_cases (h : s.step env op = (s', out)) :
    (∃ e, out = .error e ∧ s' = s) ∨ ∃ a, out = .ok a ∧ Effect env s op a s' := by
  cases out with
  | error e => exact .inl ⟨e, rfl, (transact_error.mp h).2⟩
  | ok a => exact .inr ⟨a, rfl, perform_effect (transact_ok.mp h)⟩

/-! ### One task -/

/-- Who an operation acts on, and how, through the coordinator or with a job. -/
def Store.acts (s : Store) : Op → Option (String × Action)
  | .claimExecution _ plan _ owner => (s.taskIdForJob plan.id).map fun id =>
    (id, .attach ⟨s.ns.value.text, plan.id, 1, owner.text⟩)
  | .cancel _ jobId => (s.taskIdForJob jobId).map fun id => (id, .cancel)
  | op => s.about op

/-- A saved move, seen from the row of the task. -/
def RowMoves (env : Env) (row : TaskRow) (action : Action) (row' : TaskRow) : Prop :=
  ∃ clock jobs d terminal, Move env clock (row.draft jobs) action d ∧ Savable env d row terminal
    ∧ (terminal = true → d.task.phase = .terminal ∨ action = .cancel) ∧ row' = row.saved d

/-- What one operation does to one task. -/
inductive TaskStep (env : Env) (s : Store) (op : Op) (id : String) (s' : Store) : Prop
  | same : s'.tasks.find? id = s.tasks.find? id → TaskStep env s op id s'
  | moved (action : Action) (row row' : TaskRow) :
      s.acts op = some (id, action) → s.tasks.find? id = some row → RowMoves env row action row' →
      s'.tasks.find? id = some row' → TaskStep env s op id s'
  | started (clock : Clock) (request : StartInvestigationRequest)
      (offered : Option InvestigationProvider) (conversation investigation : Token)
      (provider : InvestigationProvider) (intentHash : String) :
      op = .startInvestigation clock request offered conversation investigation →
      request.validate = .ok () → selectedProvider request offered = some provider →
      id = newId investigation →
      Starts env s (startDraft env clock s request provider intentHash conversation investigation)
        id s' → TaskStep env s op id s'

theorem Moves.rowMoves (h : Moves env clock s₁ id action s') (s : Store)
    (htasks : s₁.tasks = s.tasks) :
    ∃ row row', s.tasks.find? id = some row ∧ RowMoves env row action row'
      ∧ s'.tasks.find? id = some row' := by
  obtain ⟨row, d, terminal, hload, hmove, hsavable, hflag, rfl⟩ := h
  exact ⟨row, row.saved d, by rw [← htasks, hload.stored],
    ⟨clock, s₁.jobs, d, terminal, hmove, hsavable, hflag, rfl⟩, by simp⟩

theorem Moves.taskStep (h : Moves env clock s₁ id action s') (s : Store)
    (htasks : s₁.tasks = s.tasks) (hacts : s.acts op = some (id, action)) (k : String) :
    TaskStep env s op k s' := by
  by_cases hk : k = id
  · subst hk
    obtain ⟨row, row', hrow, hmoves, hrow'⟩ := h.rowMoves s htasks
    exact .moved action row row' hacts hrow hmoves hrow'
  · obtain ⟨row, d, terminal, -, -, -, -, rfl⟩ := h
    refine .same ?_
    rw [← htasks]
    simp [hk]

theorem acts_of_about (h : s.about op = some (id, action)) : s.acts op = some (id, action) := by
  cases op <;> simp_all [Store.acts, Store.about]

theorem Effect.taskStep (h : Effect env s op a s') (k : String) : TaskStep env s op k s' := by
  cases h with
  | attach clock plan reservation owner row job id s' _ hid _ hmoves
  | cancelJobTask clock jobId row job id s' _ _ hid hmoves =>
    exact hmoves.taskStep s rfl (by simp [Store.acts, hid]) k
  | start clock request offered conversation investigation provider intentHash answer s' hvalid
      hprovider _ hstarts =>
    by_cases hk : k = newId investigation
    · subst hk
      exact .started clock request offered conversation investigation provider intentHash rfl hvalid
        hprovider rfl hstarts
    · refine .same ?_
      rw [hstarts.tasks]
      simp [hk]
  | moved clock id action s' habout _ hmoves =>
    exact hmoves.taskStep s rfl (acts_of_about habout) k
  | idle | enqueue | claim | update | interrupt | cancelJob | clear | cancelled => exact .same rfl

/-- Cancellations and recoveries may find nothing to do; other actions move their task. -/
def Action.always : Action → Bool
  | .cancel | .recover => false
  | _ => true

theorem Effect.rowMoves (h : Effect env s op a s') (hacts : s.acts op = some (id, action))
    (halways : action.always = true) :
    ∃ row row', s.tasks.find? id = some row ∧ RowMoves env row action row'
      ∧ s'.tasks.find? id = some row' := by
  cases h with
  | attach clock plan reservation owner row job id' s' _ hid _ hmoves =>
    simp only [Store.acts, hid, Option.map_some, Option.some_inj, Prod.mk.injEq] at hacts
    obtain ⟨rfl, rfl⟩ := hacts
    exact hmoves.rowMoves s rfl
  | moved clock id' action' s' habout _ hmoves =>
    rw [acts_of_about habout, Option.some_inj, Prod.mk.injEq] at hacts
    obtain ⟨rfl, rfl⟩ := hacts
    exact hmoves.rowMoves s rfl
  | idle hidle =>
    cases op with
    | recoverInvestigation clock candidate reservation =>
      simp only [Store.acts, Store.about, Option.some_inj, Prod.mk.injEq] at hacts
      rw [← hacts.2] at halways
      exact absurd halways (by simp [Action.always])
    | _ => simp_all [Store.acts, Store.about, idles]
  | claim _ _ _ _ _ _ _ hnone => simp [Store.acts, hnone] at hacts
  | update _ _ _ _ hop => cases op <;> simp_all [Op.update?, Store.acts, Store.about]
  | cancelJob clock jobId | cancelJobTask clock jobId =>
    obtain ⟨_, -, heq⟩ := Option.map_eq_some_iff.mp hacts
    obtain ⟨rfl, rfl⟩ := Prod.mk.inj heq
    exact absurd halways (by simp [Action.always])
  | cancelled =>
    simp only [Store.acts, Store.about, Option.some_inj, Prod.mk.injEq] at hacts
    rw [← hacts.2] at halways
    exact absurd halways (by simp [Action.always])
  | enqueue | interrupt | clear | start => simp [Store.acts, Store.about] at hacts

/-- The event does `action` to task `id`, successfully. -/
def Does (e : Event) (id : String) (action : Action) : Prop :=
  e.pre.acts e.op = some (id, action) ∧ ∃ a, e.out = .ok a

theorem step_task (h : s.step env op = (s', out)) (hrow : s.tasks.find? id = some row) :
    s'.tasks.find? id = some row
      ∨ ∃ action row', Does ⟨s, op, out, s'⟩ id action ∧ RowMoves env row action row'
        ∧ s'.tasks.find? id = some row' := by
  rcases step_cases h with ⟨_, -, rfl⟩ | ⟨a, hout, heffect⟩
  · exact .inl hrow
  · cases heffect.taskStep id with
    | same hsame => exact .inl (hsame.trans hrow)
    | moved action row1 row' hacts hrow1 hmoves hrow' =>
      rw [hrow, Option.some_inj] at hrow1
      subst hrow1
      exact .inr ⟨action, row', ⟨hacts, a, hout⟩, hmoves, hrow'⟩
    | started _ _ _ _ _ _ _ _ _ _ _ hstarts =>
      rw [hstarts.fresh] at hrow
      exact absurd hrow (by simp)

/-- The row of a task that was just created. -/
def RowStarts (env : Env) (s : Store) (op : Op) (id : String) (row : TaskRow) : Prop :=
  ∃ clock request offered conversation investigation provider intentHash,
    op = .startInvestigation clock request offered conversation investigation
    ∧ request.validate = .ok () ∧ selectedProvider request offered = some provider
    ∧ id = newId investigation
    ∧ Savable env (startDraft env clock s request provider intentHash conversation investigation)
      (insertedRow s
        (startDraft env clock s request provider intentHash conversation investigation).task) false
    ∧ row = (insertedRow s
        (startDraft env clock s request provider intentHash conversation investigation).task).saved
        (startDraft env clock s request provider intentHash conversation investigation)

theorem step_row {row' : TaskRow} (h : s.step env op = (s', out))
    (hrow' : s'.tasks.find? id = some row') :
    s.tasks.find? id = some row'
      ∨ (∃ row action, s.tasks.find? id = some row ∧ Does ⟨s, op, out, s'⟩ id action
        ∧ RowMoves env row action row')
      ∨ (s.tasks.find? id = none ∧ RowStarts env s op id row') := by
  rcases step_cases h with ⟨_, -, rfl⟩ | ⟨a, hout, heffect⟩
  · exact .inl hrow'
  · cases heffect.taskStep id with
    | same hsame => exact .inl (hsame.symm.trans hrow')
    | moved action row row1 hacts hrow hmoves hrow1 =>
      rw [hrow', Option.some_inj] at hrow1
      subst hrow1
      exact .inr (.inl ⟨row, action, hrow, ⟨hacts, a, hout⟩, hmoves⟩)
    | started clock request offered conversation investigation provider intentHash hop hvalid
        hprovider hid hstarts =>
      rw [hstarts.tasks, Table.find?_put, if_pos rfl, Option.some_inj] at hrow'
      exact .inr (.inr ⟨hstarts.fresh, clock, request, offered, conversation, investigation, provider,
        intentHash, hop, hvalid, hprovider, hid, hstarts.savable, hrow'.symm⟩)

theorem does_moves (h : s.step env op = (s', out)) (hdoes : Does ⟨s, op, out, s'⟩ id action)
    (halways : action.always = true) :
    ∃ row row', s.tasks.find? id = some row ∧ RowMoves env row action row'
      ∧ s'.tasks.find? id = some row' := by
  obtain ⟨hacts, a, hout⟩ := hdoes
  rcases step_cases h with ⟨_, herror, -⟩ | ⟨a', -, heffect⟩
  · rw [herror] at hout
    exact absurd hout (by simp)
  · exact heffect.rowMoves hacts halways

theorem Does.unique {e : Event} {action' : Action} (h : Does e id action) (h' : Does e id action') :
    action = action' := by
  have heq := h.1.symm.trans h'.1
  rw [Option.some_inj, Prod.mk.injEq] at heq
  exact heq.2

/-- What is set when a task is created, as the store has it. -/
def Store.fixed? (s : Store) (id : String) : Option Fixed :=
  (s.tasks.find? id).map fun row => fixed row.record

theorem step_fixed (h : s.step env op = (s', out)) (hs : s.fixed? id = some f) :
    s'.fixed? id = some f := by
  obtain ⟨row, hrow, rfl⟩ := Option.map_eq_some_iff.mp hs
  rcases step_task h hrow with hsame | ⟨_, _, -, ⟨clock, jobs, d, _, hmove, -, -, rfl⟩, hrow'⟩
  · rw [Store.fixed?, hsame]
    rfl
  · rw [Store.fixed?, hrow', Option.map_some, Option.some_inj]
    exact hmove.fixed

theorem steps_fixed {tr : List Event} (h : (machine env).Steps s tr s') (hs : s.fixed? id = some f)
    : s'.fixed? id = some f :=
  h.invariant (P := fun s => s.fixed? id = some f) (fun _ _ _ _ hf _ hst => step_fixed hst hf) hs

end Jobs

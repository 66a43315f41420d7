/-
Fenced job operations (`src-tauri/src/jobs.rs`, `jobs/execution.rs`), and the job
store as a machine.

A claim gives a job a new generation and a new owner; everything a worker does
names the generation and the owner it was given.  Plans, recovery candidates and
handles are values a caller may keep for any time and present in any order: the
operations take arbitrary ones.

`machine` runs every operation in any order.  `workerMachine` is the machine of the
application, where the handle of an investigation goes only to the coordinator.
-/
import Cartograph.Jobs.Transitions
import Cartograph.Lib.Runs

namespace Jobs

open Investigation Checked

def JobStatus.text : JobStatus → String
  | .queued => "queued"
  | .running => "running"
  | .done => "done"
  | .failed => "failed"
  | .cancelled => "cancelled"
  | .interrupted => "interrupted"

/-- A job as the callers see it. -/
structure Job where
  id : ℕ
  row : JobRow
  recorded : Bool
  investigationId : Option String

def Store.readState (s : Store) (id : ℕ) : Option (Job × Option Attempt) :=
  (s.jobs.find? id).map fun row =>
    (⟨id, row, (s.attempts.find? id).isSome, s.taskIdForJob id⟩, s.attempts.find? id)

def Store.readJob (s : Store) (id : ℕ) : Except JobTransitionError Job :=
  orFail ((s.readState id).map Prod.fst) .missing

/-- Jobs (`enqueue`). -/
def Store.enqueue (kind : String) (s : Store) : Except JobTransitionError (Job × Store) := do
  let (id, s) ← s.insertJob .store kind
  let job ← s.readJob id
  pure (job, s)

/-! ### Claims -/

inductive ClaimMode
  | startQueued | retryTerminal
  deriving DecidableEq

def ClaimMode.verb : ClaimMode → String
  | .startQueued => "start"
  | .retryTerminal => "retry"

def ClaimMode.allowed (mode : ClaimMode) (row : JobRow) (attempt : Attempt) : Bool :=
  match mode with
  | .startQueued => row.status == .queued && attempt.generation == 0
  | .retryTerminal =>
    row.status == .failed || row.status == .cancelled || row.status == .interrupted

/-- History of the coordinator is never retried. -/
def ClaimMode.coordinated (mode : ClaimMode) (row : JobRow) : Bool :=
  mode == .retryTerminal && leads KIND_PREFIX row.kind

/-- The state of a job at the time it was read. -/
structure Plan where
  ns : ExecutionNamespace
  id : ℕ
  row : JobRow
  attempt : Attempt

def Plan.target (p : Plan) : JobLockTarget := ⟨p.ns, p.id, decide (0 < p.attempt.generation)⟩

/-- A plan `claim_plan` has allowed in one of its modes. -/
structure ClaimPlan extends Plan where
  allowed : ∃ mode : ClaimMode, mode.allowed row attempt = true ∧ mode.coordinated row = false

def Store.claimPlan (id : ℕ) (mode : ClaimMode) (s : Store) :
    Except JobTransitionError (ClaimPlan × Store) := do
  let (job, attempt) ← orFail (s.readState id) .missing
  let attempt ← orFail attempt .legacyUnknown
  if hc : mode.coordinated job.row = false then
    if ha : mode.allowed job.row attempt = true then
      pure (⟨⟨s.ns, id, job.row, attempt⟩, mode, ha, hc⟩, s)
    else .error (.invalidFrom mode.verb job.row.status.text)
  else .error (.invalidFrom "retry investigation; request an explicit follow-up for"
    "coordinator-owned history")

def Store.matchesPlan (s : Store) (p : Plan) : Bool :=
  (s.readState p.id).any fun (job, attempt) =>
    job.row.kind == p.row.kind && job.row.status == p.row.status && attempt == some p.attempt

def Store.checkReservation (s : Store) (p : Plan) (reservation : ExecutionReservation) :
    Except JobTransitionError Unit := do
  ensure (p.ns = s.ns ∧ reservation.target.ns = s.ns ∧ reservation.target.id = p.id
    ∧ reservation.target.existing = p.target.existing) .foreignStore
  ensure (reservation.verified = true) .lockUnavailable

def JobRow.claimed (row : JobRow) : JobRow :=
  { row with status := .running, stage := none, progress := none, error := none }

/-- Errors of the coordinator inside a job operation. -/
def metadata {α : Type} : Except InvestigationStoreError α → Except JobTransitionError α
  | .ok a => .ok a
  | .error _ => .error .invalidMetadata

/-- The store with a job taken by a new owner. -/
def Store.claimed (s : Store) (p : Plan) (owner : Token) : Store :=
  { s with
    attempts := s.attempts.put p.id (.claimed p.attempt.generation owner)
    jobs := updateJob s.jobs p.id (fun _ => true) JobRow.claimed }

def Store.claimExecution (env : Env) (clock : Clock) (plan : ClaimPlan)
    (reservation : ExecutionReservation) (owner : Token) (s : Store) :
    Except JobTransitionError ((Job × JobExecution) × Store) := do
  s.checkReservation plan.toPlan reservation
  ensure (s.matchesPlan plan.toPlan = true) .staleAttempt
  ensure (plan.attempt.generation + 1 ≤ MAX_ROWID) .generationOverflow
  let s ← metadata ((s.claimed plan.toPlan owner).attachExecution env clock plan.id plan.row.kind
    (plan.attempt.generation + 1) owner)
  let job ← s.readJob plan.id
  pure ((job, ⟨s.ns, plan.id, plan.attempt.generation + 1, owner, reservation.verified⟩), s)

/-- The running jobs without a task, as `recovery_candidates` copies them. -/
def Store.recoveryCandidates (s : Store) : Except JobTransitionError (List Plan) :=
  (s.jobs.rows.filter fun r => r.2.status == .running && (s.attempts.find? r.1).isSome
    && (s.taskIdForJob r.1).isNone).mapM fun r => do
      let attempt ← orFail (s.attempts.find? r.1) .invalidMetadata
      ensure (attempt.generation ≠ 0) .invalidMetadata
      pure ⟨s.ns, r.1, r.2, attempt⟩

def Store.recoverReserved (candidate : Plan) (reservation : ExecutionReservation) (s : Store) :
    Except JobTransitionError (Option Job × Store) := do
  s.checkReservation candidate reservation
  if s.matchesPlan candidate = false then pure (none, s)
  else do
    ensure (candidate.row.status = .running ∧ candidate.attempt.owner.isSome) .store
    let s := { s with jobs := updateJob s.jobs candidate.id (fun _ => true)
                                fun row => { row with status := .interrupted } }
    let job ← s.readJob candidate.id
    pure (some job, s)

/-! ### Execution handles -/

def Store.validateHandle (s : Store) (x : JobExecution) : Except JobTransitionError Unit := do
  ensure (x.ns = s.ns) .foreignStore
  ensure (x.verified = true) .lockUnavailable

/-- The job of a handle whose attempt is still the current one. -/
def Store.checkedJob (s : Store) (x : JobExecution) : Except JobTransitionError Job := do
  let (job, attempt) ← orFail (s.readState x.id) .missing
  ensure (attempt.any x.attempted = true) .staleAttempt
  pure job

inductive ExecutionCheck
  | running | cancelled | terminal
  deriving DecidableEq

def Store.checkExecution (x : JobExecution) (s : Store) :
    Except JobTransitionError (ExecutionCheck × Store) := do
  s.validateHandle x
  let job ← s.checkedJob x
  match job.row.status with
  | .running => pure (.running, s)
  | .cancelled => pure (.cancelled, s)
  | .done | .failed => pure (.terminal, s)
  | .interrupted => .error .stopped
  | .queued => .error .invalidMetadata

inductive Update
  | progress (stage : String) (percent : ℚ)
  | finish (artifacts : List String)
  | fail (error : String)

def Update.apply (row : JobRow) : Update → JobRow
  | .progress stage percent => { row with stage := some stage, progress := some percent }
  | .finish artifacts =>
    { row with status := .done, progress := some 100, error := none, artifacts := some artifacts }
  | .fail error => { row with status := .failed, error := some error }

inductive ExecutionUpdate
  | applied (job : Job)
  | unchanged (job : Job)

def Store.updateExecution (x : JobExecution) (update : Update) (s : Store) :
    Except JobTransitionError (ExecutionUpdate × Store) := do
  s.validateHandle x
  let job ← s.checkedJob x
  match job.row.status with
  | .cancelled | .done | .failed => pure (.unchanged job, s)
  | .interrupted => .error .stopped
  | .queued => .error .invalidMetadata
  | .running => do
    let s := { s with jobs := updateJob s.jobs x.id (fun _ => true) fun row => update.apply row }
    let job ← s.readJob x.id
    pure (.applied job, s)

/-- `none` is a percentage that is not finite. -/
def Store.progressExecution (x : JobExecution) (stage : String) (percent : Option ℚ) (s : Store) :
    Except JobTransitionError (ExecutionUpdate × Store) := do
  let percent ← orFail percent .invalidMetadata
  s.updateExecution x (.progress stage (max 0 (min percent 100)))

def Store.finishExecution (x : JobExecution) (artifacts : List String) (s : Store) :
    Except JobTransitionError (ExecutionUpdate × Store) :=
  s.updateExecution x (.finish artifacts)

def Store.failExecution (x : JobExecution) (error : String) (s : Store) :
    Except JobTransitionError (ExecutionUpdate × Store) :=
  s.updateExecution x (.fail error)

/-! ### Cancel and clear -/

def Store.cancel (env : Env) (clock : Clock) (id : ℕ) (s : Store) :
    Except JobTransitionError (Job × Store) := do
  let before ← s.readJob id
  ensure (before.row.status.open = true) (.invalidFrom "cancel" before.row.status.text)
  let s := { s with jobs := updateJob s.jobs id (fun row => row.status.open) JobRow.cancelled }
  let s ← metadata (s.cancelForJob env clock id)
  let job ← s.readJob id
  pure (job, s)

/-- Terminal jobs, and interrupted ones whose task has ended. -/
def Store.finished (s : Store) (id : ℕ) (row : JobRow) : Bool :=
  row.status == .done || row.status == .failed || row.status == .cancelled
    || (row.status == .interrupted && s.tasks.rows.any fun r => r.2.jobId == id && !r.2.live)

def Store.cleared (s : Store) : Store :=
  { s with
    jobs := s.jobs.filter fun id row => !s.finished id row
    attempts := s.attempts.filter fun id _ => !(s.jobs.find? id).any (s.finished id) }

def Store.clearFinished (s : Store) : Except JobTransitionError (ℕ × Store) :=
  pure ((s.jobs.rows.filter fun r => s.finished r.1 r.2).length, s.cleared)

/-! ### The machine -/

/-- One call, with what it takes from outside: clock readings, random tokens, and the
verdict of the operating system on a lock. -/
inductive Op
  | enqueue (kind : String)
  | claimPlan (id : ℕ) (mode : ClaimMode)
  | claimExecution (clock : Clock) (plan : ClaimPlan) (reservation : ExecutionReservation)
      (owner : Token)
  | recoverReserved (candidate : Plan) (reservation : ExecutionReservation)
  | checkExecution (x : JobExecution)
  | progressExecution (x : JobExecution) (stage : String) (percent : Option ℚ)
  | finishExecution (x : JobExecution) (artifacts : List String)
  | failExecution (x : JobExecution) (error : String)
  | cancel (clock : Clock) (id : ℕ)
  | clearFinished
  | startInvestigation (clock : Clock) (request : StartInvestigationRequest)
      (provider : Option InvestigationProvider) (conversation investigation : Token)
  | advanceInvestigation (clock : Clock) (x : JobExecution) (expectedRevision : ℕ)
      (transition : InvestigationTransition)
  | approveInvestigation (clock : Clock) (id : String) (revision : ℕ) (stepId payloadHash : String)
  | declineInvestigation (clock : Clock) (id : String) (revision : ℕ) (stepId payloadHash : String)
  | cancelInvestigation (clock : Clock) (id : String)
  | recoverInvestigation (clock : Clock) (candidate : InvestigationRecoveryCandidate)
      (reservation : ExecutionReservation)

inductive Answer
  | job (job : Job)
  | plan (plan : ClaimPlan)
  | claimed (job : Job) (x : JobExecution)
  | recovered (job : Option Job)
  | check (check : ExecutionCheck)
  | update (update : ExecutionUpdate)
  | removed (count : ℕ)
  | started (start : InvestigationStart)
  | detail (detail : InvestigationDetail)
  | recoveredTask (detail : Option InvestigationDetail)

inductive Failure
  | job (error : JobTransitionError)
  | task (error : InvestigationStoreError)
  deriving DecidableEq

/-- Report an answer or an error of one kind. -/
def report {ε α : Type} (failed : ε → Failure) (answer : α → Answer) :
    Except ε (α × Store) → Except Failure (Answer × Store)
  | .ok (a, s) => .ok (answer a, s)
  | .error e => .error (failed e)

theorem report_eq_ok {ε α : Type} {failed : ε → Failure} {answer : α → Answer}
    {r : Except ε (α × Store)} {a : Answer} {s : Store} :
    report failed answer r = .ok (a, s) ↔ ∃ b, r = .ok (b, s) ∧ answer b = a := by
  cases r with
  | error e => simp [report]
  | ok p =>
    obtain ⟨b, s'⟩ := p
    simp only [report, Except.ok.injEq, Prod.mk.injEq]
    constructor
    · rintro ⟨h1, h2⟩
      exact ⟨b, ⟨rfl, h2⟩, h1⟩
    · rintro ⟨b', ⟨rfl, h2⟩, h1⟩
      exact ⟨h1, h2⟩

def Store.perform (env : Env) (op : Op) (s : Store) : Except Failure (Answer × Store) :=
  match op with
  | .enqueue kind => report .job .job (s.enqueue kind)
  | .claimPlan id mode => report .job .plan (s.claimPlan id mode)
  | .claimExecution clock plan reservation owner =>
    report .job (fun r => .claimed r.1 r.2) (s.claimExecution env clock plan reservation owner)
  | .recoverReserved candidate reservation =>
    report .job .recovered (s.recoverReserved candidate reservation)
  | .checkExecution x => report .job .check (s.checkExecution x)
  | .progressExecution x stage percent => report .job .update (s.progressExecution x stage percent)
  | .finishExecution x artifacts => report .job .update (s.finishExecution x artifacts)
  | .failExecution x error => report .job .update (s.failExecution x error)
  | .cancel clock id => report .job .job (s.cancel env clock id)
  | .clearFinished => report .job .removed s.clearFinished
  | .startInvestigation clock request provider conversation investigation =>
    report .task .started
      (s.startInvestigation env clock request provider conversation investigation)
  | .advanceInvestigation clock x expectedRevision transition =>
    report .task .detail (s.advanceInvestigation env clock x expectedRevision transition)
  | .approveInvestigation clock id revision stepId payloadHash =>
    report .task .detail (s.approveInvestigation env clock id revision stepId payloadHash)
  | .declineInvestigation clock id revision stepId payloadHash =>
    report .task .detail (s.declineInvestigation env clock id revision stepId payloadHash)
  | .cancelInvestigation clock id => report .task .detail (s.cancelInvestigation env clock id)
  | .recoverInvestigation clock candidate reservation =>
    report .task .recoveredTask (s.recoverInvestigation env clock candidate reservation)

/-- One operation; a failed one rolls back. -/
def Store.step (env : Env) (s : Store) (op : Op) : Store × Except Failure Answer :=
  transact (Store.perform env op) s

/-- Every operation, in any order. -/
def machine (env : Env) : Machine Store Op (Except Failure Answer) where
  init := Store.Initial
  enabled := fun _ _ => True
  step := Store.step env

/-- A step of a run. -/
abbrev Event := Machine.Event Store Op (Except Failure Answer)

/-- The handle and the recovery candidate of a job that belongs to a task go to the
coordinator, never to the plain job operations. -/
def Store.workerAllows (s : Store) : Op → Prop
  | .progressExecution x _ _ | .finishExecution x _ | .failExecution x _ =>
    s.taskIdForJob x.id = none
  | .recoverReserved candidate _ => s.taskIdForJob candidate.id = none
  | _ => True

def workerMachine (env : Env) : Machine Store Op (Except Failure Answer) where
  init := Store.Initial
  enabled := Store.workerAllows
  step := Store.step env

/-! ### A store to try things on -/

namespace Sample

def namespaceToken : Token := ⟨"00000000000000000000000000000000", by decide⟩
def owner : Token := ⟨"11111111111111111111111111111111", by decide⟩
def investigation : Token := ⟨"22222222222222222222222222222222", by decide⟩

def clock : Clock := fun _ => ⟨"2025-01-01T00:00:00Z", by decide, by decide⟩

def ns : ExecutionNamespace := ⟨namespaceToken, "/store"⟩

def empty : Store := ⟨ns, .empty, 0, .empty, .empty, 0, .empty⟩

theorem empty_initial : empty.Initial :=
  ⟨fun _ _ h => absurd h (by simp [empty]), rfl, rfl, rfl, rfl⟩

/-- Nothing to redact, and the hashes of the request and the ledger of a sample. -/
def env (intent : Hash) : Env where
  redactText value := (value, 0)
  domainHash domain _ :=
    if domain = "cartograph:investigation-client-intent:v1\x00" then intent
    else ⟨"df5144422389e4bcd6601a31cc888611abbf5761dcbe16a188d36f2d086ab88d", by decide⟩
  promptFingerprint _ :=
    ⟨"9eb83715f67f8b022ec5a144de89c4a4a86e0c3ee86ab71e545677e0fe3e2b37", by decide⟩

/-- The intent hash of `request`. -/
def intent : Hash :=
  ⟨"157289dac2dc28600f4601a248007e942ff4f43de2db62ba193161fe7c1e23a2", by decide⟩

def request : StartInvestigationRequest where
  schemaVersion := 1
  requestNonce := "n1"
  specialistId := .domainAnalyst
  question := "Why?"
  scope := .all
  providerMode := .cloud
  limitProfile := "investigation-v1"
  conversationId := none
  parentId := none
  expectedGraphRevision := none

def provider (mode : InvestigationProviderMode) : InvestigationProvider :=
  ⟨mode, "p", "m", "e", none, none, true, none⟩

def start : Op := .startInvestigation clock request (some (provider .cloud)) owner investigation

/-- A first claim of job 1. -/
def plan (kind : String) : ClaimPlan :=
  ⟨⟨ns, 1, { kind := kind }, .unclaimed⟩, .startQueued, rfl, rfl⟩

def claim (kind : String) : Op :=
  .claimExecution clock (plan kind) ⟨(plan kind).target, true⟩ owner

/-- The handle of that claim. -/
def handle : JobExecution := ⟨ns, 1, 1, owner, true⟩

end Sample

end Jobs

/-
The tables of the job store (`src-tauri/src/jobs.rs`, `jobs/execution.rs` and the
schema of `jobs/investigations/storage.rs`).

`jobs` and `job_attempts` are tables by job id; `investigation_tasks` is a table by
task id whose rows hold the columns, the record, and the rows of the five body
tables and of the reference index that belong to that task (every statement on
those tables is restricted to one task).  `AUTOINCREMENT` is a counter that never
goes back.  Column hashes, schema checks and the timestamps of job rows are left
out: nothing below depends on them.

Immediate transactions are serialised, so an operation is a function of the store.
-/
import Cartograph.Lib.Table
import Cartograph.Investigation.Admission

namespace Jobs

open Investigation Checked

/-! ### Jobs and attempts -/

inductive JobStatus
  | queued | running | done | failed | cancelled | interrupted
  deriving DecidableEq

/-- Still on its way: `status IN ('queued','running')`. -/
def JobStatus.open : JobStatus → Bool
  | .queued | .running => true
  | _ => false

structure JobRow where
  kind : String
  status : JobStatus := .queued
  stage : Option String := none
  progress : Option ℚ := none
  error : Option String := none
  artifacts : Option (List String) := none
  deriving DecidableEq

/-- A row of `job_attempts`; `check` is the constraint of the table, with the form
of the owner token that `row_attempt` insists on. -/
structure Attempt where
  generation : ℕ
  owner : Option Token
  check : (generation = 0 ∧ owner = none) ∨ (0 < generation ∧ owner.isSome)
  deriving DecidableEq

/-- Recorded, but claimed by nobody yet. -/
def Attempt.unclaimed : Attempt := ⟨0, none, .inl ⟨rfl, rfl⟩⟩

/-- The attempt of the owner who claims next. -/
def Attempt.claimed (generation : ℕ) (owner : Token) : Attempt :=
  ⟨generation + 1, some owner, .inr ⟨Nat.succ_pos _, rfl⟩⟩

structure ExecutionNamespace where
  value : Token
  storePath : String
  deriving DecidableEq

structure JobLockTarget where
  ns : ExecutionNamespace
  id : ℕ
  existing : Bool
  deriving DecidableEq

/-- A held lock; `verified` is what the operating system says of it now. -/
structure ExecutionReservation where
  target : JobLockTarget
  verified : Bool

/-- An execution handle, possibly of an attempt long gone. -/
structure JobExecution where
  ns : ExecutionNamespace
  id : ℕ
  generation : ℕ
  owner : Token
  verified : Bool

def JobExecution.attempted (x : JobExecution) (a : Attempt) : Bool :=
  a.generation == x.generation && a.owner == some x.owner

inductive JobTransitionError
  | invalidFrom (verb status : String)
  | store | busy | lockUnavailable | foreignStore | legacyUnknown | missing | staleAttempt | stopped
  | invalidMetadata | generationOverflow
  deriving DecidableEq

/-! ### Investigation tasks -/

inductive InvestigationStoreError
  | invalid | missing | conflict | stale | capacity | unavailable | cancelled | ownership | storage
  deriving DecidableEq

/-- The rows other tables hold for one task. -/
structure Rows where
  events : Table ℕ InvestigationEvent
  inputs : Table ℕ InvestigationInputLedger
  invocations : Table String PendingInvestigationStep
  responses : Table String InvestigationResponseMeta
  result : Option InvestigationResult
  refs : List (InvestigationReceiptReference × ℕ)

def Rows.empty : Rows := ⟨.empty, .empty, .empty, .empty, none, []⟩

structure TaskRow where
  ordinal : ℕ
  nonce : String
  conversationId : String
  jobId : ℕ
  revision : ℕ
  live : Bool
  record : StoredTask
  rows : Rows

structure Store where
  ns : ExecutionNamespace
  jobs : Table ℕ JobRow
  jobSeq : ℕ
  attempts : Table ℕ Attempt
  tasks : Table String TaskRow
  taskSeq : ℕ
  conversations : Table String String

/-- The first run of this version: jobs of older versions may be there, without
attempt metadata, and nothing else is. -/
def Store.Initial (s : Store) : Prop :=
  (∀ id row, s.jobs.find? id = some row → id ≤ s.jobSeq) ∧ s.attempts = .empty
    ∧ s.tasks = .empty ∧ s.taskSeq = 0 ∧ s.conversations = .empty

/-- The largest row id of the database. -/
def MAX_ROWID : ℕ := 2 ^ 63 - 1

/-- Change the row of one job. -/
def updateJob (jobs : Table ℕ JobRow) (id : ℕ) (p : JobRow → Bool) (f : JobRow → JobRow) :
    Table ℕ JobRow :=
  match jobs.find? id with
  | some row => if p row then jobs.put id (f row) else jobs
  | none => jobs

theorem find?_updateJob (jobs : Table ℕ JobRow) (id k : ℕ) (p : JobRow → Bool)
    (f : JobRow → JobRow) :
    (updateJob jobs id p f).find? k =
      if k = id then (jobs.find? k).map (fun row => if p row then f row else row)
      else jobs.find? k := by
  unfold updateJob
  cases h : jobs.find? id with
  | none =>
    by_cases hk : k = id
    · rw [if_pos hk, hk, h]
      rfl
    · rw [if_neg hk]
  | some row =>
    by_cases hp : p row = true
    · simp only [hp, if_true, Table.find?_put]
      by_cases hk : k = id
      · rw [if_pos hk, if_pos hk, hk, h, Option.map_some, if_pos hp]
      · rw [if_neg hk, if_neg hk]
    · simp only [hp]
      by_cases hk : k = id
      · rw [if_pos hk, hk, h, Option.map_some, if_neg hp]
        exact h
      · rw [if_neg hk]
        rfl

/-- The task a job belongs to. -/
def Store.taskIdForJob (s : Store) (jobId : ℕ) : Option String :=
  (s.tasks.rows.find? fun r => r.2.jobId == jobId).map Prod.fst

end Jobs

/-
Preflights and reconciliations of the findings register (`src-tauri/src/main.rs`,
`src-tauri/src/findings.rs`).

A preflight scans a repository and replaces its findings; a recovery replaces them by a
reconciled report.  Both are ordered by epochs, handed out when a preflight begins and when
a recovery reserves its fence, long before either writes.  The lock `writes` lets one writer
in at a time; `begin` and `cancel` never wait for it, so they fall between any two steps of
a writer.

A step is one access to what is shared: an atomic operation on the flag of a run, a critical
section of `current`, or a statement of the database.  The writer that holds `writes` is part
of the state, with the place it has come to.  A statement of the database may fail: before the
commit and at the commit the replacement is rolled back, and after it, when the rows are read
back (`list_for`), the call returns the error and the write stays.
-/
import Cartograph.Lib.Runs
import Cartograph.Lib.Table

namespace Preflight

def DETECTOR_ID : String := "preflight@1"

/-! ### Findings -/

structure PatternFinding where
  detector : String
  path : String
  line : ℕ
  message : String
  deriving DecidableEq

/-- A report of `preflight_scan`, which puts its own detector on every finding. -/
structure PreflightReport where
  unsupported : List PatternFinding
  potentialGaps : List PatternFinding
  detectors : ∀ f ∈ unsupported, f.detector = DETECTOR_ID
  deriving DecidableEq

/-- A row of `findings`, less its number and its time; rows are in the order of numbers. -/
structure FindingRow where
  kind : String
  detector : String
  repo : String
  path : String
  line : ℕ
  message : String
  deriving DecidableEq

/-- The batch a report is written as. -/
def batch (repo : String) (report : PreflightReport) : List FindingRow :=
  report.unsupported.map fun f => ⟨"unsupported", f.detector, repo, f.path, f.line, f.message⟩

/-- What a `replace_for_if` that is kept commits: the rows of the detector for the repository
are replaced by the batch. -/
def replaceFor (findings : List FindingRow) (repo detector : String) (rows : List FindingRow) :
    List FindingRow :=
  findings.filter (fun row => !(row.repo == repo && row.detector == detector)) ++ rows

/-! ### Runs -/

/-- `RunState`. -/
inductive RunFlag
  | running
  | cancelled
  | committing
  deriving DecidableEq

structure Reconciled where
  epoch : ℕ
  report : PreflightReport
  deriving DecidableEq

/-- What a preflight does next, while it holds `writes`. -/
inductive PersistStage
  | checkCancelled
  | checkReconciled
  | stageBatch
  | claimCommit
  | commit
  | readBack
  | record
  deriving DecidableEq

inductive ReconcileStage
  | checkNewer
  | write
  | readBack
  | record
  deriving DecidableEq

/-- The call that holds `writes`. -/
inductive Writer
  | persist (stage : PersistStage) (token : ℕ) (repo : String) (report : PreflightReport)
  | reconcile (stage : ReconcileStage) (fence : ℕ) (repo : String) (report : PreflightReport)
  deriving DecidableEq

/-- `PreflightRuns`, the flags of the runs by epoch, and the findings.  A run is known by its
epoch; `tokens` are the preflights that have not persisted yet, and `fences` the epochs
reserved by recoveries. -/
structure Runs where
  run : Option ℕ
  epoch : ℕ
  reconciled : Table String Reconciled
  persisted : Table String ℕ
  flags : Table ℕ RunFlag
  tokens : List ℕ
  fences : List ℕ
  writer : Option Writer
  findings : List FindingRow

/-- `leave_running`: the flag after a compare-and-swap, and whether it was made. -/
def leaveRunning (flags : Table ℕ RunFlag) (run : ℕ) (next : RunFlag) : Table ℕ RunFlag × Bool :=
  if flags.find? run = some .running then (flags.put run next, true) else (flags, false)

/-- A replacement that was committed. -/
structure Commit where
  preflight : Bool
  epoch : ℕ
  repo : String
  report : PreflightReport
  deriving DecidableEq

inductive PreflightError
  | cancelled
  | storage
  deriving DecidableEq

/-- The report a call returns, with its place in the register. -/
structure Stamped where
  report : PreflightReport
  repo : String
  epoch : ℕ
  deriving DecidableEq

/-- What a step of the system shows. -/
inductive Out
  | began (token : ℕ)
  | stopped (won : Bool)
  | fenced (fence : ℕ)
  | progress
  | committed (c : Commit)
  | persisted (result : Except PreflightError Stamped)
  | reconciled (result : Except PreflightError (Option Stamped))
  deriving DecidableEq

/-- `begin`: the run before it is cancelled, unless it is committing. -/
def begin (s : Runs) : Runs × Out :=
  let token := s.epoch + 1
  let flags := match s.run with
    | some previous => (leaveRunning s.flags previous .cancelled).1
    | none => s.flags
  ({ s with
      epoch := token
      run := some token
      flags := flags.put token .running
      tokens := token :: s.tokens }, .began token)

def cancel (s : Runs) : Runs × Out :=
  match s.run with
  | some run =>
    let (flags, won) := leaveRunning s.flags run .cancelled
    ({ s with flags := flags }, .stopped won)
  | none => (s, .stopped false)

def reserveReconcile (s : Runs) : Runs × Out :=
  ({ s with epoch := s.epoch + 1, fences := (s.epoch + 1) :: s.fences }, .fenced (s.epoch + 1))

/-- The call returns and `writes` is free. -/
def Runs.release (s : Runs) : Runs := { s with writer := none }

/-- A step of `persist_if_current` and of the replacement it makes. -/
def persistStep (s : Runs) (stage : PersistStage) (token : ℕ) (repo : String)
    (report : PreflightReport) (ok : Bool) : Runs × Out :=
  let goto (s : Runs) (stage : PersistStage) : Runs :=
    { s with writer := some (.persist stage token repo report) }
  match stage with
  | .checkCancelled =>
    if s.flags.find? token = some .cancelled then (s.release, .persisted (.error .cancelled))
    else (goto s .checkReconciled, .progress)
  | .checkReconciled =>
    match (s.reconciled.find? repo).filter fun r => token < r.epoch with
    | some r => (s.release, .persisted (.ok ⟨r.report, repo, r.epoch⟩))
    | none => (goto s .stageBatch, .progress)
  | .stageBatch =>
    if ok then (goto s .claimCommit, .progress) else (s.release, .persisted (.error .storage))
  | .claimCommit =>
    let (flags, claimed) := leaveRunning s.flags token .committing
    if claimed then (goto { s with flags := flags } .commit, .progress)
    else (s.release, .persisted (.error .cancelled))
  | .commit =>
    if ok then
      (goto { s with findings := replaceFor s.findings repo DETECTOR_ID (batch repo report) } .readBack,
        .committed ⟨true, token, repo, report⟩)
    else (s.release, .persisted (.error .storage))
  | .readBack =>
    if ok then (goto s .record, .progress) else (s.release, .persisted (.error .storage))
  | .record =>
    let latest := max ((s.persisted.find? repo).getD 0) token
    (Runs.release { s with persisted := s.persisted.put repo latest },
      .persisted (.ok ⟨report, repo, token⟩))

/-- A write of the repository is newer than the fence. -/
def newerWritten (s : Runs) (fence : ℕ) (repo : String) : Bool :=
  (s.persisted.find? repo).any (fence < ·) || (s.reconciled.find? repo).any (fence < ·.epoch)

/-- A step of `reconcile` and of the replacement it makes. -/
def reconcileStep (s : Runs) (stage : ReconcileStage) (fence : ℕ) (repo : String)
    (report : PreflightReport) (ok : Bool) : Runs × Out :=
  let goto (s : Runs) (stage : ReconcileStage) : Runs :=
    { s with writer := some (.reconcile stage fence repo report) }
  match stage with
  | .checkNewer =>
    if newerWritten s fence repo then (s.release, .reconciled (.ok none))
    else (goto s .write, .progress)
  | .write =>
    if ok then
      (goto { s with findings := replaceFor s.findings repo DETECTOR_ID (batch repo report) } .readBack,
        .committed ⟨false, fence, repo, report⟩)
    else (s.release, .reconciled (.error .storage))
  | .readBack =>
    if ok then (goto s .record, .progress) else (s.release, .reconciled (.error .storage))
  | .record =>
    (Runs.release { s with reconciled := s.reconciled.put repo ⟨fence, report⟩ },
      .reconciled (.ok (some ⟨report, repo, fence⟩)))

inductive Op
  | begin
  | cancel
  | reserveReconcile
  | persistIfCurrent (token : ℕ) (repo : String) (report : PreflightReport)
  | reconcile (fence : ℕ) (repo : String) (report : PreflightReport)
  /-- The writer goes one step on; `ok` is what the database answers, where it is asked. -/
  | writer (ok : Bool)
  deriving DecidableEq

/-- `writes` is taken when it is free.  Tokens and fences come from `begin` and
`reserve_reconcile`; a preflight persists once, and a fence may serve many repositories. -/
def Op.Enabled (s : Runs) : Op → Prop
  | .persistIfCurrent token _ _ => s.writer = none ∧ token ∈ s.tokens
  | .reconcile fence _ _ => s.writer = none ∧ fence ∈ s.fences
  | .writer _ => s.writer ≠ none
  | _ => True

instance (s : Runs) : (op : Op) → Decidable (op.Enabled s)
  | .begin => .isTrue trivial
  | .cancel => .isTrue trivial
  | .reserveReconcile => .isTrue trivial
  | .persistIfCurrent token _ _ => inferInstanceAs (Decidable (s.writer = none ∧ token ∈ s.tokens))
  | .reconcile fence _ _ => inferInstanceAs (Decidable (s.writer = none ∧ fence ∈ s.fences))
  | .writer _ => inferInstanceAs (Decidable (s.writer ≠ none))

def step (s : Runs) : Op → Runs × Out
  | .begin => begin s
  | .cancel => cancel s
  | .reserveReconcile => reserveReconcile s
  | .persistIfCurrent token repo report =>
    ({ s with
        tokens := s.tokens.erase token
        writer := some (.persist .checkCancelled token repo report) }, .progress)
  | .reconcile fence repo report =>
    ({ s with writer := some (.reconcile .checkNewer fence repo report) }, .progress)
  | .writer ok =>
    match s.writer with
    | some (.persist stage token repo report) => persistStep s stage token repo report ok
    | some (.reconcile stage fence repo report) => reconcileStep s stage fence repo report ok
    | none => (s, .progress)

/-- The system, from a start of the host over any findings. -/
def machine : Machine Runs Op Out where
  init s := ∃ findings, s = ⟨none, 0, .empty, .empty, .empty, [], [], none, findings⟩
  enabled := fun s op => op.Enabled s
  step := step

/-- The rows of the register for a repository. -/
def register (s : Runs) (repo : String) : List FindingRow :=
  s.findings.filter fun row => row.repo == repo && row.detector == DETECTOR_ID

end Preflight

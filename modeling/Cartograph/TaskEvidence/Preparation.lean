/-
Preparation of the evidence of a task (`src-tauri/src/task_evidence.rs`).

A task is planned from one graph.  The graph is then read again, with the source associations of
the planned facts, before and after the sources are reserved, and every selected fact has to be as
it was planned.  Evidence is read request by request, and a report accounts for each of them, also
when preparation fails.

What the registry, the leases, the receipts and the files answer is a parameter, and so is the
store at each of the two later reads.
-/
import Cartograph.ContextHub.Identity
import Cartograph.Lib.Fallible
import Cartograph.SourceSelection
import Cartograph.Sources.Registry
import Cartograph.TaskEvidence.Planning

namespace TaskEvidence

open GraphStore Investigation Agents Checked Fallible
open Ingest (factRank)
open Sources (RegisteredSource)

def CHANGED : String := "Task evidence changed during preparation; refresh and prepare it again."
def INVALID : String := "Task source selection is invalid; no source was substituted."

def taskFact : FactKey → TaskFactKey
  | .node id => .node id
  | .edge source label destination => .edge source label destination

def taskAssociation (b : SourceBinding) : TaskSourceAssociation :=
  ⟨b.repoKey, b.receiptId, b.emittedFactDigest⟩

def selection (value : FactSourceSelection) : Except String TaskFactSelection :=
  match value.state with
  | .absent factDigest => .ok ⟨taskFact value.fact, factDigest, none⟩
  | .present factDigest binding =>
    .ok ⟨taskFact value.fact, factDigest, some (taskAssociation binding)⟩
  | .missing | .invalid _ => .error INVALID

/-! ### Sources -/

inductive PinnedReadError
  | unavailable | invalid | operational
  deriving DecidableEq

def PinnedReadError.text : PinnedReadError → String
  | .unavailable => "Retained task evidence is unavailable; no source was substituted."
  | .invalid => "Retained task evidence is invalid; no source was substituted."
  | .operational =>
    "Retained task evidence could not be checked; retry after the storage or source operation completes."

structure ReceiptRange where
  role : TaskRangeRole
  index : ℕ
  evidence : EvidenceRef
  captured : TaskCaptureSpanRef
  deriving DecidableEq

structure TaskReceipt where
  id : String
  ranges : List ReceiptRange
  deriving DecidableEq

/-- What is outside the graph during one preparation: the registry, the leases of checkouts, and the
retained receipts and captures. -/
structure TaskSources (Operation Guard : Type) where
  getByRepo : String → Except PinnedReadError RegisteredSource
  acquire : RegisteredSource → Except PinnedReadError Operation
  taskGuard : String → Except PinnedReadError Guard
  readSpan : Operation → EvidenceRef → Option String
  taskReceipt : Guard → FactKey → String → String → String → Except PinnedReadError TaskReceipt
  taskText : Guard → TaskReceipt → ℕ → Except PinnedReadError String

abbrev FactTable (α : Type) : Type := Table (String ⊕ₗ (String ×ₗ String ×ₗ String)) α

/-- The registrations that were looked up, and the sources to reserve, by their ids. -/
structure Reservations where
  registrations : Table String (Except PinnedReadError RegisteredSource)
  legacy : Table String RegisteredSource
  captured : Table String RegisteredSource

structure SourceGuards (Operation Guard : Type) where
  registrations : Table String (Except PinnedReadError RegisteredSource)
  legacy : Table String (Except PinnedReadError Operation)
  retained : Table String (Except PinnedReadError Guard)

section

variable {Operation Guard : Type} (sources : TaskSources Operation Guard)

/-- The repository that the evidence of a request is read from, and whether it was captured. -/
def requestedRepo (selections : FactTable FactSourceSelection) (request : EvidenceRequest) :
    Option (String × Bool) := do
  let reference ← request.reference
  let selected ← selections.find? (factRank request.fact)
  match selected.state with
  | .absent _ => some (reference.repo, false)
  | .present _ binding => some (binding.repoKey, true)
  | .missing | .invalid _ => none

/-- A repository is looked up once. -/
def reserve (selections : FactTable FactSourceSelection) (reserved : Reservations)
    (request : EvidenceRequest) : Reservations :=
  match requestedRepo selections request with
  | none => reserved
  | some (repo, captured) =>
    let registration := (reserved.registrations.find? repo).getD (sources.getByRepo repo)
    let reserved := { reserved with registrations := reserved.registrations.put repo registration }
    match registration with
    | .error _ => reserved
    | .ok source =>
      if captured then { reserved with captured := reserved.captured.put source.sourceId source }
      else { reserved with legacy := reserved.legacy.put source.sourceId source }

namespace SourceGuards

/-- `SourceGuards::acquire`. -/
def acquire (requests : List EvidenceRequest) (selections : FactTable FactSourceSelection) :
    SourceGuards Operation Guard :=
  let reserved := requests.foldl (reserve sources selections) ⟨.empty, .empty, .empty⟩
  { registrations := reserved.registrations
    legacy := reserved.legacy.mapValues sources.acquire
    retained := reserved.captured.mapValues fun source => sources.taskGuard source.sourceId }

variable (guards : SourceGuards Operation Guard)

def registered (repo : String) : Except PinnedReadError RegisteredSource :=
  (guards.registrations.find? repo).getD (.error .unavailable)

def captured (repo : String) : Except PinnedReadError (RegisteredSource × Guard) := do
  let source ← guards.registered repo
  let guard ← (guards.retained.find? source.sourceId).getD (.error .operational)
  pure (source, guard)

def legacyText (reference : EvidenceRef) : Option String := do
  let source ← (guards.registered reference.repo).toOption
  let operation ← (guards.legacy.find? source.sourceId).bind Except.toOption
  sources.readSpan operation reference

end SourceGuards

end

/-! ### Reports and failures -/

def report (plan : TaskPlan) : SelectionReport where
  metadataLookahead := plan.requests.length
  acquisitionAttempts := 0
  suppliedEvidence := 0
  suppliedCandidates := 0
  capturedValidationBytes := 0
  limits := .standard
  omissions := []
  metadataPreselectedNotRead := plan.requests.length
  unreadTail := decide (0 < plan.unplannedCandidates)
  stopReason := .neighborhoodExhausted

structure TaskPreparationError where
  message : String
  selection : Option SelectionReport
  deriving DecidableEq

/-- A reason to stop that was given before the failure is kept. -/
def failureStop (stopReason : SelectionStopReason) (reason : String) : SelectionStopReason :=
  match stopReason with
  | .candidateLimit | .neighborhoodExhausted | .attemptLimit =>
    if reason = CHANGED ∨ reason = INVALID then .invalidSelection
    else .participatingSourceUnavailable
  | other => other

def failure (report : SelectionReport) (reason : String) : TaskPreparationError :=
  ⟨reason, some { report with stopReason := failureStop report.stopReason reason }⟩

/-- What preparation has gathered. -/
structure Acquired where
  report : SelectionReport
  selected : FactTable TaskFactSelection
  evidence : List AgentEvidence
  origins : List TaskEvidenceOrigin
  candidates : List AgentCandidate
  sourceEvidenceIds : List String

abbrev Preparing : Type → Type := Fallible Acquired TaskPreparationError

/-- Preparation goes on with a result, and fails with the report as it stands. -/
def orStop {α : Type} (r : Except String α) : Preparing α := fun st =>
  match r with
  | .ok a => (.ok a, st)
  | .error reason => (.error (failure st.report reason), st)

def stop {α : Type} (reason : String) : Preparing α := orStop (.error reason)

namespace Acquired

def stopped (stopReason : SelectionStopReason) (st : Acquired) : Acquired :=
  { st with report := { st.report with stopReason } }

def select (fact : FactKey) (entry : TaskFactSelection) (st : Acquired) : Acquired :=
  { st with selected := st.selected.put (factRank fact) entry }

def attempt (st : Acquired) : Acquired :=
  { st with report := { st.report with
      acquisitionAttempts := st.report.acquisitionAttempts + 1
      metadataPreselectedNotRead := st.report.metadataPreselectedNotRead - 1 } }

def leaveOut (omission : SelectionOmission) (st : Acquired) : Acquired :=
  { st with report := { st.report with omissions := st.report.omissions ++ [omission] } }

def charged (bytes : ℕ) (st : Acquired) : Acquired :=
  { st with report := { st.report with
      capturedValidationBytes := st.report.capturedValidationBytes + bytes } }

/-- The id of the piece of evidence that comes after so many. -/
def evidenceId (before : ℕ) : String := "E" ++ toString (before + 1)

/-- A piece of evidence is of a candidate, or else of the source. -/
def supply (request : EvidenceRequest) (reference : EvidenceRef) (text : String)
    (origin : TaskEvidenceKind) (st : Acquired) : Acquired :=
  let id := evidenceId st.evidence.length
  let candidates := st.candidates ++ (request.candidate.map fun x =>
    { x with evidenceIds := x.evidenceIds ++ [id] }).toList
  { report := { st.report with
      suppliedEvidence := st.evidence.length + 1
      suppliedCandidates := candidates.length }
    selected := st.selected
    evidence := st.evidence ++ [⟨id, reference, text⟩]
    origins := st.origins ++ [⟨id, taskFact request.fact, .provenance, 0, origin⟩]
    candidates := candidates
    sourceEvidenceIds := st.sourceEvidenceIds ++ if request.candidate.isNone then [id] else [] }

end Acquired

/-! ### The loop -/

section

variable {Operation Guard : Type} (sources : TaskSources Operation Guard)
  (guards : SourceGuards Operation Guard) (preliminary authoritative : FactTable FactSourceSelection)

/-- A fact is selected as both reads have it and as it was planned. -/
def includedFact (fact : FactKey) (digest : String) : Except String TaskFactSelection := do
  let value ← orFail (authoritative.find? (factRank fact)) INVALID
  ensure (preliminary.find? (factRank fact) = some value) CHANGED
  let entry ← selection value
  ensure (entry.factDigest = digest) CHANGED
  pure entry

/-- `include`. -/
def includeFact (fact : FactKey) (digest : String) : Preparing TaskFactSelection := do
  let entry ← orStop (includedFact preliminary authoritative fact digest)
  change (Acquired.select fact entry)
  pure entry

/-- The slot is selected before any request. -/
def includeSlot : Option (FactKey × String) → Preparing Unit
  | none => pure ()
  | some slot => do
    let _ ← includeFact preliminary authoritative slot.1 slot.2
    pure ()

/-- The bytes of a span, if it has some and no more than the limit. -/
def spanBytes (limits : SelectionLimits) (range : ReceiptRange) : Option ℕ :=
  let bytes := range.captured.byteEnd - range.captured.byteStart
  if range.captured.byteStart < range.captured.byteEnd ∧ bytes ≤ limits.spanBytes then some bytes
  else none

/-- A sum that overflows is above the limit too. -/
def chargeBytes (bytes : ℕ) : Preparing Unit := do
  let st ← state
  if st.report.capturedValidationBytes + bytes ≤ st.report.limits.capturedValidationBytes then
    change (Acquired.charged bytes)
  else do
    change (Acquired.stopped .validationByteLimit)
    stop "Captured-file validation budget exhausted."

/-- The range of a receipt for a piece of evidence, with its place. -/
def citedRange (receipt : TaskReceipt) (reference : EvidenceRef) : Option (ReceiptRange × ℕ) :=
  receipt.ranges.zipIdx.find? fun r =>
    r.1.role == .provenance && r.1.index == 0 && r.1.evidence == reference

/-- Evidence from a retained capture. -/
def capturedText (request : EvidenceRequest) (factDigest : String)
    (binding : TaskSourceAssociation) (reference : EvidenceRef) :
    Preparing (String × TaskEvidenceKind) := do
  let held ← orStop ((guards.captured binding.repoKey).mapError PinnedReadError.text)
  let receipt ← orStop ((sources.taskReceipt held.2 request.fact factDigest binding.repoKey
    binding.receiptId).mapError PinnedReadError.text)
  let found ← orStop (orFail (citedRange receipt reference) INVALID)
  let st ← state
  let bytes ← orStop (orFail (spanBytes st.report.limits found.1)
    "The original captured span exceeds the task limit.")
  chargeBytes found.1.captured.file.byteLen
  let text ← orStop ((sources.taskText held.2 receipt found.2).mapError PinnedReadError.text)
  orStop (ensure (text.utf8ByteSize = bytes) INVALID)
  pure (text, .capturedPrimarySource held.1.sourceId receipt.id (found.2 % 2 ^ 32) found.1.captured)

/-- One turn of the loop. -/
def acquireRequest (request : EvidenceRequest) (place : ℕ) : Preparing Unit := do
  change Acquired.attempt
  let entry ← includeFact preliminary authoritative request.fact request.factDigest
  match request.reference with
  | none => change (Acquired.leaveOut ⟨place, taskFact request.fact, .missingCitation⟩)
  | some reference =>
    match entry.binding with
    | some binding => do
      let read ← capturedText sources guards request entry.factDigest binding reference
      change (Acquired.supply request reference read.1 read.2)
    | none =>
      match guards.legacyText sources reference with
      | some text => change (Acquired.supply request reference text .workingTreeUnverified)
      | none => change (Acquired.leaveOut ⟨place, taskFact request.fact, .legacyReadUnavailable⟩)

/-- The loop over the requests ends early when there are enough candidates. -/
def acquireRequests : List EvidenceRequest → ℕ → Preparing Unit
  | [], _ => pure ()
  | request :: rest, place => do
    let st ← state
    if st.candidates.length = MAX_CANDIDATES then change (Acquired.stopped .candidateLimit)
    else do
      acquireRequest sources guards preliminary authoritative request place
      acquireRequests rest (place + 1)

end

/-! ### Preparation -/

def plainNode (n : Node Json.Value) : Node Json := ⟨n.id, n.label, n.props.json⟩

def plainEdge (e : Edge Json.Value) : Edge Json := ⟨e.src, e.dst, e.label, e.props.json⟩

/-- A graph as it is stored; its properties are values of `serde_json`. -/
def plain (graph : List (Node Json.Value) × List (Edge Json.Value)) :
    List (Node Json) × List (Edge Json) := (graph.1.map plainNode, graph.2.map plainEdge)

section

variable {Operation Guard : Type} (c : Codec Json) (contentHash : String → Hash)
  (sources : TaskSources Operation Guard)

/-- The facts that are read again, the slot last. -/
def requestedFacts (plan : TaskPlan) : List FactKey :=
  plan.requests.map EvidenceRequest.fact ++ (plan.slot.map Prod.fst).toList

/-- A read of the graph, whose lock may be poisoned, compared with the planned one. -/
def readAgain (graph : List (Node Json) × List (Edge Json)) (plan : TaskPlan)
    (lock : Option Store) : Preparing (FactTable FactSourceSelection) := do
  let s ← orStop (orFail lock INVALID)
  let read ← orStop ((s.readSourceSelectionSnapshot c (requestedFacts plan)).mapError
    fun _ => INVALID)
  orStop (ensure ((read.graph == graph) = true) CHANGED)
  pure (selectionTable read.selections)

def stopReason (plan : TaskPlan) (st : Acquired) : SelectionStopReason :=
  if st.candidates.length = MAX_CANDIDATES then .candidateLimit
  else if st.report.acquisitionAttempts = MAX_REQUESTS ∧ 0 < plan.unplannedCandidates then
    .attemptLimit
  else st.report.stopReason

def taskOf (plan : TaskPlan) (st : Acquired) : AgentTask where
  actionId := plan.actionId
  gapId := plan.gapId
  sourceId := plan.sourceId
  edgeLabel := plan.edgeLabel
  existingConfidence := .gap
  sourceEvidenceIds := st.sourceEvidenceIds
  evidence := st.evidence
  candidates := st.candidates

def basisOf (snapshotId : String) (st : Acquired) : TaskSourceBasisV2 where
  schemaVersion := 2
  graphSnapshotId := snapshotId
  selectedFacts := st.selected.rows.map Prod.snd
  evidence := st.origins
  selection := st.report

/-- What follows the loop. -/
def finish (graph : List (Node Json.Value) × List (Edge Json.Value)) (plan : TaskPlan) :
    Preparing (PreparedAgentTask contentHash) := do
  change fun st => st.stopped (stopReason plan st)
  let st ← state
  if st.sourceEvidenceIds = [] ∨ st.candidates = [] then do
    change (Acquired.stopped .requiredMembershipMissing)
    stop "The task has no readable source or candidate evidence."
  else do
    let id ← orStop ((ContextHub.snapshotId (fun text => (contentHash text).text) graph.1
      graph.2).mapError fun _ => INVALID)
    match h : Agents.prepare contentHash (taskOf plan st) (basisOf id st) with
    | .ok () => pure ⟨taskOf plan st, basisOf id st, h⟩
    | .error _ => do
      change (Acquired.stopped .invalidSelection)
      stop "Prepared task exceeds its bounded evidence or metadata contract."

/-- From the plan on. -/
def preparePlan (graph : List (Node Json.Value) × List (Edge Json.Value)) (plan : TaskPlan)
    (second third : Option Store) : Preparing (PreparedAgentTask contentHash) := do
  let preliminary ← readAgain c (plain graph) plan second
  let guards := SourceGuards.acquire sources plan.requests preliminary
  let authoritative ← readAgain c (plain graph) plan third
  includeSlot preliminary authoritative plan.slot
  acquireRequests sources guards preliminary authoritative plan.requests 0
  finish contentHash graph plan

/-- `prepare_from_snapshot`.  The graph was read before, and is read again from these stores. -/
def prepareFromSnapshot (graph : List (Node Json.Value) × List (Edge Json.Value))
    (gapId actionId : String) (second third : Option Store) :
    Except TaskPreparationError (PreparedAgentTask contentHash) :=
  match plan c contentHash (plain graph).1 (plain graph).2 gapId actionId with
  | .error message => .error ⟨message, none⟩
  | .ok plan =>
    (preparePlan c contentHash sources graph plan second third
      ⟨report plan, .empty, [], [], [], []⟩).1

end

end TaskEvidence

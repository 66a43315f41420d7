/-
Transitions of an investigation task (`jobs/investigations/transitions.rs` and
`start_investigation` of `jobs/investigations.rs`).

The worker that owns the execution advances a task through `advanceInvestigation`;
consent is decided, cancellation requested and owner death recorded by others.
Each transition checks its guard, changes the record and the rows of the task, and
ends with a new revision and an event.  Terminal transitions also settle the job
row.  Counters of the usage are checked for overflow by the source and then against
limits far below; both refusals are `capacity`, so one check stands for the two.
-/
import Cartograph.Jobs.Storage

namespace Jobs

open Investigation Checked

def KIND_PREFIX : String := "investigation-v1:"

inductive InvestigationStopReason
  | cancelled | preparationFailed | inputChanged | sourceUnavailable | invalidResponse
  | limitExceeded | providerFailure | outcomeUnknown | consentExpired | consentDeclined | operational
  deriving DecidableEq

def InvestigationStopReason.message : InvestigationStopReason → String
  | .cancelled => "Cancellation requested; no further work was started."
  | .preparationFailed => "Investigation input preparation failed."
  | .inputChanged => "The selected graph or source binding changed."
  | .sourceUnavailable => "Selected source evidence is unavailable."
  | .invalidResponse => "The completed provider response was not an admissible action."
  | .limitExceeded => "An investigation work or storage limit was reached."
  | .providerFailure => "The provider call failed without a usable response."
  | .outcomeUnknown => "A dispatched provider call has no durable admitted outcome."
  | .consentExpired => "The exact step consent wait expired."
  | .consentDeclined => "The exact cloud step was declined; no fallback was authorized."
  | .operational => "An investigation operation failed; no additional work was started."

inductive InvestigationTransition
  | inputPrepared (ledger : InvestigationInputLedger) (usage : InvestigationUsage)
  | inputAdmitted (ledger : InvestigationInputLedger) (usage : InvestigationUsage)
  | awaitConsent (step : PendingInvestigationStep)
  | beginInvocation (step : PendingInvestigationStep)
  | actionAdmitted (response : InvestigationResponseMeta) (tool : Option InvestigationTool)
      (result : Option InvestigationResult)
  | beginTool (tool : InvestigationTool)
  | chargeEvidence (validationBytes : ℕ)
  | stopWithElapsed (reason : InvestigationStopReason) (activeMilliseconds : UInt64)

def InvestigationTransition.lateFinish : InvestigationTransition → Bool
  | .actionAdmitted _ _ (some _) => true
  | _ => false

def InvestigationTransition.stopping : InvestigationTransition → Bool
  | .stopWithElapsed _ _ => true
  | _ => false

/-! ### Guards -/

def availableTime (t : StoredTask) : Except InvestigationStoreError Unit :=
  ensure (t.detail.usage.activeMilliseconds.toNat < t.detail.limits.activeSeconds * 1000) .capacity

def checkReady (t : StoredTask) (step : PendingInvestigationStep) :
    Except InvestigationStoreError Unit := do
  validateStep step
  ensure (t.phase = .ready ∧ t.ledgerHash = some step.inputLedgerHash) .stale
  availableTime t

def checkIdentity (t : StoredTask) (x : JobExecution) : Except InvestigationStoreError Unit :=
  ensure (t.execution = some ⟨x.ns.value.text, x.id, x.generation, x.owner.text⟩) .ownership

/-- The job row the worker still has to hold; a stop or a late result may also find
it cancelled or cleared. -/
def Store.holdsJob (s : Store) (x : JobExecution) (allowCancelledOrMissing : Bool) : Bool :=
  match s.jobs.find? x.id with
  | none => allowCancelledOrMissing
  | some row => (s.attempts.find? x.id).any x.attempted
      && (row.status == .running || (allowCancelledOrMissing && row.status == .cancelled))

def Store.checkJob (s : Store) (x : JobExecution) (allowCancelledOrMissing : Bool) :
    Except InvestigationStoreError Unit :=
  ensure (s.holdsJob x allowCancelledOrMissing = true) .ownership

/-- Reported totals are known only while every response reported one. -/
def addReported (previous current : Option UInt64) (first : Bool) :
    Except InvestigationStoreError (Option UInt64) :=
  if first then pure current
  else match previous, current with
    | some previous, some current => do
      ensure (previous.toNat + current.toNat < 2 ^ 64) .capacity
      pure (some (previous + current))
    | _, _ => pure none

/-! ### Reading bodies back -/

/-- `read_body`. -/
def readBody {α : Type} (toJson : α → Json) (body : Option α) :
    Except InvestigationStoreError (Option α) := do
  ensure (body.all fun value => decodable (toJson value)) .invalid
  pure body

def loadLedger (env : Env) (d : Draft) :
    Except InvestigationStoreError (Option InvestigationInputLedger) :=
  match d.task.ledgerRevision with
  | none => pure none
  | some revision => do
    signed revision
    let body ← readBody InvestigationInputLedger.toJson (d.rows.inputs.find? revision)
    let ledger ← orFail body .invalid
    admitted ledger.validate
    let fingerprint ← admitted (ledger.fingerprint env)
    ensure (d.task.ledgerHash = some fingerprint ∧ ledger.revision = revision
      ∧ d.task.detail.summary.graphSnapshotId = some ledger.graphSnapshotId
      ∧ d.task.detail.scopeSnapshotId = some ledger.scopeSnapshotId
      ∧ ledger.citations = d.task.detail.citations) .invalid
    pure (some ledger)

/-! ### The end of a task -/

/-- `sync_terminal_job`: the status a terminal task leaves its job in. -/
def terminalJobStatus (t : StoredTask) : JobStatus :=
  if t.detail.summary.cancelRequested then .cancelled
  else match t.detail.summary.status with
    | .completed => .done
    | .interrupted | .outcomeUnknown => .interrupted
    | _ => .failed

def JobRow.settled (t : StoredTask) (row : JobRow) : JobRow :=
  { row with
    status := terminalJobStatus t
    progress := if terminalJobStatus t = .done then some 100 else row.progress
    error := t.detail.error }

def syncTerminalJob (d : Draft) : Draft :=
  { d with jobs := updateJob d.jobs d.task.detail.summary.jobId (fun row => row.status.open)
                     (JobRow.settled d.task) }

/-- A measured total does not survive an invocation without a report. -/
def clearUnmeasuredUsage (usage : InvestigationUsage) : InvestigationUsage :=
  { usage with reportedInputTokens := none, reportedOutputTokens := none }

/-- The record of a task that ended without an answer. -/
def ended (t : StoredTask) (status : InvestigationStatus) (cancelRequested : Bool)
    (error : String) : StoredTask :=
  { t with
    phase := .terminal
    pending := none
    approved := false
    actionTool := none
    detail := { t.detail with
      usage := if t.phase = .invocation then clearUnmeasuredUsage t.detail.usage else t.detail.usage
      error := some error
      summary := { t.detail.summary with status := status, cancelRequested := cancelRequested } } }

def stop (clock : Clock) (d : Draft) (reason : InvestigationStopReason) :
    Except InvestigationStoreError Draft := do
  ensure (reason = .outcomeUnknown → d.task.phase = .invocation) .stale
  let cancelled := d.task.detail.summary.cancelRequested || reason == .cancelled
    || reason == .consentDeclined
  let unknown := reason == .outcomeUnknown
  let t := ended d.task
    (if unknown then .outcomeUnknown else if cancelled then .cancelled else .failed)
    cancelled reason.message
  let d ← note clock { d with task := t }
    (if unknown then .outcomeUnknown else if reason = .consentDeclined then .consentDeclined
      else if cancelled then .cancelled else .failed) none none reason.message
  pure (syncTerminalJob d)

/-! ### Cancellation -/

def cancelRequested (t : StoredTask) : StoredTask :=
  { t with
    phase := if t.phase = .queued then .terminal else t.phase
    detail := { t.detail with summary := { t.detail.summary with
      cancelRequested := true
      status := if t.phase = .queued then .cancelled else t.detail.summary.status } } }

def JobRow.cancelled (row : JobRow) : JobRow := { row with status := .cancelled }

def cancelOpenJob (d : Draft) : Draft :=
  { d with jobs := updateJob d.jobs d.task.detail.summary.jobId (fun row => row.status.open)
                     JobRow.cancelled }

def requestCancel (clock : Clock) (d : Draft) : Except InvestigationStoreError Draft := do
  let d ← note clock { d with task := cancelRequested d.task } .cancelRequested none none
    "Cancellation requested; outstanding provider work retains its execution lease."
  pure (cancelOpenJob d)

/-! ### Input admission -/

/-- Only selection and evidence counters may move, forward, and as the ledger says. -/
def usageContinues (prior usage : InvestigationUsage) (ledger : InvestigationInputLedger) : Prop :=
  usage.modelInvocations = prior.modelInvocations ∧ usage.toolActions = prior.toolActions
    ∧ usage.evidenceRequests = prior.evidenceRequests
    ∧ usage.capturedValidationBytes = prior.capturedValidationBytes
    ∧ usage.generatedTokenReservations = prior.generatedTokenReservations
    ∧ usage.reportedInputTokens = prior.reportedInputTokens
    ∧ usage.reportedOutputTokens = prior.reportedOutputTokens
    ∧ prior.activeMilliseconds ≤ usage.activeMilliseconds
    ∧ prior.selectedFacts ≤ usage.selectedFacts ∧ prior.evidenceItems ≤ usage.evidenceItems
    ∧ prior.evidenceBytes ≤ usage.evidenceBytes
    ∧ usage.selectedFacts = ledger.selectedFacts.length

instance (prior usage : InvestigationUsage) (ledger : InvestigationInputLedger) :
    Decidable (usageContinues prior usage ledger) := by
  unfold usageContinues
  infer_instance

/-- The evidence counters are those of the ledger's citations. -/
def evidenceCounted (usage : InvestigationUsage) (ledger : InvestigationInputLedger) : Prop :=
  (∀ c ∈ ledger.evidence, c.source.isSome) ∧ usage.evidenceItems = ledger.evidence.length
    ∧ usage.evidenceBytes = (ledger.evidence.map (·.sourceBytes)).sum
    ∧ (ledger.evidence.map (·.origin.capturedBytes)).sum ≤ usage.capturedValidationBytes

instance (usage : InvestigationUsage) (ledger : InvestigationInputLedger) :
    Decidable (evidenceCounted usage ledger) := by
  unfold evidenceCounted
  infer_instance

/-- A later ledger keeps the basis of the earlier one and only adds to it. -/
def ledgerExtends (previous ledger : InvestigationInputLedger) : Prop :=
  previous.revision < ledger.revision ∧ ledger.graphSnapshotId = previous.graphSnapshotId
    ∧ ledger.scopeSnapshotId = previous.scopeSnapshotId
    ∧ ledger.suppliedHistoryHash = previous.suppliedHistoryHash
    ∧ ledger.suppliedHistoryBytes = previous.suppliedHistoryBytes
    ∧ (∀ fact ∈ previous.selectedFacts, fact ∈ ledger.selectedFacts)
    ∧ (∀ citation ∈ previous.citations, citation ∈ ledger.citations)
    ∧ previous.queries.isPrefixOf ledger.queries
    ∧ ∀ reference ∈ previous.receiptReferences, reference ∈ ledger.receiptReferences

instance (previous ledger : InvestigationInputLedger) :
    Decidable (ledgerExtends previous ledger) := by
  unfold ledgerExtends
  infer_instance

/-- Index the references that are not there yet under this revision. -/
def addRefs (revision : ℕ) : List (InvestigationReceiptReference × ℕ) →
    List InvestigationReceiptReference → List (InvestigationReceiptReference × ℕ)
  | refs, [] => refs
  | refs, r :: rest =>
    addRefs revision (if r ∈ refs.map Prod.fst then refs else refs ++ [(r, revision)]) rest

/-- The record with a new input. -/
def inputTaken (t : StoredTask) (ledger : InvestigationInputLedger) (fingerprint : String)
    (usage : InvestigationUsage) : StoredTask :=
  { t with
    ledgerRevision := some ledger.revision
    ledgerHash := some fingerprint
    actionTool := none
    phase := .ready
    detail := { t.detail with
      scopeSnapshotId := some ledger.scopeSnapshotId
      citations := ledger.citations
      usage := usage
      summary := { t.detail.summary with
        graphSnapshotId := some ledger.graphSnapshotId, status := .running } } }

def Rows.withInput (rows : Rows) (ledger : InvestigationInputLedger) : Rows :=
  { rows with inputs := rows.inputs.put ledger.revision ledger
              refs := addRefs ledger.revision rows.refs ledger.receiptReferences }

def admitInput (env : Env) (clock : Clock) (d : Draft) (ledger : InvestigationInputLedger)
    (usage : InvestigationUsage) (first : Bool) : Except InvestigationStoreError Draft := do
  admitted ledger.validate
  validateUsage usage d.task.detail.limits
  ensure (usageContinues d.task.detail.usage usage ledger) .invalid
  ensure (evidenceCounted usage ledger) .invalid
  let previous ← loadLedger env d
  ensure (∀ p ∈ previous, ledgerExtends p ledger) .conflict
  signed ledger.revision
  encode ledger.toJson MAX_MANIFEST_BYTES
  ensure (d.rows.inputs.find? ledger.revision = none) .storage
  let fingerprint ← admitted (ledger.fingerprint env)
  note clock { d with task := inputTaken d.task ledger fingerprint usage
                      rows := d.rows.withInput ledger }
    (if first then .contextPrepared else .toolCompleted) none d.task.actionTool
    (if first then "Frozen context and original input metadata committed."
      else "Tool input and its actual receipt references committed before lease release.")

/-! ### Consent, invocation and tools -/

def awaiting (t : StoredTask) (step : PendingInvestigationStep) : StoredTask :=
  { t with
    phase := .consent
    pending := some step
    approved := false
    detail := { t.detail with
      summary := { t.detail.summary with status := .awaitingConsent } } }

def awaitConsent (clock : Clock) (d : Draft) (step : PendingInvestigationStep) :
    Except InvestigationStoreError Draft := do
  checkReady d.task step
  ensure (d.task.detail.provider.mode = .cloud) .invalid
  note clock { d with task := awaiting d.task step } .consentRequired (some step.stepId) none
    "Exact step consent is required; no provider call has started."

def invocationUsage (usage : InvestigationUsage) (step : PendingInvestigationStep) :
    InvestigationUsage :=
  { usage with
    modelInvocations := usage.modelInvocations + 1
    generatedTokenReservations := usage.generatedTokenReservations + step.generatedTokens }

def invoking (t : StoredTask) (step : PendingInvestigationStep) : StoredTask :=
  { t with
    phase := .invocation
    pending := some step
    approved := false
    detail := { t.detail with
      usage := invocationUsage t.detail.usage step
      summary := { t.detail.summary with status := .running } } }

/-- A local step starts from `ready`, a cloud step from its own approved consent. -/
def mayInvoke (t : StoredTask) (step : PendingInvestigationStep) :
    Except InvestigationStoreError Unit :=
  match t.detail.provider.mode with
  | .localMode => checkReady t step
  | .cloud => ensure (t.phase = .consent ∧ t.approved ∧ t.pending = some step) .stale

def beginInvocation (clock : Clock) (d : Draft) (step : PendingInvestigationStep) :
    Except InvestigationStoreError Draft := do
  validateStep step
  ensure (d.task.ledgerHash = some step.inputLedgerHash) .conflict
  mayInvoke d.task step
  availableTime d.task
  validateUsage (invocationUsage d.task.detail.usage step) d.task.detail.limits
  let invoked ← readBody PendingInvestigationStep.toJson (d.rows.invocations.find? step.stepId)
  ensure (invoked = none) .conflict
  encode step.toJson 4096
  note clock { d with task := invoking d.task step
                      rows := { d.rows with
                        invocations := d.rows.invocations.put step.stepId step } }
    .modelStarted (some step.stepId) none
    "Invocation boundary committed; the provider outcome is pending."

def responseUsage (usage : InvestigationUsage) (response : InvestigationResponseMeta) :
    Except InvestigationStoreError InvestigationUsage := do
  let input ← addReported usage.reportedInputTokens response.reportedInputTokens
    (usage.modelInvocations == 1)
  let output ← addReported usage.reportedOutputTokens response.reportedOutputTokens
    (usage.modelInvocations == 1)
  pure { usage with reportedInputTokens := input, reportedOutputTokens := output
                    activeMilliseconds := response.activeMilliseconds }

def responseValid (env : Env) (t : StoredTask) (pending : PendingInvestigationStep)
    (response : InvestigationResponseMeta) : Prop :=
  response.stepId = pending.stepId ∧ hashValid response.responseHash
    ∧ hashValid response.actionHash
    ∧ t.detail.usage.activeMilliseconds ≤ response.activeMilliseconds
    ∧ ∀ model ∈ response.observedModel, model ≠ "" ∧ model.utf8ByteSize ≤ 256
        ∧ unredacted env model 256

instance (env : Env) (t : StoredTask) (pending : PendingInvestigationStep)
    (response : InvestigationResponseMeta) : Decidable (responseValid env t pending response) := by
  unfold responseValid
  infer_instance

/-- The record after a response: done with a result, or about to use a tool. -/
def responded (t : StoredTask) (usage : InvestigationUsage) (tool : Option InvestigationTool)
    (finished : Bool) : StoredTask :=
  { t with
    phase := if finished then .terminal else .action
    pending := none
    approved := false
    actionTool := tool
    detail := { t.detail with
      usage := usage
      summary := { t.detail.summary with
        status := if finished then .completed else t.detail.summary.status
        hasResult := finished || t.detail.summary.hasResult } } }

def Rows.withResponse (rows : Rows) (response : InvestigationResponseMeta)
    (result : Option InvestigationResult) : Rows :=
  { rows with responses := rows.responses.put response.stepId response
              result := match result with
                | some r => some r
                | none => rows.result }

/-- A result has to be admissible against the stored ledger, and to be the first. -/
def checkResult (env : Env) (d : Draft) (response : InvestigationResponseMeta) :
    Option InvestigationResult → Except InvestigationStoreError Unit
  | none => pure ()
  | some result => do
    let loaded ← loadLedger env d
    let ledger ← orFail loaded .invalid
    admitted (result.validate env ledger)
    ensure (result.investigationId = d.task.detail.summary.investigationId
      ∧ result.observedResponseModel = response.observedModel) .invalid
    encode result.toJson MAX_RESULT_BYTES
    ensure (d.rows.result = none) .storage

def actionAdmitted (env : Env) (clock : Clock) (d : Draft) (response : InvestigationResponseMeta)
    (tool : Option InvestigationTool) (result : Option InvestigationResult) :
    Except InvestigationStoreError Draft := do
  ensure (d.task.phase = .invocation ∧ tool.isSome ≠ result.isSome) .stale
  let pending ← orFail d.task.pending .invalid
  ensure (responseValid env d.task pending response) .invalid
  let body ← readBody PendingInvestigationStep.toJson (d.rows.invocations.find? response.stepId)
  let invoked ← orFail body .invalid
  ensure (invoked = pending) .invalid
  let usage ← responseUsage d.task.detail.usage response
  validateUsage usage d.task.detail.limits
  checkResult env d response result
  encode response.toJson 4096
  ensure (d.rows.responses.find? response.stepId = none) .storage
  let d ← note clock { d with task := responded d.task usage tool result.isSome
                              rows := d.rows.withResponse response result }
    .modelCompleted (some response.stepId) tool
    "A complete provider response was admitted and its identity persisted."
  let d ← event (clock 2) d
    (if result.isSome then .resultPersisted else .actionAdmitted) (some response.stepId) tool
    (if result.isSome then "Cited findings were persisted against the original input ledger."
      else "A bounded tool action was admitted; its tool has not started.")
  pure (if result.isSome then syncTerminalJob d else d)

def toolUsage (usage : InvestigationUsage) (tool : InvestigationTool) : InvestigationUsage :=
  { usage with
    toolActions := usage.toolActions + 1
    evidenceRequests := if tool = .readEvidence then usage.evidenceRequests + 1
      else usage.evidenceRequests }

def toolStarted (t : StoredTask) (tool : InvestigationTool) : StoredTask :=
  { t with phase := .tool, detail := { t.detail with usage := toolUsage t.detail.usage tool } }

def beginTool (clock : Clock) (d : Draft) (tool : InvestigationTool) :
    Except InvestigationStoreError Draft := do
  ensure (d.task.phase = .action ∧ d.task.actionTool = some tool) .stale
  availableTime d.task
  validateUsage (toolUsage d.task.detail.usage tool) d.task.detail.limits
  note clock { d with task := toolStarted d.task tool } .toolStarted none (some tool)
    "Tool attempt budget reserved before execution."

def charged (t : StoredTask) (validationBytes : ℕ) : StoredTask :=
  { t with detail := { t.detail with usage := { t.detail.usage with
      capturedValidationBytes := t.detail.usage.capturedValidationBytes + validationBytes } } }

def chargeEvidence (clock : Clock) (d : Draft) (validationBytes : ℕ) :
    Except InvestigationStoreError Draft := do
  ensure (d.task.phase = .tool ∧ d.task.actionTool = some .readEvidence ∧ validationBytes ≠ 0
    ∧ validationBytes ≤ 16 * 1024 * 1024) .stale
  availableTime d.task
  validateUsage (charged d.task validationBytes).detail.usage d.task.detail.limits
  note clock { d with task := charged d.task validationBytes } .evidenceValidationReserved none
    (some .readEvidence) "Full captured file validation bytes reserved before reading."

def elapsed (t : StoredTask) (activeMilliseconds : UInt64) : StoredTask :=
  { t with detail := { t.detail with usage := { t.detail.usage with
      activeMilliseconds := activeMilliseconds } } }

def stopWithElapsed (clock : Clock) (d : Draft) (reason : InvestigationStopReason)
    (activeMilliseconds : UInt64) : Except InvestigationStoreError Draft := do
  ensure (d.task.detail.usage.activeMilliseconds ≤ activeMilliseconds) .invalid
  stop clock { d with task := elapsed d.task activeMilliseconds } reason

def InvestigationTransition.apply (env : Env) (clock : Clock) (d : Draft) :
    InvestigationTransition → Except InvestigationStoreError Draft
  | .inputPrepared ledger usage => do
    ensure (d.task.phase = .preparing ∧ d.task.ledgerRevision = none) .stale
    ensure (∀ expected ∈ d.task.expectedGraphRevision, expected = ledger.graphSnapshotId) .conflict
    admitInput env clock d ledger usage true
  | .inputAdmitted ledger usage => do
    ensure (d.task.phase = .tool) .stale
    admitInput env clock d ledger usage false
  | .awaitConsent step => Jobs.awaitConsent clock d step
  | .beginInvocation step => Jobs.beginInvocation clock d step
  | .actionAdmitted response tool result => Jobs.actionAdmitted env clock d response tool result
  | .beginTool tool => Jobs.beginTool clock d tool
  | .chargeEvidence validationBytes => Jobs.chargeEvidence clock d validationBytes
  | .stopWithElapsed reason activeMilliseconds => Jobs.stopWithElapsed clock d reason activeMilliseconds

/-! ### Operations of the coordinator -/

/-- The draft of a loaded row. -/
def TaskRow.draft (row : TaskRow) (jobs : Table ℕ JobRow) : Draft := ⟨row.record, row.rows, jobs⟩

def Store.advanceInvestigation (env : Env) (clock : Clock) (x : JobExecution)
    (expectedRevision : ℕ) (transition : InvestigationTransition) (s : Store) :
    Except InvestigationStoreError (InvestigationDetail × Store) := do
  ensure (x.verified = true) .ownership
  ensure (x.ns = s.ns) .ownership
  let id ← orFail (s.taskIdForJob x.id) .missing
  let row ← s.loadTask env id
  checkIdentity row.record x
  ensure (row.record.detail.summary.revision = expectedRevision) .stale
  s.checkJob x (transition.lateFinish || transition.stopping)
  ensure (row.record.phase ≠ .terminal) .stale
  ensure (row.record.detail.summary.cancelRequested = true →
    (transition.lateFinish || transition.stopping) = true) .cancelled
  let d ← transition.apply env clock (row.draft s.jobs)
  let s ← s.saveTask env d expectedRevision (d.task.phase == .terminal)
  pure (d.task.detail, s)

def consented (t : StoredTask) : StoredTask := { t with approved := true }

def declining (t : StoredTask) : StoredTask :=
  { t with detail := { t.detail with
      summary := { t.detail.summary with cancelRequested := true } } }

def decided (clock : Clock) (d : Draft) (stepId : String) (approved : Bool) :
    Except InvestigationStoreError Draft :=
  if approved then
    note clock { d with task := consented d.task } .consentApproved (some stepId) none
      "Exact step approved; authorization will be consumed at invocation start."
  else stop clock { d with task := declining d.task } .consentDeclined

def Store.consentDecision (env : Env) (clock : Clock) (id : String) (revision : ℕ)
    (stepId payloadHash : String) (approved : Bool) (s : Store) :
    Except InvestigationStoreError (InvestigationDetail × Store) := do
  let row ← s.loadTask env id
  ensure (row.record.detail.summary.revision = revision ∧ row.record.phase = .consent
    ∧ row.record.approved = false
    ∧ row.record.pending.any (fun step => step.stepId == stepId
      && step.payloadHash == payloadHash)) .stale
  ensure (row.record.detail.summary.cancelRequested = false) .cancelled
  let d ← decided clock (row.draft s.jobs) stepId approved
  let s ← s.saveTask env d revision (d.task.phase == .terminal)
  pure (d.task.detail, s)

def Store.approveInvestigation (env : Env) (clock : Clock) (id : String) (revision : ℕ)
    (stepId payloadHash : String) (s : Store) :
    Except InvestigationStoreError (InvestigationDetail × Store) :=
  s.consentDecision env clock id revision stepId payloadHash true

def Store.declineInvestigation (env : Env) (clock : Clock) (id : String) (revision : ℕ)
    (stepId payloadHash : String) (s : Store) :
    Except InvestigationStoreError (InvestigationDetail × Store) :=
  s.consentDecision env clock id revision stepId payloadHash false

/-- Cancel a live task once; `cancel_investigation` and `cancel_for_job` share it. -/
def Store.cancelTask (env : Env) (clock : Clock) (id : String) (s : Store) :
    Except InvestigationStoreError (InvestigationDetail × Store) := do
  let row ← s.loadTask env id
  if row.record.phase ≠ .terminal ∧ row.record.detail.summary.cancelRequested = false then do
    let d ← requestCancel clock (row.draft s.jobs)
    let s ← s.saveTask env d row.record.detail.summary.revision true
    pure (d.task.detail, s)
  else pure (row.record.detail, s)

def Store.cancelInvestigation (env : Env) (clock : Clock) (id : String) (s : Store) :
    Except InvestigationStoreError (InvestigationDetail × Store) :=
  s.cancelTask env clock id

/-- A copied recovery identity, possibly out of date. -/
structure InvestigationRecoveryCandidate where
  id : String
  revision : ℕ
  identity : Option StoredExecution
  target : JobLockTarget

/-- `investigation_recovery_candidates`: the live tasks that have recorded an owner. -/
def Store.investigationRecoveryCandidates (env : Env) (s : Store) :
    Except InvestigationStoreError (List InvestigationRecoveryCandidate) := do
  let live := (s.tasks.rows.filter fun r => r.2.live).mergeSort fun a b =>
    decide (a.2.ordinal ≤ b.2.ordinal)
  ensure (live.length ≤ MAX_LIVE_TASKS) .invalid
  let rows ← live.mapM fun r => s.loadTask env r.1
  pure ((rows.filter fun row => row.record.execution.isSome).map fun row =>
    { id := row.record.detail.summary.investigationId
      revision := row.record.detail.summary.revision
      identity := row.record.execution
      target := ⟨s.ns, row.record.detail.summary.jobId, true⟩ })

def recoverStatus (t : StoredTask) : InvestigationStatus :=
  if t.phase == .invocation then .outcomeUnknown else .interrupted

def recoverKind (t : StoredTask) : InvestigationEventKind :=
  if t.phase == .invocation then .outcomeUnknown else .interrupted

def recoverError (t : StoredTask) : String :=
  if t.phase == .invocation then
    "A started invocation has no durable admitted outcome; it was not replayed."
  else "The execution owner stopped and its transient input was lost; work was not resumed."

def recoverSummary (t : StoredTask) : String :=
  if t.phase == .invocation then
    "Owner death confirmed; the started invocation outcome is unknown."
  else "Owner death confirmed; transient preparation was interrupted."

def recoverDraft (clock : Clock) (d : Draft) : Except InvestigationStoreError Draft := do
  let d ← note clock
    { d with task := ended d.task (recoverStatus d.task) d.task.detail.summary.cancelRequested
                       (recoverError d.task) }
    (recoverKind d.task) none none (recoverSummary d.task)
  pure (syncTerminalJob d)

def Store.recoverInvestigation (env : Env) (clock : Clock)
    (candidate : InvestigationRecoveryCandidate) (reservation : ExecutionReservation) (s : Store) :
    Except InvestigationStoreError (Option InvestigationDetail × Store) := do
  ensure (reservation.verified = true) .ownership
  ensure (reservation.target.ns = s.ns ∧ reservation.target.id = candidate.target.id
    ∧ reservation.target.existing = candidate.target.existing
    ∧ candidate.target.ns = s.ns) .ownership
  let row ← s.loadTask env candidate.id
  if row.record.phase = .terminal ∨ row.record.detail.summary.revision ≠ candidate.revision
      ∨ row.record.execution ≠ candidate.identity then pure (none, s)
  else do
    let d ← recoverDraft clock (row.draft s.jobs)
    let s ← s.saveTask env d row.record.detail.summary.revision true
    pure (some d.task.detail, s)

/-! ### Hooks of the job operations -/

def attached (t : StoredTask) (identity : StoredExecution) : StoredTask :=
  { t with
    execution := some identity
    phase := .preparing
    detail := { t.detail with summary := { t.detail.summary with status := .preparing } } }

/-- The task of a job is attached when the job is first claimed. -/
def Store.attachExecution (env : Env) (clock : Clock) (jobId : ℕ) (kind : String)
    (generation : ℕ) (owner : Token) (s : Store) : Except InvestigationStoreError Store :=
  match s.taskIdForJob jobId with
  | none => do
    ensure (leads KIND_PREFIX kind = false) .invalid
    pure s
  | some id => do
    ensure (kind = KIND_PREFIX ++ id) .invalid
    let row ← s.loadTask env id
    ensure (row.record.phase = .queued ∧ row.record.execution = none
      ∧ row.record.detail.summary.cancelRequested = false ∧ generation = 1) .stale
    let d ← note clock
      ⟨attached row.record ⟨s.ns.value.text, jobId, generation, owner.text⟩, row.rows, s.jobs⟩
      .preparationStarted none none
      "Execution ownership attached atomically; preparation started."
    s.saveTask env d row.record.detail.summary.revision false

/-- The task of a job is cancelled with the job. -/
def Store.cancelForJob (env : Env) (clock : Clock) (jobId : ℕ) (s : Store) :
    Except InvestigationStoreError Store :=
  match s.taskIdForJob jobId with
  | none => pure s
  | some id => do
    let (_, s) ← s.cancelTask env clock id
    pure s

/-! ### Start -/

/-- The summary of a new task. -/
def createdSummary (request : StartInvestigationRequest) (id conversationId question : String)
    (jobId : ℕ) (now : Timestamp) : InvestigationSummary where
  schemaVersion := 1
  investigationId := id
  conversationId := conversationId
  parentId := request.parentId
  jobId := jobId
  specialistId := request.specialistId
  question := question
  scope := request.scope
  providerMode := request.providerMode
  status := .queued
  revision := 0
  cancelRequested := false
  invocationPending := false
  actions := { canCancel := true, canFollowUp := true }
  graphSnapshotId := none
  lastEventSequence := 0
  hasResult := false
  createdAt := now.text
  updatedAt := now.text

/-- The record of a new task. -/
def created (env : Env) (s : Store) (request : StartInvestigationRequest)
    (provider : InvestigationProvider) (intentHash id conversationId question : String)
    (jobId : ℕ) (now : Timestamp) : StoredTask where
  schemaVersion := 1
  nonce := request.requestNonce
  intentHash := intentHash
  expectedGraphRevision := request.expectedGraphRevision
  detail := {
    summary := createdSummary request id conversationId question jobId now
    contextOwner := s.ns.value.text
    specialist := request.specialistId.definition env
    provider := provider
    scopeSnapshotId := none
    limits := {}
    usage := {}
    citations := []
    error := none }
  phase := .queued
  execution := none
  ledgerHash := none
  ledgerRevision := none
  pending := none
  approved := false
  actionTool := none

/-- `INSERT INTO investigation_tasks` under its three unique columns. -/
def Store.insertTask (env : Env) (s : Store) (t : StoredTask) :
    Except InvestigationStoreError Store := do
  validateTask env t
  encode t.toJson MAX_RECORD_BYTES
  signed t.detail.summary.revision
  ensure (s.tasks.find? t.detail.summary.investigationId = none
    ∧ (∀ r ∈ s.tasks.rows, r.2.nonce ≠ t.nonce ∧ r.2.jobId ≠ t.detail.summary.jobId)
    ∧ s.taskSeq < MAX_ROWID) .storage
  pure { s with
    taskSeq := s.taskSeq + 1
    tasks := s.tasks.put t.detail.summary.investigationId
      { ordinal := s.taskSeq + 1
        nonce := t.nonce
        conversationId := t.detail.summary.conversationId
        jobId := t.detail.summary.jobId
        revision := t.detail.summary.revision
        live := decide (t.phase ≠ .terminal)
        record := t
        rows := .empty } }

/-- A job row and its unclaimed attempt, under a fresh id. -/
def Store.insertJob {ε : Type} (full : ε) (kind : String) (s : Store) : Except ε (ℕ × Store) := do
  ensure (s.jobSeq < MAX_ROWID) full
  pure (s.jobSeq + 1, { s with
    jobs := s.jobs.put (s.jobSeq + 1) { kind := kind }
    jobSeq := s.jobSeq + 1
    attempts := s.attempts.put (s.jobSeq + 1) .unclaimed })

/-- The conversation a start continues, or the one it opens. -/
def Store.conversationFor (s : Store) (request : StartInvestigationRequest) (fresh : Token) :
    Except InvestigationStoreError String :=
  match request.conversationId with
  | some id => do
    ensure ((s.conversations.find? id).isSome) .missing
    pure id
  | none => pure ("conversation:" ++ fresh.text)

def Store.insertConversation (s : Store) (request : StartInvestigationRequest) (id : String)
    (now : Timestamp) : Except InvestigationStoreError Store :=
  if request.conversationId = none then do
    ensure (s.conversations.find? id = none) .storage
    pure { s with conversations := s.conversations.put id now.text }
  else pure s

def checkParent (env : Env) (s : Store) (request : StartInvestigationRequest)
    (conversationId : String) : Except InvestigationStoreError Unit :=
  match request.parentId with
  | some parent => do
    let row ← s.loadTask env parent
    ensure (row.record.detail.summary.conversationId = conversationId) .invalid
  | none => pure ()

/-- Create the job, the task and its first event. -/
def Store.createTask (env : Env) (clock : Clock) (request : StartInvestigationRequest)
    (provider : InvestigationProvider) (intentHash : String) (conversation investigation : Token)
    (s : Store) : Except InvestigationStoreError (InvestigationDetail × Store) := do
  validateProvider env provider
  s.checkStartCapacity (request.conversationId == none)
  let conversationId ← s.conversationFor request conversation
  checkParent env s request conversationId
  let id := "investigation:" ++ investigation.text
  let s ← s.insertConversation request conversationId (clock 0)
  let (jobId, s) ← s.insertJob .storage (KIND_PREFIX ++ id)
  let question ← admitted (redactedHistoryText env request.question MAX_QUESTION_BYTES)
  let t := created env s request provider intentHash id conversationId question jobId (clock 0)
  let s ← s.insertTask env t
  let d ← event (clock 1) ⟨t, .empty, s.jobs⟩ .created none none "Investigation created."
  let s ← s.saveTask env d 0 true
  let row ← orFail (s.tasks.find? id) .storage
  checkTaskCapacity row id false
  pure (d.task.detail, s)

structure InvestigationStart where
  detail : InvestigationDetail
  created : Bool

/-- The provider, if it is available and the one the request asks for. -/
def selectedProvider (request : StartInvestigationRequest)
    (provider : Option InvestigationProvider) : Option InvestigationProvider :=
  provider.filter fun p => p.available && p.mode == request.providerMode

/-- The task of a nonce answers a repeated request; only a new one needs a provider
and capacity. -/
def Store.startInvestigation (env : Env) (clock : Clock) (request : StartInvestigationRequest)
    (provider : Option InvestigationProvider) (conversation investigation : Token) (s : Store) :
    Except InvestigationStoreError (InvestigationStart × Store) := do
  admitted request.validate
  let intentHash ← admitted (request.intentHash env)
  match s.tasks.rows.find? fun r => r.2.nonce == request.requestNonce with
  | some prior => do
    let row ← s.loadTask env prior.1
    ensure (row.record.intentHash = intentHash) .conflict
    pure (⟨row.record.detail, false⟩, s)
  | none => do
    let provider ← orFail (selectedProvider request provider) .unavailable
    let (detail, s) ← s.createTask env clock request provider intentHash conversation
      investigation
    pure (⟨detail, true⟩, s)

end Jobs

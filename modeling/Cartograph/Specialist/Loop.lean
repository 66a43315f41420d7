/-
The bounded specialist loop of an investigation (`src-tauri/src/investigations/worker.rs`,
with `descriptor` of `runtime.rs`).

`run` executes the loop and then stops the task for the reason of its failure.  Between any
two transactions of the worker the others may act on the store (`Jobs.Others`).  What comes
from outside is arbitrary, within what the source says about its failures: the clock, the
mutexes, the frozen context and its tools, the provider, the admission of its answers.

The transaction of a call is the one of the store, so a storage failure is not among its
answers.  In-memory previews and notifications are left out; clearing a preview takes a
mutex, which may fail.
-/
import Cartograph.Jobs.Stopping
import Cartograph.Lib.Interference

namespace Specialist

open Jobs Investigation Comp

/-! ### Failures -/

inductive HostError
  | inputChanged | sourceUnavailable | invalidInput | limitExceeded | operational
  deriving DecidableEq

/-- `From<InvestigationError> for HostError`. -/
def HostError.ofInvestigation : InvestigationError → HostError
  | .limitExceeded => .limitExceeded
  | _ => .invalidInput

/-- `attemptsExhausted` is the `Stop(OutcomeUnknown)` that follows the loop of
`admit_finish`, told from the one inside it. -/
inductive Failure
  | alreadyTerminal
  | host (error : HostError)
  | store (error : InvestigationStoreError)
  | stop (reason : InvestigationStopReason)
  | attemptsExhausted
  deriving DecidableEq

def Failure.reason : Failure → Option InvestigationStopReason
  | .alreadyTerminal => none
  | .stop reason => some reason
  | .host .inputChanged => some .inputChanged
  | .host .sourceUnavailable => some .sourceUnavailable
  | .host .limitExceeded | .store .capacity => some .limitExceeded
  | .store .cancelled => some .cancelled
  | .host .invalidInput => some .preparationFailed
  | .host .operational | .store _ => some .operational
  | .attemptsExhausted => some .outcomeUnknown

def acquisitionError : Failure → HostError
  | .host error => error
  | .store .capacity | .stop .limitExceeded => .limitExceeded
  | _ => .operational

/-! ### Bounded provider calls -/

inductive InvocationOutcome
  | notDispatched | responseReceived | unknown
  deriving DecidableEq

inductive FailureCode
  | unsupported | invalidLimits | invalidInput | invalidProfile | profileChanged | egressDenied
  | consentRequired | consentMismatch | inputTooLarge | requestTooLarge | responseTooLarge
  | outputTooLarge | cancelled | ownershipLost | deadlineExceeded | transport | httpStatus
  | unsupportedEncoding | invalidResponse | incompleteResponse | refused | emptyCompletion
  deriving DecidableEq

structure BoundedCallError where
  code : FailureCode
  outcome : InvocationOutcome

def notSent (code : FailureCode) : BoundedCallError := ⟨code, .notDispatched⟩

def providerFailure (error : BoundedCallError) : Failure :=
  .stop (if error.outcome = .unknown then .outcomeUnknown
    else match error.code with
      | .cancelled => .cancelled
      | .ownershipLost => .operational
      | .deadlineExceeded | .inputTooLarge | .requestTooLarge | .responseTooLarge
      | .outputTooLarge => .limitExceeded
      | _ => .providerFailure)

inductive Locality
  | onDevice | cloud
  deriving DecidableEq

structure ProviderProfile where
  protocolVersion : String
  providerId : String
  locality : Locality
  endpointId : String
  requestedModel : String
  deriving DecidableEq

/-- A provider by its identity, which is pure: asking for it sends nothing. -/
structure Provider where
  locality : Locality
  boundedProfile : Except FailureCode ProviderProfile

structure CompletionLimitValues where
  inputBytes : ℕ := 128 * 1024
  requestBytes : ℕ := 512 * 1024
  responseBytes : ℕ := 256 * 1024
  outputTextBytes : ℕ := 32 * 1024
  maxOutputTokens : ℕ := 2048
  requestTimeoutMs : ℕ := 180000

structure PreparedBoundedCompletion where
  payloadHash : String
  profile : ProviderProfile
  limits : CompletionLimitValues

structure ReportedUsage where
  inputTokens : Option UInt64
  outputTokens : Option UInt64

structure BoundedCompletion where
  text : String
  requestedModel : String
  responseModel : Option String
  usage : Option ReportedUsage
  requestBytes : ℕ
  responseBytes : ℕ

def validateCompletion (completion : BoundedCompletion) (prepared : PreparedBoundedCompletion) :
    Comp Store Failure Unit :=
  check (completion.text ≠ "" ∧ completion.text.utf8ByteSize ≤ prepared.limits.outputTextBytes
    ∧ completion.requestedModel = prepared.profile.requestedModel
    ∧ completion.requestBytes ≤ prepared.limits.requestBytes
    ∧ completion.responseBytes ≤ prepared.limits.responseBytes) (.stop .invalidResponse)

/-! ### What the host answers -/

/-- A computation of the host that touches no task; it may fail in any way the host has. -/
def host {α : Type} : Comp Store Failure α :=
  outside fun r => ∀ e, r = .error e → ∃ h, e = .host h

/-- `.lock().map_err(|_| HostError::Operational)`. -/
def lock : Comp Store Failure Unit :=
  outside fun r => r = .ok () ∨ r = .error (.host .operational)

/-- `clock.deadline()`. -/
def deadline : Comp Store Failure Unit :=
  outside fun r => r = .ok () ∨ r = .error (.host .limitExceeded)

/-- `clock.active_milliseconds()`. -/
def activeMilliseconds {ε : Type} : Comp Store ε UInt64 := any

/-- What is admitted, or the answer is not admissible. -/
def admissible {α : Type} : Comp Store Failure α :=
  outside fun r => ∀ e, r = .error e → e = .stop .invalidResponse

/-- A check that runs before a call is dispatched. -/
def undispatched {α : Type} : Comp Store Failure α :=
  outside fun r => ∀ e, r = .error e → ∃ code, e = providerFailure (notSent code)

/-- `self.execution`, `self.id` and the arguments of `run`. -/
structure Worker where
  env : Env
  execution : JobExecution
  id : String
  request : StartInvestigationRequest
  provider : Provider

def terminal : InvestigationStatus → Bool
  | .completed | .failed | .cancelled | .interrupted | .outcomeUnknown => true
  | _ => false

section Worker

variable (w : Worker)

/-- One read of the store. -/
def Worker.read {α : Type} (f : Store → Except InvestigationStoreError α) :
    Comp Store InvestigationStoreError α :=
  atomic (Others w.env w.execution w.id) fun s => (s, f s)

/-- `jobs.investigation(id)`. -/
def Worker.investigation (id : String) : Comp Store InvestigationStoreError InvestigationDetail :=
  w.read fun s => do
    let row ← s.loadTask w.env id
    pure row.record.detail

/-- `jobs.check_execution(execution)`, whose errors are looked at. -/
def Worker.checkExecution {ε : Type} : Comp Store ε (Except JobTransitionError ExecutionCheck) :=
  atomic (Others w.env w.execution w.id) fun s =>
    (s, .ok ((s.checkExecution w.execution).map Prod.fst))

/-- `jobs.investigation_pending_step(id)`. -/
def Worker.investigationPendingStep :
    Comp Store InvestigationStoreError (Option (ℕ × PendingInvestigationStep × Bool)) :=
  w.read fun s => do
    let row ← s.loadTask w.env w.id
    pure (if row.record.phase = .consent ∧ row.record.detail.summary.cancelRequested = false then
      row.record.pending.map fun step =>
        (row.record.detail.summary.revision, step, row.record.approved)
    else none)

/-- `jobs.investigation_result(id)`. -/
def Worker.investigationResult (id : String) :
    Comp Store InvestigationStoreError (Option InvestigationResult) :=
  w.read fun s => do
    let row ← s.loadTask w.env id
    let result ← readBody InvestigationResult.toJson row.rows.result
    Checked.ensure (result.isSome = row.record.detail.summary.hasResult) .invalid
    match result with
    | none => pure none
    | some result => do
      let loaded ← loadLedger w.env (row.draft s.jobs)
      let ledger ← Checked.orFail loaded .invalid
      admitted (result.validate w.env ledger)
      Checked.ensure (result.investigationId = id) .invalid
      pure (some result)

/-- `jobs.advance_investigation(execution, revision, transition)`. -/
def Worker.advanceInvestigation (revision : ℕ) (transition : InvestigationTransition) :
    Comp Store InvestigationStoreError InvestigationDetail := do
  let clock ← any
  atomic (Others w.env w.execution w.id)
    (Checked.transact (Store.advanceInvestigation w.env clock w.execution revision transition))

/-! ### The loop -/

/-- The detail that new work starts from. -/
def Worker.checkNewWork : Comp Store Failure InvestigationDetail := do
  deadline
  lock
  let detail ← (w.investigation w.id).mapError .store
  check (detail.summary.jobId = w.execution.id) (.stop .operational)
  check (terminal detail.summary.status = false) .alreadyTerminal
  let checked ← w.checkExecution
  if detail.summary.cancelRequested then
    match checked with
    | .ok .cancelled | .ok .running | .error .missing => fail (.stop .cancelled)
    | _ => fail (.stop .operational)
  else do
    check (checked = .ok .running) (.stop .operational)
    pure detail

/-- `apply`, and `transition` with its notification. -/
def Worker.transition (detail : InvestigationDetail) (transition : InvestigationTransition) :
    Comp Store Failure InvestigationDetail := do
  lock
  (w.advanceInvestigation detail.summary.revision transition).mapError .store

def Worker.parentHistory : Comp Store Failure (List String) :=
  match w.request.parentId with
  | none => pure []
  | some parentId => do
    lock
    let parent ← (w.investigation parentId).mapError .store
    check (w.request.conversationId = some parent.summary.conversationId)
      (.stop .preparationFailed)
    let _ ← (w.investigationResult parentId).mapError .store
    host

/-- `descriptor(provider, mode)`. -/
def Worker.descriptor : Comp Store Failure InvestigationProvider :=
  match w.provider.boundedProfile with
  | .error _ => fail (.host .invalidInput)
  | .ok profile => do
    check (profile.locality = .onDevice ↔ w.request.providerMode = .localMode) (.host .invalidInput)
    let descriptor : InvestigationProvider :=
      { mode := w.request.providerMode
        providerId := profile.providerId
        model := profile.requestedModel
        endpoint := profile.endpointId
        deployment := none
        protocolVersion := some profile.protocolVersion
        available := true
        unavailableReason := none }
    check (descriptor.toJson.size ≤ 8192) (.host .limitExceeded)
    pure descriptor

/-- `prepare_bounded`: the profile is asked for, and the rest sends nothing either. -/
def Worker.prepareBounded : Comp Store Failure PreparedBoundedCompletion :=
  match w.provider.boundedProfile with
  | .error code => fail (providerFailure (notSent code))
  | .ok profile => do
    let payloadHash ← undispatched
    pure ⟨payloadHash, profile, {}⟩

/-- `authorize_bounded`. -/
def Worker.authorizeBounded (prepared : PreparedBoundedCompletion) : Comp Store Failure Unit :=
  match w.provider.boundedProfile with
  | .error code => fail (providerFailure (notSent code))
  | .ok profile => do
    check (profile = prepared.profile) (providerFailure (notSent .profileChanged))
    undispatched

/-- `provider.complete_bounded`: any answer and any failure. -/
def completeBounded : Comp Store Failure BoundedCompletion :=
  outside fun r => ∀ e, r = .error e → ∃ error, e = providerFailure error

/-- Wait for the decision about `step`: nothing, or the revision it was approved at. -/
def Worker.awaitRound (step : PendingInvestigationStep) : Comp Store Failure (Unit ⊕ ℕ) := do
  let expired ← any
  check (expired = false) (.stop .consentExpired)
  lock
  let detail ← (w.investigation w.id).mapError .store
  check (terminal detail.summary.status = false) .alreadyTerminal
  check (detail.summary.cancelRequested = false) (.stop .cancelled)
  let checked ← w.checkExecution
  check (checked = .ok .running) (.stop .operational)
  let observed ← w.investigationPendingStep.mapError .store
  match observed with
  | none => fail (.stop .operational)
  | some (revision, observedStep, approved) => do
    check (observedStep = step) (.stop .operational)
    if approved then pure (.inr revision)
    else do
      let _ : Unit ← host
      pure (.inl ())

/-- `await_consent`; the time that is left is in milliseconds. -/
def Worker.awaitConsent (detail : InvestigationDetail) (step : PendingInvestigationStep) :
    Comp Store Failure InvestigationDetail := do
  let wall ← any
  let remaining := min wall 900000
  check (remaining ≠ 0) (.stop .consentExpired)
  lock
  check (remaining / 1000 < 2 ^ 32) (.host .invalidInput)
  check (remaining / 1000 ≤ 3600) (.store .invalid)
  let detail ← w.transition detail (.awaitConsent step)
  lock
  let revision ← (iterate (fun _ => w.awaitRound step) ()).onError fun e => do
    lock
    fail e
  pure { detail with summary := { detail.summary with revision := revision } }

/-- One attempt to admit a result; `none` asks for another. -/
def Worker.finishOnce (response : InvestigationResponseMeta) (result : InvestigationResult) :
    Comp Store Failure (Option InvestigationDetail) := do
  lock
  let current ← (w.investigation w.id).mapError .store
  let updated ← (w.advanceInvestigation current.summary.revision
    (.actionAdmitted response none (some result))).result
  match updated with
  | .ok detail => pure (some detail)
  | .error .stale => pure none
  | .error _ => fail (.stop .outcomeUnknown)

def Worker.admitFinish (response : InvestigationResponseMeta) (result : InvestigationResult) :
    Comp Store Failure InvestigationDetail := do
  let admitted ← attempts (w.finishOnce response result) 3
  match admitted with
  | some detail => pure detail
  | none => fail .attemptsExhausted

/-! ### Tools -/

/-- What a tool does with its sink, in order; a failure of the sink ends it. -/
inductive Acquisition
  | done (ledger : InvestigationInputLedger)
  | failed (error : HostError)
  | reserveValidation (bytes : ℕ) (next : Acquisition)
  | publishInput (ledger : InvestigationInputLedger) (usage : InvestigationUsage)
      (next : Acquisition)

def Worker.reserveValidation (bytes : ℕ) : Comp Store HostError InvestigationDetail := do
  let detail ← w.checkNewWork.mapError acquisitionError
  (w.transition detail (.chargeEvidence bytes)).mapError acquisitionError

def Worker.publishInput (ledger : InvestigationInputLedger) (usage : InvestigationUsage) :
    Comp Store HostError InvestigationDetail := do
  let detail ← w.checkNewWork.mapError acquisitionError
  let elapsed ← activeMilliseconds
  (w.transition detail (.inputAdmitted ledger { usage with activeMilliseconds := elapsed })).mapError
    acquisitionError

/-- `context.query` or `context.read_evidence`, with the ledger of the context after it. -/
def Worker.acquire : Acquisition → Comp Store HostError InvestigationInputLedger
  | .done ledger => pure ledger
  | .failed error => fail error
  | .reserveValidation bytes next => do
    let _ ← w.reserveValidation bytes
    Worker.acquire next
  | .publishInput ledger usage next => do
    let _ ← w.publishInput ledger usage
    Worker.acquire next

def toolOf : InvestigationAction → Option InvestigationTool
  | .queryContext _ => some .queryContext
  | .readEvidence _ _ _ => some .readEvidence
  | .finish _ _ _ => none

/-- `InvestigationResponseMeta` of a completion; the hashes are those of the two texts. -/
def responseMeta (stepId : String) (completion : BoundedCompletion) :
    Comp Store Failure InvestigationResponseMeta := do
  let responseHash ← any
  let actionHash ← host
  let elapsed ← activeMilliseconds
  pure
    { stepId := stepId
      responseHash := responseHash
      actionHash := actionHash
      observedModel := completion.responseModel
      reportedInputTokens := completion.usage.bind (·.inputTokens)
      reportedOutputTokens := completion.usage.bind (·.outputTokens)
      activeMilliseconds := elapsed }

/-- A response that uses a tool. -/
def Worker.useTool (response : InvestigationResponseMeta) (action : InvestigationAction) :
    Comp Store Failure InvestigationInputLedger := do
  let detail ← w.checkNewWork
  match toolOf action with
  | none => fail (.stop .invalidResponse)
  | some tool => do
    let _ ← w.transition detail (.actionAdmitted response (some tool) none)
    let detail ← w.checkNewWork
    let _ ← w.transition detail (.beginTool tool)
    let course ← any
    let ledger ← (w.acquire course).mapError .host
    let _ ← w.checkNewWork
    pure ledger

/-- The bytes of a cloud call are recorded in the settings. -/
def Worker.recordEgress : Comp Store Failure Unit :=
  if w.provider.locality = .cloud then host else pure ()

/-- What is admitted of a completed call: the next ledger, or nothing after a result. -/
def Worker.admit (prepared : PreparedBoundedCompletion) (step : PendingInvestigationStep)
    (completion : BoundedCompletion) : Comp Store Failure (InvestigationInputLedger ⊕ Unit) := do
  validateCompletion completion prepared
  w.recordEgress
  let _ : Unit ← admissible
  let action ← admissible
  let response ← responseMeta step.stepId completion
  if toolOf action = none then do
    lock
    let result ← admissible
    let _ ← w.admitFinish response result
    pure (.inr ())
  else do
    let ledger ← w.useTool response action
    pure (.inl ledger)

/-- The exact step of a round, from the input the round prepared. -/
def Worker.pendingStep (detail : InvestigationDetail) (ledger : InvestigationInputLedger)
    (prepared : PreparedBoundedCompletion) (inputBytes : ℕ) :
    Comp Store Failure PendingInvestigationStep := fun s r s' =>
  s' = s ∧ r = (match ledger.fingerprint w.env with
    | .error error => .error (.host (.ofInvestigation error))
    | .ok inputLedgerHash => .ok
      { stepId := "step-" ++ toString (detail.usage.modelInvocations + 1)
        payloadHash := prepared.payloadHash
        inputLedgerHash := inputLedgerHash
        inputBytes := inputBytes
        generatedTokens := prepared.limits.maxOutputTokens })

/-- The detail a step may begin from; a cloud step waits for its consent. -/
def Worker.consented (detail : InvestigationDetail) (step : PendingInvestigationStep) :
    Comp Store Failure InvestigationDetail :=
  if w.provider.locality = .cloud then w.awaitConsent detail step else pure detail

/-- One round of the loop, from the ledger of the context. -/
def Worker.round (ledger : InvestigationInputLedger) :
    Comp Store Failure (InvestigationInputLedger ⊕ Unit) := do
  let detail ← w.checkNewWork
  check (detail.usage.modelInvocations < detail.limits.modelInvocations) (.stop .limitExceeded)
  let descriptor ← w.descriptor
  check (descriptor = detail.provider) (.stop .providerFailure)
  let inputBytes ← host
  lock
  let prepared ← w.prepareBounded
  let step ← w.pendingStep detail ledger prepared inputBytes
  let detail ← w.checkNewWork
  let _ ← w.consented detail step
  let _ ← w.checkNewWork
  lock
  w.authorizeBounded prepared
  let detail ← w.checkNewWork
  let _ ← w.transition detail (.beginInvocation step)
  lock
  deadline
  let completion ← completeBounded
  w.admit prepared step completion

def Worker.execute : Comp Store Failure Unit := do
  let _ ← w.checkNewWork
  let _ ← w.parentHistory
  let ledger ← host
  let detail ← w.checkNewWork
  let elapsed ← activeMilliseconds
  let _ ← w.transition detail
    (.inputPrepared ledger { detail.usage with activeMilliseconds := elapsed })
  iterate w.round ledger

/-! ### The end of a run -/

/-- How `stop` returned. -/
inductive Settled
  | published | found
  | refused (error : InvestigationStoreError)
  | exhausted
  deriving DecidableEq

/-- One attempt to stop the task; `none` when the task has ended. -/
def Worker.stopOnce (reason : InvestigationStopReason) (elapsed : UInt64) :
    Comp Store InvestigationStoreError (Option InvestigationDetail) := do
  let current ← w.investigation w.id
  if terminal current.summary.status then pure none
  else do
    let detail ← w.advanceInvestigation current.summary.revision
      (.stopWithElapsed reason (max elapsed current.usage.activeMilliseconds))
    pure (some detail)

/-- Whether an attempt was the last. -/
def Settled.ofAttempt : Except InvestigationStoreError (Option InvestigationDetail) → Option Settled
  | .ok (some _) => some .published
  | .error .stale => none
  | .ok none => some .found
  | .error error => some (.refused error)

def Worker.stop (reason : InvestigationStopReason) (elapsed : UInt64) :
    Comp Store Empty Settled := do
  let settled ← attempts (do
    let attempt ← (w.stopOnce reason elapsed).result
    pure (Settled.ofAttempt attempt)) 3
  pure (settled.getD .exhausted)

/-- The failure a run ended with, and how its stop returned. -/
structure Exit where
  failure : Option Failure
  settled : Option Settled

def Worker.run : Comp Store Empty Exit := do
  let outcome ← Comp.result (do
    lock
    let _ ← (w.investigation w.id).mapError .store
    w.execute)
  match outcome with
  | .ok () => pure ⟨none, none⟩
  | .error failure =>
    match failure.reason with
    | none => pure ⟨some failure, none⟩
    | some reason => do
      let elapsed ← activeMilliseconds
      let settled ← w.stop reason elapsed
      pure ⟨some failure, some settled⟩

end Worker

end Specialist

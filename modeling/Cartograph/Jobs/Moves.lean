/-
The moves of an investigation task.

`Move` is the protocol the coordinator runs, one constructor for each thing that can
happen to a task, with its guard and the record, the rows and the job table it leaves
behind.

* `stop_ok`, `admitInput_ok` and the like — one inversion for each routine;
* `apply_move` — the eight transitions of a worker are moves;
* `Move.fixed` — what is set at the start of a task stays.
-/
import Cartograph.Jobs.Execution

namespace Jobs

open Investigation Checked

/-! ### Moves -/

/-- What is done to a task, and by whose call. -/
inductive Action
  | attach (identity : StoredExecution)
  | advance (transition : InvestigationTransition)
  | approve (revision : ℕ) (stepId payloadHash : String)
  | decline (revision : ℕ) (stepId payloadHash : String)
  | cancel
  | recover

/-- A decision names the pending step and the revision it was shown at. -/
structure Decides (t : StoredTask) (revision : ℕ) (stepId payloadHash : String) : Prop where
  revision : t.detail.summary.revision = revision
  phase : t.phase = .consent
  undecided : t.approved = false
  step : ∃ step, t.pending = some step ∧ step.stepId = stepId ∧ step.payloadHash = payloadHash

def stopCancelled (t : StoredTask) (reason : InvestigationStopReason) : Bool :=
  t.detail.summary.cancelRequested || reason == .cancelled || reason == .consentDeclined

def stopStatus (t : StoredTask) (reason : InvestigationStopReason) : InvestigationStatus :=
  if reason == .outcomeUnknown then .outcomeUnknown
  else if stopCancelled t reason then .cancelled else .failed

def stopKind (t : StoredTask) (reason : InvestigationStopReason) : InvestigationEventKind :=
  if reason == .outcomeUnknown then .outcomeUnknown
  else if reason = .consentDeclined then .consentDeclined
  else if stopCancelled t reason then .cancelled else .failed

/-- The draft a stop leaves. -/
def Draft.stopped (d : Draft) (clock : Clock) (reason : InvestigationStopReason) : Draft :=
  syncTerminalJob (Draft.noted
    { d with task := ended d.task (stopStatus d.task reason) (stopCancelled d.task reason)
                       reason.message }
    clock (stopKind d.task reason) none none reason.message)

def Draft.recovered (d : Draft) (clock : Clock) : Draft :=
  syncTerminalJob (Draft.noted
    { d with task := ended d.task (recoverStatus d.task) d.task.detail.summary.cancelRequested
                       (recoverError d.task) }
    clock (recoverKind d.task) none none (recoverSummary d.task))

def Draft.cancelledBy (d : Draft) (clock : Clock) : Draft :=
  cancelOpenJob (Draft.noted { d with task := cancelRequested d.task } clock .cancelRequested none
    none "Cancellation requested; outstanding provider work retains its execution lease.")

def Draft.withInput (d : Draft) (clock : Clock) (ledger : InvestigationInputLedger)
    (fingerprint : String) (usage : InvestigationUsage) (first : Bool) : Draft :=
  Draft.noted { d with task := inputTaken d.task ledger fingerprint usage
                       rows := d.rows.withInput ledger } clock
    (if first then .contextPrepared else .toolCompleted) none d.task.actionTool
    (if first then "Frozen context and original input metadata committed."
      else "Tool input and its actual receipt references committed before lease release.")

def Draft.invoked (d : Draft) (clock : Clock) (step : PendingInvestigationStep) : Draft :=
  Draft.noted { d with task := invoking d.task step
                       rows := { d.rows with
                         invocations := d.rows.invocations.put step.stepId step } }
    clock .modelStarted (some step.stepId) none
    "Invocation boundary committed; the provider outcome is pending."

def Draft.responded (d : Draft) (clock : Clock) (response : InvestigationResponseMeta)
    (usage : InvestigationUsage) (tool : Option InvestigationTool)
    (result : Option InvestigationResult) : Draft :=
  Draft.recorded (Draft.noted { d with task := Jobs.responded d.task usage tool result.isSome
                                       rows := d.rows.withResponse response result }
      clock .modelCompleted (some response.stepId) tool
      "A complete provider response was admitted and its identity persisted.")
    (clock 2) (if result.isSome then .resultPersisted else .actionAdmitted) (some response.stepId)
    tool
    (if result.isSome then "Cited findings were persisted against the original input ledger."
      else "A bounded tool action was admitted; its tool has not started.")

/-- A response to the pending invocation, with the usage it leads to. -/
structure Answers (env : Env) (d : Draft) (response : InvestigationResponseMeta)
    (usage : InvestigationUsage) : Prop where
  phase : d.task.phase = .invocation
  pending : ∃ step, d.task.pending = some step ∧ d.rows.invocations.find? response.stepId = some step
    ∧ responseValid env d.task step response
  fresh : d.rows.responses.find? response.stepId = none
  reported : responseUsage d.task.detail.usage response = .ok usage
  bounded : response.toJson.size ≤ 4096

/-- A ledger that continues the task's input. -/
structure Continues (env : Env) (d : Draft) (ledger : InvestigationInputLedger)
    (usage : InvestigationUsage) (fingerprint : String) : Prop where
  valid : ledger.validate = .ok ()
  counters : usageContinues d.task.detail.usage usage ledger
  evidence : evidenceCounted usage ledger
  revision : ledger.revision ≤ MAX_ROWID
  extending : ∃ previous, loadLedger env d = .ok previous ∧ ∀ p ∈ previous, ledgerExtends p ledger
  fresh : d.rows.inputs.find? ledger.revision = none
  fingerprint : ledger.fingerprint env = .ok fingerprint
  bounded : ledger.toJson.size ≤ MAX_MANIFEST_BYTES

/-- A step that may be invoked now. -/
structure Invokable (d : Draft) (step : PendingInvestigationStep) : Prop where
  valid : validateStep step = .ok ()
  may : mayInvoke d.task step = .ok ()
  fresh : d.rows.invocations.find? step.stepId = none
  bounded : step.toJson.size ≤ 4096

/-- The number of the last event. -/
def Draft.sequence (d : Draft) : ℕ := d.task.detail.summary.lastEventSequence

inductive Move (env : Env) (clock : Clock) (d : Draft) : Action → Draft → Prop
  | attach (identity : StoredExecution) :
      d.task.phase = .queued → d.task.execution = none →
      d.task.detail.summary.cancelRequested = false →
      d.sequence + 1 ≤ MAX_EVENTS - 3 →
      Move env clock d (.attach identity)
        (Draft.noted { d with task := attached d.task identity } clock .preparationStarted none none
          "Execution ownership attached atomically; preparation started.")
  | inputPrepared (ledger : InvestigationInputLedger) (usage : InvestigationUsage)
      (fingerprint : String) :
      d.task.phase = .preparing → d.task.ledgerRevision = none →
      d.task.detail.summary.cancelRequested = false →
      Continues env d ledger usage fingerprint →
      d.sequence + 1 ≤ MAX_EVENTS - 3 →
      Move env clock d (.advance (.inputPrepared ledger usage))
        (d.withInput clock ledger fingerprint usage true)
  | inputAdmitted (ledger : InvestigationInputLedger) (usage : InvestigationUsage)
      (fingerprint : String) :
      d.task.phase = .tool → d.task.detail.summary.cancelRequested = false →
      Continues env d ledger usage fingerprint →
      d.sequence + 1 ≤ MAX_EVENTS - 3 →
      Move env clock d (.advance (.inputAdmitted ledger usage))
        (d.withInput clock ledger fingerprint usage false)
  | awaitConsent (step : PendingInvestigationStep) :
      d.task.phase = .ready → d.task.detail.summary.cancelRequested = false →
      validateStep step = .ok () → d.task.detail.provider.mode = .cloud →
      d.sequence + 1 ≤ MAX_EVENTS - 3 →
      Move env clock d (.advance (.awaitConsent step))
        (Draft.noted { d with task := awaiting d.task step } clock .consentRequired
          (some step.stepId) none "Exact step consent is required; no provider call has started.")
  | beginInvocation (step : PendingInvestigationStep) :
      d.task.detail.summary.cancelRequested = false → Invokable d step →
      d.sequence + 1 ≤ MAX_EVENTS - 3 →
      Move env clock d (.advance (.beginInvocation step)) (d.invoked clock step)
  | actionAdmitted (response : InvestigationResponseMeta) (tool : InvestigationTool)
      (usage : InvestigationUsage) :
      d.task.detail.summary.cancelRequested = false → Answers env d response usage →
      d.sequence + 2 ≤ MAX_EVENTS - 3 →
      Move env clock d (.advance (.actionAdmitted response (some tool) none))
        (d.responded clock response usage (some tool) none)
  | finished (response : InvestigationResponseMeta) (result : InvestigationResult)
      (usage : InvestigationUsage) :
      Answers env d response usage → d.rows.result = none →
      result.toJson.size ≤ MAX_RESULT_BYTES →
      d.sequence + 2 ≤ MAX_EVENTS →
      Move env clock d (.advance (.actionAdmitted response none (some result)))
        (syncTerminalJob (d.responded clock response usage none (some result)))
  | beginTool (tool : InvestigationTool) :
      d.task.phase = .action → d.task.actionTool = some tool →
      d.task.detail.summary.cancelRequested = false →
      d.sequence + 1 ≤ MAX_EVENTS - 3 →
      Move env clock d (.advance (.beginTool tool))
        (Draft.noted { d with task := toolStarted d.task tool } clock .toolStarted none (some tool)
          "Tool attempt budget reserved before execution.")
  | chargeEvidence (validationBytes : ℕ) :
      d.task.phase = .tool → d.task.detail.summary.cancelRequested = false →
      d.sequence + 1 ≤ MAX_EVENTS - 3 →
      Move env clock d (.advance (.chargeEvidence validationBytes))
        (Draft.noted { d with task := charged d.task validationBytes } clock
          .evidenceValidationReserved none (some .readEvidence)
          "Full captured file validation bytes reserved before reading.")
  | stopWithElapsed (reason : InvestigationStopReason) (activeMilliseconds : UInt64) :
      d.task.phase ≠ .terminal → (reason = .outcomeUnknown → d.task.phase = .invocation) →
      d.task.detail.usage.activeMilliseconds ≤ activeMilliseconds →
      d.sequence + 1 ≤ MAX_EVENTS →
      Move env clock d (.advance (.stopWithElapsed reason activeMilliseconds))
        (Draft.stopped { d with task := elapsed d.task activeMilliseconds } clock reason)
  | approve (revision : ℕ) (stepId payloadHash : String) :
      Decides d.task revision stepId payloadHash →
      d.task.detail.summary.cancelRequested = false →
      d.sequence + 1 ≤ MAX_EVENTS - 3 →
      Move env clock d (.approve revision stepId payloadHash)
        (Draft.noted { d with task := consented d.task } clock .consentApproved (some stepId) none
          "Exact step approved; authorization will be consumed at invocation start.")
  | decline (revision : ℕ) (stepId payloadHash : String) :
      Decides d.task revision stepId payloadHash →
      d.task.detail.summary.cancelRequested = false →
      d.sequence + 1 ≤ MAX_EVENTS →
      Move env clock d (.decline revision stepId payloadHash)
        (Draft.stopped { d with task := declining d.task } clock .consentDeclined)
  | cancel :
      d.task.phase ≠ .terminal → d.task.detail.summary.cancelRequested = false →
      d.sequence + 1 ≤ eventMaximum (cancelRequested d.task).phase .cancelRequested →
      Move env clock d .cancel (d.cancelledBy clock)
  | recover :
      d.task.phase ≠ .terminal → d.sequence + 1 ≤ MAX_EVENTS →
      Move env clock d .recover (d.recovered clock)

/-! ### Inversion of the routines -/

variable {d : Draft} {kind : InvestigationEventKind}

theorem sequence_le (h : EventRoom d kind) (hphase : d.task.phase ≠ .terminal)
    (hkind : kind ≠ .cancelRequested) :
    d.sequence + 1 ≤ MAX_EVENTS - 3 := by
  have hseq := h.sequence
  rwa [eventMaximum, if_neg hphase, if_neg hkind] at hseq

theorem sequence_le_terminal (h : EventRoom d kind) (hphase : d.task.phase = .terminal) :
    d.sequence + 1 ≤ MAX_EVENTS:= by
  have hseq := h.sequence
  rwa [eventMaximum, if_pos hphase] at hseq

variable {d' : Draft} {env : Env} {action : Action} {clock : Clock}

theorem stop_ok {reason : InvestigationStopReason} (h : stop clock d reason = .ok d') :
    (reason = .outcomeUnknown → d.task.phase = .invocation)
      ∧ d.sequence + 1 ≤ MAX_EVENTS ∧ d' = d.stopped clock reason := by
  simp only [stop, bind_eq_ok, ensure_eq_ok, note_eq_ok, pure_eq_ok] at h
  obtain ⟨⟨⟩, hreason, _, ⟨-, hroom, -, rfl⟩, rfl⟩ := h
  have hseq := sequence_le_terminal hroom rfl
  refine ⟨hreason, hseq, ?_⟩
  simp [Draft.stopped, stopStatus, stopKind, stopCancelled]

theorem requestCancel_ok (h : requestCancel clock d = .ok d') :
    d.sequence + 1 ≤ eventMaximum (cancelRequested d.task).phase .cancelRequested
      ∧ d' = d.cancelledBy clock := by
  simp only [requestCancel, bind_eq_ok, note_eq_ok, pure_eq_ok] at h
  obtain ⟨_, ⟨-, hroom, -, rfl⟩, rfl⟩ := h
  exact ⟨hroom.sequence, rfl⟩

theorem admitInput_ok {ledger : InvestigationInputLedger} {usage : InvestigationUsage}
    {first : Bool} (h : admitInput env clock d ledger usage first = .ok d') :
    ∃ fingerprint, Continues env d ledger usage fingerprint ∧ d.sequence + 1 ≤ MAX_EVENTS - 3
      ∧ d' = d.withInput clock ledger fingerprint usage first := by
  simp only [admitInput, encode, signed, bind_eq_ok, ensure_eq_ok, admitted_eq_ok, note_eq_ok] at h
  obtain ⟨⟨⟩, hvalid, ⟨⟩, -, ⟨⟩, hcounters, ⟨⟩, hevidence, previous, hprev, ⟨⟩, hext, ⟨⟩, hrev, ⟨⟩,
    hsize, ⟨⟩, hfresh, fingerprint, hfp, -, hroom, -, rfl⟩ := h
  have hseq := sequence_le hroom (by simp [inputTaken]) (by cases first <;> simp)
  exact ⟨fingerprint, ⟨hvalid, hcounters, hevidence, hrev, ⟨previous, hprev, hext⟩, hfresh, hfp,
    hsize⟩, hseq, rfl⟩

variable {step : PendingInvestigationStep}

theorem awaitConsent_ok (h : awaitConsent clock d step = .ok d') :
    d.task.phase = .ready ∧ validateStep step = .ok () ∧ d.task.detail.provider.mode = .cloud
      ∧ d.sequence + 1 ≤ MAX_EVENTS - 3
      ∧ d' = Draft.noted { d with task := awaiting d.task step } clock .consentRequired
          (some step.stepId) none
          "Exact step consent is required; no provider call has started." := by
  simp only [awaitConsent, checkReady, bind_eq_ok, ensure_eq_ok, note_eq_ok] at h
  obtain ⟨⟨⟩, ⟨⟨⟩, hstep, ⟨⟩, ⟨hphase, -⟩, -⟩, ⟨⟩, hmode, -, hroom, -, rfl⟩ := h
  have hseq := sequence_le hroom (by simp [awaiting]) (by simp)
  exact ⟨hphase, hstep, hmode, hseq, rfl⟩

theorem beginInvocation_ok (h : beginInvocation clock d step = .ok d') :
    Invokable d step ∧ d.sequence + 1 ≤ MAX_EVENTS - 3 ∧ d' = d.invoked clock step := by
  simp only [beginInvocation, readBody, encode, bind_eq_ok, ensure_eq_ok, pure_eq_ok,
    note_eq_ok] at h
  obtain ⟨⟨⟩, hstep, ⟨⟩, -, ⟨⟩, hmay, ⟨⟩, -, ⟨⟩, -, _, ⟨⟨⟩, -, rfl⟩, ⟨⟩, hfresh, ⟨⟩, hsize, -, hroom, -,
    rfl⟩ := h
  have hseq := sequence_le hroom (by simp [invoking]) (by simp)
  exact ⟨⟨hstep, hmay, hfresh, hsize⟩, hseq, rfl⟩

theorem beginTool_ok {tool : InvestigationTool} (h : beginTool clock d tool = .ok d') :
    d.task.phase = .action ∧ d.task.actionTool = some tool ∧ d.sequence + 1 ≤ MAX_EVENTS - 3
      ∧ d' = Draft.noted { d with task := toolStarted d.task tool } clock .toolStarted none
          (some tool) "Tool attempt budget reserved before execution." := by
  simp only [beginTool, bind_eq_ok, ensure_eq_ok, note_eq_ok] at h
  obtain ⟨⟨⟩, ⟨hphase, htool⟩, ⟨⟩, -, ⟨⟩, -, -, hroom, -, rfl⟩ := h
  have hseq := sequence_le hroom (by simp [toolStarted]) (by simp)
  exact ⟨hphase, htool, hseq, rfl⟩

theorem chargeEvidence_ok {validationBytes : ℕ}
    (h : chargeEvidence clock d validationBytes = .ok d') :
    d.task.phase = .tool ∧ d.sequence + 1 ≤ MAX_EVENTS - 3
      ∧ d' = Draft.noted { d with task := charged d.task validationBytes } clock
          .evidenceValidationReserved none (some .readEvidence)
          "Full captured file validation bytes reserved before reading." := by
  simp only [chargeEvidence, bind_eq_ok, ensure_eq_ok, note_eq_ok] at h
  obtain ⟨⟨⟩, ⟨hphase, -⟩, ⟨⟩, -, ⟨⟩, -, -, hroom, -, rfl⟩ := h
  have hseq := sequence_le hroom (by simp [charged, hphase]) (by simp)
  exact ⟨hphase, hseq, rfl⟩

theorem actionAdmitted_ok {response : InvestigationResponseMeta} {tool : Option InvestigationTool}
    {result : Option InvestigationResult}
    (h : actionAdmitted env clock d response tool result = .ok d') :
    ∃ usage, Answers env d response usage ∧
      ((∃ t, tool = some t ∧ result = none ∧ d.sequence + 2 ≤ MAX_EVENTS - 3
          ∧ d' = d.responded clock response usage (some t) none)
        ∨ ∃ r, tool = none ∧ result = some r ∧ d.rows.result = none
          ∧ r.toJson.size ≤ MAX_RESULT_BYTES ∧ d.sequence + 2 ≤ MAX_EVENTS
          ∧ d' = syncTerminalJob (d.responded clock response usage none (some r))) := by
  simp only [actionAdmitted, readBody, encode, bind_eq_ok, ensure_eq_ok, orFail_eq_ok, pure_eq_ok,
    note_eq_ok, event_eq_ok] at h
  obtain ⟨⟨⟩, ⟨hphase, hone⟩, pending, hpending, ⟨⟩, hresponse, _, ⟨⟨⟩, -, rfl⟩, invoked, hinvoked, ⟨⟩,
    rfl, usage, husage, ⟨⟩, -, ⟨⟩, hresult, ⟨⟩, hsize, ⟨⟩, hfresh, _, ⟨-, -, -, rfl⟩, _,
    ⟨hroom, -, rfl⟩, rfl⟩ := h
  refine ⟨usage, ⟨hphase, ⟨invoked, hpending, hinvoked, hresponse⟩, hfresh, husage, hsize⟩, ?_⟩
  cases result with
  | none =>
    obtain ⟨t, rfl⟩ : ∃ t, tool = some t := by
      cases tool with
      | none => exact absurd rfl hone
      | some t => exact ⟨t, rfl⟩
    have hseq := sequence_le hroom (by simp [Draft.noted, Draft.recorded, StoredTask.sequenced,
      StoredTask.bumped, responded]) (by simp)
    exact .inl ⟨t, rfl, rfl, hseq, rfl⟩
  | some r =>
    obtain rfl : tool = none := by
      cases tool with
      | none => rfl
      | some t => exact absurd rfl hone
    simp only [checkResult, encode, bind_eq_ok, ensure_eq_ok] at hresult
    obtain ⟨_, -, _, -, ⟨⟩, -, ⟨⟩, -, ⟨⟩, hbytes, hnone⟩ := hresult
    have hseq := sequence_le_terminal hroom rfl
    exact .inr ⟨r, rfl, rfl, hnone, hbytes, hseq, rfl⟩

theorem apply_move {transition : InvestigationTransition}
    (hlive : d.task.phase ≠ .terminal) (hcancel : d.task.detail.summary.cancelRequested = true →
      (transition.lateFinish || transition.stopping) = true)
    (h : transition.apply env clock d = .ok d') : Move env clock d (.advance transition) d' := by
  have hnot : (transition.lateFinish || transition.stopping) = false →
      d.task.detail.summary.cancelRequested = false := by
    intro hlate
    -- a cancelled task only takes a late result or a stop
    by_contra hc
    rw [hcancel (by simpa using hc)] at hlate
    exact absurd hlate (by simp)
  cases transition with
  | inputPrepared ledger usage =>
    simp only [InvestigationTransition.apply, bind_eq_ok, ensure_eq_ok] at h
    obtain ⟨⟨⟩, ⟨hphase, hnone⟩, ⟨⟩, -, hadmit⟩ := h
    obtain ⟨fingerprint, hcont, hseq, rfl⟩ := admitInput_ok hadmit
    exact .inputPrepared ledger usage fingerprint hphase hnone (hnot rfl) hcont hseq
  | inputAdmitted ledger usage =>
    simp only [InvestigationTransition.apply, bind_eq_ok, ensure_eq_ok] at h
    obtain ⟨⟨⟩, hphase, hadmit⟩ := h
    obtain ⟨fingerprint, hcont, hseq, rfl⟩ := admitInput_ok hadmit
    exact .inputAdmitted ledger usage fingerprint hphase (hnot rfl) hcont hseq
  | awaitConsent step =>
    obtain ⟨hphase, hstep, hmode, hseq, rfl⟩ := awaitConsent_ok h
    exact .awaitConsent step hphase (hnot rfl) hstep hmode hseq
  | beginInvocation step =>
    obtain ⟨hinv, hseq, rfl⟩ := beginInvocation_ok h
    exact .beginInvocation step (hnot rfl) hinv hseq
  | actionAdmitted response tool result =>
    obtain ⟨usage, hans, ⟨t, rfl, rfl, hseq, rfl⟩ | ⟨r, rfl, rfl, hnone, hbytes, hseq, rfl⟩⟩ :=
      actionAdmitted_ok h
    · exact .actionAdmitted response t usage (hnot rfl) hans hseq
    · exact .finished response r usage hans hnone hbytes hseq
  | beginTool tool =>
    obtain ⟨hphase, htool, hseq, rfl⟩ := beginTool_ok h
    exact .beginTool tool hphase htool (hnot rfl) hseq
  | chargeEvidence validationBytes =>
    obtain ⟨hphase, hseq, rfl⟩ := chargeEvidence_ok h
    exact .chargeEvidence validationBytes hphase (hnot rfl) hseq
  | stopWithElapsed reason activeMilliseconds =>
    simp only [InvestigationTransition.apply, Jobs.stopWithElapsed, bind_eq_ok, ensure_eq_ok] at h
    obtain ⟨⟨⟩, helapsed, hstop⟩ := h
    obtain ⟨hreason, hseq, rfl⟩ := stop_ok hstop
    exact .stopWithElapsed reason activeMilliseconds hlive hreason helapsed hseq

/-! ### What the bookkeeping leaves alone -/

section Bookkeeping

variable (d : Draft) (clock : Clock) (now : Timestamp) (kind : InvestigationEventKind)
  (step : Option String) (tool : Option InvestigationTool) (summary : String)

@[simp] theorem phase_recorded :
    (d.recorded now kind step tool summary).task.phase = d.task.phase := rfl

@[simp] theorem phase_noted :
    (d.noted clock kind step tool summary).task.phase = d.task.phase := rfl

@[simp] theorem execution_recorded :
    (d.recorded now kind step tool summary).task.execution = d.task.execution := rfl

@[simp] theorem execution_noted :
    (d.noted clock kind step tool summary).task.execution = d.task.execution := rfl

@[simp] theorem pending_noted :
    (d.noted clock kind step tool summary).task.pending = d.task.pending := rfl

@[simp] theorem approved_noted :
    (d.noted clock kind step tool summary).task.approved = d.task.approved := rfl

@[simp] theorem usage_recorded :
    (d.recorded now kind step tool summary).task.detail.usage = d.task.detail.usage := rfl

@[simp] theorem usage_noted :
    (d.noted clock kind step tool summary).task.detail.usage = d.task.detail.usage := rfl

@[simp] theorem cancelRequested_recorded :
    (d.recorded now kind step tool summary).task.detail.summary.cancelRequested = d.task.detail.summary.cancelRequested := rfl

@[simp] theorem cancelRequested_noted :
    (d.noted clock kind step tool summary).task.detail.summary.cancelRequested = d.task.detail.summary.cancelRequested := rfl

@[simp] theorem hasResult_recorded :
    (d.recorded now kind step tool summary).task.detail.summary.hasResult = d.task.detail.summary.hasResult := rfl

@[simp] theorem hasResult_noted :
    (d.noted clock kind step tool summary).task.detail.summary.hasResult = d.task.detail.summary.hasResult := rfl

@[simp] theorem invocations_recorded :
    (d.recorded now kind step tool summary).rows.invocations = d.rows.invocations := rfl

@[simp] theorem invocations_noted :
    (d.noted clock kind step tool summary).rows.invocations = d.rows.invocations := rfl

@[simp] theorem responses_recorded :
    (d.recorded now kind step tool summary).rows.responses = d.rows.responses := rfl

@[simp] theorem responses_noted :
    (d.noted clock kind step tool summary).rows.responses = d.rows.responses := rfl

@[simp] theorem result_recorded :
    (d.recorded now kind step tool summary).rows.result = d.rows.result := rfl

@[simp] theorem result_noted :
    (d.noted clock kind step tool summary).rows.result = d.rows.result := rfl

@[simp] theorem events_noted :
    (d.noted clock kind step tool summary).rows.events
      = d.rows.events.put (d.task.detail.summary.lastEventSequence + 1)
          ((d.task.bumped (clock 0)).eventRow (clock 1) kind step tool summary) := rfl

@[simp] theorem inputs_noted :
    (d.noted clock kind step tool summary).rows.inputs = d.rows.inputs := rfl

@[simp] theorem refs_noted :
    (d.noted clock kind step tool summary).rows.refs = d.rows.refs := rfl

@[simp] theorem task_syncTerminalJob : (syncTerminalJob d).task = d.task := rfl

@[simp] theorem rows_syncTerminalJob : (syncTerminalJob d).rows = d.rows := rfl

@[simp] theorem task_cancelOpenJob : (cancelOpenJob d).task = d.task := rfl

end Bookkeeping

/-! ### What no move changes -/

/-- The part of a record that is set when the task is created. -/
structure Fixed where
  nonce : String
  intentHash : String
  expectedGraphRevision : Option String
  schemaVersion : ℕ
  investigationId : String
  conversationId : String
  parentId : Option String
  jobId : ℕ
  specialistId : SpecialistId
  question : String
  scope : InvestigationScope
  providerMode : InvestigationProviderMode
  canFollowUp : Bool
  createdAt : String
  contextOwner : String
  specialist : InvestigationSpecialist
  provider : InvestigationProvider
  limits : InvestigationLimits

def fixed (t : StoredTask) : Fixed where
  nonce := t.nonce
  intentHash := t.intentHash
  expectedGraphRevision := t.expectedGraphRevision
  schemaVersion := t.detail.summary.schemaVersion
  investigationId := t.detail.summary.investigationId
  conversationId := t.detail.summary.conversationId
  parentId := t.detail.summary.parentId
  jobId := t.detail.summary.jobId
  specialistId := t.detail.summary.specialistId
  question := t.detail.summary.question
  scope := t.detail.summary.scope
  providerMode := t.detail.summary.providerMode
  canFollowUp := t.detail.summary.actions.canFollowUp
  createdAt := t.detail.summary.createdAt
  contextOwner := t.detail.contextOwner
  specialist := t.detail.specialist
  provider := t.detail.provider
  limits := t.detail.limits

@[simp] theorem rows_cancelOpenJob : (cancelOpenJob d).rows = d.rows := rfl

@[simp] theorem fixed_recorded (d : Draft) (now : Timestamp) (kind : InvestigationEventKind)
    (step : Option String) (tool : Option InvestigationTool) (summary : String) :
    fixed (d.recorded now kind step tool summary).task = fixed d.task := rfl

@[simp] theorem fixed_noted (d : Draft) (clock : Clock) (kind : InvestigationEventKind)
    (step : Option String) (tool : Option InvestigationTool) (summary : String) :
    fixed (d.noted clock kind step tool summary).task = fixed d.task := rfl

@[simp] theorem fixed_syncTerminalJob (d : Draft) :
    fixed (syncTerminalJob d).task = fixed d.task := rfl

@[simp] theorem fixed_cancelOpenJob (d : Draft) :
    fixed (cancelOpenJob d).task = fixed d.task := rfl

@[simp] theorem fixed_ended (t : StoredTask) (status : InvestigationStatus) (cancelled : Bool)
    (error : String) : fixed (ended t status cancelled error) = fixed t := rfl

@[simp] theorem fixed_stopped (d : Draft) (clock : Clock) (reason : InvestigationStopReason) :
    fixed (d.stopped clock reason).task = fixed d.task := by
  simp [Draft.stopped]

section

variable (h : Move env clock d action d')
include h

theorem Move.fixed :
    Jobs.fixed d'.task = Jobs.fixed d.task := by
  cases h with
  | attach | awaitConsent | beginTool | chargeEvidence | approve => rw [fixed_noted]; rfl
  | inputPrepared | inputAdmitted => rw [Draft.withInput, fixed_noted]; rfl
  | beginInvocation => rw [Draft.invoked, fixed_noted]; rfl
  | actionAdmitted => rw [Draft.responded, fixed_recorded, fixed_noted]; rfl
  | finished => rw [fixed_syncTerminalJob, Draft.responded, fixed_recorded, fixed_noted]; rfl
  | stopWithElapsed | decline => rw [fixed_stopped]; rfl
  | cancel => rw [Draft.cancelledBy, fixed_cancelOpenJob, fixed_noted]; rfl
  | recover => rw [Draft.recovered, fixed_syncTerminalJob, fixed_noted, fixed_ended]

theorem Move.investigationId :
    d'.task.detail.summary.investigationId = d.task.detail.summary.investigationId :=
  congrArg Fixed.investigationId h.fixed

theorem Move.jobId :
    d'.task.detail.summary.jobId = d.task.detail.summary.jobId :=
  congrArg Fixed.jobId h.fixed

end

/-! ### Moves and the job table -/

/-- The row of job `id` is left alone, or ends: it was open and is not any more. -/
def Ends (jobs jobs' : Table ℕ JobRow) (id : ℕ) : Prop :=
  ∃ row row', jobs.find? id = some row ∧ row.status.open = true
    ∧ jobs'.find? id = some row' ∧ row'.status.open = false ∧ row'.kind = row.kind

theorem ends_updateJob {jobs : Table ℕ JobRow} {f : JobRow → JobRow} {id : ℕ}
    (hopen : ∀ row, (f row).status.open = false) (hkind : ∀ row, (f row).kind = row.kind) (k : ℕ) :
    (updateJob jobs id (fun row => row.status.open) f).find? k = jobs.find? k
      ∨ k = id ∧ Ends jobs (updateJob jobs id (fun row => row.status.open) f) k := by
  by_cases hk : k = id
  · cases hrow : jobs.find? k with
    | none => exact .inl (by rw [find?_updateJob, if_pos hk, hrow]; rfl)
    | some row =>
      by_cases ho : row.status.open = true
      · have hnew : (updateJob jobs id (fun row => row.status.open) f).find? k = some (f row) := by
          rw [find?_updateJob, if_pos hk, hrow, Option.map_some, if_pos ho]
        exact .inr ⟨hk, row, f row, hrow, ho, hnew, hopen row, hkind row⟩
      · exact .inl (by rw [find?_updateJob, if_pos hk, hrow, Option.map_some, if_neg ho])
  · exact .inl (by rw [find?_updateJob, if_neg hk])

theorem terminalJobStatus_open (t : StoredTask) : (terminalJobStatus t).open = false := by
  unfold terminalJobStatus
  split_ifs
  · rfl
  · cases t.detail.summary.status <;> rfl

theorem ends_syncTerminalJob (d : Draft) (k : ℕ) :
    (syncTerminalJob d).jobs.find? k = d.jobs.find? k
      ∨ k = d.task.detail.summary.jobId ∧ Ends d.jobs (syncTerminalJob d).jobs k :=
  ends_updateJob (f := JobRow.settled d.task) (fun _ => terminalJobStatus_open _) (fun _ => rfl) k

theorem ends_cancelOpenJob (d : Draft) (k : ℕ) :
    (cancelOpenJob d).jobs.find? k = d.jobs.find? k
      ∨ k = d.task.detail.summary.jobId ∧ Ends d.jobs (cancelOpenJob d).jobs k :=
  ends_updateJob (f := JobRow.cancelled) (fun _ => rfl) (fun _ => rfl) k

@[simp] theorem jobs_recorded (d : Draft) (now : Timestamp) (kind : InvestigationEventKind)
    (step : Option String) (tool : Option InvestigationTool) (summary : String) :
    (d.recorded now kind step tool summary).jobs = d.jobs := rfl

@[simp] theorem jobs_noted (d : Draft) (clock : Clock) (kind : InvestigationEventKind)
    (step : Option String) (tool : Option InvestigationTool) (summary : String) :
    (d.noted clock kind step tool summary).jobs = d.jobs := rfl

theorem ends_sync {d d0 : Draft} (hjobs : d.jobs = d0.jobs) (hfixed : fixed d.task = fixed d0.task)
    (k : ℕ) :
    (syncTerminalJob d).jobs.find? k = d0.jobs.find? k
      ∨ k = d0.task.detail.summary.jobId ∧ Ends d0.jobs (syncTerminalJob d).jobs k := by
  have hid : d.task.detail.summary.jobId = d0.task.detail.summary.jobId :=
    congrArg Fixed.jobId hfixed
  rw [← hjobs, ← hid]
  exact ends_syncTerminalJob d k

theorem Move.jobs (h : Move env clock d action d') (k : ℕ) :
    d'.jobs.find? k = d.jobs.find? k
      ∨ k = d.task.detail.summary.jobId ∧ Ends d.jobs d'.jobs k := by
  cases h with
  | attach | awaitConsent | beginTool | chargeEvidence | approve => exact .inl (by rw [jobs_noted])
  | inputPrepared | inputAdmitted => exact .inl (by rw [Draft.withInput, jobs_noted])
  | beginInvocation => exact .inl (by rw [Draft.invoked, jobs_noted])
  | actionAdmitted => exact .inl (by rw [Draft.responded, jobs_recorded, jobs_noted])
  | finished =>
    refine ends_sync ?_ ?_ k
    · rw [Draft.responded, jobs_recorded, jobs_noted]
    · rw [Draft.responded, fixed_recorded, fixed_noted]; rfl
  | stopWithElapsed | decline | recover =>
    refine ends_sync (jobs_noted _ _ _ _ _ _) ?_ k
    rw [fixed_noted, fixed_ended]
  | cancel =>
    have hends := ends_cancelOpenJob (Draft.noted { d with task := cancelRequested d.task } clock
      .cancelRequested none none
      "Cancellation requested; outstanding provider work retains its execution lease.") k
    rwa [jobs_noted] at hends

end Jobs

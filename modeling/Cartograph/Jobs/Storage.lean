/-
Bounded storage of investigation tasks (`jobs/investigations/storage.rs`).

A coordination transaction loads a task, changes its record in memory and its rows
in place, and saves the record.  `Draft` is what it works on: the record, the rows
of the task, and the job table.  Every write is bounded: bodies by the limit of
their table, the record by `MAX_RECORD_BYTES`, the summary by 4 KiB, and everything
a task stores by `TASK_CAPACITY`, of which non-terminal states leave
`TERMINAL_RESERVE` free.

* `bump_eq_ok`, `event_eq_ok`, `note_eq_ok` — what the two bookkeeping steps every
  transition ends with require and do;
* `loadTask_eq_ok`, `saveTask_eq_ok` — the checks around a transition.
-/
import Cartograph.Jobs.Store

namespace Investigation

/-! ### What a transition does to every record -/

def StoredTask.eventRow (t : StoredTask) (now : Timestamp) (kind : InvestigationEventKind)
    (step : Option String) (tool : Option InvestigationTool) (summary : String) :
    InvestigationEvent where
  investigationId := t.detail.summary.investigationId
  sequence := t.detail.summary.lastEventSequence + 1
  revision := t.detail.summary.revision
  kind := kind
  stepId := step
  tool := tool
  summary := summary
  createdAt := now.text

def StoredTask.sequenced (t : StoredTask) : StoredTask :=
  { t with detail := { t.detail with summary := { t.detail.summary with
      lastEventSequence := t.detail.summary.lastEventSequence + 1 } } }

def StoredTask.bumped (t : StoredTask) (now : Timestamp) : StoredTask :=
  { t with detail := { t.detail with summary := { t.detail.summary with
      revision := t.detail.summary.revision + 1
      updatedAt := now.text
      actions := { t.detail.summary.actions with
        canCancel := decide (t.phase ≠ .terminal) && !t.detail.summary.cancelRequested }
      invocationPending := decide (t.phase = .invocation) } } }

end Investigation

namespace Jobs

open Investigation Checked

def MAX_TASKS : ℕ := 128
def MAX_LIVE_TASKS : ℕ := 2
def TASK_CAPACITY : ℕ := 2 * 1024 * 1024
def TERMINAL_RESERVE : ℕ := 256 * 1024
def STORE_CAPACITY : ℕ := 256 * 1024 * 1024
def MAX_EVENTS : ℕ := 96

/-- Readings of the clock within one transaction. -/
abbrev Clock := ℕ → Timestamp

/-- Every protocol error is reported as invalid metadata. -/
def admitted {α : Type} : Except InvestigationError α → Except InvestigationStoreError α
  | .ok a => .ok a
  | .error _ => .error .invalid

variable {α : Type} {x : Except InvestigationError α} {e : InvestigationStoreError}
  {now : Timestamp} {kind : InvestigationEventKind} {step : Option String}
  {tool : Option InvestigationTool} {summary id : String}

theorem admitted_eq_ok {a : α} :
    admitted x = .ok a ↔ x = .ok a := by
  cases x <;> simp [admitted]

theorem admitted_eq_error (h : admitted x = .error e) : e = .invalid := by
  cases x with
  | ok a => simp [admitted] at h
  | error e' =>
    simp only [admitted, Except.error.injEq] at h
    exact h.symm

/-- The bounded writer. -/
def encode (value : Json) (maximum : ℕ) : Except InvestigationStoreError Unit :=
  ensure (value.size ≤ maximum) .capacity

/-- The integers a column can hold. -/
def signed (value : ℕ) : Except InvestigationStoreError Unit :=
  ensure (value ≤ MAX_ROWID) .invalid

/-! ### Validation -/

/-- Redaction admits the text and leaves it alone. -/
def unredacted (env : Env) (value : String) (maximum : ℕ) : Bool :=
  match redactedHistoryText env value maximum with
  | .ok redacted => redacted == value
  | .error _ => false

def validateProvider (env : Env) (p : InvestigationProvider) :
    Except InvestigationStoreError Unit := do
  ensure (p.available ∧ p.unavailableReason = none) .unavailable
  ensure (∀ value ∈ [p.providerId, p.model, p.endpoint] ++ p.deployment.toList
    ++ p.protocolVersion.toList, value ≠ "" ∧ value.utf8ByteSize ≤ 2048
      ∧ unredacted env value 2048) .invalid

def validateUsage (usage : InvestigationUsage) (limits : InvestigationLimits) :
    Except InvestigationStoreError Unit :=
  ensure (usage.modelInvocations ≤ limits.modelInvocations
    ∧ usage.toolActions ≤ limits.toolActions ∧ usage.selectedFacts ≤ limits.selectedFacts
    ∧ usage.evidenceRequests ≤ limits.evidenceRequests
    ∧ usage.evidenceItems ≤ limits.evidenceItems ∧ usage.evidenceBytes ≤ limits.evidenceBytes
    ∧ usage.capturedValidationBytes ≤ limits.capturedValidationBytes
    ∧ usage.generatedTokenReservations ≤ limits.generatedTokenReservations) .capacity

def validateStep (step : PendingInvestigationStep) : Except InvestigationStoreError Unit :=
  ensure (idValid step.stepId ∧ hashValid step.payloadHash ∧ hashValid step.inputLedgerHash
    ∧ step.inputBytes ≠ 0 ∧ step.inputBytes ≤ MAX_INPUT_BYTES ∧ step.generatedTokens ≠ 0
    ∧ step.generatedTokens ≤ 2048) .invalid

def validatePending : Option PendingInvestigationStep → Except InvestigationStoreError Unit
  | some step => validateStep step
  | none => pure ()

/-- The statuses a phase can have. -/
def validStatus (t : StoredTask) : Bool :=
  match t.phase with
  | .queued => t.detail.summary.status == .queued && t.execution == none
  | .preparing => t.detail.summary.status == .preparing && t.execution.isSome
  | .consent => t.detail.summary.status == .awaitingConsent && t.pending.isSome
  | .ready | .invocation | .action | .tool => t.detail.summary.status == .running
  | .terminal =>
    match t.detail.summary.status with
    | .completed | .failed | .cancelled | .interrupted | .outcomeUnknown => true
    | _ => false

def validExecution (t : StoredTask) : Bool :=
  match t.execution with
  | some identity => identity.namespaceValue == t.detail.contextOwner
      && identity.jobId == t.detail.summary.jobId && identity.generation != 0
      && isToken identity.owner
  | none => t.phase == .queued || t.phase == .terminal

/-- The fields that are checked one by one. -/
def validFields (env : Env) (t : StoredTask) : Prop :=
  t.schemaVersion = 1 ∧ t.detail.summary.schemaVersion = 1
    ∧ idValid t.detail.summary.investigationId ∧ idValid t.detail.summary.conversationId
    ∧ idValid t.nonce ∧ hashValid t.intentHash ∧ 0 < t.detail.summary.jobId
    ∧ t.detail.summary.parentId.all idValid ∧ isToken t.detail.contextOwner
    ∧ t.detail.specialist = t.detail.summary.specialistId.definition env
    ∧ t.detail.provider.mode = t.detail.summary.providerMode ∧ t.detail.limits = {}
    ∧ unredacted env t.detail.summary.question MAX_QUESTION_BYTES
    ∧ t.detail.summary.lastEventSequence ≤ MAX_EVENTS
    ∧ (t.detail.summary.actions.canCancel ↔ t.phase ≠ .terminal
      ∧ t.detail.summary.cancelRequested = false)
    ∧ t.detail.summary.actions.canFollowUp
    ∧ (t.detail.summary.invocationPending ↔ t.phase = .invocation)
    ∧ (t.ledgerHash.isSome ↔ t.ledgerRevision.isSome) ∧ t.ledgerHash.all hashValid
    ∧ t.detail.citations.length ≤ 76 ∧ t.detail.summary.createdAt.utf8ByteSize ≤ 32
    ∧ t.detail.summary.updatedAt.utf8ByteSize ≤ 32

instance (env : Env) (t : StoredTask) : Decidable (validFields env t) := by
  unfold validFields
  infer_instance

/-- What is present in which phase. -/
def validPresence (t : StoredTask) : Prop :=
  (t.pending.isSome ↔ t.phase = .consent ∨ t.phase = .invocation)
    ∧ (t.approved → t.phase = .consent)
    ∧ (t.actionTool.isSome ↔ t.phase = .action ∨ t.phase = .tool)

instance (t : StoredTask) : Decidable (validPresence t) := by
  unfold validPresence
  infer_instance

def validateTask (env : Env) (t : StoredTask) : Except InvestigationStoreError Unit := do
  ensure (validFields env t) .invalid
  admitted t.detail.summary.scope.validate
  validateProvider env t.detail.provider
  validateUsage t.detail.usage t.detail.limits
  ensure (validStatus t ∧ (t.detail.summary.hasResult ↔ t.detail.summary.status = .completed))
    .invalid
  ensure (validExecution t) .invalid
  validatePending t.pending
  ensure (validPresence t) .invalid
  encode t.detail.summary.toJson 4096

/-- A valid record, check by check. -/
structure ValidTask (env : Env) (t : StoredTask) : Prop where
  fields : validFields env t
  scope : t.detail.summary.scope.validate = .ok ()
  provider : validateProvider env t.detail.provider = .ok ()
  usage : validateUsage t.detail.usage t.detail.limits = .ok ()
  status : validStatus t
  result : t.detail.summary.hasResult ↔ t.detail.summary.status = .completed
  execution : validExecution t
  pending : validatePending t.pending = .ok ()
  presence : validPresence t
  summary : t.detail.summary.toJson.size ≤ 4096

variable {env : Env} {d d' : Draft} {s : Store}

theorem validateTask_eq_ok {t : StoredTask} :
    validateTask env t = .ok () ↔ ValidTask env t := by
  simp only [validateTask, encode, bind_eq_ok, ensure_eq_ok, admitted_eq_ok]
  constructor
  · rintro ⟨⟨⟩, h1, ⟨⟩, h2, ⟨⟩, h3, ⟨⟩, h4, ⟨⟩, ⟨h5, h6⟩, ⟨⟩, h7, ⟨⟩, h8, ⟨⟩, h9, h10⟩
    exact ⟨h1, h2, h3, h4, h5, h6, h7, h8, h9, h10⟩
  · rintro ⟨h1, h2, h3, h4, h5, h6, h7, h8, h9, h10⟩
    exact ⟨(), h1, (), h2, (), h3, (), h4, (), ⟨h5, h6⟩, (), h7, (), h8, (), h9, h10⟩

/-! ### Loading and saving -/

def Store.loadTask (env : Env) (s : Store) (id : String) :
    Except InvestigationStoreError TaskRow := do
  ensure (idValid id) .invalid
  let row ← orFail (s.tasks.find? id) .missing
  ensure (row.nonce.utf8ByteSize ≤ 128 ∧ row.conversationId.utf8ByteSize ≤ 128
    ∧ decodable row.record.toJson) .invalid
  validateTask env row.record
  signed row.record.detail.summary.revision
  ensure (row.record.detail.summary.investigationId = id
    ∧ row.record.detail.summary.revision = row.revision
    ∧ (row.live ↔ row.record.phase ≠ .terminal) ∧ row.record.detail.summary.jobId = row.jobId
    ∧ row.record.nonce = row.nonce ∧ row.record.detail.summary.conversationId = row.conversationId
    ∧ row.record.detail.contextOwner = s.ns.value.text) .invalid
  pure row

/-- The record, the rows and the jobs as a transaction has left them so far. -/
structure Draft where
  task : StoredTask
  rows : Rows
  jobs : Table ℕ JobRow

/-- The bytes of a body table: body, hash and a fixed overhead for each row. -/
def bodyBytes (bodies : List Json) : ℕ := (bodies.map fun body => body.size + 64 + 256).sum

/-- Everything one task stores. -/
def Rows.bytes (rows : Rows) (taskId : String) : ℕ :=
  bodyBytes (rows.events.rows.map fun r => r.2.toJson)
    + bodyBytes (rows.inputs.rows.map fun r => r.2.toJson)
    + bodyBytes (rows.invocations.rows.map fun r => r.2.toJson)
    + bodyBytes (rows.responses.rows.map fun r => r.2.toJson)
    + bodyBytes (rows.result.toList.map InvestigationResult.toJson)
    + (rows.refs.map fun r => taskId.utf8ByteSize + r.1.sourceId.utf8ByteSize
        + r.1.repoKey.utf8ByteSize + r.1.receiptId.utf8ByteSize + 128).sum

def TaskRow.bytes (row : TaskRow) (id : String) : ℕ :=
  1024 + (row.record.toJson.size + 64 + id.utf8ByteSize + row.nonce.utf8ByteSize
    + row.conversationId.utf8ByteSize) + row.rows.bytes id

def checkTaskCapacity (row : TaskRow) (id : String) (terminal : Bool) :
    Except InvestigationStoreError Unit :=
  ensure (row.bytes id ≤ if terminal then TASK_CAPACITY else TASK_CAPACITY - TERMINAL_RESERVE)
    .capacity

/-- The row with the record and the rows of a draft. -/
def TaskRow.saved (row : TaskRow) (d : Draft) : TaskRow :=
  { row with revision := d.task.detail.summary.revision,
             live := decide (d.task.phase ≠ .terminal), record := d.task, rows := d.rows }

def Store.saveTask (env : Env) (s : Store) (d : Draft) (expectedRevision : ℕ) (terminal : Bool) :
    Except InvestigationStoreError Store := do
  validateTask env d.task
  encode d.task.toJson MAX_RECORD_BYTES
  signed d.task.detail.summary.revision
  signed expectedRevision
  let row ← orFail (s.tasks.find? d.task.detail.summary.investigationId) .storage
  ensure (row.revision = expectedRevision) .storage
  checkTaskCapacity (row.saved d) d.task.detail.summary.investigationId terminal
  pure { s with jobs := d.jobs,
                tasks := s.tasks.put d.task.detail.summary.investigationId (row.saved d) }

def Store.checkStartCapacity (s : Store) (newConversation : Bool) :
    Except InvestigationStoreError Unit :=
  ensure (s.tasks.rows.length < MAX_TASKS
    ∧ (s.tasks.rows.filter fun r => r.2.live).length < MAX_LIVE_TASKS
    ∧ (newConversation → s.conversations.rows.length < MAX_TASKS)
    ∧ (s.tasks.rows.length + 1) * TASK_CAPACITY ≤ STORE_CAPACITY) .capacity

/-! ### Events and revisions -/

/-- The last sequence number an event of this kind may take. -/
def eventMaximum (phase : Phase) (kind : InvestigationEventKind) : ℕ :=
  if phase = .terminal then MAX_EVENTS
  else if kind = .cancelRequested then MAX_EVENTS - 2
  else MAX_EVENTS - 3

def Draft.recorded (d : Draft) (now : Timestamp) (kind : InvestigationEventKind)
    (step : Option String) (tool : Option InvestigationTool) (summary : String) : Draft :=
  { d with
    task := d.task.sequenced
    rows := { d.rows with events := d.rows.events.put (d.task.detail.summary.lastEventSequence + 1)
                            (d.task.eventRow now kind step tool summary) } }

def event (now : Timestamp) (d : Draft) (kind : InvestigationEventKind) (step : Option String)
    (tool : Option InvestigationTool) (summary : String) :
    Except InvestigationStoreError Draft := do
  ensure (d.task.detail.summary.lastEventSequence + 1 ≤ eventMaximum d.task.phase kind) .capacity
  encode (d.task.eventRow now kind step tool summary).toJson (16 * 1024)
  ensure (d.rows.events.find? (d.task.detail.summary.lastEventSequence + 1) = none) .storage
  pure (d.recorded now kind step tool summary)

def bump (now : Timestamp) (d : Draft) : Except InvestigationStoreError Draft := do
  ensure (d.task.detail.summary.revision + 1 < 2 ^ 64) .capacity
  pure { d with task := d.task.bumped now }

/-- The revision and the event every transition ends with. -/
def note (clock : Clock) (d : Draft) (kind : InvestigationEventKind) (step : Option String)
    (tool : Option InvestigationTool) (summary : String) :
    Except InvestigationStoreError Draft := do
  let d ← bump (clock 0) d
  event (clock 1) d kind step tool summary

/-! ### What the bookkeeping requires and does -/

/-- The draft after a revision and an event. -/
def Draft.noted (d : Draft) (clock : Clock) (kind : InvestigationEventKind) (step : Option String)
    (tool : Option InvestigationTool) (summary : String) : Draft :=
  Draft.recorded { d with task := d.task.bumped (clock 0) } (clock 1) kind step tool summary

theorem bump_eq_ok :
    bump now d = .ok d' ↔
      d.task.detail.summary.revision + 1 < 2 ^ 64 ∧ d' = { d with task := d.task.bumped now } := by
  simp only [bump, bind_eq_ok, ensure_eq_ok, pure_eq_ok]
  constructor
  · rintro ⟨⟨⟩, h, rfl⟩
    exact ⟨h, rfl⟩
  · rintro ⟨h, rfl⟩
    exact ⟨(), h, rfl⟩

/-- Room for one more event, and none under its number yet. -/
structure EventRoom (d : Draft) (kind : InvestigationEventKind) : Prop where
  sequence : d.task.detail.summary.lastEventSequence + 1 ≤ eventMaximum d.task.phase kind
  fresh : d.rows.events.find? (d.task.detail.summary.lastEventSequence + 1) = none

theorem event_eq_ok :
    event now d kind step tool summary = .ok d' ↔
      EventRoom d kind ∧ (d.task.eventRow now kind step tool summary).toJson.size ≤ 16 * 1024
        ∧ d' = d.recorded now kind step tool summary := by
  simp only [event, encode, bind_eq_ok, ensure_eq_ok, pure_eq_ok]
  constructor
  · rintro ⟨⟨⟩, hseq, ⟨⟩, hsize, ⟨⟩, hfresh, rfl⟩
    exact ⟨⟨hseq, hfresh⟩, hsize, rfl⟩
  · rintro ⟨⟨hseq, hfresh⟩, hsize, rfl⟩
    exact ⟨(), hseq, (), hsize, (), hfresh, rfl⟩

theorem note_eq_ok {clock : Clock} :
    note clock d kind step tool summary = .ok d' ↔
      d.task.detail.summary.revision + 1 < 2 ^ 64 ∧ EventRoom d kind
        ∧ ((d.task.bumped (clock 0)).eventRow (clock 1) kind step tool summary).toJson.size
          ≤ 16 * 1024
        ∧ d' = d.noted clock kind step tool summary := by
  simp only [note, bind_eq_ok, bump_eq_ok, event_eq_ok]
  constructor
  · rintro ⟨_, ⟨hrev, rfl⟩, ⟨hseq, hfresh⟩, hsize, rfl⟩
    exact ⟨hrev, ⟨hseq, hfresh⟩, hsize, rfl⟩
  · rintro ⟨hrev, ⟨hseq, hfresh⟩, hsize, rfl⟩
    exact ⟨_, ⟨hrev, rfl⟩, ⟨hseq, hfresh⟩, hsize, rfl⟩

/-! ### What loading and saving check -/

/-- A row that loads: its record is valid and its columns say what the record says. -/
structure Loaded (env : Env) (s : Store) (id : String) (row : TaskRow) : Prop where
  stored : s.tasks.find? id = some row
  valid : validateTask env row.record = .ok ()
  investigationId : row.record.detail.summary.investigationId = id
  revision : row.record.detail.summary.revision = row.revision
  live : row.live = true ↔ row.record.phase ≠ .terminal
  jobId : row.record.detail.summary.jobId = row.jobId
  nonce : row.record.nonce = row.nonce
  conversationId : row.record.detail.summary.conversationId = row.conversationId
  owner : row.record.detail.contextOwner = s.ns.value.text

theorem loadTask_ok {row : TaskRow} (h : s.loadTask env id = .ok row) :
    Loaded env s id row := by
  simp only [Store.loadTask, signed, bind_eq_ok, ensure_eq_ok, orFail_eq_ok, pure_eq_ok] at h
  obtain ⟨⟨⟩, -, row', hfind, ⟨⟩, -, ⟨⟩, hvalid, ⟨⟩, -, ⟨⟩, ⟨h1, h2, h3, h4, h5, h6, h7⟩, rfl⟩ := h
  exact ⟨hfind, hvalid, h1, h2, h3, h4, h5, h6, h7⟩

theorem loadTask_error (h : s.loadTask env id = .error e) :
    e = .invalid ∨ e = .missing
      ∨ ∃ row, s.tasks.find? id = some row ∧ validateTask env row.record = .error e := by
  simp only [Store.loadTask, signed, bind_eq_error, ensure_eq_error, orFail_eq_error, pure_ne_error,
    orFail_eq_ok] at h
  rcases h with ⟨-, rfl⟩ | ⟨⟨⟩, -, ⟨-, rfl⟩ | ⟨row, hfind, ⟨-, rfl⟩ | ⟨⟨⟩, -, hv | ⟨⟨⟩, -, ⟨-, rfl⟩ |
    ⟨⟨⟩, -, ⟨-, rfl⟩ | ⟨⟨⟩, -, hp⟩⟩⟩⟩⟩⟩
  · exact .inl rfl
  · exact .inr (.inl rfl)
  · exact .inl rfl
  · exact .inr (.inr ⟨row, hfind, hv⟩)
  · exact .inl rfl
  · exact .inl rfl
  · exact absurd hp (by simp)

/-- The limits a saved draft is within. -/
structure Savable (env : Env) (d : Draft) (row : TaskRow) (terminal : Bool) : Prop where
  valid : validateTask env d.task = .ok ()
  record : d.task.toJson.size ≤ MAX_RECORD_BYTES
  capacity : (row.saved d).bytes d.task.detail.summary.investigationId
    ≤ if terminal then TASK_CAPACITY else TASK_CAPACITY - TERMINAL_RESERVE

theorem saveTask_ok {s' : Store} {revision : ℕ} {terminal : Bool}
    (h : s.saveTask env d revision terminal = .ok s') :
    ∃ row, s.tasks.find? d.task.detail.summary.investigationId = some row
      ∧ Savable env d row terminal
      ∧ s' = { s with jobs := d.jobs,
                      tasks := s.tasks.put d.task.detail.summary.investigationId (row.saved d) } := by
  simp only [Store.saveTask, encode, signed, checkTaskCapacity, bind_eq_ok, ensure_eq_ok,
    orFail_eq_ok, pure_eq_ok] at h
  obtain ⟨⟨⟩, hvalid, ⟨⟩, hrecord, ⟨⟩, -, ⟨⟩, -, row, hfind, ⟨⟩, -, ⟨⟩, hcap, rfl⟩ := h
  exact ⟨row, hfind, ⟨hvalid, hrecord, hcap⟩, rfl⟩

end Jobs

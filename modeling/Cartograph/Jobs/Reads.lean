/-
Reads of the coordinator (`jobs/investigations/reads.rs`).

History and events are read a page at a time; receipt references are read through an
index that is compared with every stored ledger first.  A read changes nothing, so it
is a function of the store.

The text of a history cursor is modelled by the value it renders; a text that does not
decode to one is refused like a value that fails its checks.  Numbers of a cursor that
are negative are refused too, so they are natural numbers here.  The map of expected
references is a list of its entries in the order they were inserted; nothing depends
on that order.
-/
import Cartograph.Jobs.Execution

namespace Jobs

open Investigation Checked

/-! ### History -/

structure HistoryCursor where
  version : ℕ
  namespaceValue : String
  conversation : Option String
  high : ℕ
  before : ℕ
  deriving DecidableEq

def HistoryCursor.toJson (c : HistoryCursor) : Json :=
  .obj [("version", .nat c.version), ("namespace", .str c.namespaceValue),
    ("conversation", .opt .str c.conversation), ("high", .nat c.high), ("before", .nat c.before)]

structure InvestigationPage where
  items : List InvestigationSummary
  nextCursor : Option HistoryCursor
  deriving DecidableEq

/-- The cursor is a text within the page. -/
def InvestigationPage.toJson (p : InvestigationPage) : Json :=
  .obj [("items", .arr (p.items.map InvestigationSummary.toJson)),
    ("next_cursor", .opt (fun c => .str (HistoryCursor.toJson c).render) p.nextCursor)]

/-- `coalesce(max(ordinal),0)`. -/
def Store.maxOrdinal (s : Store) : ℕ := (s.tasks.rows.map fun r => r.2.ordinal).foldr max 0

/-- Where a page begins: the high-water mark, and the ordinal of the last task shown. -/
def Store.historySelection (s : Store) (conversationId : Option String) :
    Option HistoryCursor → Except InvestigationStoreError HistoryCursor
  | some cursor => do
    ensure (cursor.toJson.size ≤ 512 ∧ decodable cursor.toJson) .invalid
    ensure (cursor.version = 1 ∧ cursor.namespaceValue = s.ns.value.text
      ∧ cursor.conversation = conversationId ∧ cursor.before ≠ 0
      ∧ cursor.before ≤ cursor.high) .invalid
    pure cursor
  | none => do
    ensure (s.maxOrdinal + 1 ≤ MAX_ROWID) .capacity
    pure ⟨1, s.ns.value.text, conversationId, s.maxOrdinal, s.maxOrdinal + 1⟩

/-- The tasks a page may show, newest first. -/
def Store.historyRows (s : Store) (conversationId : Option String) (selection : HistoryCursor) :
    List (String × TaskRow) :=
  (s.tasks.rows.filter fun r => decide (r.2.ordinal ≤ selection.high)
    && decide (r.2.ordinal < selection.before)
    && conversationId.all (fun id => r.2.conversationId == id)).mergeSort
      fun a b => decide (b.2.ordinal ≤ a.2.ordinal)

/-- What one task adds to a page. -/
def Store.historyItem (env : Env) (s : Store) (row : String × TaskRow) :
    Except InvestigationStoreError InvestigationSummary := do
  ensure (row.1.utf8ByteSize ≤ 128) .invalid
  ensure (row.2.ordinal ≠ 0) .invalid
  let task ← s.loadTask env row.1
  encode task.record.detail.summary.toJson 4096
  pure task.record.detail.summary

/-- Fill a page: the items, the ordinal of the last one, and whether a row was left. -/
def Store.fillHistory (env : Env) (s : Store) : List InvestigationSummary → ℕ → ℕ →
    List (String × TaskRow) → Except InvestigationStoreError (List InvestigationSummary × ℕ × Bool)
  | items, _, before, [] => pure (items, before, false)
  | items, remaining, before, row :: rest => do
    let summary ← s.historyItem env row
    if items.length = 50 ∨ remaining < summary.toJson.size + 1 then pure (items, before, true)
    else
      s.fillHistory env (items ++ [summary]) (remaining - (summary.toJson.size + 1)) row.2.ordinal
        rest

/-- `investigation_history`. -/
def Store.investigationHistory (env : Env) (s : Store) (conversationId : Option String)
    (cursor : Option HistoryCursor) : Except InvestigationStoreError InvestigationPage := do
  ensure (conversationId.all idValid) .invalid
  let selection ← s.historySelection conversationId cursor
  let (items, before, more) ← s.fillHistory env [] (256 * 1024 - 4096) selection.before
    ((s.historyRows conversationId selection).take 51)
  let nextCursor := if more then some { selection with before := before } else none
  ensure (∀ c ∈ nextCursor, c.toJson.size ≤ 512) .capacity
  let page := ⟨items, nextCursor⟩
  encode page.toJson (256 * 1024)
  pure page

/-! ### Events -/

structure InvestigationEventPage where
  investigationId : String
  items : List InvestigationEvent
  nextSequence : ℕ
  hasMore : Bool
  deriving DecidableEq

def InvestigationEventPage.toJson (p : InvestigationEventPage) : Json :=
  .obj [("investigation_id", .str p.investigationId),
    ("items", .arr (p.items.map InvestigationEvent.toJson)), ("next_sequence", .nat p.nextSequence),
    ("has_more", .bool p.hasMore)]

/-- An event of a task, as it may be shown after event number `last`. -/
def eventShown (env : Env) (t : StoredTask) (id : String) (sequence last : ℕ)
    (event : InvestigationEvent) : Except InvestigationStoreError Unit := do
  ensure (event.investigationId = id) .invalid
  signed event.sequence
  ensure (event.sequence = sequence ∧ event.sequence = last + 1
    ∧ event.sequence ≤ t.detail.summary.lastEventSequence
    ∧ event.revision ≤ t.detail.summary.revision ∧ event.summary.utf8ByteSize ≤ 1024) .invalid
  let redacted ← admitted (redactedHistoryText env event.summary 1024)
  ensure (redacted = event.summary ∧ event.stepId.all idValid
    ∧ event.createdAt.utf8ByteSize ≤ 32) .invalid

def fillEvents (env : Env) (task : TaskRow) (id : String) : List InvestigationEvent → ℕ → ℕ →
    List ℕ → Except InvestigationStoreError (List InvestigationEvent × ℕ × Bool)
  | items, _, last, [] => pure (items, last, false)
  | items, remaining, last, sequence :: rest => do
    let body ← readBody InvestigationEvent.toJson (task.rows.events.find? sequence)
    let event ← orFail body .invalid
    eventShown env task.record id sequence last event
    encode event.toJson (16 * 1024)
    if items.length = 50 ∨ remaining < event.toJson.size + 1 then pure (items, last, true)
    else
      fillEvents env task id (items ++ [event]) (remaining - (event.toJson.size + 1)) event.sequence
        rest

/-- `investigation_events`. -/
def Store.investigationEvents (env : Env) (s : Store) (id : String) (afterSequence : ℕ) :
    Except InvestigationStoreError InvestigationEventPage := do
  ensure (afterSequence ≤ MAX_EVENTS) .invalid
  let task ← s.loadTask env id
  signed afterSequence
  let sequences := ((task.rows.events.rows.map Prod.fst).filter fun n => decide (afterSequence < n)).take 51
  let (items, nextSequence, hasMore) ← fillEvents env task id [] (256 * 1024 - 4096) afterSequence
    sequences
  ensure (¬(hasMore = false ∧ nextSequence < task.record.detail.summary.lastEventSequence)) .invalid
  let page := ⟨id, items, nextSequence, hasMore⟩
  encode page.toJson (256 * 1024)
  pure page

/-! ### Receipt references -/

structure InvestigationReceiptUse where
  investigationId : String
  sourceId : String
  repoKey : String
  receiptId : String
  deriving DecidableEq

/-- A reference of a task. -/
abbrev ReferenceKey := String × InvestigationReceiptReference

/-- The revision each reference is expected at. -/
abbrev Expected := List (ReferenceKey × ℕ)

/-- `entry(key).or_insert(revision)`. -/
def Expected.orInsert (expected : Expected) (key : ReferenceKey) (revision : ℕ) : Expected :=
  if key ∈ expected.map Prod.fst then expected else expected ++ [(key, revision)]

def takeRefs (id : String) (revision : ℕ) : Expected → List InvestigationReceiptReference →
    Except InvestigationStoreError Expected
  | expected, [] => pure expected
  | expected, r :: rest => do
    let expected := expected.orInsert (id, r) revision
    ensure (expected.length ≤ 8192) .capacity
    takeRefs id revision expected rest

/-- A stored ledger, compared with the record and the current ledger of its task. -/
def takeLedger (id : String) (task : TaskRow) (current : Option InvestigationInputLedger)
    (expected : Expected) (revision : ℕ) : Except InvestigationStoreError Expected := do
  let body ← readBody InvestigationInputLedger.toJson (task.rows.inputs.find? revision)
  let ledger ← orFail body .invalid
  admitted ledger.validate
  encode ledger.toJson MAX_MANIFEST_BYTES
  signed ledger.revision
  ensure (ledger.revision = revision
    ∧ task.record.detail.summary.graphSnapshotId = some ledger.graphSnapshotId
    ∧ task.record.detail.scopeSnapshotId = some ledger.scopeSnapshotId
    ∧ current.any fun latest =>
      ledger.receiptReferences.all fun r => latest.receiptReferences.contains r) .invalid
  takeRefs id revision expected ledger.receiptReferences

/-- The references of every ledger of a task, and how many ledgers there are. -/
def Store.takeTask (env : Env) (s : Store) (acc : Expected × ℕ) (id : String) :
    Except InvestigationStoreError (Expected × ℕ) := do
  ensure (id.utf8ByteSize ≤ 128) .invalid
  let task ← s.loadTask env id
  let current ← loadLedger env (task.draft s.jobs)
  let revisions := (task.rows.inputs.rows.map Prod.fst).take 10
  signed (task.record.ledgerRevision.getD 0)
  ensure (revisions.length ≤ 9 ∧ revisions.getLast? = task.record.ledgerRevision) .invalid
  let expected ← revisions.foldlM (takeLedger id task current) acc.1
  pure (expected, acc.2 + revisions.length)

/-- Rows of the index, ordered by task and reference. -/
def Store.indexRows (s : Store) : List (ReferenceKey × ℕ) :=
  s.tasks.rows.flatMap fun r =>
    (r.2.rows.refs.mergeSort fun a b => !b.1.lt a.1).map fun ref => ((r.1, ref.1), ref.2)

/-- Every row of the index is expected, and nothing else is. -/
def matchRefs (sourceId : String) : Expected → List (ReferenceKey × ℕ) →
    Except InvestigationStoreError (List InvestigationReceiptUse)
  | expected, [] => do
    ensure (expected = []) .invalid
    pure []
  | expected, (key, revision) :: rest => do
    ensure (key.1.utf8ByteSize ≤ 128 ∧ key.2.sourceId.utf8ByteSize ≤ 256
      ∧ key.2.repoKey.utf8ByteSize ≤ 256 ∧ key.2.receiptId.utf8ByteSize ≤ 256) .invalid
    ensure ((expected.find? fun e => e.1 == key) = some (key, revision)) .invalid
    let uses ← matchRefs sourceId (expected.filter fun e => e.1 != key) rest
    pure (if key.2.sourceId = sourceId then
      ⟨key.1, key.2.sourceId, key.2.repoKey, key.2.receiptId⟩ :: uses else uses)

/-- `investigation_receipt_references`. -/
def Store.investigationReceiptReferences (env : Env) (s : Store) (sourceId : String) :
    Except InvestigationStoreError (List InvestigationReceiptUse) := do
  ensure (idValid sourceId) .invalid
  let inputs := (s.tasks.rows.map fun r => r.2.rows.inputs.rows.length).sum
  let refs := (s.tasks.rows.map fun r => r.2.rows.refs.length).sum
  ensure (s.tasks.rows.length ≤ 128 ∧ inputs ≤ 1152 ∧ refs ≤ 8192) .capacity
  let (expected, checkedInputs) ← (s.tasks.rows.map Prod.fst).foldlM (s.takeTask env) ([], 0)
  ensure (checkedInputs = inputs ∧ expected.length = refs) .invalid
  matchRefs sourceId expected s.indexRows

end Jobs

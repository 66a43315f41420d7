/-
Admission of requests, input ledgers and results
(`crates/agents/src/investigation/{records,protocol,privacy,admission,strict}.rs`).

Each check is the boolean or the chain of early exits the source has.  Sums of
bounded lengths are plain sums: with at most 76 citations of at most 8 KiB, and at
most eight query pages, the 64-bit additions of the source cannot overflow.

A stored body is read back through `preflight`, the streaming shape bound of the
strict decoder, stated here on the JSON value the body renders.
-/
import Cartograph.Investigation.Records
import Cartograph.Lib.Checked

namespace Investigation

open Checked

def MAX_INPUT_BYTES : ℕ := 128 * 1024
def MAX_MANIFEST_BYTES : ℕ := 128 * 1024
def MAX_RESULT_BYTES : ℕ := 64 * 1024
def MAX_RECORD_BYTES : ℕ := 256 * 1024
def MAX_QUERY_BYTES : ℕ := 32 * 1024
def MAX_QUERY_FACTS : ℕ := 32
def MAX_SELECTED_FACTS : ℕ := 64
def MAX_QUESTION_BYTES : ℕ := 2048
def MAX_TOOL_ACTIONS : ℕ := 8

inductive InvestigationError
  | invalidRequest | invalidAction | limitExceeded | invalidInput | invalidCitation | sourceReplay
  | sensitiveOutput
  deriving DecidableEq

/-! ### Texts -/

/-- The Unicode white space `trim` removes. -/
def isWhitespace (ch : Char) : Bool :=
  (0x9 ≤ ch.toNat && ch.toNat ≤ 0xd) || ch.toNat == 0x20 || ch.toNat == 0x85 || ch.toNat == 0xa0
    || ch.toNat == 0x1680 || (0x2000 ≤ ch.toNat && ch.toNat ≤ 0x200a) || ch.toNat == 0x2028
    || ch.toNat == 0x2029 || ch.toNat == 0x202f || ch.toNat == 0x205f || ch.toNat == 0x3000

/-- Not blank, at most `maximum` bytes, no NUL. -/
def text (value : String) (maximum : ℕ) : Bool :=
  value.toList.any (fun ch => !isWhitespace ch) && decide (value.utf8ByteSize ≤ maximum)
    && !(Json.utf8 value).contains 0

/-- `starts_with`. -/
def leads (lead value : String) : Bool := (Json.utf8 lead).isPrefixOf (Json.utf8 value)

/-- A hash behind a fixed lead. -/
def prefixed (value lead : String) : Bool :=
  leads lead value && hashBytes ((Json.utf8 value).drop (Json.utf8 lead).length)

def contextHash (value : String) : Bool := prefixed value "context-v1:"

def receiptId (value : String) : Bool :=
  prefixed value "ts-primary-v1:" || prefixed value "ts-primary-v2:"

def digest (fact : TaskFactKey) (value : String) : Bool :=
  prefixed value (match fact with | .node _ => "node-v1:" | .edge _ _ _ => "edge-v1:")

/-- A relative path without empty, `.` or `..` parts. -/
def path (value : String) : Bool :=
  text value 1024 && value.toList.head? != some '/'
    && !value.toList.any (fun ch => ch == '\\' || ch == ':')
    && (value.toList.splitOn '/').all fun p => p != [] && p != ['.'] && p != ['.', '.']

def validFact : TaskFactKey → Bool
  | .node id => text id 8192
  | .edge source label destination => text source 8192 && text label 256 && text destination 8192

/-- The text of a value, within a byte limit. -/
def boundedBytes (value : Json) (limit : ℕ) : Except InvestigationError String := do
  ensure (value.size ≤ limit) .limitExceeded
  pure value.render

/-- A bounded redacted copy for durable question and history fields. -/
def redactedHistoryText (env : Env) (input : String) (maximum : ℕ) :
    Except InvestigationError String := do
  ensure (text input maximum ∧ maximum ≤ MAX_INPUT_BYTES) .invalidRequest
  ensure (text (env.redactText input).1 maximum) .limitExceeded
  pure (env.redactText input).1

/-! ### Requests and queries -/

def InvestigationScope.validate : InvestigationScope → Except InvestigationError Unit
  | .all => pure ()
  | .neighborhood anchor hops => ensure (text anchor 1024 ∧ 1 ≤ hops ∧ hops ≤ 3) .invalidRequest

def StartInvestigationRequest.validate (r : StartInvestigationRequest) :
    Except InvestigationError Unit := do
  r.scope.validate
  ensure (r.schemaVersion = 1 ∧ text r.question MAX_QUESTION_BYTES ∧ idValid r.requestNonce
    ∧ r.limitProfile = "investigation-v1" ∧ r.expectedGraphRevision.all contextHash
    ∧ r.conversationId.all idValid ∧ r.parentId.all idValid
    ∧ ¬(r.parentId.isSome ∧ r.conversationId = none)) .invalidRequest
  ensure (r.toJson.size ≤ 8 * 1024) .limitExceeded

def StartInvestigationRequest.intentHash (env : Env) (r : StartInvestigationRequest) :
    Except InvestigationError String := do
  r.validate
  let body ← boundedBytes r.toJson (8 * 1024)
  pure (env.domainHash "cartograph:investigation-client-intent:v1\x00" body).text

def InvestigationQuery.validate (q : InvestigationQuery) : Except InvestigationError Unit := do
  q.scope.validate
  ensure (1 ≤ q.maxFacts ∧ q.maxFacts ≤ MAX_QUERY_FACTS ∧ 1 ≤ q.maxBytes
    ∧ q.maxBytes ≤ MAX_QUERY_BYTES ∧ q.labels.length ≤ 16
    ∧ q.labels.all (fun label => text label 128)) .invalidAction
  ensure (q.cursor.all fun c => text c.snapshotId 128 && text c.selectionId 128
    && decide (c.offset ≤ 50000)) .invalidAction

/-! ### Input ledgers -/

/-- Selected facts in strictly increasing order, each with its digest and binding. -/
def factsValid : Option TaskFactKey → List TaskFactSelection → Bool
  | _, [] => true
  | previous, f :: rest =>
    validFact f.fact && digest f.fact f.factDigest && previous.all (fun p => p.lt f.fact)
      && f.binding.all (fun b => text b.repoKey 256 && receiptId b.receiptId
        && b.emittedFactDigest == f.factDigest)
      && factsValid (some f.fact) rest

def receiptsValid : Option InvestigationReceiptReference → List InvestigationReceiptReference → Bool
  | _, [] => true
  | previous, r :: rest =>
    text r.sourceId 256 && text r.repoKey 256 && receiptId r.receiptId
      && previous.all (fun p => p.lt r) && receiptsValid (some r) rest

def InvestigationEvidenceOrigin.isGraph : InvestigationEvidenceOrigin → Bool
  | .graphMetadata => true
  | _ => false

/-- The bytes of the file a captured citation has to validate. -/
def InvestigationEvidenceOrigin.capturedBytes : InvestigationEvidenceOrigin → ℕ
  | .capturedPrimarySource _ _ _ captured => captured.file.byteLen
  | _ => 0

def InvestigationCitation.sourceBytes (c : InvestigationCitation) : ℕ :=
  match c.source with
  | some source => source.byteEnd - source.byteStart
  | none => 0

/-- The checks on where the text of a citation came from. -/
def originValid (references : List InvestigationReceiptReference)
    (binding : Option TaskSourceAssociation) (source : EvidenceRef) (role : Option TaskRangeRole) :
    InvestigationEvidenceOrigin → Bool
  | .graphMetadata => false
  | .workingTreeUnverified => binding == none
  | .capturedPrimarySource registeredSourceId receipt receiptInventoryIndex captured =>
    binding.any fun b =>
      b.repoKey == source.repo && b.receiptId == receipt
        && references.any (fun r => r.sourceId == registeredSourceId && r.repoKey == b.repoKey
          && r.receiptId == receipt)
        && text registeredSourceId 256 && decide (receiptInventoryIndex < 1024)
        && captured.file.sourceId == registeredSourceId
        && prefixed captured.file.captureId "capture-v1:"
        && hashValid captured.file.digest && captured.file.path == source.path
        && decide (captured.file.byteLen ≤ 16 * 1024 * 1024)
        && captured.byteStart == source.byteStart && captured.byteEnd == source.byteEnd
        && decide (captured.byteEnd ≤ captured.file.byteLen)
        -- receipts of version one have no definition ranges
        && !(leads "ts-primary-v1:" receipt
          && role.any TaskRangeRole.definition)

def InvestigationInputLedger.citationValid (l : InvestigationInputLedger)
    (c : InvestigationCitation) : Bool :=
  (l.selectedFacts.find? fun f => f.fact == c.fact).any fun selected =>
    idValid c.citationId && selected.factDigest == c.factDigest &&
      (if c.origin.isGraph then
        c.source == none && c.role == none && c.index == none && c.textHash == none
      else c.source.any fun source =>
        text source.repo 256 && path source.path && text source.commitSha 256
          && decide (source.byteStart < source.byteEnd)
          && decide (source.byteEnd - source.byteStart ≤ 8192)
          && c.role.isSome && c.index.any (fun i => decide (i < 1024))
          && c.textHash.any hashValid
          && originValid l.receiptReferences selected.binding source c.role c.origin)

def InvestigationInputLedger.graphCitations (l : InvestigationInputLedger) :
    List InvestigationCitation :=
  l.citations.filter fun c => c.origin.isGraph

def InvestigationInputLedger.evidence (l : InvestigationInputLedger) : List InvestigationCitation :=
  l.citations.filter fun c => !c.origin.isGraph

/-- The receipts the selected facts are bound to. -/
def InvestigationInputLedger.expectedReceipts (l : InvestigationInputLedger) :
    List (String × String) :=
  l.selectedFacts.filterMap fun f => f.binding.map fun b => (b.repoKey, b.receiptId)

def InvestigationInputLedger.referenced (l : InvestigationInputLedger) : List (String × String) :=
  l.receiptReferences.map fun r => (r.repoKey, r.receiptId)

def InvestigationQueryManifest.valid (scopeSnapshotId : String) (q : InvestigationQueryManifest) :
    Bool :=
  hashValid q.responseHash && decide (q.responseBytes ≤ q.query.maxBytes)
    && q.responseBytes != 0 && decide (q.returnedFacts ≤ q.query.maxFacts)
    && decide (q.totalSelected ≤ 50000) && decide (q.returnedFacts ≤ q.totalSelected)
    && q.query.cursor.all (fun c => c.snapshotId == scopeSnapshotId)

def queriesValid (scopeSnapshotId : String) :
    List InvestigationQueryManifest → Except InvestigationError Unit
  | [] => pure ()
  | q :: rest => do
    q.query.validate
    ensure (q.valid scopeSnapshotId) .invalidInput
    queriesValid scopeSnapshotId rest

/-- Bounded, complete metadata before publication or use as a historical basis. -/
def InvestigationInputLedger.validate (l : InvestigationInputLedger) :
    Except InvestigationError Unit := do
  ensure (l.schemaVersion = 1 ∧ contextHash l.graphSnapshotId ∧ contextHash l.scopeSnapshotId
    ∧ l.selectedFacts.length ≤ MAX_SELECTED_FACTS
    ∧ l.receiptReferences.length ≤ MAX_SELECTED_FACTS ∧ l.queries.length ≤ MAX_TOOL_ACTIONS
    ∧ l.citations.length ≤ MAX_SELECTED_FACTS + 12 ∧ l.suppliedHistoryBytes ≤ 16 * 1024
    ∧ (l.suppliedHistoryBytes = 0 ↔ l.suppliedHistoryHash = none)
    ∧ l.suppliedHistoryHash.all hashValid) .invalidInput
  ensure (factsValid none l.selectedFacts) .invalidInput
  ensure (receiptsValid none l.receiptReferences ∧ l.referenced.Nodup) .invalidInput
  ensure ((∀ x ∈ l.referenced, x ∈ l.expectedReceipts)
    ∧ ∀ x ∈ l.expectedReceipts, x ∈ l.referenced) .invalidInput
  ensure (l.citations.all l.citationValid ∧ (l.citations.map (·.citationId)).Nodup
    ∧ (l.graphCitations.map (·.fact)).Nodup) .invalidInput
  ensure (l.graphCitations.length = l.selectedFacts.length ∧ l.evidence.length ≤ 12
    ∧ (l.evidence.map (·.sourceBytes)).sum ≤ 48 * 1024
    ∧ (l.evidence.map (·.origin.capturedBytes)).sum ≤ 128 * 1024 * 1024) .invalidInput
  queriesValid l.scopeSnapshotId l.queries
  ensure ((l.queries.map (·.responseBytes)).sum ≤ 96 * 1024
    ∧ l.selectedFacts.length ≤ (l.queries.map (·.returnedFacts)).sum) .invalidInput
  ensure (l.toJson.size ≤ MAX_MANIFEST_BYTES) .limitExceeded

def InvestigationInputLedger.fingerprint (env : Env) (l : InvestigationInputLedger) :
    Except InvestigationError String := do
  l.validate
  let body ← boundedBytes l.toJson MAX_MANIFEST_BYTES
  pure (env.domainHash "cartograph:investigation-input-ledger:v1\x00" body).text

/-! ### Replay rejection -/

/-- Every stretch of `n` consecutive items. -/
def windows {α : Type} (n : ℕ) (l : List α) : List (List α) :=
  (l.tails.map (·.take n)).filter fun w => w.length == n

def normalize (s : String) : List Char := s.toList.filter fun ch => !isWhitespace ch

/-- Join the prose, refusing what is too long or would be redacted. -/
def joinProse (env : Env) : String → List String → Except InvestigationError String
  | joined, [] => pure joined
  | joined, part :: rest => do
    ensure (part.utf8ByteSize ≤ MAX_INPUT_BYTES - joined.utf8ByteSize) .limitExceeded
    ensure ((env.redactText part).2 = 0) .sensitiveOutput
    joinProse env (joined ++ part) rest

def repeats (rejectShort : Bool) (output source : List Char) : Bool :=
  if source.isEmpty then false
  else if source.length < 48 then rejectShort && (windows source.length output).contains source
  else (windows 48 source).any fun part => (windows 48 output).contains part

def rejectSupplied (env : Env) (rejectShort : Bool) (output : List Char) :
    ℕ → ℕ → List String → Except InvestigationError Unit
  | _, _, [] => pure ()
  | bytes, items, item :: rest => do
    ensure (bytes + item.utf8ByteSize ≤ MAX_INPUT_BYTES ∧ items + 1 ≤ 16384) .limitExceeded
    ensure (repeats rejectShort output (normalize item) = false) .sourceReplay
    ensure ((env.redactText item).2 = 0
      ∨ repeats rejectShort output (normalize (env.redactText item).1) = false) .sourceReplay
    rejectSupplied env rejectShort output (bytes + item.utf8ByteSize) (items + 1) rest

def rejectReplay (env : Env) (rejectShort : Bool) (prose supplied : List String) :
    Except InvestigationError Unit := do
  let joined ← joinProse env "" prose
  rejectSupplied env rejectShort (normalize joined) 0 0 supplied

def rejectProseReplay (env : Env) (prose supplied : List String) :
    Except InvestigationError Unit :=
  rejectReplay env true prose supplied

/-! ### Actions and results -/

structure ProposedInvestigationFinding where
  claimKind : InvestigationClaimKind
  title : String
  statement : String
  citationIds : List String
  limitations : List String
  deriving DecidableEq

inductive InvestigationAction
  | queryContext (query : InvestigationQuery)
  | readEvidence (fact : TaskFactKey) (role : TaskRangeRole) (index : ℕ)
  | finish (findings : List ProposedInvestigationFinding)
      (knowledgeCompleteness : KnowledgeCompleteness) (limitations : List String)
  deriving DecidableEq

def validLimitations (values : List String) : Bool :=
  !values.isEmpty && decide (values.length ≤ 8) && values.all fun value => text value 512

def ProposedInvestigationFinding.valid (f : ProposedInvestigationFinding) : Bool :=
  text f.title 160 && text f.statement 2048 && !f.citationIds.isEmpty
    && decide (f.citationIds.length ≤ 8) && f.citationIds.all (fun id => text id 128)
    && decide f.citationIds.Nodup && validLimitations f.limitations

def InvestigationAction.validateShape : InvestigationAction → Except InvestigationError Unit
  | .queryContext query => query.validate
  | .readEvidence fact _ index => ensure (validFact fact ∧ index < 1024) .invalidAction
  | .finish findings knowledgeCompleteness limitations =>
    ensure (findings.length ≤ 12
      ∧ (findings = [] ↔ knowledgeCompleteness = .insufficientEvidence)
      ∧ validLimitations limitations ∧ findings.all (·.valid)) .invalidAction

def ProposedInvestigationFinding.prose (f : ProposedInvestigationFinding) : List String :=
  f.title :: f.statement :: f.limitations

/-- The host stamps identity and authority on a model's finding. -/
def ProposedInvestigationFinding.admit (index : ℕ) (f : ProposedInvestigationFinding) :
    InvestigationFinding where
  findingId := "finding-" ++ toString (index + 1)
  claimKind := f.claimKind
  title := f.title
  statement := f.statement
  citationIds := f.citationIds
  limitations := f.limitations
  tier := .agentic
  confidenceTier := .inferredWeak

def InvestigationAction.admitFinish (env : Env) (action : InvestigationAction)
    (admittedCitationIds supplied : List String) :
    Except InvestigationError (List InvestigationFinding) := do
  action.validateShape
  match action with
  | .finish findings _ limitations => do
    ensure (∀ f ∈ findings, ∀ id ∈ f.citationIds, id ∈ admittedCitationIds) .invalidCitation
    rejectProseReplay env (findings.flatMap (·.prose) ++ limitations) supplied
    let admitted := findings.mapIdx fun index f => f.admit index
    ensure ((Json.arr (admitted.map InvestigationFinding.toJson)).size ≤ MAX_RESULT_BYTES)
      .limitExceeded
    pure admitted
  | _ => .error .invalidAction

def InvestigationFinding.proposed (f : InvestigationFinding) : ProposedInvestigationFinding where
  claimKind := f.claimKind
  title := f.title
  statement := f.statement
  citationIds := f.citationIds
  limitations := f.limitations

/-- The identity of a result covers everything but itself. -/
def InvestigationResult.contentId (env : Env) (r : InvestigationResult) :
    Except InvestigationError String := do
  let body ← boundedBytes ({ r with resultId := "" } : InvestigationResult).toJson MAX_RESULT_BYTES
  pure ("investigation-result-v1:"
    ++ (env.domainHash "cartograph:investigation-result:v1\x00" body).text)

/-- Findings are numbered in order and never carry more than agentic authority. -/
def InvestigationResult.findingsValid (r : InvestigationResult) : Bool :=
  (r.findings.mapIdx fun index f => f.findingId == "finding-" ++ toString (index + 1)
    && f.tier == .agentic && f.confidenceTier == .inferredWeak).all id

def InvestigationResult.validate (env : Env) (r : InvestigationResult)
    (ledger : InvestigationInputLedger) : Except InvestigationError Unit := do
  ledger.validate
  let fingerprint ← ledger.fingerprint env
  let contentId ← r.contentId env
  ensure (r.schemaVersion = 1 ∧ idValid r.investigationId ∧ text r.createdAt 64
    ∧ r.graphSnapshotId = ledger.graphSnapshotId ∧ r.inputLedgerHash = fingerprint
    ∧ r.resultId = contentId
    ∧ r.observedResponseModel.all (fun v => text v 256 && (env.redactText v).2 == 0)) .invalidInput
  ensure r.findingsValid .invalidInput
  let _ ← (InvestigationAction.finish (r.findings.map (·.proposed)) r.knowledgeCompleteness
    r.limitations).admitFinish env (ledger.citations.map (·.citationId)) []
  ensure (r.toJson.size ≤ MAX_RESULT_BYTES) .limitExceeded

/-! ### The strict decoder -/

mutual

/-- The number of values of a document, each nested one included. -/
def values : Json → ℕ
  | .arr items => 1 + itemValues items
  | .obj fields => 1 + fieldValues fields
  | .null | .bool _ | .num _ | .str _ => 1

def itemValues : List Json → ℕ
  | [] => 0
  | j :: rest => values j + itemValues rest

def fieldValues : List (String × Json) → ℕ
  | [] => 0
  | (_, j) :: rest => values j + fieldValues rest

end

mutual

/-- Arrays of at most `arrayItems`, objects of at most 64 distinct short keys. -/
def shaped (arrayItems : ℕ) : Json → Bool
  | .arr items => decide (items.length ≤ arrayItems) && itemsShaped arrayItems items
  | .obj fields =>
    decide (fields.length ≤ 64) && (fields.map Prod.fst).all (fun k => decide (k.utf8ByteSize ≤ 128))
      && decide (fields.map Prod.fst).Nodup && fieldsShaped arrayItems fields
  | .null | .bool _ | .num _ | .str _ => true

def itemsShaped (arrayItems : ℕ) : List Json → Bool
  | [] => true
  | j :: rest => shaped arrayItems j && itemsShaped arrayItems rest

def fieldsShaped (arrayItems : ℕ) : List (String × Json) → Bool
  | [] => true
  | (_, j) :: rest => shaped arrayItems j && fieldsShaped arrayItems rest

end

/-- The shape bounds a body has to meet before it is decoded. -/
def preflight (body : Json) (bytes depth maxValues arrayItems : ℕ) : Bool :=
  decide (body.size ≤ bytes) && decide (body.height ≤ depth) && decide (values body ≤ maxValues)
    && shaped arrayItems body

/-- `decode_record`: a record the typed encoder wrote decodes to itself once its
shape is admitted. -/
def decodable (body : Json) : Bool := preflight body MAX_RECORD_BYTES 32 16384 128

end Investigation

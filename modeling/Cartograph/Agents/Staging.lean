/-
The proposal store (`crates/agents/src/staging.rs`).

A proposal is staged once under an id made of its content, and reviewed by compare and
swap on a revision.  The text of the immutable column is modelled by the value it renders,
which the decoder gives back; that a text of this length and shape is admitted is checked
as the decoder checks it.  Each call is one immediate transaction.
-/
import Cartograph.Lib.Runs
import Cartograph.Agents.SourceBasis
import Cartograph.Agents.Citations

namespace Agents

open Investigation Checked

inductive StagingError
  | invalidTask (error : AgentError)
  | annotationReplaysTaskText
  | taskSummariesTooLarge
  | invalidMetadata (text : String)
  | invalidRecord
  | unknownProposal (id : String)
  | staleReviewRevision (expected actual : ℕ)
  | recordTooLarge (bytes : ℕ)
  | invalidLimit
  | invalidCursor
  | referenceInventoryLimit
  | storage
  deriving DecidableEq

inductive EvidenceBinding
  | workingTreeUnverified | perItem
  deriving DecidableEq

def EvidenceBinding.text : EvidenceBinding → String
  | .workingTreeUnverified => "working_tree_unverified"
  | .perItem => "per_item"

inductive ProposalDecision
  | accepted | rejected
  deriving DecidableEq

def ProposalDecision.text : ProposalDecision → String
  | .accepted => "accepted"
  | .rejected => "rejected"

/-! ### Immutable content -/

/-- The context status has one value. -/
def CONTEXT_STATUS : String := "awaiting_reconciliation"

def AgentProposal.fields (p : AgentProposal) : List (String × Json) :=
  [("gap_id", .str p.gapId), ("source_id", .str p.sourceId), ("target_id", .str p.targetId),
    ("edge_label", .str p.edgeLabel), ("annotation", .str p.annotation),
    ("basis_hash", .str p.basisHash), ("provenance", p.provenance.toJson)]

structure StageContent where
  schemaVersion : ℕ
  proposal : AgentProposal
  jobId : ℤ
  graphSnapshotId : String
  basis : TaskBasisManifest
  evidenceBinding : EvidenceBinding
  deriving DecidableEq

def StageContent.fields (c : StageContent) : List (String × Json) :=
  [("schema_version", .nat c.schemaVersion), ("proposal", .obj c.proposal.fields),
    ("job_id", .num (toString c.jobId)), ("graph_snapshot_id", .str c.graphSnapshotId),
    ("basis", c.basis.toJson), ("evidence_binding", .str c.evidenceBinding.text),
    ("context_status", .str CONTEXT_STATUS)]

structure StageContentV2 where
  base : StageContent
  sourceBasis : TaskSourceBasisV2
  selectedFactsFingerprint : String
  deriving DecidableEq

def StageContentV2.fields (c : StageContentV2) : List (String × Json) :=
  c.base.fields ++ [("source_basis", c.sourceBasis.toJson),
    ("selected_facts_fingerprint", .str c.selectedFactsFingerprint)]

inductive ImmutableContent
  | v1 (c : StageContent)
  | v2 (c : StageContentV2)
  deriving DecidableEq

def ImmutableContent.json : ImmutableContent → Json
  | .v1 c => .obj c.fields
  | .v2 c => .obj c.fields

def ImmutableContent.base : ImmutableContent → StageContent
  | .v1 c => c
  | .v2 c => c.base

def ImmutableContent.sourceBasis : ImmutableContent → Option TaskSourceBasisV2
  | .v1 _ => none
  | .v2 c => some c.sourceBasis

section Content

variable (contentHash : String → Hash)

def ImmutableContent.identity (c : ImmutableContent) : String :=
  match c with
  | .v1 _ => "proposal-stage-v1:" ++ (contentHash c.json.render).text
  | .v2 _ => "proposal-stage-v2:"
    ++ domainHash contentHash "cartograph:proposal-stage:v2\x00" c.json.render

def selectedFingerprint (s : TaskSourceBasisV2) : String :=
  domainHash contentHash "cartograph:task-selected-facts:v2\x00"
    (Json.arr (s.selectedFacts.map TaskFactSelection.toJson)).render

def hexDigit (b : UInt8) : Bool :=
  lowerHex b || decide (65 ≤ b.toNat ∧ b.toNat ≤ 70)

/-- `is_hash`: 64 hexadecimal digits of either case. -/
def isHash (value : String) : Bool :=
  value.utf8ByteSize == 64 && (Json.utf8 value).all hexDigit

def validateMetadata (jobId : ℤ) (graphSnapshotId : String) : Except StagingError Unit := do
  ensure (0 < jobId) (.invalidMetadata "job_id must be positive")
  ensure (blank graphSnapshotId = false ∧ graphSnapshotId.utf8ByteSize ≤ 1024)
    (.invalidMetadata "snapshot identity must contain 1..=1024 bytes")

def checkSize (bytes : ℕ) : Except StagingError Unit :=
  ensure (bytes ≤ MAX_STAGED_RECORD_BYTES) (.recordTooLarge bytes)

/-- `validate_staged_proposal`. -/
def validateStagedProposal (p : AgentProposal) : Except AgentError Unit := do
  ensure (p.provenance.tier = .agentic ∧ p.provenance.confidenceTier = .inferredWeak
      ∧ p.provenance.extractorId = AGENT_EXTRACTOR_ID ∧ p.provenance.evidence ≠ [])
    (.integrity "decision log accepts only cited Agentic/InferredWeak broker proposals")
  ensure (p.provenance.contentHash
      = (contentHash (canonicalFact p.gapId p.sourceId p.targetId p.edgeLabel p.basisHash)).text)
    (.integrity "proposal content hash does not match its staged fact")

/-- `validate_membership`. -/
def membershipValid (ids available : List String) : Bool :=
  ids != [] && !ids.any blank && decide ids.Nodup && ids.all available.contains

def EvidenceBasis.valid (limits : BrokerLimits) (e : EvidenceBasis) : Bool :=
  !blank e.source.repo && !blank e.source.path && !blank e.source.commitSha
    && decide (e.source.byteStart < e.source.byteEnd) && isHash e.textHash
    && decide (e.textBytes ≤ limits.maxSpanBytes)

/-- `StageContent::validate`; every failure is the same error. -/
def StageContent.validate (c : StageContent) : Except StagingError Unit := do
  let limits := BrokerLimits.standard
  let b := c.basis
  let evidenceIds := b.evidence.map EvidenceBasis.id
  ensure (c.schemaVersion = 1 ∧ c.evidenceBinding = .workingTreeUnverified ∧ b.schemaVersion = 1
    ∧ (validateMetadata c.jobId c.graphSnapshotId).isOk = true
    ∧ (validateStagedProposal contentHash c.proposal).isOk = true ∧ b.gapId = c.proposal.gapId
    ∧ b.sourceId = c.proposal.sourceId ∧ b.edgeLabel = c.proposal.edgeLabel
    ∧ (blank b.actionId || blank b.gapId || blank b.sourceId) = false
    ∧ (b.existingConfidence = .gap ∨ b.existingConfidence = .inferredWeak)
    ∧ limits.allowedEdgeLabels.contains b.edgeLabel = true ∧ b.evidence ≠ []
    ∧ b.evidence.length ≤ limits.maxEvidenceSpans ∧ b.candidates ≠ []
    ∧ b.candidates.length ≤ limits.maxCandidates ∧ isHash c.proposal.basisHash = true) .invalidRecord
  ensure (evidenceIds.any blank = false ∧ evidenceIds.Nodup) .invalidRecord
  ensure ((b.candidates.map CandidateBasis.nodeId).any blank = false
    ∧ (b.candidates.map CandidateBasis.nodeId).Nodup) .invalidRecord
  ensure (membershipValid b.sourceEvidenceIds evidenceIds = true) .invalidRecord
  ensure (b.evidence.all (EvidenceBasis.valid limits) = true
    ∧ (b.evidence.map EvidenceBasis.textBytes).sum ≤ limits.maxTotalEvidenceBytes) .invalidRecord
  ensure (b.candidates.all (fun item => !blank item.label && isHash item.summaryHash
    && membershipValid item.evidenceIds evidenceIds) = true) .invalidRecord
  let target ← orFail (b.candidates.find? fun item => item.nodeId == c.proposal.targetId) .invalidRecord
  ensure ((citationAssignment (b.evidence.map fun e => (e.id, e.source)) b.sourceEvidenceIds
    target.evidenceIds c.proposal.provenance.evidence).isSome = true) .invalidRecord

/-- `StageContentV2::validate`. -/
def StageContentV2.validate (c : StageContentV2) : Except StagingError Unit := do
  ensure (c.base.schemaVersion = 2 ∧ c.base.basis.schemaVersion = 2
    ∧ c.base.evidenceBinding = .perItem
    ∧ c.sourceBasis.graphSnapshotId = c.base.graphSnapshotId) .invalidRecord
  StageContent.validate contentHash { c.base with
    schemaVersion := 1
    basis := { c.base.basis with schemaVersion := 1 }
    evidenceBinding := .workingTreeUnverified }
  let expected ← (preparedBasisHash contentHash c.base.basis c.sourceBasis).mapError
    fun _ => .invalidRecord
  ensure (expected = c.base.proposal.basisHash
    ∧ c.selectedFactsFingerprint = selectedFingerprint contentHash c.sourceBasis) .invalidRecord

/-- `reject_annotation_replay`. -/
def rejectAnnotationReplay (t : AgentTask) ( annotation : String) : Except StagingError Unit :=
  ensure (((t.evidence.map AgentEvidence.text ++ t.candidates.map AgentCandidate.summary).any
    fun supplied => repeats true (normalize annotation) (normalize supplied)) = false)
    .annotationReplaysTaskText

/-- An error of the broker. -/
def ofBroker {α : Type} (x : Except AgentError α) : Except StagingError α := x.mapError .invalidTask

/-- `StageContent::build`. -/
def StageContent.build (t : AgentTask) (p : AgentProposal) (jobId : ℤ) (graphSnapshotId : String) :
    Except StagingError StageContent := do
  validateMetadata jobId graphSnapshotId
  checkSize p.annotation.utf8ByteSize
  ensure ((t.candidates.map fun c => c.summary.utf8ByteSize).sum ≤ MAX_STAGED_RECORD_BYTES)
    .taskSummariesTooLarge
  ofBroker (validateTask .standard t)
  rejectAnnotationReplay t p.annotation
  let citations ← orFail (matchCitations t p)
    (.invalidTask (.integrity "proposal citations do not match the host task"))
  let validated ← ofBroker (validateResponse contentHash t ⟨p.targetId, p.annotation, citations⟩)
  ensure (validated = p) (.invalidTask (.integrity
    "proposal does not match the original host task and broker contract"))
  let content := ⟨1, p, jobId, graphSnapshotId, manifest contentHash t 1, .workingTreeUnverified⟩
  StageContent.validate contentHash content
  pure content

/-- `StageContentV2::build`. -/
def StageContentV2.build (t : PreparedAgentTask contentHash) (p : AgentProposal) (jobId : ℤ)
    (graphSnapshotId : String) : Except StagingError StageContentV2 := do
  validateMetadata jobId graphSnapshotId
  checkSize p.annotation.utf8ByteSize
  ofBroker (validateTask .standard t.task)
  rejectAnnotationReplay t.task p.annotation
  let citations ← orFail (matchCitations t.task p) .invalidRecord
  let basisHash ← ofBroker t.basisHash
  let validated ← ofBroker (validateResponseWithBasis contentHash t.task
    ⟨p.targetId, p.annotation, citations⟩ basisHash)
  ensure (validated = p) .invalidRecord
  let content := ⟨⟨2, p, jobId, graphSnapshotId, manifest contentHash t.task 2, .perItem⟩,
    t.sourceBasis, selectedFingerprint contentHash t.sourceBasis⟩
  StageContentV2.validate contentHash content
  pure content

end Content

/-! ### The strict reader -/

/-- The longest array that may stand under a key. -/
def arrayLimit (key : String) : ℕ :=
  if key = "evidence" ∨ key = "citations" ∨ key = "source_evidence_ids" ∨ key = "evidence_ids" then 12
  else if key = "candidates" then 8
  else if key = "omissions" then 64
  else 65

mutual

/-- Arrays within the limit of their key, objects of at most 32 distinct short keys. -/
def stagedShape (limit : ℕ) : Json → Bool
  | .arr items => decide (items.length ≤ limit) && stagedItems items
  | .obj fields =>
    decide (fields.length ≤ 32) && (fields.map Prod.fst).all (fun k => decide (k.utf8ByteSize ≤ 64))
      && decide (fields.map Prod.fst).Nodup && stagedFields fields
  | .str s => decide (s.utf8ByteSize ≤ MAX_STAGED_RECORD_BYTES)
  | .null | .bool _ | .num _ => true

def stagedItems : List Json → Bool
  | [] => true
  | j :: rest => stagedShape 65 j && stagedItems rest

def stagedFields : List (String × Json) → Bool
  | [] => true
  | (k, j) :: rest => stagedShape (arrayLimit k) j && stagedFields rest

end

/-- `strict::preflight`. -/
def strictPreflight (body : Json) : Bool :=
  decide (body.height ≤ 16) && decide (values body ≤ 4096) && stagedShape 65 body

/-- The checks of a text by its version; version two is read strictly. -/
def ImmutableContent.validate (contentHash : String → Hash) :
    ImmutableContent → Except StagingError Unit
  | .v1 c => c.validate contentHash
  | .v2 c => do
    ensure (strictPreflight (ImmutableContent.v2 c).json = true) .invalidRecord
    c.validate contentHash

/-- `ImmutableContent::decode` of the text of a content. -/
def ImmutableContent.decode (contentHash : String → Hash) (c : ImmutableContent) :
    Except StagingError ImmutableContent := do
  checkSize c.json.size
  c.validate contentHash
  pure c

/-! ### Staged proposals -/

structure StagedProposal where
  schemaVersion : ℕ
  proposalId : String
  proposal : AgentProposal
  jobId : ℤ
  graphSnapshotId : String
  basis : TaskBasisManifest
  evidenceBinding : EvidenceBinding
  reviewRevision : ℕ
  reviewDecision : Option ProposalDecision
  reviewNote : Option String
  createdAt : String
  reviewedAt : Option String
  sourceBasis : Option TaskSourceBasisV2
  deriving DecidableEq

/-- The members of the proposal are flat; the source basis is left out when there is none. -/
def StagedProposal.toJson (p : StagedProposal) : Json :=
  .obj ([("schema_version", .nat p.schemaVersion), ("proposal_id", .str p.proposalId)]
    ++ p.proposal.fields
    ++ [("job_id", .num (toString p.jobId)), ("graph_snapshot_id", .str p.graphSnapshotId),
      ("basis", p.basis.toJson), ("evidence_binding", .str p.evidenceBinding.text),
      ("context_status", .str CONTEXT_STATUS), ("review_revision", .nat p.reviewRevision),
      ("review_decision", .opt (fun d => .str (ProposalDecision.text d)) p.reviewDecision),
      ("review_note", .opt .str p.reviewNote), ("created_at", .str p.createdAt),
      ("reviewed_at", .opt .str p.reviewedAt)]
    ++ (p.sourceBasis.map fun s => ("source_basis", s.toJson)).toList)

def checkRecordSize (p : StagedProposal) : Except StagingError Unit := checkSize p.toJson.size

def I64_MAX : ℕ := 2 ^ 63 - 1

/-- A staged proposal with the longest review that has no note. -/
def StagedProposal.fullyReviewed (p : StagedProposal) : StagedProposal :=
  { p with
    reviewRevision := I64_MAX
    reviewDecision := some .rejected
    reviewNote := none
    reviewedAt := some "9999-12-31T23:59:59Z" }

def checkReviewHeadroom (p : StagedProposal) : Except StagingError Unit :=
  checkRecordSize p.fullyReviewed

/-- `versioned_content`. -/
def versionedContent (contentHash : String → Hash) (p : StagedProposal) :
    Except StagingError ImmutableContent :=
  match p.schemaVersion, p.sourceBasis with
  | 1, none => .ok (.v1 ⟨p.schemaVersion, p.proposal, p.jobId, p.graphSnapshotId, p.basis,
      p.evidenceBinding⟩)
  | 2, some s => .ok (.v2 ⟨⟨2, p.proposal, p.jobId, p.graphSnapshotId, p.basis, p.evidenceBinding⟩, s,
      selectedFingerprint contentHash s⟩)
  | _, _ => .error .invalidRecord

/-! ### The store -/

structure StoredRow where
  sequence : ℕ
  immutableJson : ImmutableContent
  reviewRevision : ℕ
  reviewDecision : Option ProposalDecision
  reviewNote : Option String
  createdAt : Timestamp
  reviewedAt : Option Timestamp

/-- Rows by their proposal ids. -/
abbrev ProposalStore := Table String StoredRow

/-- A row as it is shown. -/
def StoredRow.staged (id : String) (row : StoredRow) : StagedProposal where
  schemaVersion := row.immutableJson.base.schemaVersion
  proposalId := id
  proposal := row.immutableJson.base.proposal
  jobId := row.immutableJson.base.jobId
  graphSnapshotId := row.immutableJson.base.graphSnapshotId
  basis := row.immutableJson.base.basis
  evidenceBinding := row.immutableJson.base.evidenceBinding
  reviewRevision := row.reviewRevision
  reviewDecision := row.reviewDecision
  reviewNote := row.reviewNote
  createdAt := row.createdAt.text
  reviewedAt := row.reviewedAt.map Timestamp.text
  sourceBasis := row.immutableJson.sourceBasis

section Store

variable (contentHash : String → Hash)

/-- `read_stored_row`, then `decode_row`. -/
def decodeRow (id : String) (row : StoredRow) : Except StagingError StagedProposal := do
  ensure (id.utf8ByteSize ≤ 256 ∧ row.immutableJson.json.size ≤ MAX_STAGED_RECORD_BYTES
    ∧ ∀ note ∈ row.reviewNote, note.utf8ByteSize ≤ MAX_STAGED_RECORD_BYTES) .storage
  checkSize row.immutableJson.json.size
  let content ← row.immutableJson.decode contentHash
  ensure (content.identity contentHash = id) .invalidRecord
  ensure ((row.reviewRevision = 0 → row.reviewDecision = none ∧ row.reviewNote = none
      ∧ row.reviewedAt.isNone = true)
    ∧ (0 < row.reviewRevision → row.reviewDecision ≠ none ∧ row.reviewedAt.isSome = true))
    .invalidRecord
  let staged := row.staged id
  checkRecordSize staged
  pure staged

/-- `get_on`. -/
def ProposalStore.get (s : ProposalStore) (id : String) :
    Except StagingError (Option StagedProposal) :=
  match s.find? id with
  | none => .ok none
  | some row => (decodeRow contentHash id row).map some

/-- `COALESCE(MAX(sequence), 0)`. -/
def ProposalStore.maxSequence (s : ProposalStore) : ℕ :=
  (s.rows.map fun r => r.2.sequence).foldr max 0

/-- A sequence number that no row has; the database may skip some. -/
def ProposalStore.nextSequence (s : ProposalStore) (skipped : ℕ) : ℕ := s.maxSequence + skipped + 1

/-- `INSERT … ON CONFLICT(proposal_id) DO NOTHING`. -/
def ProposalStore.insert (s : ProposalStore) (now : Timestamp) (skipped : ℕ) (id : String)
    (content : ImmutableContent) : ProposalStore :=
  match s.find? id with
  | some _ => s
  | none => s.put id ⟨s.nextSequence skipped, content, 0, none, none, now, none⟩

def persistIn (now : Timestamp) (skipped : ℕ) (content : ImmutableContent) (s : ProposalStore) :
    Except StagingError (StagedProposal × ProposalStore) := do
  checkSize content.json.size
  let id := content.identity contentHash
  -- the database refuses a row for which it has no number left
  ensure ((s.find? id).isSome = true ∨ s.nextSequence skipped ≤ I64_MAX) .storage
  let s' := s.insert now skipped id content
  let found ← s'.get contentHash id
  let row ← orFail found .invalidRecord
  let stored ← versionedContent contentHash row
  ensure (stored = content) .invalidRecord
  checkRecordSize row
  checkReviewHeadroom row
  pure (row, s')

/-- `persist`. -/
def ProposalStore.persist (s : ProposalStore) (now : Timestamp) (skipped : ℕ)
    (content : ImmutableContent) : ProposalStore × Except StagingError StagedProposal :=
  transact (persistIn contentHash now skipped content) s

def StoredRow.reviewed (row : StoredRow) (revision : ℕ) (decision : ProposalDecision)
    (note : Option String) (now : Timestamp) : StoredRow :=
  { row with
    reviewRevision := revision
    reviewDecision := some decision
    reviewNote := note
    reviewedAt := some now }

/-- `UPDATE … WHERE proposal_id = ? AND review_revision = ?`, with the number of rows it changed. -/
def ProposalStore.update (s : ProposalStore) (id : String) (expected revision : ℕ)
    (decision : ProposalDecision) (note : Option String) (now : Timestamp) : ProposalStore × ℕ :=
  match s.find? id with
  | some row =>
    if row.reviewRevision = expected then (s.put id (row.reviewed revision decision note now), 1)
    else (s, 0)
  | none => (s, 0)

def reviewIn (now : Timestamp) (id : String) (expected : ℕ) (decision : ProposalDecision)
    (note : Option String) (s : ProposalStore) :
    Except StagingError (StagedProposal × ProposalStore) := do
  ensure (∀ n ∈ note, n.utf8ByteSize ≤ MAX_STAGED_RECORD_BYTES)
    (.recordTooLarge (note.elim 0 String.utf8ByteSize))
  let found ← s.get contentHash id
  let current ← orFail found (.unknownProposal id)
  ensure (current.reviewRevision = expected) (.staleReviewRevision expected current.reviewRevision)
  ensure (expected + 1 ≤ I64_MAX) (.invalidMetadata "review revision exhausted")
  let (s', changed) := s.update id expected (expected + 1) decision note now
  ensure (changed = 1) .invalidRecord
  let found' ← s'.get contentHash id
  let reviewed ← orFail found' .invalidRecord
  checkRecordSize reviewed
  pure (reviewed, s')

/-- `review`. -/
def ProposalStore.review (s : ProposalStore) (now : Timestamp) (id : String) (expected : ℕ)
    (decision : ProposalDecision) (note : Option String) :
    ProposalStore × Except StagingError StagedProposal :=
  transact (reviewIn contentHash now id expected decision note) s

/-! ### Calls -/

/-- Build the content, then persist it. -/
def ProposalStore.stageContent (s : ProposalStore) (now : Timestamp) (skipped : ℕ)
    (content : Except StagingError ImmutableContent) :
    ProposalStore × Except StagingError StagedProposal :=
  match content with
  | .error e => (s, .error e)
  | .ok c => s.persist contentHash now skipped c

/-- The calls that write, with the second they happen in and the sequence numbers skipped. -/
inductive StagingOp
  | stage (now : Timestamp) (skipped : ℕ) (task : AgentTask) (proposal : AgentProposal) (jobId : ℤ)
      (graphSnapshotId : String)
  | stagePrepared (now : Timestamp) (skipped : ℕ) (task : PreparedAgentTask contentHash)
      (proposal : AgentProposal) (jobId : ℤ) (graphSnapshotId : String)
  | review (now : Timestamp) (id : String) (expected : ℕ) (decision : ProposalDecision)
      (note : Option String)

variable {contentHash}

/-- The content a call stages. -/
def StagingOp.content : StagingOp contentHash → Except StagingError ImmutableContent
  | .stage _ _ task proposal jobId graphSnapshotId =>
    (StageContent.build contentHash task proposal jobId graphSnapshotId).map .v1
  | .stagePrepared _ _ task proposal jobId graphSnapshotId =>
    (StageContentV2.build contentHash task proposal jobId graphSnapshotId).map .v2
  | .review _ id _ _ _ => .error (.unknownProposal id)

def ProposalStore.step (s : ProposalStore) :
    StagingOp contentHash → ProposalStore × Except StagingError StagedProposal
  | .stage now skipped task proposal jobId graphSnapshotId =>
    s.stageContent contentHash now skipped
      ((StageContent.build contentHash task proposal jobId graphSnapshotId).map .v1)
  | .stagePrepared now skipped task proposal jobId graphSnapshotId =>
    s.stageContent contentHash now skipped
      ((StageContentV2.build contentHash task proposal jobId graphSnapshotId).map .v2)
  | .review now id expected decision note => s.review contentHash now id expected decision note

end Store

end Agents

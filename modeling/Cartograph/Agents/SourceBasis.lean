/-
Source selections and prepared tasks (`crates/agents/src/source_basis.rs`,
`crates/agents/src/prepared.rs`, and the manifest of `crates/agents/src/staging.rs`).

A manifest is a task with its source text and summaries replaced by hashes; a source basis
says which facts were selected for it and where each piece of evidence comes from.  All
failures of these checks are the same error, so their order is not kept.
-/
import Cartograph.Agents.Broker

namespace Agents

open Investigation Checked

def MAX_STAGED_RECORD_BYTES : ℕ := 128 * 1024
def MAX_SOURCE_BASIS_BYTES : ℕ := 64 * 1024
def MAX_CAPTURED_VALIDATION_BYTES : ℕ := 128 * 1024 * 1024

/-! ### Manifests -/

structure EvidenceBasis where
  id : String
  source : EvidenceRef
  textHash : String
  textBytes : ℕ
  deriving DecidableEq

def EvidenceBasis.toJson (e : EvidenceBasis) : Json :=
  .obj [("id", .str e.id), ("source", e.source.toJson), ("text_hash", .str e.textHash),
    ("text_bytes", .nat e.textBytes)]

structure CandidateBasis where
  nodeId : String
  label : String
  summaryHash : String
  summaryBytes : ℕ
  evidenceIds : List String
  deriving DecidableEq

def CandidateBasis.toJson (c : CandidateBasis) : Json :=
  .obj [("node_id", .str c.nodeId), ("label", .str c.label), ("summary_hash", .str c.summaryHash),
    ("summary_bytes", .nat c.summaryBytes), ("evidence_ids", .arr (c.evidenceIds.map .str))]

structure TaskBasisManifest where
  schemaVersion : ℕ
  actionId : String
  gapId : String
  sourceId : String
  edgeLabel : String
  existingConfidence : ConfidenceTier
  sourceEvidenceIds : List String
  evidence : List EvidenceBasis
  candidates : List CandidateBasis
  deriving DecidableEq

def TaskBasisManifest.toJson (b : TaskBasisManifest) : Json :=
  .obj [("schema_version", .nat b.schemaVersion), ("action_id", .str b.actionId),
    ("gap_id", .str b.gapId), ("source_id", .str b.sourceId), ("edge_label", .str b.edgeLabel),
    ("existing_confidence", .str b.existingConfidence.text),
    ("source_evidence_ids", .arr (b.sourceEvidenceIds.map .str)),
    ("evidence", .arr (b.evidence.map EvidenceBasis.toJson)),
    ("candidates", .arr (b.candidates.map CandidateBasis.toJson))]

/-- `manifest`; version one is written out where it is staged, with the same members. -/
def manifest (contentHash : String → Hash) (t : AgentTask) (version : ℕ) : TaskBasisManifest where
  schemaVersion := version
  actionId := t.actionId
  gapId := t.gapId
  sourceId := t.sourceId
  edgeLabel := t.edgeLabel
  existingConfidence := t.existingConfidence
  sourceEvidenceIds := t.sourceEvidenceIds
  evidence := t.evidence.map fun e => ⟨e.id, e.source, (contentHash e.text).text, e.text.utf8ByteSize⟩
  candidates := t.candidates.map fun c =>
    ⟨c.nodeId, c.label, (contentHash c.summary).text, c.summary.utf8ByteSize, c.evidenceIds⟩

/-! ### Source selections -/

/-- The scope and closure of captured source have one value each. -/
inductive TaskEvidenceKind
  | workingTreeUnverified
  | capturedPrimarySource (registeredSourceId receiptId : String) (receiptInventoryIndex : ℕ)
      (captured : TaskCaptureSpanRef)
  deriving DecidableEq

def TaskEvidenceKind.toJson : TaskEvidenceKind → Json
  | .workingTreeUnverified => .obj [("kind", .str "working_tree_unverified")]
  | .capturedPrimarySource registeredSourceId receiptId receiptInventoryIndex captured =>
    .obj [("kind", .str "captured_primary_source"),
      ("registered_source_id", .str registeredSourceId), ("receipt_id", .str receiptId),
      ("receipt_inventory_index", .nat receiptInventoryIndex), ("captured", captured.toJson),
      ("scope", .str "primary_source_only"),
      ("input_closure", .str "input_closure_not_established")]

structure TaskEvidenceOrigin where
  evidenceId : String
  fact : TaskFactKey
  role : TaskRangeRole
  index : ℕ
  origin : TaskEvidenceKind
  deriving DecidableEq

def TaskEvidenceOrigin.toJson (o : TaskEvidenceOrigin) : Json :=
  .obj [("evidence_id", .str o.evidenceId), ("fact", o.fact.toJson), ("role", .str o.role.text),
    ("index", .nat o.index), ("origin", o.origin.toJson)]

structure SelectionLimits where
  metadataLookahead : ℕ
  acquisitionAttempts : ℕ
  selectedFacts : ℕ
  evidence : ℕ
  candidates : ℕ
  spanBytes : ℕ
  totalEvidenceBytes : ℕ
  capturedValidationBytes : ℕ
  deriving DecidableEq

def SelectionLimits.toJson (l : SelectionLimits) : Json :=
  .obj [("metadata_lookahead", .nat l.metadataLookahead),
    ("acquisition_attempts", .nat l.acquisitionAttempts), ("selected_facts", .nat l.selectedFacts),
    ("evidence", .nat l.evidence), ("candidates", .nat l.candidates), ("span_bytes", .nat l.spanBytes),
    ("total_evidence_bytes", .nat l.totalEvidenceBytes),
    ("captured_validation_bytes", .nat l.capturedValidationBytes)]

/-- `SelectionLimits::default`. -/
def SelectionLimits.standard : SelectionLimits :=
  ⟨64, 64, 65, 12, 8, 8192, 49152, MAX_CAPTURED_VALIDATION_BYTES⟩

inductive SelectionOmissionReason
  | missingCitation | legacyReadUnavailable
  deriving DecidableEq

def SelectionOmissionReason.text : SelectionOmissionReason → String
  | .missingCitation => "missing_citation"
  | .legacyReadUnavailable => "legacy_read_unavailable"

structure SelectionOmission where
  requestIndex : ℕ
  fact : TaskFactKey
  reason : SelectionOmissionReason
  deriving DecidableEq

def SelectionOmission.toJson (o : SelectionOmission) : Json :=
  .obj [("request_index", .nat o.requestIndex), ("fact", o.fact.toJson), ("reason", .str o.reason.text)]

inductive SelectionStopReason
  | candidateLimit | neighborhoodExhausted | attemptLimit | validationByteLimit
  | participatingSourceUnavailable | invalidSelection | requiredMembershipMissing
  deriving DecidableEq

def SelectionStopReason.text : SelectionStopReason → String
  | .candidateLimit => "candidate_limit"
  | .neighborhoodExhausted => "neighborhood_exhausted"
  | .attemptLimit => "attempt_limit"
  | .validationByteLimit => "validation_byte_limit"
  | .participatingSourceUnavailable => "participating_source_unavailable"
  | .invalidSelection => "invalid_selection"
  | .requiredMembershipMissing => "required_membership_missing"

structure SelectionReport where
  metadataLookahead : ℕ
  acquisitionAttempts : ℕ
  suppliedEvidence : ℕ
  suppliedCandidates : ℕ
  capturedValidationBytes : ℕ
  limits : SelectionLimits
  omissions : List SelectionOmission
  metadataPreselectedNotRead : ℕ
  unreadTail : Bool
  stopReason : SelectionStopReason
  deriving DecidableEq

def SelectionReport.toJson (r : SelectionReport) : Json :=
  .obj [("metadata_lookahead", .nat r.metadataLookahead),
    ("acquisition_attempts", .nat r.acquisitionAttempts),
    ("supplied_evidence", .nat r.suppliedEvidence), ("supplied_candidates", .nat r.suppliedCandidates),
    ("captured_validation_bytes", .nat r.capturedValidationBytes), ("limits", r.limits.toJson),
    ("omissions", .arr (r.omissions.map SelectionOmission.toJson)),
    ("metadata_preselected_not_read", .nat r.metadataPreselectedNotRead),
    ("unread_tail", .bool r.unreadTail), ("stop_reason", .str r.stopReason.text)]

structure TaskSourceBasisV2 where
  schemaVersion : ℕ
  graphSnapshotId : String
  selectedFacts : List TaskFactSelection
  evidence : List TaskEvidenceOrigin
  selection : SelectionReport
  deriving DecidableEq

def TaskSourceBasisV2.toJson (s : TaskSourceBasisV2) : Json :=
  .obj [("schema_version", .nat s.schemaVersion), ("graph_snapshot_id", .str s.graphSnapshotId),
    ("selected_facts", .arr (s.selectedFacts.map TaskFactSelection.toJson)),
    ("evidence", .arr (s.evidence.map TaskEvidenceOrigin.toJson)), ("selection", s.selection.toJson)]

def invalid : AgentError := .invalidTask "invalid prepared source basis"

/-- `domain_hash`. -/
def domainHash (contentHash : String → Hash) (domain bytes : String) : String :=
  (contentHash (domain ++ bytes)).text

def TaskSourceBasisV2.fingerprint (contentHash : String → Hash) (s : TaskSourceBasisV2) :
    Except AgentError String := do
  ensure (s.toJson.size ≤ MAX_SOURCE_BASIS_BYTES) invalid
  pure (domainHash contentHash "cartograph:task-source-basis:v2\x00" s.toJson.render)

/-- The numbers of a selection fit each other and the manifest. -/
def SelectionReport.counts (r : SelectionReport) (s : TaskSourceBasisV2) (b : TaskBasisManifest) :
    Bool :=
  decide (r.limits = .standard) && decide (r.metadataLookahead ≤ r.limits.metadataLookahead)
    && decide (r.acquisitionAttempts ≤ r.metadataLookahead)
    && decide (r.acquisitionAttempts ≤ r.limits.acquisitionAttempts)
    && decide (r.metadataPreselectedNotRead = r.metadataLookahead - r.acquisitionAttempts)
    && decide (r.suppliedEvidence = b.evidence.length)
    && decide (r.suppliedCandidates = b.candidates.length)
    && decide (r.suppliedCandidates ≤ r.limits.candidates)
    && decide (r.suppliedEvidence ≤ r.limits.evidence)
    && decide (r.capturedValidationBytes ≤ r.limits.capturedValidationBytes)
    && decide (r.omissions.length ≤ r.acquisitionAttempts)
    && decide (r.acquisitionAttempts = r.suppliedEvidence + r.omissions.length)
    && decide (s.selectedFacts.length ≤ r.limits.selectedFacts)
    && decide (s.selectedFacts.length ≤ r.acquisitionAttempts + 1)
    && decide (s.evidence.length = b.evidence.length)

def SelectionReport.stopped (r : SelectionReport) : Bool :=
  match r.stopReason with
  | .candidateLimit => decide (r.suppliedCandidates = r.limits.candidates)
  | .neighborhoodExhausted => !r.unreadTail && decide (r.metadataPreselectedNotRead = 0)
  | .attemptLimit =>
    decide (r.acquisitionAttempts = r.limits.acquisitionAttempts) && r.unreadTail
  | _ => false

/-- The selected fact with a key. -/
def TaskSourceBasisV2.selected (s : TaskSourceBasisV2) (fact : TaskFactKey) :
    Option TaskFactSelection :=
  s.selectedFacts.find? fun f => f.fact == fact

/-- Where a piece of evidence comes from, against what is known of its fact. -/
def TaskEvidenceKind.valid (l : SelectionLimits) (role : TaskRangeRole) (item : EvidenceBasis)
    (binding : Option TaskSourceAssociation) : TaskEvidenceKind → Bool
  | .workingTreeUnverified => binding == none
  | .capturedPrimarySource registeredSourceId receipt receiptInventoryIndex captured =>
    binding.any fun b =>
      text registeredSourceId 256 && registeredSourceId == captured.file.sourceId
        && receipt == b.receiptId && decide (receiptInventoryIndex < 1024)
        && b.repoKey == item.source.repo && prefixed captured.file.captureId "capture-v1:"
        && hashValid captured.file.digest && path captured.file.path
        && captured.file.path == item.source.path
        && decide (captured.file.byteLen ≤ 16 * 1024 * 1024)
        && decide (captured.byteStart < captured.byteEnd)
        && decide (captured.byteEnd ≤ captured.file.byteLen)
        && captured.byteStart == item.source.byteStart && captured.byteEnd == item.source.byteEnd
        && decide (captured.byteEnd - captured.byteStart = item.textBytes)
        && decide (captured.byteEnd - captured.byteStart ≤ l.spanBytes)
        && !(leads "ts-primary-v1:" receipt && role.definition)

/-- The bytes of the file that a piece of evidence is charged with. -/
def TaskEvidenceKind.charged : TaskEvidenceKind → ℕ
  | .workingTreeUnverified => 0
  | .capturedPrimarySource _ _ _ captured => captured.file.byteLen

/-- Evidence is attached to the fact it supports. -/
def TaskEvidenceOrigin.valid (s : TaskSourceBasisV2) (b : TaskBasisManifest) (o : TaskEvidenceOrigin) :
    Bool :=
  (b.evidence.find? fun e => e.id == o.evidenceId).any fun item =>
    (s.selected o.fact).any fun selected =>
      decide (o.index < 1024)
        && (!b.sourceEvidenceIds.contains o.evidenceId || o.fact == .node b.sourceId
          || o.fact == .node b.gapId)
        && b.candidates.all (fun c => !c.evidenceIds.contains o.evidenceId || o.fact == .node c.nodeId)
        && o.origin.valid s.selection.limits o.role item selected.binding

/-- Omitted requests in increasing order. -/
def omissionsValid (s : TaskSourceBasisV2) : Option ℕ → List SelectionOmission → Bool
  | _, [] => true
  | previous, o :: rest =>
    decide (o.requestIndex < s.selection.acquisitionAttempts)
      && previous.all (fun p => decide (p < o.requestIndex))
      && (s.selected o.fact).any (fun f => !(o.reason == .legacyReadUnavailable && f.binding.isSome))
      && omissionsValid s (some o.requestIndex) rest

/-- The selected facts that neither evidence nor an omission speaks of. -/
def TaskSourceBasisV2.extra (s : TaskSourceBasisV2) : List TaskFactKey :=
  (s.selectedFacts.map TaskFactSelection.fact).filter fun f =>
    !(s.evidence.map TaskEvidenceOrigin.fact).contains f
      && !(s.selection.omissions.map SelectionOmission.fact).contains f

def TaskFactKey.labelled (label : String) : TaskFactKey → Bool
  | .node _ => false
  | .edge _ l _ => l == label

/-- `TaskSourceBasisV2::validate`. -/
def TaskSourceBasisV2.validate (contentHash : String → Hash) (s : TaskSourceBasisV2)
    (b : TaskBasisManifest) : Except AgentError Unit := do
  ensure (s.schemaVersion = 2 ∧ contextHash s.graphSnapshotId = true
    ∧ s.selection.counts s b = true) invalid
  ensure (s.selection.stopped = true) invalid
  ensure (factsValid none s.selectedFacts = true) invalid
  ensure ((s.selected (.node b.sourceId)).isSome = true ∧ (s.selected (.node b.gapId)).isSome = true
    ∧ ∀ c ∈ b.candidates, (s.selected (.node c.nodeId)).isSome = true) invalid
  ensure (s.evidence.all (fun o => o.valid s b) = true
    ∧ (s.evidence.map TaskEvidenceOrigin.evidenceId).Nodup) invalid
  ensure (omissionsValid s none s.selection.omissions = true) invalid
  ensure ((s.evidence.map fun o => o.origin.charged).sum = s.selection.capturedValidationBytes) invalid
  ensure (s.extra.length ≤ 1 ∧ s.extra.head?.all (TaskFactKey.labelled b.edgeLabel) = true) invalid
  discard (s.fingerprint contentHash)

/-! ### Prepared tasks -/

def identityMetadata (action gap source edge : String) : Bool :=
  text action 8192 && text gap 8192 && text source 8192 && text edge 256

def membershipMetadata (ids : List String) : Bool :=
  decide (ids.length ≤ 12) && ids.all (fun id => text id 8192)
    && !ids.any blank && decide ids.Nodup

def evidenceMetadata (id : String) (source : EvidenceRef) : Bool :=
  text id 8192 && text source.repo 256 && text source.path 1024 && text source.commitSha 1024
    && decide (source.byteStart < source.byteEnd)

def candidateMetadata (node label : String) (ids : List String) : Bool :=
  text node 8192 && text label 256 && membershipMetadata ids

def validateManifestMetadata (b : TaskBasisManifest) : Except AgentError Unit :=
  ensure (b.schemaVersion = 2 ∧ identityMetadata b.actionId b.gapId b.sourceId b.edgeLabel = true
    ∧ b.evidence.length ≤ 12 ∧ b.candidates.length ≤ 8
    ∧ membershipMetadata b.sourceEvidenceIds = true
    ∧ (∀ e ∈ b.evidence, evidenceMetadata e.id e.source = true)
    ∧ (∀ c ∈ b.candidates, candidateMetadata c.nodeId c.label c.evidenceIds = true)
    ∧ (b.candidates.map CandidateBasis.summaryBytes).sum ≤ MAX_STAGED_RECORD_BYTES) invalid

/-- What the hash of a prepared task is taken of: the action is cleared, sets are sorted. -/
def preparedBasisJson (b : TaskBasisManifest) (s : TaskSourceBasisV2) : Json :=
  .arr [(TaskBasisManifest.toJson { b with
      actionId := ""
      sourceEvidenceIds := sortBy id b.sourceEvidenceIds
      evidence := sortBy EvidenceBasis.id b.evidence
      candidates := sortBy CandidateBasis.nodeId (b.candidates.map fun c =>
        { c with evidenceIds := sortBy id c.evidenceIds }) }),
    (TaskSourceBasisV2.toJson { s with evidence := sortBy TaskEvidenceOrigin.evidenceId s.evidence })]

def preparedBasisHash (contentHash : String → Hash) (b : TaskBasisManifest) (s : TaskSourceBasisV2) :
    Except AgentError String := do
  validateManifestMetadata b
  s.validate contentHash b
  pure (domainHash contentHash "cartograph:prepared-agent-task:v2\x00" (preparedBasisJson b s).render)

/-- The checks of `PreparedAgentTask::new`. -/
def prepare (contentHash : String → Hash) (t : AgentTask) (s : TaskSourceBasisV2) :
    Except AgentError Unit := do
  ensure (t.evidence.length ≤ 12 ∧ t.candidates.length ≤ 8
    ∧ identityMetadata t.actionId t.gapId t.sourceId t.edgeLabel = true
    ∧ membershipMetadata t.sourceEvidenceIds = true
    ∧ (∀ e ∈ t.evidence, e.text.utf8ByteSize ≤ 8192 ∧ evidenceMetadata e.id e.source = true)
    ∧ ∀ c ∈ t.candidates, candidateMetadata c.nodeId c.label c.evidenceIds = true) invalid
  ensure ((t.candidates.map fun c => c.summary.utf8ByteSize).sum ≤ MAX_STAGED_RECORD_BYTES) invalid
  validateTask .standard t
  validateManifestMetadata (manifest contentHash t 2)
  s.validate contentHash (manifest contentHash t 2)

/-- A task with its source basis; there is no other way to make one. -/
structure PreparedAgentTask (contentHash : String → Hash) where
  task : AgentTask
  sourceBasis : TaskSourceBasisV2
  valid : prepare contentHash task sourceBasis = .ok ()

def PreparedAgentTask.basisHash {contentHash : String → Hash} (t : PreparedAgentTask contentHash) :
    Except AgentError String :=
  preparedBasisHash contentHash (manifest contentHash t.task 2) t.sourceBasis

end Agents

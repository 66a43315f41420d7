/-
Durable records of investigations (`crates/agents/src/investigation/records.rs`,
`protocol.rs`, `specialists.rs`, and the private records of
`src-tauri/src/jobs/investigations.rs`).

Every record has its JSON form, member by member as the serializer writes it:
storage limits are limits on these texts.  Counters and lengths are natural
numbers, with the overflow check where the source adds; elapsed times and
reported token counts arrive from outside as 64-bit words and stay words.
-/
import Cartograph.Lib.Json

namespace Investigation

/-! ### Text classes -/

def lowerHex (b : UInt8) : Bool :=
  (48 ≤ b.toNat && b.toNat ≤ 57) || (97 ≤ b.toNat && b.toNat ≤ 102)

/-- `is_token`: 32 lower-case hexadecimal digits. -/
def isToken (value : String) : Bool :=
  (Json.utf8 value).length == 32 && (Json.utf8 value).all lowerHex

def hashBytes (bytes : List UInt8) : Bool := bytes.length == 64 && bytes.all lowerHex

/-- `hash_valid`: 64 lower-case hexadecimal digits. -/
def hashValid (value : String) : Bool := hashBytes (Json.utf8 value)

/-- Letters and digits of ASCII, and `-_:`. -/
def idByte (b : UInt8) : Bool :=
  (48 ≤ b.toNat && b.toNat ≤ 57) || (65 ≤ b.toNat && b.toNat ≤ 90)
    || (97 ≤ b.toNat && b.toNat ≤ 122) || b.toNat == 45 || b.toNat == 95 || b.toNat == 58

/-- `id_valid` and `opaque_id`. -/
def idValid (value : String) : Bool :=
  value != "" && decide ((Json.utf8 value).length ≤ 128) && (Json.utf8 value).all idByte

/-- A random token of the database, `lower(hex(randomblob(16)))`. -/
structure Token where
  text : String
  valid : isToken text = true
  deriving DecidableEq

/-- A content hash in hexadecimal. -/
structure Hash where
  text : String
  valid : hashValid text = true

/-- A second of `strftime('%Y-%m-%dT%H:%M:%SZ')`. -/
structure Timestamp where
  text : String
  size : text.utf8ByteSize = 20
  plain : (Json.utf8 text).all Json.plain = true

/-- What the coordinator takes from outside: redaction with its number of
replacements, the domain-separated hashes, and the fingerprints of the built-in
prompts. -/
structure Env where
  redactText : String → String × ℕ
  domainHash : String → String → Hash
  promptFingerprint : String → Hash

/-! ### Specialists and providers -/

inductive Tier
  | deterministic | dynamic | semantic | agentic
  deriving DecidableEq

def Tier.text : Tier → String
  | .deterministic => "Deterministic"
  | .dynamic => "Dynamic"
  | .semantic => "Semantic"
  | .agentic => "Agentic"

inductive ConfidenceTier
  | confirmed | inferredStrong | inferredWeak | gap
  deriving DecidableEq

def ConfidenceTier.text : ConfidenceTier → String
  | .confirmed => "Confirmed"
  | .inferredStrong => "InferredStrong"
  | .inferredWeak => "InferredWeak"
  | .gap => "Gap"

inductive SpecialistId
  | domainAnalystV1 | evidenceAuditorV1 | domainAnalyst | evidenceAuditor
  deriving DecidableEq

def SpecialistId.text : SpecialistId → String
  | .domainAnalystV1 => "domain-analyst@1"
  | .evidenceAuditorV1 => "evidence-auditor@1"
  | .domainAnalyst => "domain-analyst@2"
  | .evidenceAuditor => "evidence-auditor@2"

def SpecialistId.version : SpecialistId → ℕ
  | .domainAnalystV1 | .evidenceAuditorV1 => 1
  | .domainAnalyst | .evidenceAuditor => 2

structure InvestigationSpecialist where
  id : SpecialistId
  name : String
  version : ℕ
  promptFingerprint : String
  purpose : String
  operations : List String
  tier : Tier
  confidenceTier : ConfidenceTier
  deriving DecidableEq

/-- `definition`; the prompt itself enters only through its fingerprint. -/
def SpecialistId.definition (env : Env) (id : SpecialistId) : InvestigationSpecialist where
  id := id
  name := match id with
    | .domainAnalyst | .domainAnalystV1 => "Domain analyst"
    | .evidenceAuditor | .evidenceAuditorV1 => "Evidence auditor"
  version := id.version
  promptFingerprint := (env.promptFingerprint id.text).text
  purpose := match id with
    | .domainAnalyst | .domainAnalystV1 =>
      "Investigate scoped business behavior, features and design evidence."
    | .evidenceAuditor | .evidenceAuditorV1 =>
      "Audit claim support, coverage limitations and unresolved evidence."
  operations := ["query_context", "read_evidence", "finish"]
  tier := .agentic
  confidenceTier := .inferredWeak

def InvestigationSpecialist.toJson (s : InvestigationSpecialist) : Json :=
  .obj [("id", .str s.id.text), ("name", .str s.name), ("version", .nat s.version),
    ("prompt_fingerprint", .str s.promptFingerprint), ("purpose", .str s.purpose),
    ("operations", .arr (s.operations.map .str)), ("tier", .str s.tier.text),
    ("confidence_tier", .str s.confidenceTier.text)]

inductive InvestigationProviderMode
  | localMode | cloud
  deriving DecidableEq

def InvestigationProviderMode.text : InvestigationProviderMode → String
  | .localMode => "local"
  | .cloud => "cloud"

structure InvestigationProvider where
  mode : InvestigationProviderMode
  providerId : String
  model : String
  endpoint : String
  deployment : Option String
  protocolVersion : Option String
  available : Bool
  unavailableReason : Option String
  deriving DecidableEq

def InvestigationProvider.toJson (p : InvestigationProvider) : Json :=
  .obj ([("mode", .str p.mode.text), ("provider_id", .str p.providerId), ("model", .str p.model),
    ("endpoint", .str p.endpoint), ("deployment", .opt .str p.deployment)] ++
    (p.protocolVersion.toList.map fun v => ("protocol_version", .str v)) ++
    [("available", .bool p.available), ("unavailable_reason", .opt .str p.unavailableReason)])

/-! ### Limits and usage -/

structure InvestigationLimits where
  profile : String := "investigation-v1"
  modelInvocations : ℕ := 8
  toolActions : ℕ := 8
  selectedFacts : ℕ := 64
  evidenceRequests : ℕ := 64
  evidenceItems : ℕ := 12
  evidenceBytes : ℕ := 48 * 1024
  capturedValidationBytes : ℕ := 128 * 1024 * 1024
  generatedTokensPerInvocation : ℕ := 2048
  generatedTokenReservations : ℕ := 16384
  activeSeconds : ℕ := 600
  consentWaitSeconds : ℕ := 900
  wallSeconds : ℕ := 3600
  deriving DecidableEq

def InvestigationLimits.toJson (l : InvestigationLimits) : Json :=
  .obj [("profile", .str l.profile), ("model_invocations", .nat l.modelInvocations),
    ("tool_actions", .nat l.toolActions), ("selected_facts", .nat l.selectedFacts),
    ("evidence_requests", .nat l.evidenceRequests), ("evidence_items", .nat l.evidenceItems),
    ("evidence_bytes", .nat l.evidenceBytes),
    ("captured_validation_bytes", .nat l.capturedValidationBytes),
    ("generated_tokens_per_invocation", .nat l.generatedTokensPerInvocation),
    ("generated_token_reservations", .nat l.generatedTokenReservations),
    ("active_seconds", .nat l.activeSeconds), ("consent_wait_seconds", .nat l.consentWaitSeconds),
    ("wall_seconds", .nat l.wallSeconds)]

structure InvestigationUsage where
  modelInvocations : ℕ := 0
  toolActions : ℕ := 0
  selectedFacts : ℕ := 0
  evidenceRequests : ℕ := 0
  evidenceItems : ℕ := 0
  evidenceBytes : ℕ := 0
  capturedValidationBytes : ℕ := 0
  generatedTokenReservations : ℕ := 0
  reportedInputTokens : Option UInt64 := none
  reportedOutputTokens : Option UInt64 := none
  activeMilliseconds : UInt64 := 0
  deriving DecidableEq

def word (n : UInt64) : Json := .nat n.toNat

def InvestigationUsage.toJson (u : InvestigationUsage) : Json :=
  .obj [("model_invocations", .nat u.modelInvocations), ("tool_actions", .nat u.toolActions),
    ("selected_facts", .nat u.selectedFacts), ("evidence_requests", .nat u.evidenceRequests),
    ("evidence_items", .nat u.evidenceItems), ("evidence_bytes", .nat u.evidenceBytes),
    ("captured_validation_bytes", .nat u.capturedValidationBytes),
    ("generated_token_reservations", .nat u.generatedTokenReservations),
    ("reported_input_tokens", .opt word u.reportedInputTokens),
    ("reported_output_tokens", .opt word u.reportedOutputTokens),
    ("active_milliseconds", word u.activeMilliseconds)]

/-! ### Scopes, facts and citations -/

inductive InvestigationScope
  | all
  | neighborhood (anchor : String) (hops : ℕ)
  deriving DecidableEq

def InvestigationScope.toJson : InvestigationScope → Json
  | .all => .obj [("type", .str "all")]
  | .neighborhood anchor hops =>
    .obj [("type", .str "neighborhood"), ("anchor", .str anchor), ("hops", .nat hops)]

inductive TaskFactKey
  | node (id : String)
  | edge (source label destination : String)
  deriving DecidableEq

def TaskFactKey.toJson : TaskFactKey → Json
  | .node id => .obj [("kind", .str "node"), ("id", .str id)]
  | .edge source label destination =>
    .obj [("kind", .str "edge"), ("source", .str source), ("label", .str label),
      ("destination", .str destination)]

/-- The derived order: nodes before edges, then by the fields in turn. -/
def TaskFactKey.lt : TaskFactKey → TaskFactKey → Bool
  | .node a, .node b => decide (a < b)
  | .node _, .edge _ _ _ => true
  | .edge _ _ _, .node _ => false
  | .edge a b c, .edge a' b' c' =>
    decide (a < a') || (a == a' && (decide (b < b') || (b == b' && decide (c < c'))))

structure TaskSourceAssociation where
  repoKey : String
  receiptId : String
  emittedFactDigest : String
  deriving DecidableEq

def TaskSourceAssociation.toJson (a : TaskSourceAssociation) : Json :=
  .obj [("repo_key", .str a.repoKey), ("receipt_id", .str a.receiptId),
    ("emitted_fact_digest", .str a.emittedFactDigest)]

structure TaskFactSelection where
  fact : TaskFactKey
  factDigest : String
  binding : Option TaskSourceAssociation
  deriving DecidableEq

def TaskFactSelection.toJson (f : TaskFactSelection) : Json :=
  .obj [("fact", f.fact.toJson), ("fact_digest", .str f.factDigest),
    ("binding", .opt TaskSourceAssociation.toJson f.binding)]

structure EvidenceRef where
  repo : String
  path : String
  byteStart : ℕ
  byteEnd : ℕ
  commitSha : String
  deriving DecidableEq

def EvidenceRef.toJson (e : EvidenceRef) : Json :=
  .obj [("repo", .str e.repo), ("path", .str e.path), ("byte_start", .nat e.byteStart),
    ("byte_end", .nat e.byteEnd), ("commit_sha", .str e.commitSha)]

inductive TaskRangeRole
  | provenance | ruleExit | conditionBranch | conditionExpression | returnValue | throwValue
  | dependency | dependencyDeclaration | redaction | definitionDeclaration | definitionUse
  | definitionInitializer | definitionExpression | definitionDependency
  | definitionDependencyDeclaration
  deriving DecidableEq

def TaskRangeRole.text : TaskRangeRole → String
  | .provenance => "provenance"
  | .ruleExit => "rule_exit"
  | .conditionBranch => "condition_branch"
  | .conditionExpression => "condition_expression"
  | .returnValue => "return_value"
  | .throwValue => "throw_value"
  | .dependency => "dependency"
  | .dependencyDeclaration => "dependency_declaration"
  | .redaction => "redaction"
  | .definitionDeclaration => "definition_declaration"
  | .definitionUse => "definition_use"
  | .definitionInitializer => "definition_initializer"
  | .definitionExpression => "definition_expression"
  | .definitionDependency => "definition_dependency"
  | .definitionDependencyDeclaration => "definition_dependency_declaration"

/-- The roles that exist only since receipts of version two. -/
def TaskRangeRole.definition : TaskRangeRole → Bool
  | .definitionDeclaration | .definitionUse | .definitionInitializer | .definitionExpression
  | .definitionDependency | .definitionDependencyDeclaration => true
  | _ => false

structure TaskCaptureFileRef where
  sourceId : String
  captureId : String
  path : String
  digest : String
  byteLen : ℕ
  deriving DecidableEq

structure TaskCaptureSpanRef where
  file : TaskCaptureFileRef
  byteStart : ℕ
  byteEnd : ℕ
  deriving DecidableEq

def TaskCaptureSpanRef.toJson (c : TaskCaptureSpanRef) : Json :=
  .obj [("file", .obj [("source_id", .str c.file.sourceId), ("capture_id", .str c.file.captureId),
      ("path", .str c.file.path), ("digest", .str c.file.digest),
      ("byte_len", .nat c.file.byteLen)]),
    ("byte_start", .nat c.byteStart), ("byte_end", .nat c.byteEnd)]

/-- The scope and closure of captured source have one value each. -/
inductive InvestigationEvidenceOrigin
  | graphMetadata
  | workingTreeUnverified
  | capturedPrimarySource (registeredSourceId receiptId : String) (receiptInventoryIndex : ℕ)
      (captured : TaskCaptureSpanRef)
  deriving DecidableEq

def InvestigationEvidenceOrigin.toJson : InvestigationEvidenceOrigin → Json
  | .graphMetadata => .obj [("kind", .str "graph_metadata")]
  | .workingTreeUnverified => .obj [("kind", .str "working_tree_unverified")]
  | .capturedPrimarySource registeredSourceId receiptId receiptInventoryIndex captured =>
    .obj [("kind", .str "captured_primary_source"),
      ("registered_source_id", .str registeredSourceId), ("receipt_id", .str receiptId),
      ("receipt_inventory_index", .nat receiptInventoryIndex), ("captured", captured.toJson),
      ("scope", .str "primary_source_only"),
      ("input_closure", .str "input_closure_not_established")]

structure InvestigationCitation where
  citationId : String
  fact : TaskFactKey
  factDigest : String
  source : Option EvidenceRef
  role : Option TaskRangeRole
  index : Option ℕ
  textHash : Option String
  origin : InvestigationEvidenceOrigin
  deriving DecidableEq

def InvestigationCitation.toJson (c : InvestigationCitation) : Json :=
  .obj [("citation_id", .str c.citationId), ("fact", c.fact.toJson),
    ("fact_digest", .str c.factDigest), ("source", .opt EvidenceRef.toJson c.source),
    ("role", .opt (fun r => .str r.text) c.role), ("index", .opt .nat c.index),
    ("text_hash", .opt .str c.textHash), ("origin", c.origin.toJson)]

/-! ### Input ledgers -/

inductive InvestigationFactKind
  | node | edge
  deriving DecidableEq

def InvestigationFactKind.text : InvestigationFactKind → String
  | .node => "node"
  | .edge => "edge"

structure InvestigationQueryCursor where
  snapshotId : String
  selectionId : String
  offset : ℕ
  deriving DecidableEq

def InvestigationQueryCursor.toJson (c : InvestigationQueryCursor) : Json :=
  .obj [("snapshot_id", .str c.snapshotId), ("selection_id", .str c.selectionId),
    ("offset", .nat c.offset)]

structure InvestigationQuery where
  scope : InvestigationScope
  kind : Option InvestigationFactKind
  labels : List String
  maxFacts : ℕ
  maxBytes : ℕ
  cursor : Option InvestigationQueryCursor
  deriving DecidableEq

def InvestigationQuery.toJson (q : InvestigationQuery) : Json :=
  .obj [("scope", q.scope.toJson), ("kind", .opt (fun k => .str k.text) q.kind),
    ("labels", .arr (q.labels.map .str)), ("max_facts", .nat q.maxFacts),
    ("max_bytes", .nat q.maxBytes), ("cursor", .opt InvestigationQueryCursor.toJson q.cursor)]

structure InvestigationQueryManifest where
  query : InvestigationQuery
  responseHash : String
  responseBytes : ℕ
  returnedFacts : ℕ
  totalSelected : ℕ
  hasMore : Bool
  deriving DecidableEq

def InvestigationQueryManifest.toJson (q : InvestigationQueryManifest) : Json :=
  .obj [("query", q.query.toJson), ("response_hash", .str q.responseHash),
    ("response_bytes", .nat q.responseBytes), ("returned_facts", .nat q.returnedFacts),
    ("total_selected", .nat q.totalSelected), ("has_more", .bool q.hasMore)]

structure InvestigationReceiptReference where
  sourceId : String
  repoKey : String
  receiptId : String
  deriving DecidableEq

def InvestigationReceiptReference.lt (a b : InvestigationReceiptReference) : Bool :=
  decide (a.sourceId < b.sourceId) || (a.sourceId == b.sourceId &&
    (decide (a.repoKey < b.repoKey) ||
      (a.repoKey == b.repoKey && decide (a.receiptId < b.receiptId))))

def InvestigationReceiptReference.toJson (r : InvestigationReceiptReference) : Json :=
  .obj [("source_id", .str r.sourceId), ("repo_key", .str r.repoKey),
    ("receipt_id", .str r.receiptId)]

structure InvestigationInputLedger where
  schemaVersion : ℕ
  graphSnapshotId : String
  scopeSnapshotId : String
  revision : ℕ
  selectedFacts : List TaskFactSelection
  receiptReferences : List InvestigationReceiptReference
  citations : List InvestigationCitation
  queries : List InvestigationQueryManifest
  suppliedHistoryHash : Option String
  suppliedHistoryBytes : ℕ
  deriving DecidableEq

def InvestigationInputLedger.toJson (l : InvestigationInputLedger) : Json :=
  .obj [("schema_version", .nat l.schemaVersion), ("graph_snapshot_id", .str l.graphSnapshotId),
    ("scope_snapshot_id", .str l.scopeSnapshotId), ("revision", .nat l.revision),
    ("selected_facts", .arr (l.selectedFacts.map TaskFactSelection.toJson)),
    ("receipt_references", .arr (l.receiptReferences.map InvestigationReceiptReference.toJson)),
    ("citations", .arr (l.citations.map InvestigationCitation.toJson)),
    ("queries", .arr (l.queries.map InvestigationQueryManifest.toJson)),
    ("supplied_history_hash", .opt .str l.suppliedHistoryHash),
    ("supplied_history_bytes", .nat l.suppliedHistoryBytes)]

/-! ### Results -/

inductive InvestigationClaimKind
  | implementedBehavior | documentedIntent | inferredInterpretation | proposedDesign
  deriving DecidableEq

def InvestigationClaimKind.text : InvestigationClaimKind → String
  | .implementedBehavior => "implemented_behavior"
  | .documentedIntent => "documented_intent"
  | .inferredInterpretation => "inferred_interpretation"
  | .proposedDesign => "proposed_design"

inductive KnowledgeCompleteness
  | partialKnowledge | insufficientEvidence
  deriving DecidableEq

def KnowledgeCompleteness.text : KnowledgeCompleteness → String
  | .partialKnowledge => "partial"
  | .insufficientEvidence => "insufficient_evidence"

structure InvestigationFinding where
  findingId : String
  claimKind : InvestigationClaimKind
  title : String
  statement : String
  citationIds : List String
  limitations : List String
  tier : Tier
  confidenceTier : ConfidenceTier
  deriving DecidableEq

def InvestigationFinding.toJson (f : InvestigationFinding) : Json :=
  .obj [("finding_id", .str f.findingId), ("claim_kind", .str f.claimKind.text),
    ("title", .str f.title), ("statement", .str f.statement),
    ("citation_ids", .arr (f.citationIds.map .str)),
    ("limitations", .arr (f.limitations.map .str)), ("tier", .str f.tier.text),
    ("confidence_tier", .str f.confidenceTier.text)]

structure InvestigationResult where
  schemaVersion : ℕ
  investigationId : String
  resultId : String
  inputLedgerHash : String
  graphSnapshotId : String
  findings : List InvestigationFinding
  knowledgeCompleteness : KnowledgeCompleteness
  limitations : List String
  observedResponseModel : Option String
  createdAt : String
  deriving DecidableEq

def InvestigationResult.toJson (r : InvestigationResult) : Json :=
  .obj [("schema_version", .nat r.schemaVersion), ("investigation_id", .str r.investigationId),
    ("result_id", .str r.resultId), ("input_ledger_hash", .str r.inputLedgerHash),
    ("graph_snapshot_id", .str r.graphSnapshotId),
    ("findings", .arr (r.findings.map InvestigationFinding.toJson)),
    ("knowledge_completeness", .str r.knowledgeCompleteness.text),
    ("limitations", .arr (r.limitations.map .str)),
    ("observed_response_model", .opt .str r.observedResponseModel),
    ("created_at", .str r.createdAt)]

/-! ### Requests, summaries and events -/

structure StartInvestigationRequest where
  schemaVersion : ℕ
  requestNonce : String
  specialistId : SpecialistId
  question : String
  scope : InvestigationScope
  providerMode : InvestigationProviderMode
  limitProfile : String
  expectedGraphRevision : Option String
  conversationId : Option String
  parentId : Option String
  deriving DecidableEq

def StartInvestigationRequest.toJson (r : StartInvestigationRequest) : Json :=
  .obj ([("schema_version", .nat r.schemaVersion), ("request_nonce", .str r.requestNonce),
      ("specialist_id", .str r.specialistId.text), ("question", .str r.question),
      ("scope", r.scope.toJson), ("provider_mode", .str r.providerMode.text),
      ("limit_profile", .str r.limitProfile)] ++
    (r.expectedGraphRevision.toList.map fun v => ("expected_graph_revision", .str v)) ++
    (r.conversationId.toList.map fun v => ("conversation_id", .str v)) ++
    (r.parentId.toList.map fun v => ("parent_id", .str v)))

inductive InvestigationStatus
  | queued | preparing | running | awaitingConsent | completed | failed | cancelled | interrupted
  | outcomeUnknown
  deriving DecidableEq

def InvestigationStatus.text : InvestigationStatus → String
  | .queued => "queued"
  | .preparing => "preparing"
  | .running => "running"
  | .awaitingConsent => "awaiting_consent"
  | .completed => "completed"
  | .failed => "failed"
  | .cancelled => "cancelled"
  | .interrupted => "interrupted"
  | .outcomeUnknown => "outcome_unknown"

structure InvestigationActions where
  canCancel : Bool
  canFollowUp : Bool
  deriving DecidableEq

structure InvestigationSummary where
  schemaVersion : ℕ
  investigationId : String
  conversationId : String
  parentId : Option String
  jobId : ℕ
  specialistId : SpecialistId
  question : String
  scope : InvestigationScope
  providerMode : InvestigationProviderMode
  status : InvestigationStatus
  revision : ℕ
  cancelRequested : Bool
  invocationPending : Bool
  actions : InvestigationActions
  graphSnapshotId : Option String
  lastEventSequence : ℕ
  hasResult : Bool
  createdAt : String
  updatedAt : String
  deriving DecidableEq

def InvestigationSummary.fields (s : InvestigationSummary) : List (String × Json) :=
  [("schema_version", .nat s.schemaVersion), ("investigation_id", .str s.investigationId),
    ("conversation_id", .str s.conversationId), ("parent_id", .opt .str s.parentId),
    ("job_id", .nat s.jobId), ("specialist_id", .str s.specialistId.text),
    ("question", .str s.question), ("scope", s.scope.toJson),
    ("provider_mode", .str s.providerMode.text), ("status", .str s.status.text),
    ("revision", .nat s.revision), ("cancel_requested", .bool s.cancelRequested),
    ("invocation_pending", .bool s.invocationPending),
    ("actions", .obj [("can_cancel", .bool s.actions.canCancel),
      ("can_follow_up", .bool s.actions.canFollowUp)]),
    ("graph_snapshot_id", .opt .str s.graphSnapshotId),
    ("last_event_sequence", .nat s.lastEventSequence), ("has_result", .bool s.hasResult),
    ("created_at", .str s.createdAt), ("updated_at", .str s.updatedAt)]

def InvestigationSummary.toJson (s : InvestigationSummary) : Json := .obj s.fields

/-- The origin of an investigation has the one value `app`. -/
structure InvestigationDetail where
  summary : InvestigationSummary
  contextOwner : String
  specialist : InvestigationSpecialist
  provider : InvestigationProvider
  scopeSnapshotId : Option String
  limits : InvestigationLimits
  usage : InvestigationUsage
  citations : List InvestigationCitation
  error : Option String
  deriving DecidableEq

/-- The members of the summary are flattened into the detail. -/
def InvestigationDetail.toJson (d : InvestigationDetail) : Json :=
  .obj (d.summary.fields ++
    [("context_owner", .str d.contextOwner), ("origin", .str "app"),
      ("specialist", d.specialist.toJson), ("provider", d.provider.toJson),
      ("scope_snapshot_id", .opt .str d.scopeSnapshotId), ("limits", d.limits.toJson),
      ("usage", d.usage.toJson),
      ("citations", .arr (d.citations.map InvestigationCitation.toJson)),
      ("error", .opt .str d.error)])

inductive InvestigationTool
  | queryContext | readEvidence
  deriving DecidableEq

def InvestigationTool.text : InvestigationTool → String
  | .queryContext => "query_context"
  | .readEvidence => "read_evidence"

inductive InvestigationEventKind
  | created | preparationStarted | contextPrepared | modelStarted | modelCompleted
  | actionAdmitted | toolStarted | toolCompleted | consentRequired | consentApproved
  | consentDeclined | cancelRequested | resultPersisted | completed | failed | cancelled
  | interrupted | outcomeUnknown | evidenceValidationReserved
  deriving DecidableEq

def InvestigationEventKind.text : InvestigationEventKind → String
  | .created => "created"
  | .preparationStarted => "preparation_started"
  | .contextPrepared => "context_prepared"
  | .modelStarted => "model_started"
  | .modelCompleted => "model_completed"
  | .actionAdmitted => "action_admitted"
  | .toolStarted => "tool_started"
  | .toolCompleted => "tool_completed"
  | .consentRequired => "consent_required"
  | .consentApproved => "consent_approved"
  | .consentDeclined => "consent_declined"
  | .cancelRequested => "cancel_requested"
  | .resultPersisted => "result_persisted"
  | .completed => "completed"
  | .failed => "failed"
  | .cancelled => "cancelled"
  | .interrupted => "interrupted"
  | .outcomeUnknown => "outcome_unknown"
  | .evidenceValidationReserved => "evidence_validation_reserved"

structure InvestigationEvent where
  investigationId : String
  sequence : ℕ
  revision : ℕ
  kind : InvestigationEventKind
  stepId : Option String
  tool : Option InvestigationTool
  summary : String
  createdAt : String
  deriving DecidableEq

def InvestigationEvent.toJson (e : InvestigationEvent) : Json :=
  .obj [("investigation_id", .str e.investigationId), ("sequence", .nat e.sequence),
    ("revision", .nat e.revision), ("kind", .str e.kind.text), ("step_id", .opt .str e.stepId),
    ("tool", .opt (fun t => .str t.text) e.tool), ("summary", .str e.summary),
    ("created_at", .str e.createdAt)]

/-! ### The stored task -/

structure PendingInvestigationStep where
  stepId : String
  payloadHash : String
  inputLedgerHash : String
  inputBytes : ℕ
  generatedTokens : ℕ
  deriving DecidableEq

def PendingInvestigationStep.toJson (s : PendingInvestigationStep) : Json :=
  .obj [("step_id", .str s.stepId), ("payload_hash", .str s.payloadHash),
    ("input_ledger_hash", .str s.inputLedgerHash), ("input_bytes", .nat s.inputBytes),
    ("generated_tokens", .nat s.generatedTokens)]

structure InvestigationResponseMeta where
  stepId : String
  responseHash : String
  actionHash : String
  observedModel : Option String
  reportedInputTokens : Option UInt64
  reportedOutputTokens : Option UInt64
  activeMilliseconds : UInt64
  deriving DecidableEq

def InvestigationResponseMeta.toJson (r : InvestigationResponseMeta) : Json :=
  .obj [("step_id", .str r.stepId), ("response_hash", .str r.responseHash),
    ("action_hash", .str r.actionHash), ("observed_model", .opt .str r.observedModel),
    ("reported_input_tokens", .opt word r.reportedInputTokens),
    ("reported_output_tokens", .opt word r.reportedOutputTokens),
    ("active_milliseconds", word r.activeMilliseconds)]

inductive Phase
  | queued | preparing | ready | consent | invocation | action | tool | terminal
  deriving DecidableEq

def Phase.text : Phase → String
  | .queued => "queued"
  | .preparing => "preparing"
  | .ready => "ready"
  | .consent => "consent"
  | .invocation => "invocation"
  | .action => "action"
  | .tool => "tool"
  | .terminal => "terminal"

structure StoredExecution where
  namespaceValue : String
  jobId : ℕ
  generation : ℕ
  owner : String
  deriving DecidableEq

def StoredExecution.toJson (e : StoredExecution) : Json :=
  .obj [("namespace", .str e.namespaceValue), ("job_id", .nat e.jobId),
    ("generation", .nat e.generation), ("owner", .str e.owner)]

structure StoredTask where
  schemaVersion : ℕ
  nonce : String
  intentHash : String
  expectedGraphRevision : Option String
  detail : InvestigationDetail
  phase : Phase
  execution : Option StoredExecution
  ledgerHash : Option String
  ledgerRevision : Option ℕ
  pending : Option PendingInvestigationStep
  approved : Bool
  actionTool : Option InvestigationTool
  deriving DecidableEq

def StoredTask.toJson (t : StoredTask) : Json :=
  .obj [("schema_version", .nat t.schemaVersion), ("nonce", .str t.nonce),
    ("intent_hash", .str t.intentHash),
    ("expected_graph_revision", .opt .str t.expectedGraphRevision), ("detail", t.detail.toJson),
    ("phase", .str t.phase.text), ("execution", .opt StoredExecution.toJson t.execution),
    ("ledger_hash", .opt .str t.ledgerHash), ("ledger_revision", .opt .nat t.ledgerRevision),
    ("pending", .opt PendingInvestigationStep.toJson t.pending), ("approved", .bool t.approved),
    ("action_tool", .opt (fun x => .str x.text) t.actionTool)]

end Investigation

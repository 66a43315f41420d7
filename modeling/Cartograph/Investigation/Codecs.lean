/-
How records are read (`crates/agents/src/investigation/`, `crates/core-prov/src/lib.rs`).

The derived readers of the stored records, beside the writers `toJson`.  They also take the
fields of a struct from an array, which the readers here do not; `decode_record` writes what it
has read and compares, and a writer never makes that array.  The same comparison settles members
that are unknown, or that a reader fills in.

* `serde` of a record — its codec, whose writer is `toJson` (`write_eq`);
* `StoredTask.serde`, `InvestigationResult.serde`, `InvestigationInputLedger.serde`,
  `InvestigationEvent.serde` — the records of the store.
-/
import Cartograph.Lib.Serde
import Cartograph.Investigation.Admission

namespace Investigation

open Serde

def u32 : Serde ℕ := Serde.nat (2 ^ 32)

/-- `u64` and `usize`. -/
def u64 : Serde ℕ := Serde.nat (2 ^ 64)

/-- Rows of SQLite are numbered by `i64`. -/
def i64 : Serde ℕ := Serde.nat (2 ^ 63)

def wordSerde : Serde UInt64 := u64.iso UInt64.toNat UInt64.ofNat fun _ => UInt64.ofNat_toNat

/-! ### Enumerations -/

def Tier.serde : Serde Tier :=
  unit Tier.text [.deterministic, .dynamic, .semantic, .agentic] (by intro t; cases t <;> rfl)

def ConfidenceTier.serde : Serde ConfidenceTier :=
  unit ConfidenceTier.text [.confirmed, .inferredStrong, .inferredWeak, .gap]
    (by intro c; cases c <;> rfl)

def SpecialistId.serde : Serde SpecialistId :=
  unit SpecialistId.text [.domainAnalystV1, .evidenceAuditorV1, .domainAnalyst, .evidenceAuditor]
    (by intro s; cases s <;> rfl)

def InvestigationProviderMode.serde : Serde InvestigationProviderMode :=
  unit InvestigationProviderMode.text [.localMode, .cloud] (by intro m; cases m <;> rfl)

def TaskRangeRole.serde : Serde TaskRangeRole :=
  unit TaskRangeRole.text
    [.provenance, .ruleExit, .conditionBranch, .conditionExpression, .returnValue, .throwValue,
      .dependency, .dependencyDeclaration, .redaction, .definitionDeclaration, .definitionUse,
      .definitionInitializer, .definitionExpression, .definitionDependency,
      .definitionDependencyDeclaration]
    (by intro r; cases r <;> rfl)

def InvestigationFactKind.serde : Serde InvestigationFactKind :=
  unit InvestigationFactKind.text [.node, .edge] (by intro k; cases k <;> rfl)

def InvestigationClaimKind.serde : Serde InvestigationClaimKind :=
  unit InvestigationClaimKind.text
    [.implementedBehavior, .documentedIntent, .inferredInterpretation, .proposedDesign]
    (by intro k; cases k <;> rfl)

def KnowledgeCompleteness.serde : Serde KnowledgeCompleteness :=
  unit KnowledgeCompleteness.text [.partialKnowledge, .insufficientEvidence]
    (by intro k; cases k <;> rfl)

def InvestigationStatus.serde : Serde InvestigationStatus :=
  unit InvestigationStatus.text
    [.queued, .preparing, .running, .awaitingConsent, .completed, .failed, .cancelled, .interrupted,
      .outcomeUnknown]
    (by intro s; cases s <;> rfl)

def InvestigationTool.serde : Serde InvestigationTool :=
  unit InvestigationTool.text [.queryContext, .readEvidence] (by intro t; cases t <;> rfl)

def InvestigationEventKind.serde : Serde InvestigationEventKind :=
  unit InvestigationEventKind.text
    [.created, .preparationStarted, .contextPrepared, .modelStarted, .modelCompleted,
      .actionAdmitted, .toolStarted, .toolCompleted, .consentRequired, .consentApproved,
      .consentDeclined, .cancelRequested, .resultPersisted, .completed, .failed, .cancelled,
      .interrupted, .outcomeUnknown, .evidenceValidationReserved]
    (by intro k; cases k <;> rfl)

def Phase.serde : Serde Phase :=
  unit Phase.text [.queued, .preparing, .ready, .consent, .invocation, .action, .tool, .terminal]
    (by intro p; cases p <;> rfl)

/-! ### Facts, citations and ledgers -/

def InvestigationScope.serde : Serde InvestigationScope :=
  (((Variants.one "type" "all" .empty).or <| .one "type" "neighborhood" <|
      .and (.one "anchor" str) <| .one "hops" u32).toFields.iso
    (fun scope => match scope with
      | .all => .inl ()
      | .neighborhood anchor hops => .inr (anchor, hops))
    (fun x => match x with
      | .inl _ => .all
      | .inr (anchor, hops) => .neighborhood anchor hops)
    (by intro scope; cases scope <;> rfl)).obj.writing toJson (by funext scope; cases scope <;> rfl)

def TaskFactKey.serde : Serde TaskFactKey :=
  (((Variants.one "kind" "node" <| .one "id" str).or <| .one "kind" "edge" <|
      .and (.one "source" str) <| .and (.one "label" str) <| .one "destination" str).toFields.iso
    (fun key => match key with
      | .node id => .inl id
      | .edge source label destination => .inr (source, label, destination))
    (fun x => match x with
      | .inl id => .node id
      | .inr (source, label, destination) => .edge source label destination)
    (by intro key; cases key <;> rfl)).obj.writing toJson (by funext key; cases key <;> rfl)

def TaskSourceAssociation.serde : Serde TaskSourceAssociation :=
  ((Fields.and (.one "repo_key" str) <| .and (.one "receipt_id" str) <|
      .one "emitted_fact_digest" str).iso
    (fun a => (a.repoKey, a.receiptId, a.emittedFactDigest))
    (fun (repoKey, receiptId, emittedFactDigest) => ⟨repoKey, receiptId, emittedFactDigest⟩)
    fun _ => rfl).obj.writing toJson rfl

def TaskFactSelection.serde : Serde TaskFactSelection :=
  ((Fields.and (.one "fact" TaskFactKey.serde) <| .and (.one "fact_digest" str) <|
      .opt "binding" TaskSourceAssociation.serde).iso
    (fun f => (f.fact, f.factDigest, f.binding))
    (fun (fact, factDigest, binding) => ⟨fact, factDigest, binding⟩)
    fun _ => rfl).obj.writing toJson rfl

def EvidenceRef.serde : Serde EvidenceRef :=
  ((Fields.and (.one "repo" str) <| .and (.one "path" str) <| .and (.one "byte_start" u64) <|
      .and (.one "byte_end" u64) <| .one "commit_sha" str).iso
    (fun e => (e.repo, e.path, e.byteStart, e.byteEnd, e.commitSha))
    (fun (repo, path, byteStart, byteEnd, commitSha) =>
      ⟨repo, path, byteStart, byteEnd, commitSha⟩)
    fun _ => rfl).obj.writing toJson rfl

def TaskCaptureSpanRef.serde : Serde TaskCaptureSpanRef :=
  ((Fields.and (.one "file" (Fields.and (.one "source_id" str) <| .and (.one "capture_id" str) <|
        .and (.one "path" str) <| .and (.one "digest" str) <| .one "byte_len" u64).obj) <|
      .and (.one "byte_start" u64) <| .one "byte_end" u64).iso
    (fun c => ((c.file.sourceId, c.file.captureId, c.file.path, c.file.digest, c.file.byteLen),
      c.byteStart, c.byteEnd))
    (fun ((sourceId, captureId, path, digest, byteLen), byteStart, byteEnd) =>
      ⟨⟨sourceId, captureId, path, digest, byteLen⟩, byteStart, byteEnd⟩)
    fun _ => rfl).obj.writing toJson rfl

/-- The origins of source text, which the origins of evidence of an investigation and of a task
share. -/
def sourceOrigins : Variants "kind" (Unit ⊕ String × String × ℕ × TaskCaptureSpanRef × Unit) :=
  (Variants.one "kind" "working_tree_unverified" .empty).or <|
    .one "kind" "captured_primary_source" <| .and (.one "registered_source_id" str) <|
    .and (.one "receipt_id" str) <| .and (.one "receipt_inventory_index" u32) <|
    .and (.one "captured" TaskCaptureSpanRef.serde) <| .const "scope" "primary_source_only" <|
    .const "input_closure" "input_closure_not_established" .empty

def InvestigationEvidenceOrigin.serde : Serde InvestigationEvidenceOrigin :=
  (((Variants.one "kind" "graph_metadata" .empty).or sourceOrigins).toFields.iso
    (fun origin => match origin with
      | .graphMetadata => .inl ()
      | .workingTreeUnverified => .inr (.inl ())
      | .capturedPrimarySource sourceId receiptId index captured =>
        .inr (.inr (sourceId, receiptId, index, captured, ())))
    (fun x => match x with
      | .inl _ => .graphMetadata
      | .inr (.inl _) => .workingTreeUnverified
      | .inr (.inr (sourceId, receiptId, index, captured, _)) =>
        .capturedPrimarySource sourceId receiptId index captured)
    (by intro origin; cases origin <;> rfl)).obj.writing toJson (by funext origin; cases origin <;> rfl)

def InvestigationCitation.serde : Serde InvestigationCitation :=
  ((Fields.and (.one "citation_id" str) <| .and (.one "fact" TaskFactKey.serde) <|
      .and (.one "fact_digest" str) <| .and (.opt "source" EvidenceRef.serde) <|
      .and (.opt "role" TaskRangeRole.serde) <| .and (.opt "index" u32) <|
      .and (.opt "text_hash" str) <| .one "origin" InvestigationEvidenceOrigin.serde).iso
    (fun c => (c.citationId, c.fact, c.factDigest, c.source, c.role, c.index, c.textHash,
      c.origin))
    (fun (citationId, fact, factDigest, source, role, index, textHash, origin) =>
      ⟨citationId, fact, factDigest, source, role, index, textHash, origin⟩)
    fun _ => rfl).obj.writing toJson rfl

def InvestigationQueryCursor.serde : Serde InvestigationQueryCursor :=
  ((Fields.and (.one "snapshot_id" str) <| .and (.one "selection_id" str) <| .one "offset" u64).iso
    (fun c => (c.snapshotId, c.selectionId, c.offset))
    (fun (snapshotId, selectionId, offset) => ⟨snapshotId, selectionId, offset⟩)
    fun _ => rfl).obj.writing toJson rfl

def InvestigationQuery.serde : Serde InvestigationQuery :=
  ((Fields.and (.one "scope" InvestigationScope.serde) <|
      .and (.opt "kind" InvestigationFactKind.serde) <| .and (.one "labels" str.list) <|
      .and (.one "max_facts" u64) <| .and (.one "max_bytes" u64) <|
      .opt "cursor" InvestigationQueryCursor.serde).iso
    (fun q => (q.scope, q.kind, q.labels, q.maxFacts, q.maxBytes, q.cursor))
    (fun (scope, kind, labels, maxFacts, maxBytes, cursor) =>
      ⟨scope, kind, labels, maxFacts, maxBytes, cursor⟩)
    fun _ => rfl).obj.writing toJson rfl

def InvestigationQueryManifest.serde : Serde InvestigationQueryManifest :=
  ((Fields.and (.one "query" InvestigationQuery.serde) <| .and (.one "response_hash" str) <|
      .and (.one "response_bytes" u64) <| .and (.one "returned_facts" u64) <|
      .and (.one "total_selected" u64) <| .one "has_more" bool).iso
    (fun q => (q.query, q.responseHash, q.responseBytes, q.returnedFacts, q.totalSelected,
      q.hasMore))
    (fun (query, responseHash, responseBytes, returnedFacts, totalSelected, hasMore) =>
      ⟨query, responseHash, responseBytes, returnedFacts, totalSelected, hasMore⟩)
    fun _ => rfl).obj.writing toJson rfl

def InvestigationReceiptReference.serde : Serde InvestigationReceiptReference :=
  ((Fields.and (.one "source_id" str) <| .and (.one "repo_key" str) <| .one "receipt_id" str).iso
    (fun r => (r.sourceId, r.repoKey, r.receiptId))
    (fun (sourceId, repoKey, receiptId) => ⟨sourceId, repoKey, receiptId⟩)
    fun _ => rfl).obj.writing toJson rfl

def InvestigationInputLedger.serde : Serde InvestigationInputLedger :=
  ((Fields.and (.one "schema_version" u32) <| .and (.one "graph_snapshot_id" str) <|
      .and (.one "scope_snapshot_id" str) <| .and (.one "revision" u64) <|
      .and (.one "selected_facts" TaskFactSelection.serde.list) <|
      .and (.one "receipt_references" InvestigationReceiptReference.serde.list) <|
      .and (.one "citations" InvestigationCitation.serde.list) <|
      .and (.one "queries" InvestigationQueryManifest.serde.list) <|
      .and (.opt "supplied_history_hash" str) <| .one "supplied_history_bytes" u64).iso
    (fun l => (l.schemaVersion, l.graphSnapshotId, l.scopeSnapshotId, l.revision, l.selectedFacts,
      l.receiptReferences, l.citations, l.queries, l.suppliedHistoryHash, l.suppliedHistoryBytes))
    (fun (schemaVersion, graphSnapshotId, scopeSnapshotId, revision, selectedFacts,
      receiptReferences, citations, queries, suppliedHistoryHash, suppliedHistoryBytes) =>
      ⟨schemaVersion, graphSnapshotId, scopeSnapshotId, revision, selectedFacts, receiptReferences,
        citations, queries, suppliedHistoryHash, suppliedHistoryBytes⟩)
    fun _ => rfl).obj.writing toJson rfl

/-! ### Results and events -/

def InvestigationFinding.serde : Serde InvestigationFinding :=
  ((Fields.and (.one "finding_id" str) <| .and (.one "claim_kind" InvestigationClaimKind.serde) <|
      .and (.one "title" str) <| .and (.one "statement" str) <|
      .and (.one "citation_ids" str.list) <| .and (.one "limitations" str.list) <|
      .and (.one "tier" Tier.serde) <| .one "confidence_tier" ConfidenceTier.serde).iso
    (fun f => (f.findingId, f.claimKind, f.title, f.statement, f.citationIds, f.limitations,
      f.tier, f.confidenceTier))
    (fun (findingId, claimKind, title, statement, citationIds, limitations, tier,
      confidenceTier) =>
      ⟨findingId, claimKind, title, statement, citationIds, limitations, tier, confidenceTier⟩)
    fun _ => rfl).obj.writing toJson rfl

def InvestigationResult.serde : Serde InvestigationResult :=
  ((Fields.and (.one "schema_version" u32) <| .and (.one "investigation_id" str) <|
      .and (.one "result_id" str) <| .and (.one "input_ledger_hash" str) <|
      .and (.one "graph_snapshot_id" str) <|
      .and (.one "findings" InvestigationFinding.serde.list) <|
      .and (.one "knowledge_completeness" KnowledgeCompleteness.serde) <|
      .and (.one "limitations" str.list) <| .and (.opt "observed_response_model" str) <|
      .one "created_at" str).iso
    (fun r => (r.schemaVersion, r.investigationId, r.resultId, r.inputLedgerHash,
      r.graphSnapshotId, r.findings, r.knowledgeCompleteness, r.limitations,
      r.observedResponseModel, r.createdAt))
    (fun (schemaVersion, investigationId, resultId, inputLedgerHash, graphSnapshotId, findings,
      knowledgeCompleteness, limitations, observedResponseModel, createdAt) =>
      ⟨schemaVersion, investigationId, resultId, inputLedgerHash, graphSnapshotId, findings,
        knowledgeCompleteness, limitations, observedResponseModel, createdAt⟩)
    fun _ => rfl).obj.writing toJson rfl

theorem InvestigationFinding.fits (f : InvestigationFinding) : InvestigationFinding.serde.Fits f :=
  ⟨trivial, trivial, trivial, trivial, fun _ _ => trivial, fun _ _ => trivial, trivial, trivial⟩

theorem InvestigationResult.fits {r : InvestigationResult} (h : r.schemaVersion < 2 ^ 32) :
    InvestigationResult.serde.Fits r :=
  ⟨h, trivial, trivial, trivial, trivial, fun f _ => f.fits, trivial, fun _ _ => trivial,
    fun _ _ => trivial, trivial⟩

def InvestigationEvent.serde : Serde InvestigationEvent :=
  ((Fields.and (.one "investigation_id" str) <| .and (.one "sequence" u64) <|
      .and (.one "revision" u64) <| .and (.one "kind" InvestigationEventKind.serde) <|
      .and (.opt "step_id" str) <| .and (.opt "tool" InvestigationTool.serde) <|
      .and (.one "summary" str) <| .one "created_at" str).iso
    (fun e => (e.investigationId, e.sequence, e.revision, e.kind, e.stepId, e.tool, e.summary,
      e.createdAt))
    (fun (investigationId, sequence, revision, kind, stepId, tool, summary, createdAt) =>
      ⟨investigationId, sequence, revision, kind, stepId, tool, summary, createdAt⟩)
    fun _ => rfl).obj.writing toJson rfl

/-! ### The stored task -/

def InvestigationSpecialist.serde : Serde InvestigationSpecialist :=
  ((Fields.and (.one "id" SpecialistId.serde) <| .and (.one "name" str) <|
      .and (.one "version" u32) <| .and (.one "prompt_fingerprint" str) <|
      .and (.one "purpose" str) <| .and (.one "operations" str.list) <|
      .and (.one "tier" Tier.serde) <| .one "confidence_tier" ConfidenceTier.serde).iso
    (fun s => (s.id, s.name, s.version, s.promptFingerprint, s.purpose, s.operations, s.tier,
      s.confidenceTier))
    (fun (id, name, version, promptFingerprint, purpose, operations, tier, confidenceTier) =>
      ⟨id, name, version, promptFingerprint, purpose, operations, tier, confidenceTier⟩)
    fun _ => rfl).obj.writing toJson rfl

def InvestigationProvider.serde : Serde InvestigationProvider :=
  ((Fields.and (.one "mode" InvestigationProviderMode.serde) <| .and (.one "provider_id" str) <|
      .and (.one "model" str) <| .and (.one "endpoint" str) <| .and (.opt "deployment" str) <|
      .and (.omitted "protocol_version" str) <| .and (.one "available" bool) <|
      .opt "unavailable_reason" str).iso
    (fun p => (p.mode, p.providerId, p.model, p.endpoint, p.deployment, p.protocolVersion,
      p.available, p.unavailableReason))
    (fun (mode, providerId, model, endpoint, deployment, protocolVersion, available,
      unavailableReason) =>
      ⟨mode, providerId, model, endpoint, deployment, protocolVersion, available,
        unavailableReason⟩)
    fun _ => rfl).obj.writing toJson (by funext p; simp [Fields.obj, Fields.iso, Fields.and]; rfl)

def InvestigationLimits.serde : Serde InvestigationLimits :=
  ((Fields.and (.one "profile" str) <| .and (.one "model_invocations" u32) <|
      .and (.one "tool_actions" u32) <| .and (.one "selected_facts" u64) <|
      .and (.one "evidence_requests" u32) <| .and (.one "evidence_items" u64) <|
      .and (.one "evidence_bytes" u64) <| .and (.one "captured_validation_bytes" u64) <|
      .and (.one "generated_tokens_per_invocation" u32) <|
      .and (.one "generated_token_reservations" u32) <| .and (.one "active_seconds" u64) <|
      .and (.one "consent_wait_seconds" u64) <| .one "wall_seconds" u64).iso
    (fun l => (l.profile, l.modelInvocations, l.toolActions, l.selectedFacts, l.evidenceRequests,
      l.evidenceItems, l.evidenceBytes, l.capturedValidationBytes, l.generatedTokensPerInvocation,
      l.generatedTokenReservations, l.activeSeconds, l.consentWaitSeconds, l.wallSeconds))
    (fun (profile, modelInvocations, toolActions, selectedFacts, evidenceRequests, evidenceItems,
      evidenceBytes, capturedValidationBytes, generatedTokensPerInvocation,
      generatedTokenReservations, activeSeconds, consentWaitSeconds, wallSeconds) =>
      ⟨profile, modelInvocations, toolActions, selectedFacts, evidenceRequests, evidenceItems,
        evidenceBytes, capturedValidationBytes, generatedTokensPerInvocation,
        generatedTokenReservations, activeSeconds, consentWaitSeconds, wallSeconds⟩)
    fun _ => rfl).obj.writing toJson rfl

def InvestigationUsage.serde : Serde InvestigationUsage :=
  ((Fields.and (.one "model_invocations" u32) <| .and (.one "tool_actions" u32) <|
      .and (.one "selected_facts" u64) <| .and (.one "evidence_requests" u32) <|
      .and (.one "evidence_items" u64) <| .and (.one "evidence_bytes" u64) <|
      .and (.one "captured_validation_bytes" u64) <|
      .and (.one "generated_token_reservations" u32) <|
      .and (.opt "reported_input_tokens" wordSerde) <|
      .and (.opt "reported_output_tokens" wordSerde) <| .one "active_milliseconds" wordSerde).iso
    (fun u => (u.modelInvocations, u.toolActions, u.selectedFacts, u.evidenceRequests,
      u.evidenceItems, u.evidenceBytes, u.capturedValidationBytes, u.generatedTokenReservations,
      u.reportedInputTokens, u.reportedOutputTokens, u.activeMilliseconds))
    (fun (modelInvocations, toolActions, selectedFacts, evidenceRequests, evidenceItems,
      evidenceBytes, capturedValidationBytes, generatedTokenReservations, reportedInputTokens,
      reportedOutputTokens, activeMilliseconds) =>
      ⟨modelInvocations, toolActions, selectedFacts, evidenceRequests, evidenceItems,
        evidenceBytes, capturedValidationBytes, generatedTokenReservations, reportedInputTokens,
        reportedOutputTokens, activeMilliseconds⟩)
    fun _ => rfl).obj.writing toJson rfl

def InvestigationActions.serde : Serde InvestigationActions :=
  ((Fields.and (.one "can_cancel" bool) <| .one "can_follow_up" bool).iso
    (fun a => (a.canCancel, a.canFollowUp))
    (fun (canCancel, canFollowUp) => ⟨canCancel, canFollowUp⟩)
    fun _ => rfl).obj

/-- The members of a summary, which are members of the detail. -/
def InvestigationSummary.members : Fields InvestigationSummary :=
  (Fields.and (.one "schema_version" u32) <| .and (.one "investigation_id" str) <|
      .and (.one "conversation_id" str) <| .and (.opt "parent_id" str) <|
      .and (.one "job_id" i64) <| .and (.one "specialist_id" SpecialistId.serde) <|
      .and (.one "question" str) <| .and (.one "scope" InvestigationScope.serde) <|
      .and (.one "provider_mode" InvestigationProviderMode.serde) <|
      .and (.one "status" InvestigationStatus.serde) <| .and (.one "revision" u64) <|
      .and (.one "cancel_requested" bool) <| .and (.one "invocation_pending" bool) <|
      .and (.one "actions" InvestigationActions.serde) <| .and (.opt "graph_snapshot_id" str) <|
      .and (.one "last_event_sequence" u64) <| .and (.one "has_result" bool) <|
      .and (.one "created_at" str) <| .one "updated_at" str).iso
    (fun s => (s.schemaVersion, s.investigationId, s.conversationId, s.parentId, s.jobId,
      s.specialistId, s.question, s.scope, s.providerMode, s.status, s.revision, s.cancelRequested,
      s.invocationPending, s.actions, s.graphSnapshotId, s.lastEventSequence, s.hasResult,
      s.createdAt, s.updatedAt))
    (fun (schemaVersion, investigationId, conversationId, parentId, jobId, specialistId, question,
      scope, providerMode, status, revision, cancelRequested, invocationPending, actions,
      graphSnapshotId, lastEventSequence, hasResult, createdAt, updatedAt) =>
      ⟨schemaVersion, investigationId, conversationId, parentId, jobId, specialistId, question,
        scope, providerMode, status, revision, cancelRequested, invocationPending, actions,
        graphSnapshotId, lastEventSequence, hasResult, createdAt, updatedAt⟩)
    fun _ => rfl

def InvestigationDetail.serde : Serde InvestigationDetail :=
  ((Fields.and InvestigationSummary.members <| .and (.one "context_owner" str) <|
      .const "origin" "app" <| .and (.one "specialist" InvestigationSpecialist.serde) <|
      .and (.one "provider" InvestigationProvider.serde) <| .and (.opt "scope_snapshot_id" str) <|
      .and (.one "limits" InvestigationLimits.serde) <|
      .and (.one "usage" InvestigationUsage.serde) <|
      .and (.one "citations" InvestigationCitation.serde.list) <| .opt "error" str).iso
    (fun d => (d.summary, d.contextOwner, d.specialist, d.provider, d.scopeSnapshotId, d.limits,
      d.usage, d.citations, d.error))
    (fun (summary, contextOwner, specialist, provider, scopeSnapshotId, limits, usage, citations,
      error) =>
      ⟨summary, contextOwner, specialist, provider, scopeSnapshotId, limits, usage, citations, error⟩)
    fun _ => rfl).obj.writing toJson rfl

def StoredExecution.serde : Serde StoredExecution :=
  ((Fields.and (.one "namespace" str) <| .and (.one "job_id" i64) <|
      .and (.one "generation" i64) <| .one "owner" str).iso
    (fun e => (e.namespaceValue, e.jobId, e.generation, e.owner))
    (fun (namespaceValue, jobId, generation, owner) => ⟨namespaceValue, jobId, generation, owner⟩)
    fun _ => rfl).obj.writing toJson rfl

def PendingInvestigationStep.serde : Serde PendingInvestigationStep :=
  ((Fields.and (.one "step_id" str) <| .and (.one "payload_hash" str) <|
      .and (.one "input_ledger_hash" str) <| .and (.one "input_bytes" u64) <|
      .one "generated_tokens" u32).iso
    (fun p => (p.stepId, p.payloadHash, p.inputLedgerHash, p.inputBytes, p.generatedTokens))
    (fun (stepId, payloadHash, inputLedgerHash, inputBytes, generatedTokens) =>
      ⟨stepId, payloadHash, inputLedgerHash, inputBytes, generatedTokens⟩)
    fun _ => rfl).obj.writing toJson rfl

def InvestigationResponseMeta.serde : Serde InvestigationResponseMeta :=
  ((Fields.and (.one "step_id" str) <| .and (.one "response_hash" str) <|
      .and (.one "action_hash" str) <| .and (.opt "observed_model" str) <|
      .and (.opt "reported_input_tokens" wordSerde) <|
      .and (.opt "reported_output_tokens" wordSerde) <| .one "active_milliseconds" wordSerde).iso
    (fun r => (r.stepId, r.responseHash, r.actionHash, r.observedModel, r.reportedInputTokens,
      r.reportedOutputTokens, r.activeMilliseconds))
    (fun (stepId, responseHash, actionHash, observedModel, reportedInputTokens,
      reportedOutputTokens, activeMilliseconds) =>
      ⟨stepId, responseHash, actionHash, observedModel, reportedInputTokens, reportedOutputTokens,
        activeMilliseconds⟩)
    fun _ => rfl).obj.writing toJson rfl

def StoredTask.serde : Serde StoredTask :=
  ((Fields.and (.one "schema_version" u32) <| .and (.one "nonce" str) <|
      .and (.one "intent_hash" str) <| .and (.opt "expected_graph_revision" str) <|
      .and (.one "detail" InvestigationDetail.serde) <| .and (.one "phase" Phase.serde) <|
      .and (.opt "execution" StoredExecution.serde) <| .and (.opt "ledger_hash" str) <|
      .and (.opt "ledger_revision" u64) <| .and (.opt "pending" PendingInvestigationStep.serde) <|
      .and (.one "approved" bool) <| .opt "action_tool" InvestigationTool.serde).iso
    (fun t => (t.schemaVersion, t.nonce, t.intentHash, t.expectedGraphRevision, t.detail, t.phase,
      t.execution, t.ledgerHash, t.ledgerRevision, t.pending, t.approved, t.actionTool))
    (fun (schemaVersion, nonce, intentHash, expectedGraphRevision, detail, phase, execution,
      ledgerHash, ledgerRevision, pending, approved, actionTool) =>
      ⟨schemaVersion, nonce, intentHash, expectedGraphRevision, detail, phase, execution,
        ledgerHash, ledgerRevision, pending, approved, actionTool⟩)
    fun _ => rfl).obj.writing toJson rfl

end Investigation

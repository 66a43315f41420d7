/-
Basis hashes (`crates/agents/src/lib.rs`, `crates/agents/src/prepared.rs`).

A basis hash stands for a task in the decision log: it may not change with the order in which
evidence, candidates and ids come, nor with the action of a run, and it has to change with
everything else.  A prepared task is hashed with its source basis, and with hashes in the place
of its texts.

* `sortBy_congr`, `perm_of_sortBy` — sorted lists are the same for the same elements;
* `SameTask`, `SameSource` — what a hash does not see, and all it does not see;
* `basis_hashes_identify` — equal hashes of the same tasks only.
-/
import Cartograph.Agents.Replay
import Cartograph.Investigation.Codecs
import Cartograph.ContextHub.Identity

namespace Agents

open Investigation Serde Checked
open ContextHub (CollisionFree)

/-! ### Codecs -/

def AgentEvidence.serde : Serde AgentEvidence :=
  ((Fields.and (.one "id" str) <| .and (.one "source" EvidenceRef.serde) <| .one "text" str).iso
    (fun e => (e.id, e.source, e.text))
    (fun (id, source, text) => ⟨id, source, text⟩)
    fun _ => rfl).obj.writing toJson rfl

def AgentCandidate.serde : Serde AgentCandidate :=
  ((Fields.and (.one "node_id" str) <| .and (.one "label" str) <| .and (.one "summary" str) <|
      .one "evidence_ids" str.list).iso
    (fun c => (c.nodeId, c.label, c.summary, c.evidenceIds))
    (fun (nodeId, label, summary, evidenceIds) => ⟨nodeId, label, summary, evidenceIds⟩)
    fun _ => rfl).obj.writing toJson rfl

def EvidenceBasis.serde : Serde EvidenceBasis :=
  ((Fields.and (.one "id" str) <| .and (.one "source" EvidenceRef.serde) <|
      .and (.one "text_hash" str) <| .one "text_bytes" u64).iso
    (fun e => (e.id, e.source, e.textHash, e.textBytes))
    (fun (id, source, textHash, textBytes) => ⟨id, source, textHash, textBytes⟩)
    fun _ => rfl).obj.writing toJson rfl

def CandidateBasis.serde : Serde CandidateBasis :=
  ((Fields.and (.one "node_id" str) <| .and (.one "label" str) <| .and (.one "summary_hash" str) <|
      .and (.one "summary_bytes" u64) <| .one "evidence_ids" str.list).iso
    (fun c => (c.nodeId, c.label, c.summaryHash, c.summaryBytes, c.evidenceIds))
    (fun (nodeId, label, summaryHash, summaryBytes, evidenceIds) =>
      ⟨nodeId, label, summaryHash, summaryBytes, evidenceIds⟩)
    fun _ => rfl).obj.writing toJson rfl

def TaskBasisManifest.serde : Serde TaskBasisManifest :=
  ((Fields.and (.one "schema_version" u32) <| .and (.one "action_id" str) <|
      .and (.one "gap_id" str) <| .and (.one "source_id" str) <| .and (.one "edge_label" str) <|
      .and (.one "existing_confidence" ConfidenceTier.serde) <|
      .and (.one "source_evidence_ids" str.list) <|
      .and (.one "evidence" EvidenceBasis.serde.list) <|
      .one "candidates" CandidateBasis.serde.list).iso
    (fun b => (b.schemaVersion, b.actionId, b.gapId, b.sourceId, b.edgeLabel, b.existingConfidence,
      b.sourceEvidenceIds, b.evidence, b.candidates))
    (fun (schemaVersion, actionId, gapId, sourceId, edgeLabel, existingConfidence,
      sourceEvidenceIds, evidence, candidates) =>
      ⟨schemaVersion, actionId, gapId, sourceId, edgeLabel, existingConfidence, sourceEvidenceIds,
        evidence, candidates⟩)
    fun _ => rfl).obj.writing toJson rfl

def TaskEvidenceKind.serde : Serde TaskEvidenceKind :=
  (sourceOrigins.toFields.iso
    (fun origin => match origin with
      | .workingTreeUnverified => .inl ()
      | .capturedPrimarySource sourceId receiptId index captured =>
        .inr (sourceId, receiptId, index, captured, ()))
    (fun x => match x with
      | .inl _ => .workingTreeUnverified
      | .inr (sourceId, receiptId, index, captured, _) =>
        .capturedPrimarySource sourceId receiptId index captured)
    (by intro origin; cases origin <;> rfl)).obj.writing toJson (by funext origin; cases origin <;> rfl)

def TaskEvidenceOrigin.serde : Serde TaskEvidenceOrigin :=
  ((Fields.and (.one "evidence_id" str) <| .and (.one "fact" TaskFactKey.serde) <|
      .and (.one "role" TaskRangeRole.serde) <| .and (.one "index" u32) <|
      .one "origin" TaskEvidenceKind.serde).iso
    (fun o => (o.evidenceId, o.fact, o.role, o.index, o.origin))
    (fun (evidenceId, fact, role, index, origin) => ⟨evidenceId, fact, role, index, origin⟩)
    fun _ => rfl).obj.writing toJson rfl

def SelectionLimits.serde : Serde SelectionLimits :=
  ((Fields.and (.one "metadata_lookahead" u64) <| .and (.one "acquisition_attempts" u64) <|
      .and (.one "selected_facts" u64) <| .and (.one "evidence" u64) <|
      .and (.one "candidates" u64) <| .and (.one "span_bytes" u64) <|
      .and (.one "total_evidence_bytes" u64) <| .one "captured_validation_bytes" u64).iso
    (fun l => (l.metadataLookahead, l.acquisitionAttempts, l.selectedFacts, l.evidence,
      l.candidates, l.spanBytes, l.totalEvidenceBytes, l.capturedValidationBytes))
    (fun (metadataLookahead, acquisitionAttempts, selectedFacts, evidence, candidates, spanBytes,
      totalEvidenceBytes, capturedValidationBytes) =>
      ⟨metadataLookahead, acquisitionAttempts, selectedFacts, evidence, candidates, spanBytes,
        totalEvidenceBytes, capturedValidationBytes⟩)
    fun _ => rfl).obj.writing toJson rfl

def SelectionOmissionReason.serde : Serde SelectionOmissionReason :=
  unit SelectionOmissionReason.text [.missingCitation, .legacyReadUnavailable]
    (by intro r; cases r <;> rfl)

def SelectionOmission.serde : Serde SelectionOmission :=
  ((Fields.and (.one "request_index" u64) <| .and (.one "fact" TaskFactKey.serde) <|
      .one "reason" SelectionOmissionReason.serde).iso
    (fun o => (o.requestIndex, o.fact, o.reason))
    (fun (requestIndex, fact, reason) => ⟨requestIndex, fact, reason⟩)
    fun _ => rfl).obj.writing toJson rfl

def SelectionStopReason.serde : Serde SelectionStopReason :=
  unit SelectionStopReason.text
    [.candidateLimit, .neighborhoodExhausted, .attemptLimit, .validationByteLimit,
      .participatingSourceUnavailable, .invalidSelection, .requiredMembershipMissing]
    (by intro r; cases r <;> rfl)

def SelectionReport.serde : Serde SelectionReport :=
  ((Fields.and (.one "metadata_lookahead" u64) <| .and (.one "acquisition_attempts" u64) <|
      .and (.one "supplied_evidence" u64) <| .and (.one "supplied_candidates" u64) <|
      .and (.one "captured_validation_bytes" u64) <| .and (.one "limits" SelectionLimits.serde) <|
      .and (.one "omissions" SelectionOmission.serde.list) <|
      .and (.one "metadata_preselected_not_read" u64) <| .and (.one "unread_tail" bool) <|
      .one "stop_reason" SelectionStopReason.serde).iso
    (fun r => (r.metadataLookahead, r.acquisitionAttempts, r.suppliedEvidence,
      r.suppliedCandidates, r.capturedValidationBytes, r.limits, r.omissions,
      r.metadataPreselectedNotRead, r.unreadTail, r.stopReason))
    (fun (metadataLookahead, acquisitionAttempts, suppliedEvidence, suppliedCandidates,
      capturedValidationBytes, limits, omissions, metadataPreselectedNotRead, unreadTail,
      stopReason) =>
      ⟨metadataLookahead, acquisitionAttempts, suppliedEvidence, suppliedCandidates,
        capturedValidationBytes, limits, omissions, metadataPreselectedNotRead, unreadTail,
        stopReason⟩)
    fun _ => rfl).obj.writing toJson rfl

def TaskSourceBasisV2.serde : Serde TaskSourceBasisV2 :=
  ((Fields.and (.one "schema_version" u32) <| .and (.one "graph_snapshot_id" str) <|
      .and (.one "selected_facts" TaskFactSelection.serde.list) <|
      .and (.one "evidence" TaskEvidenceOrigin.serde.list) <|
      .one "selection" SelectionReport.serde).iso
    (fun s => (s.schemaVersion, s.graphSnapshotId, s.selectedFacts, s.evidence, s.selection))
    (fun (schemaVersion, graphSnapshotId, selectedFacts, evidence, selection) =>
      ⟨schemaVersion, graphSnapshotId, selectedFacts, evidence, selection⟩)
    fun _ => rfl).obj.writing toJson rfl

/-! ### Sorted lists -/

variable {α : Type} {key : α → String} {l l' : List α} {t t' : AgentTask}

theorem sortBy_perm (key : α → String) (l : List α) : (sortBy key l).Perm l :=
  List.mergeSort_perm _ _

theorem sortBy_pairwise (key : α → String) (l : List α) :
    (sortBy key l).Pairwise fun a b => key a ≤ key b := by
  have hsorted : (l.mergeSort fun a b => decide (key a ≤ key b)).Pairwise
      fun a b => decide (key a ≤ key b) = true :=
    List.pairwise_mergeSort
      (fun a b c hab hbc => by simpa using (of_decide_eq_true hab).trans (of_decide_eq_true hbc))
      (fun a b => by simpa using le_total (key a) (key b)) l
  exact hsorted.imp fun h => of_decide_eq_true h

theorem sortBy_congr (h : l.Perm l') (hkey : ∀ a ∈ l, ∀ b ∈ l, key a = key b → a = b) :
    sortBy key l = sortBy key l' := by
  have hsame : (sortBy key l).Perm (sortBy key l') :=
    (sortBy_perm key l).trans (h.trans (sortBy_perm key l').symm)
  refine List.Perm.eq_of_pairwise (fun a b ha hb hab hba => ?_) (sortBy_pairwise key l)
    (sortBy_pairwise key l') hsame
  refine hkey a ((sortBy_perm key l).mem_iff.mp ha) b ?_ (le_antisymm hab hba)
  exact h.mem_iff.mpr ((sortBy_perm key l').mem_iff.mp hb)

theorem sortBy_congr_of_nodup (h : l.Perm l') (hkeys : (l.map key).Nodup) :
    sortBy key l = sortBy key l' :=
  sortBy_congr h fun _ ha _ hb => List.inj_on_of_nodup_map hkeys ha hb

theorem perm_of_sortBy (h : sortBy key l = sortBy key l') : l.Perm l' :=
  (sortBy_perm key l).symm.trans (h ▸ sortBy_perm key l')

theorem sortBy_id_eq_iff {l l' : List String} : sortBy id l = sortBy id l' ↔ l.Perm l' :=
  ⟨perm_of_sortBy, fun h => sortBy_congr h fun _ _ _ _ => id⟩

theorem perm_of_map_perm {β γ : Type} {f : α → γ} {g : β → γ} {l' : List β}
    (h : (l.map f).Perm (l'.map g)) :
    ∃ m, l.Perm m ∧ List.Forall₂ (fun a b => f a = g b) m l' := by
  have hleft : List.Forall₂ (fun a c => f a = c) l (l.map f) := by
    rw [List.forall₂_map_right_iff, List.forall₂_same]
    exact fun _ _ => rfl
  have hcomp : Relation.Comp (List.Forall₂ fun a c => f a = c) List.Perm l (l'.map g) :=
    ⟨_, hleft, h⟩
  rw [List.forall₂_comp_perm_eq_perm_comp_forall₂] at hcomp
  obtain ⟨m, hperm, hm⟩ := hcomp
  exact ⟨m, hperm, List.forall₂_map_right_iff.mp hm⟩

theorem forall₂_of_mem {β : Type} {R S : α → β → Prop} {l' : List β} (h : List.Forall₂ R l l')
    (himp : ∀ a ∈ l, ∀ b ∈ l', R a b → S a b) : List.Forall₂ S l l' := by
  induction h with
  | nil => exact .nil
  | cons hab _ ih =>
    refine .cons (himp _ List.mem_cons_self _ List.mem_cons_self hab) (ih fun a ha b hb => ?_)
    exact himp a (List.mem_cons_of_mem _ ha) b (List.mem_cons_of_mem _ hb)

/-! ### What a hash does not see -/

/-- The same candidate, its evidence in any order. -/
structure SameCandidate (c c' : AgentCandidate) : Prop where
  nodeId : c.nodeId = c'.nodeId
  label : c.label = c'.label
  summary : c.summary = c'.summary
  evidenceIds : c.evidenceIds.Perm c'.evidenceIds

/-- The same task, but for the action and for the order of evidence, candidates and ids. -/
structure SameTask (t t' : AgentTask) : Prop where
  gapId : t.gapId = t'.gapId
  sourceId : t.sourceId = t'.sourceId
  edgeLabel : t.edgeLabel = t'.edgeLabel
  existingConfidence : t.existingConfidence = t'.existingConfidence
  sourceEvidenceIds : t.sourceEvidenceIds.Perm t'.sourceEvidenceIds
  evidence : t.evidence.Perm t'.evidence
  candidates : ∃ l, t.candidates.Perm l ∧ List.Forall₂ SameCandidate l t'.candidates

/-- The same source basis, but for the order of the evidence. -/
structure SameSource (s s' : TaskSourceBasisV2) : Prop where
  schemaVersion : s.schemaVersion = s'.schemaVersion
  graphSnapshotId : s.graphSnapshotId = s'.graphSnapshotId
  selectedFacts : s.selectedFacts = s'.selectedFacts
  selection : s.selection = s'.selection
  evidence : s.evidence.Perm s'.evidence

/-- A candidate with its evidence in order. -/
def ordered (c : AgentCandidate) : AgentCandidate := { c with evidenceIds := sortBy id c.evidenceIds }

theorem ordered_eq_iff {c c' : AgentCandidate} : ordered c = ordered c' ↔ SameCandidate c c' := by
  obtain ⟨nodeId, label, summary, evidenceIds⟩ := c
  obtain ⟨nodeId', label', summary', evidenceIds'⟩ := c'
  simp only [ordered, AgentCandidate.mk.injEq, sortBy_id_eq_iff]
  constructor
  · rintro ⟨rfl, rfl, rfl, hperm⟩
    exact ⟨rfl, rfl, rfl, hperm⟩
  · rintro ⟨hnode, hlabel, hsummary, hperm⟩
    exact ⟨hnode, hlabel, hsummary, hperm⟩

theorem map_ordered_perm {l l' : List AgentCandidate} :
    (l.map ordered).Perm (l'.map ordered) ↔
      ∃ m, l.Perm m ∧ List.Forall₂ SameCandidate m l' := by
  constructor
  · intro h
    obtain ⟨m, hperm, hm⟩ := perm_of_map_perm h
    exact ⟨m, hperm, hm.imp fun _ _ => ordered_eq_iff.mp⟩
  · rintro ⟨m, hperm, hm⟩
    have hsame : m.map ordered = l'.map ordered := by
      rw [← List.forall₂_eq_eq_eq, List.forall₂_map_left_iff, List.forall₂_map_right_iff]
      exact hm.imp fun _ _ => ordered_eq_iff.mpr
    rw [← hsame]
    exact hperm.map ordered

/-! ### Tasks -/

theorem SameTask.basisJson_congr (h : SameTask t t')
    (hevidence : (t.evidence.map AgentEvidence.id).Nodup)
    (hcandidates : (t.candidates.map AgentCandidate.nodeId).Nodup) :
    t.basisJson = t'.basisJson := by
  have hids : sortBy id t.sourceEvidenceIds = sortBy id t'.sourceEvidenceIds :=
    sortBy_id_eq_iff.mpr h.sourceEvidenceIds
  have hitems : sortBy AgentEvidence.id t.evidence = sortBy AgentEvidence.id t'.evidence :=
    sortBy_congr_of_nodup h.evidence hevidence
  have hnodes : sortBy AgentCandidate.nodeId (t.candidates.map ordered)
      = sortBy AgentCandidate.nodeId (t'.candidates.map ordered) := by
    refine sortBy_congr_of_nodup (map_ordered_perm.mpr h.candidates) ?_
    rw [List.map_map]
    exact hcandidates
  show Json.arr [_, _, _, _, _, _, .arr ((sortBy _ (t.candidates.map ordered)).map _)]
    = .arr [_, _, _, _, _, _, .arr ((sortBy _ (t'.candidates.map ordered)).map _)]
  rw [h.gapId, h.sourceId, h.edgeLabel, h.existingConfidence, hids, hitems, hnodes]

theorem AgentTask.numeric_basisJson (t : AgentTask) : t.basisJson.Numeric :=
  ⟨trivial, trivial, trivial, trivial, str.list.numeric _, AgentEvidence.serde.list.numeric _,
    AgentCandidate.serde.list.numeric _, trivial⟩

theorem AgentTask.same_of_basisJson (h : t.basisJson = t'.basisJson) :
    SameTask t t' := by
  simp only [AgentTask.basisJson, Json.arr.injEq, List.cons.injEq, Json.str.injEq, and_true] at h
  obtain ⟨hgap, hsource, hlabel, hconfidence, hids, hevidence, hcandidates⟩ := h
  have hids := str.list.injective (congrArg Json.arr hids)
  have hevidence := AgentEvidence.serde.list.injective (congrArg Json.arr hevidence)
  have hcandidates : sortBy AgentCandidate.nodeId (t.candidates.map ordered)
      = sortBy AgentCandidate.nodeId (t'.candidates.map ordered) :=
    AgentCandidate.serde.list.injective (congrArg Json.arr hcandidates)
  exact ⟨hgap, hsource, hlabel, ConfidenceTier.serde.injective (congrArg Json.str hconfidence),
    perm_of_sortBy hids, perm_of_sortBy hevidence,
    map_ordered_perm.mp (perm_of_sortBy hcandidates)⟩

/-! ### Prepared tasks -/

section

variable {contentHash : String → Hash}

/-- No two of these texts have one hash. -/
def CollisionFreeOn (hash : String → String) (texts : List String) : Prop :=
  ∀ a ∈ texts, ∀ b ∈ texts, CollisionFree hash a b

def evidenceBasis (contentHash : String → Hash) (e : AgentEvidence) : EvidenceBasis :=
  ⟨e.id, e.source, (contentHash e.text).text, e.text.utf8ByteSize⟩

def candidateBasis (contentHash : String → Hash) (c : AgentCandidate) : CandidateBasis :=
  ⟨c.nodeId, c.label, (contentHash c.summary).text, c.summary.utf8ByteSize, c.evidenceIds⟩

theorem manifest_candidates (t : AgentTask) (version : ℕ) :
    ((manifest contentHash t version).candidates.map fun c =>
        { c with evidenceIds := sortBy id c.evidenceIds })
      = (t.candidates.map ordered).map (candidateBasis contentHash) := by
  rw [List.map_map]
  exact List.map_map ..

/-- A value in the domain of prepared tasks. -/
def preparedText (j : Json) : String := "cartograph:prepared-agent-task:v2\x00" ++ j.render

/-- The text a prepared task is hashed as. -/
def PreparedAgentTask.hashedText (p : PreparedAgentTask contentHash) : String :=
  preparedText (preparedBasisJson (manifest contentHash p.task 2) p.sourceBasis)

theorem PreparedAgentTask.basisHash_eq (p : PreparedAgentTask contentHash) :
    p.basisHash = .ok (contentHash p.hashedText).text := by
  have hvalid := p.valid
  simp only [prepare, bind_eq_ok, ensure_eq_ok] at hvalid
  obtain ⟨⟨⟩, -, ⟨⟩, -, ⟨⟩, -, ⟨⟩, hmanifest, hsource⟩ := hvalid
  rw [PreparedAgentTask.basisHash, preparedBasisHash, hmanifest, ok_bind, hsource]
  rfl

theorem preparedBasisJson_eq (t : AgentTask) (s : TaskSourceBasisV2) :
    preparedBasisJson (manifest contentHash t 2) s = .arr [
      TaskBasisManifest.toJson ⟨2, "", t.gapId, t.sourceId, t.edgeLabel, t.existingConfidence,
        sortBy id t.sourceEvidenceIds,
        sortBy EvidenceBasis.id (t.evidence.map (evidenceBasis contentHash)),
        sortBy CandidateBasis.nodeId ((t.candidates.map ordered).map (candidateBasis contentHash))⟩,
      TaskSourceBasisV2.toJson ⟨s.schemaVersion, s.graphSnapshotId, s.selectedFacts,
        sortBy TaskEvidenceOrigin.evidenceId s.evidence, s.selection⟩] := by
  rw [preparedBasisJson, manifest_candidates]
  rfl

theorem preparedBasisJson_congr {s s' : TaskSourceBasisV2} (h : SameTask t t')
    (hs : SameSource s s') (hevidence : (t.evidence.map AgentEvidence.id).Nodup)
    (hcandidates : (t.candidates.map AgentCandidate.nodeId).Nodup)
    (horigins : (s.evidence.map TaskEvidenceOrigin.evidenceId).Nodup) :
    preparedBasisJson (manifest contentHash t 2) s
      = preparedBasisJson (manifest contentHash t' 2) s' := by
  have hids : sortBy id t.sourceEvidenceIds = sortBy id t'.sourceEvidenceIds :=
    sortBy_id_eq_iff.mpr h.sourceEvidenceIds
  have hitems : sortBy EvidenceBasis.id (t.evidence.map (evidenceBasis contentHash))
      = sortBy EvidenceBasis.id (t'.evidence.map (evidenceBasis contentHash)) := by
    refine sortBy_congr_of_nodup (h.evidence.map _) ?_
    rw [List.map_map]
    exact hevidence
  have hnodes : sortBy CandidateBasis.nodeId
        ((t.candidates.map ordered).map (candidateBasis contentHash))
      = sortBy CandidateBasis.nodeId
        ((t'.candidates.map ordered).map (candidateBasis contentHash)) := by
    refine sortBy_congr_of_nodup ((map_ordered_perm.mpr h.candidates).map _) ?_
    rw [List.map_map, List.map_map]
    exact hcandidates
  have hsources : sortBy TaskEvidenceOrigin.evidenceId s.evidence
      = sortBy TaskEvidenceOrigin.evidenceId s'.evidence :=
    sortBy_congr_of_nodup hs.evidence horigins
  rw [preparedBasisJson_eq, preparedBasisJson_eq, h.gapId, h.sourceId, h.edgeLabel,
    h.existingConfidence, hids, hitems, hnodes, hs.schemaVersion, hs.graphSnapshotId,
    hs.selectedFacts, hs.selection, hsources]

theorem numeric_preparedBasisJson (b : TaskBasisManifest) (s : TaskSourceBasisV2) :
    (preparedBasisJson b s).Numeric :=
  ⟨TaskBasisManifest.serde.numeric _, TaskSourceBasisV2.serde.numeric _, trivial⟩

theorem same_of_preparedBasisJson {s s' : TaskSourceBasisV2}
    (hfree : CollisionFreeOn (fun text => (contentHash text).text) (t.texts ++ t'.texts))
    (h : preparedBasisJson (manifest contentHash t 2) s
      = preparedBasisJson (manifest contentHash t' 2) s') : SameTask t t' ∧ SameSource s s' := by
  rw [preparedBasisJson_eq, preparedBasisJson_eq] at h
  simp only [Json.arr.injEq, List.cons.injEq, and_true] at h
  have hmanifest := TaskBasisManifest.serde.injective h.1
  have hsource := TaskSourceBasisV2.serde.injective h.2
  simp only [TaskBasisManifest.mk.injEq, true_and] at hmanifest
  simp only [TaskSourceBasisV2.mk.injEq] at hsource
  obtain ⟨hgap, hsourceId, hlabel, hconfidence, hids, hevidence, hcandidates⟩ := hmanifest
  obtain ⟨hversion, hsnapshot, hfacts, horigins, hselection⟩ := hsource
  refine ⟨⟨hgap, hsourceId, hlabel, hconfidence, perm_of_sortBy hids, ?_, ?_⟩,
    ⟨hversion, hsnapshot, hfacts, hselection, perm_of_sortBy horigins⟩⟩
  · obtain ⟨m, hperm, hm⟩ := perm_of_map_perm (perm_of_sortBy hevidence)
    have hsame : List.Forall₂ (fun e e' => e = e') m t'.evidence := by
      refine forall₂_of_mem hm fun e he e' he' hbasis => ?_
      simp only [evidenceBasis, EvidenceBasis.mk.injEq] at hbasis
      obtain ⟨hid, hsource, hhash, -⟩ := hbasis
      have he := List.mem_map_of_mem (f := AgentEvidence.text) (hperm.mem_iff.mpr he)
      have he' := List.mem_map_of_mem (f := AgentEvidence.text) he'
      have htext := hfree _ (List.mem_append_left _ (List.mem_append_left _ he)) _
        (List.mem_append_right _ (List.mem_append_left _ he')) hhash
      obtain ⟨id, source, text⟩ := e
      simp_all
    rw [List.forall₂_eq_eq_eq] at hsame
    rwa [hsame] at hperm
  · have hcandidates := perm_of_sortBy hcandidates
    rw [List.map_map, List.map_map] at hcandidates
    obtain ⟨m, hperm, hm⟩ := perm_of_map_perm hcandidates
    refine ⟨m, hperm, forall₂_of_mem hm fun c hc c' hc' hbasis => ?_⟩
    simp only [Function.comp_apply, candidateBasis, ordered, CandidateBasis.mk.injEq,
      sortBy_id_eq_iff] at hbasis
    obtain ⟨hnode, hlabel, hhash, -, hids⟩ := hbasis
    have hc := List.mem_map_of_mem (f := AgentCandidate.summary) (hperm.mem_iff.mpr hc)
    have hc' := List.mem_map_of_mem (f := AgentCandidate.summary) hc'
    have hsummary := hfree _ (List.mem_append_left _ (List.mem_append_right _ hc)) _
      (List.mem_append_right _ (List.mem_append_right _ hc')) hhash
    exact ⟨hnode, hlabel, hsummary, hids⟩

theorem PreparedAgentTask.nodup (p : PreparedAgentTask contentHash) :
    (p.task.evidence.map AgentEvidence.id).Nodup
      ∧ (p.task.candidates.map AgentCandidate.nodeId).Nodup
      ∧ (p.sourceBasis.evidence.map TaskEvidenceOrigin.evidenceId).Nodup := by
  have hvalid := p.valid
  simp only [prepare, bind_eq_ok, ensure_eq_ok, TaskSourceBasisV2.validate] at hvalid
  obtain ⟨⟨⟩, -, ⟨⟩, -, ⟨⟩, htask, ⟨⟩, -, ⟨⟩, -, ⟨⟩, -, ⟨⟩, -, ⟨⟩, -, ⟨⟩, horigins, -⟩ := hvalid
  have htask := validateTask_ok.mp htask
  exact ⟨htask.evidenceIds.2, htask.candidateIds.2, horigins.2⟩

/-- **Basis hashes.**  Prepared tasks that differ in their action and in the order of evidence,
candidates and ids have the same hashes; where no two hashed texts collide, tasks with the same
hash differ in nothing else. -/
theorem basis_hashes_identify (contentHash : String → Hash) (p q : PreparedAgentTask contentHash) :
    (SameTask p.task q.task → p.task.basisHash contentHash = q.task.basisHash contentHash)
    ∧ (SameTask p.task q.task → SameSource p.sourceBasis q.sourceBasis →
        ∃ hash, p.basisHash = .ok hash ∧ q.basisHash = .ok hash)
    ∧ (CollisionFree (fun text => (contentHash text).text) p.task.basisJson.render
          q.task.basisJson.render →
        p.task.basisHash contentHash = q.task.basisHash contentHash → SameTask p.task q.task)
    ∧ (CollisionFreeOn (fun text => (contentHash text).text)
          ([p.hashedText, q.hashedText] ++ (p.task.texts ++ q.task.texts)) →
        p.basisHash = q.basisHash →
        SameTask p.task q.task ∧ SameSource p.sourceBasis q.sourceBasis) := by
  obtain ⟨hevidence, hcandidates, horigins⟩ := p.nodup
  refine ⟨fun h => ?_, fun h hs => ?_, fun hfree hhash => ?_, fun hfree hhash => ?_⟩
  · rw [AgentTask.basisHash, AgentTask.basisHash, h.basisJson_congr hevidence hcandidates]
  · have htext : p.hashedText = q.hashedText :=
      congrArg preparedText (preparedBasisJson_congr h hs hevidence hcandidates horigins)
    exact ⟨_, p.basisHash_eq, by rw [q.basisHash_eq, htext]⟩
  · exact AgentTask.same_of_basisJson (Json.render_injective p.task.numeric_basisJson
      q.task.numeric_basisJson (hfree hhash))
  · rw [p.basisHash_eq, q.basisHash_eq] at hhash
    have htext : p.hashedText = q.hashedText :=
      hfree _ (by simp) _ (by simp) (Except.ok.inj hhash)
    have hjson := Json.render_injective (numeric_preparedBasisJson _ _)
      (numeric_preparedBasisJson _ _) ((String.append_right_inj _).mp htext)
    refine same_of_preparedBasisJson (fun a ha b hb => ?_) hjson
    exact hfree a (List.mem_append_right _ ha) b (List.mem_append_right _ hb)

end

end Agents

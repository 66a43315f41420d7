/-
The bounded broker (`crates/agents/src/lib.rs`).

A task is an unresolved slot of the graph with the evidence and the candidates a model may
use; a response chooses a candidate and cites evidence.  The maps and sets that validation
builds are modelled by lookups in the lists they are built from: in a map the last entry of
a key counts, and a set of distinct ids is their list.
-/
import Cartograph.Provenance
import Cartograph.Investigation.Admission

namespace Agents

open Investigation Checked

def AGENT_EXTRACTOR_ID : String := "t3.agent-broker"

inductive AgentError
  | invalidTask (text : String)
  | integrity (text : String)
  | invalidResponse (text : String)
  deriving DecidableEq

structure AgentEvidence where
  id : String
  source : EvidenceRef
  text : String
  deriving DecidableEq

def AgentEvidence.toJson (e : AgentEvidence) : Json :=
  .obj [("id", .str e.id), ("source", e.source.toJson), ("text", .str e.text)]

structure AgentCandidate where
  nodeId : String
  label : String
  summary : String
  evidenceIds : List String
  deriving DecidableEq

def AgentCandidate.toJson (c : AgentCandidate) : Json :=
  .obj [("node_id", .str c.nodeId), ("label", .str c.label), ("summary", .str c.summary),
    ("evidence_ids", .arr (c.evidenceIds.map .str))]

structure AgentTask where
  actionId : String
  gapId : String
  sourceId : String
  edgeLabel : String
  existingConfidence : ConfidenceTier
  sourceEvidenceIds : List String
  evidence : List AgentEvidence
  candidates : List AgentCandidate
  deriving DecidableEq

/-- `sort` and `sort_by` by a text. -/
def sortBy {α : Type} (key : α → String) (l : List α) : List α :=
  l.mergeSort fun a b => decide (key a ≤ key b)

/-- The slot and its evidence and candidates, in an order of their own; not the action. -/
def AgentTask.basisJson (t : AgentTask) : Json :=
  .arr [.str t.gapId, .str t.sourceId, .str t.edgeLabel, .str t.existingConfidence.text,
    .arr ((sortBy id t.sourceEvidenceIds).map .str),
    .arr ((sortBy AgentEvidence.id t.evidence).map AgentEvidence.toJson),
    .arr ((sortBy AgentCandidate.nodeId (t.candidates.map fun c =>
      { c with evidenceIds := sortBy id c.evidenceIds })).map AgentCandidate.toJson)]

def AgentTask.basisHash (contentHash : String → Hash) (t : AgentTask) : String :=
  (contentHash t.basisJson.render).text

structure BrokerLimits where
  maxEvidenceSpans : ℕ
  maxSpanBytes : ℕ
  maxTotalEvidenceBytes : ℕ
  maxCandidates : ℕ
  allowedEdgeLabels : List String

/-- `BrokerLimits::default`. -/
def BrokerLimits.standard : BrokerLimits where
  maxEvidenceSpans := 12
  maxSpanBytes := 8 * 1024
  maxTotalEvidenceBytes := 48 * 1024
  maxCandidates := 20
  allowedEdgeLabels := ["CALLS", "PUBLISHES", "SUBSCRIBES", "FETCHES", "REFERENCES", "BACKS",
    "DECIDES", "GOVERNS", "MAPS_TO"]

structure AgentProposal where
  gapId : String
  sourceId : String
  targetId : String
  edgeLabel : String
  annotation : String
  basisHash : String
  provenance : Provenance
  deriving DecidableEq

structure RawProposal where
  targetId : String
  annotation : String
  citations : List String
  deriving DecidableEq

/-- `trim().is_empty()`. -/
def blank (value : String) : Bool := value.toList.all isWhitespace

def uniqueNonempty (values : List String) : Except AgentError (List String) := do
  ensure (values.any blank = false) (.invalidTask "ids must be non-empty")
  ensure values.Nodup (.invalidTask "ids must be unique")
  pure values

/-- `AgentBroker::validate_task`. -/
def validateTask (limits : BrokerLimits) (t : AgentTask) : Except AgentError Unit := do
  ensure (mayOverwrite .agentic t.existingConfidence = true)
    (.integrity ("T3 cannot propose over " ++ t.existingConfidence.text))
  ensure (limits.allowedEdgeLabels.contains t.edgeLabel = true)
    (.invalidTask ("edge label " ++ t.edgeLabel ++ " is outside the broker allowlist"))
  ensure ((blank t.actionId || blank t.gapId || blank t.sourceId) = false)
    (.invalidTask "action, Gap, and source ids must be non-empty")
  ensure (t.evidence ≠ [] ∧ t.evidence.length ≤ limits.maxEvidenceSpans)
    (.invalidTask ("evidence span count must be 1..=" ++ toString limits.maxEvidenceSpans))
  ensure (t.candidates ≠ [] ∧ t.candidates.length ≤ limits.maxCandidates)
    (.invalidTask ("candidate count must be 1..=" ++ toString limits.maxCandidates))
  ensure ((t.evidence.map fun e => e.text.utf8ByteSize).sum ≤ limits.maxTotalEvidenceBytes
      ∧ ∀ e ∈ t.evidence, e.text.utf8ByteSize ≤ limits.maxSpanBytes)
    (.invalidTask "evidence exceeds configured byte bounds")
  let evidenceIds ← uniqueNonempty (t.evidence.map AgentEvidence.id)
  let candidateIds ← uniqueNonempty (t.candidates.map AgentCandidate.nodeId)
  ensure (candidateIds.length = t.candidates.length) (.invalidTask "duplicate candidate id")
  ensure (t.sourceEvidenceIds ≠ [] ∧ ∀ id ∈ t.sourceEvidenceIds, id ∈ evidenceIds)
    (.invalidTask "source evidence ids must name available evidence")
  ensure (∀ c ∈ t.candidates, c.evidenceIds ≠ [] ∧ ∀ id ∈ c.evidenceIds, id ∈ evidenceIds)
    (.invalidTask "each candidate must cite available target evidence")

/-- The candidate with an id. -/
def AgentTask.candidate (t : AgentTask) (id : String) : Option AgentCandidate :=
  t.candidates.reverse.find? fun c => c.nodeId == id

/-- The evidence with an id. -/
def AgentTask.item (t : AgentTask) (id : String) : Option AgentEvidence :=
  t.evidence.reverse.find? fun e => e.id == id

/-- What the hash of a proposal is taken of. -/
def canonicalFact (gapId sourceId targetId edgeLabel basisHash : String) : String :=
  (Json.arr [.str gapId, .str sourceId, .str targetId, .str edgeLabel, .str basisHash]).render

/-- `AgentBroker::validate_response_with_basis`. -/
def validateResponseWithBasis (contentHash : String → Hash) (t : AgentTask) (raw : RawProposal)
    (basisHash : String) : Except AgentError AgentProposal := do
  let candidate ← orFail (t.candidate raw.targetId)
    (.invalidResponse "model selected a target outside the closed candidate set")
  let citations ← uniqueNonempty raw.citations
  ensure (citations.length = raw.citations.length ∧ ∀ id ∈ citations, (t.item id).isSome = true)
    (.invalidResponse "citations must be unique ids from the supplied evidence")
  ensure ((∃ id ∈ t.sourceEvidenceIds, id ∈ citations) ∧ ∃ id ∈ candidate.evidenceIds, id ∈ citations)
    (.invalidResponse "proposal must cite both the source/Gap and selected target")
  let citedRefs := (raw.citations.filterMap t.item).map AgentEvidence.source
  let provenance ← (Provenance.make contentHash .agentic .inferredWeak citedRefs AGENT_EXTRACTOR_ID
      (canonicalFact t.gapId t.sourceId raw.targetId t.edgeLabel basisHash)).mapError
    fun e => .integrity e.text
  pure ⟨t.gapId, t.sourceId, raw.targetId, t.edgeLabel, raw.annotation, basisHash, provenance⟩

/-- `AgentBroker::validate_response`. -/
def validateResponse (contentHash : String → Hash) (t : AgentTask) (raw : RawProposal) :
    Except AgentError AgentProposal :=
  validateResponseWithBasis contentHash t raw (t.basisHash contentHash)

/-! ### What validation establishes -/

theorem uniqueNonempty_ok {values l : List String} :
    uniqueNonempty values = .ok l ↔ values.any blank = false ∧ values.Nodup ∧ values = l := by
  simp only [uniqueNonempty, bind_eq_ok, ensure_eq_ok, pure_eq_ok]
  constructor
  · rintro ⟨-, hblank, -, hnodup, heq⟩
    exact ⟨hblank, hnodup, heq⟩
  · rintro ⟨hblank, hnodup, heq⟩
    exact ⟨(), hblank, (), hnodup, heq⟩

/-- A task as `validate_task` admits it. -/
structure ValidTask (limits : BrokerLimits) (t : AgentTask) : Prop where
  confidence : mayOverwrite .agentic t.existingConfidence = true
  label : limits.allowedEdgeLabels.contains t.edgeLabel = true
  ids : (blank t.actionId || blank t.gapId || blank t.sourceId) = false
  evidence : t.evidence ≠ [] ∧ t.evidence.length ≤ limits.maxEvidenceSpans
  candidates : t.candidates ≠ [] ∧ t.candidates.length ≤ limits.maxCandidates
  bytes : (t.evidence.map fun e => e.text.utf8ByteSize).sum ≤ limits.maxTotalEvidenceBytes
    ∧ ∀ e ∈ t.evidence, e.text.utf8ByteSize ≤ limits.maxSpanBytes
  evidenceIds : (t.evidence.map AgentEvidence.id).any blank = false
    ∧ (t.evidence.map AgentEvidence.id).Nodup
  candidateIds : (t.candidates.map AgentCandidate.nodeId).any blank = false
    ∧ (t.candidates.map AgentCandidate.nodeId).Nodup
  sources : t.sourceEvidenceIds ≠ []
    ∧ ∀ id ∈ t.sourceEvidenceIds, id ∈ t.evidence.map AgentEvidence.id
  targets : ∀ c ∈ t.candidates, c.evidenceIds ≠ []
    ∧ ∀ id ∈ c.evidenceIds, id ∈ t.evidence.map AgentEvidence.id

theorem validateTask_ok {limits : BrokerLimits} {t : AgentTask} {u : Unit} :
    validateTask limits t = .ok u ↔ ValidTask limits t := by
  simp only [validateTask, bind_eq_ok, ensure_eq_ok, uniqueNonempty_ok]
  constructor
  · rintro ⟨-, h1, -, h2, -, h3, -, h4, -, h5, -, h6, _, ⟨h7, h8, rfl⟩, _, ⟨h9, h10, rfl⟩, -, -, -,
      h11, h12⟩
    exact ⟨h1, h2, h3, h4, h5, h6, ⟨h7, h8⟩, ⟨h9, h10⟩, h11, h12⟩
  · intro h
    exact ⟨(), h.confidence, (), h.label, (), h.ids, (), h.evidence, (), h.candidates, (), h.bytes, _,
      ⟨h.evidenceIds.1, h.evidenceIds.2, rfl⟩, _, ⟨h.candidateIds.1, h.candidateIds.2, rfl⟩, (),
      List.length_map .., (), h.sources, h.targets⟩

/-- A proposal for a chosen target, with the citations it rests on. -/
def proposalFor (contentHash : String → Hash) (t : AgentTask) (targetId annotation basisHash : String)
    (cited : List EvidenceRef) : AgentProposal :=
  ⟨t.gapId, t.sourceId, targetId, t.edgeLabel, annotation, basisHash,
    ⟨.agentic, .inferredWeak, cited, AGENT_EXTRACTOR_ID,
      (contentHash (canonicalFact t.gapId t.sourceId targetId t.edgeLabel basisHash)).text⟩⟩

theorem validateResponseWithBasis_ok {contentHash : String → Hash} {t : AgentTask} {raw : RawProposal}
    {basisHash : String} {p : AgentProposal} :
    validateResponseWithBasis contentHash t raw basisHash = .ok p ↔
      ∃ candidate, t.candidate raw.targetId = some candidate
        ∧ (raw.citations.any blank = false ∧ raw.citations.Nodup)
        ∧ (∀ id ∈ raw.citations, (t.item id).isSome = true)
        ∧ (∃ id ∈ t.sourceEvidenceIds, id ∈ raw.citations)
        ∧ (∃ id ∈ candidate.evidenceIds, id ∈ raw.citations)
        ∧ p = proposalFor contentHash t raw.targetId raw.annotation basisHash
          ((raw.citations.filterMap t.item).map AgentEvidence.source) := by
  simp only [validateResponseWithBasis, bind_eq_ok, ensure_eq_ok, orFail_eq_ok, uniqueNonempty_ok,
    pure_eq_ok]
  constructor
  · rintro ⟨candidate, hcandidate, _, ⟨hblank, hnodup, rfl⟩, -, ⟨-, hitems⟩, -, ⟨hsource, htarget⟩, prov,
      hprov, rfl⟩
    obtain rfl := Except.ok.inj hprov
    exact ⟨candidate, hcandidate, ⟨hblank, hnodup⟩, hitems, hsource, htarget, rfl⟩
  · rintro ⟨candidate, hcandidate, ⟨hblank, hnodup⟩, hitems, hsource, htarget, rfl⟩
    exact ⟨candidate, hcandidate, _, ⟨hblank, hnodup, rfl⟩, (), ⟨rfl, hitems⟩, (), ⟨hsource, htarget⟩, _,
      rfl, rfl⟩

end Agents

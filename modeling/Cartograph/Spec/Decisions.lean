/-
Recovered decisions and drift (`crates/spec/src/adr.rs`).

`derive_adr_facts` adds a decision for every channel that no found ADR governs and that is
published to, subscribed to or backed, and a drift for every edge that a found ADR forbids at an
end it governs.  The confidence of a decision is taken from the edges of the channel, that of a
drift from the offending edge; the channel, the ADR and the decision edges are not looked at.

* `recovered_make`, `drift_make` — derived provenance is within the ceiling of its tier;
* `deriveAdrFacts_perm` — the derived facts are those of the derivations;
* `derived_confidence_iff` — when no derived fact is stronger than a fact it is derived from;
* `weak_channel_upgraded` — a decision that is stronger than its channel.
-/
import Cartograph.FlowTracer.Reachability
import Cartograph.Spec.Facts
import Cartograph.Ingest.Occurrences

namespace Spec

open GraphStore Investigation SortBy FlowTracer

/-- `combined_evidence`, which unites evidence as the merge of occurrences does. -/
def combinedEvidence (provenances : List Provenance) : List EvidenceRef :=
  Ingest.distinctEvidence provenances

/-! ### Found decisions -/

def isFoundAdr (n : Node Json) : Bool :=
  n.label == "ADR" && asStr (index n.props "origin") == some "found"

/-- Some found ADR decides `id`. -/
def governed (nodes : List (Node Json)) (edges : List (Edge Json)) (id : String) : Bool :=
  edges.any fun e => e.label == "DECIDES" && e.dst == id
    && nodes.any fun n => n.id == e.src && isFoundAdr n

/-! ### Recovered decisions -/

/-- An edge of a channel that a decision can be recovered from, with its provenance. -/
def relatedProvenance (channel : String) (e : Edge Json) : Option Provenance :=
  if e.dst == channel && ["PUBLISHES", "SUBSCRIBES", "BACKS"].contains e.label then
    (typedProvenance e.props).filter fun p => p.confidenceTier != .gap
  else none

/-- `related`. -/
def related (edges : List (Edge Json)) (channel : String) : List (Edge Json × Provenance) :=
  edges.filterMap fun e => (relatedProvenance channel e).map fun p => (e, p)

/-- What a decision on `channel` cites. -/
def recoveryEvidence (edges : List (Edge Json)) (channel : Node Json) : List EvidenceRef :=
  combinedEvidence ((related edges channel.id).map Prod.snd ++ (typedProvenance channel.props).toList)

/-- A decision is recovered for this node. -/
def recovers (nodes : List (Node Json)) (edges : List (Edge Json)) (channel : Node Json) : Bool :=
  channel.label == "Channel" && !governed nodes edges channel.id
    && !(related edges channel.id).isEmpty && !(recoveryEvidence edges channel).isEmpty

def recoveredConfidence (edges : List (Edge Json)) (channel : String) : ConfidenceTier :=
  if (related edges channel).any fun r => r.2.confidenceTier == .inferredWeak then .inferredWeak
  else .inferredStrong

def edgeNames (e : Edge Json) : String ×ₗ String ×ₗ String := toLex (e.src, toLex (e.label, e.dst))

section

variable (contentHash : String → Hash)

/-- The first sixteen digits of a hash. -/
def shortHash (canonical : String) : String :=
  String.ofList ((contentHash canonical).text.toList.take 16)

def recoveredCanonical (edges : List (Edge Json)) (channel : String) : String :=
  let keys := sortBy edgeNames ((related edges channel).map Prod.fst)
  Json.render (.arr [.str "async-messaging", .str channel,
    .arr (keys.map fun e => .arr [.str e.src, .str e.label, .str e.dst])])

def recoveredAdrId (edges : List (Edge Json)) (channel : String) : String :=
  "adr:recovered:async:" ++ shortHash contentHash (recoveredCanonical edges channel)

/-- Provenance of a recovered fact. -/
def recoveredProvenance (edges : List (Edge Json)) (channel : Node Json) (fact : String) :
    Provenance where
  tier := .semantic
  confidenceTier := recoveredConfidence edges channel.id
  evidence := recoveryEvidence edges channel
  extractorId := "t2.adr-recovery"
  contentHash := (contentHash fact).text

def recoveredNode (edges : List (Edge Json)) (channel : Node Json) : Node Json :=
  let name := ((asStr (index channel.props "identity")).or
    (asStr (index channel.props "name"))).getD channel.id
  { id := recoveredAdrId contentHash edges channel.id
    label := "ADR"
    props := .obj [
      ("title", .str ("Recovered: use " ++ name ++ " for asynchronous messaging")),
      ("status", .str "Recovered / Inferred"),
      ("body", .str ("The recovered graph uses channel `" ++ channel.id
        ++ "` for asynchronous messaging. This is a proposed decision, not a confirmed author statement.")),
      ("origin", .str "recovered"),
      ("recovered", .bool true),
      ("prov", (recoveredProvenance contentHash edges channel
        (recoveredCanonical edges channel.id)).toJson)] }

def recoveredEdge (edges : List (Edge Json)) (channel : Node Json) : Edge Json :=
  let adrId := recoveredAdrId contentHash edges channel.id
  { src := adrId
    dst := channel.id
    label := "DECIDES"
    props := .obj [("prov", (recoveredProvenance contentHash edges channel
      (adrId ++ " DECIDES " ++ channel.id)).toJson)] }

structure AdrFacts where
  nodes : List (Node Json)
  edges : List (Edge Json)

/-- `recovered_adrs`. -/
def recoveredAdrs (nodes : List (Node Json)) (edges : List (Edge Json)) : AdrFacts :=
  let channels := nodes.filter (recovers nodes edges)
  ⟨channels.map (recoveredNode contentHash edges), channels.map (recoveredEdge contentHash edges)⟩

/-! ### Drift -/

def forbidden (adr : Node Json) : List String :=
  ((asArray (index adr.props "forbids")).getD []).filterMap asStr

/-- An edge by which `adr` decides an end of `e`. -/
def decides (adr : Node Json) (e d : Edge Json) : Bool :=
  d.label == "DECIDES" && d.src == adr.id && (d.dst == e.src || d.dst == e.dst)

def driftEvidence (adr e : Provenance) : List EvidenceRef := combinedEvidence [adr, e]

/-- The provenance of an ADR and of an edge it is in conflict with. -/
def conflict (edges : List (Edge Json)) (adr : Node Json) (e : Edge Json) :
    Option (Provenance × Provenance) :=
  if isFoundAdr adr && (forbidden adr).contains e.label && edges.any (decides adr e) then do
    let edgeProvenance ← (typedProvenance e.props).filter fun p => p.confidenceTier != .gap
    let adrProvenance ← typedProvenance adr.props
    if (driftEvidence adrProvenance edgeProvenance).isEmpty then none
    else some (adrProvenance, edgeProvenance)
  else none

def driftTier (p : Provenance) : Tier :=
  if p.confidenceTier = .confirmed then p.tier else .semantic

def driftExtractor : Tier → String
  | .deterministic => "t0.adr-drift"
  | .dynamic => "t1.adr-drift"
  | .semantic => "t2.adr-drift"
  | .agentic => "t3.adr-drift"

def driftCanonical (adr : Node Json) (e : Edge Json) : String :=
  Json.render (.arr [.str "adr-drift", .str adr.id, .str e.src, .str e.label, .str e.dst])

def driftProvenance (adr : Node Json) (e : Edge Json) (ps : Provenance × Provenance) :
    Provenance where
  tier := driftTier ps.2
  confidenceTier := ps.2.confidenceTier
  evidence := driftEvidence ps.1 ps.2
  extractorId := driftExtractor (driftTier ps.2)
  contentHash := (contentHash (driftCanonical adr e)).text

/-- The triggers of the flows that take `e`. -/
def flowTriggers (flows : List Flow) (e : Edge Json) : List String :=
  distinct id (sortBy id ((flows.filter fun flow => flow.hops.any fun h =>
    h.src == e.src && h.label == e.label && h.dst == e.dst).map Flow.trigger))

def driftNode (flows : List Flow) (adr : Node Json) (e : Edge Json)
    (ps : Provenance × Provenance) : Node Json :=
  let adrTitle := (asStr (index adr.props "title")).getD adr.id
  { id := "drift:" ++ shortHash contentHash (driftCanonical adr e)
    label := "Drift"
    props := .obj [
      ("kind", .str "drift"),
      ("title", .str (adrTitle ++ " forbids " ++ e.label ++ " but graph contains " ++ e.src
        ++ " → " ++ e.dst)),
      ("adr_id", .str adr.id),
      ("offending_edge", .str (edgeIdentity e)),
      ("flow_triggers", .arr ((flowTriggers flows e).map Json.str)),
      ("prov", (driftProvenance contentHash adr e ps).toJson)] }

/-- The edges of a drift to nodes that exist. -/
def driftEdges (nodes : List (Node Json)) (adr : Node Json) (e : Edge Json)
    (ps : Provenance × Provenance) : List (Edge Json) :=
  ([("DRIFTS_FROM", adr.id), ("CONFLICTS", e.dst)].filter fun t =>
    nodes.any fun n => n.id == t.2).map fun t =>
    { src := "drift:" ++ shortHash contentHash (driftCanonical adr e)
      dst := t.2
      label := t.1
      props := .obj [("prov", (driftProvenance contentHash adr e ps).toJson)] }

/-- The conflicts, ADR by ADR. -/
def conflicts (nodes : List (Node Json)) (edges : List (Edge Json)) :
    List (Node Json × Edge Json × Provenance × Provenance) :=
  nodes.flatMap fun adr => edges.filterMap fun e =>
    (conflict edges adr e).map fun ps => (adr, e, ps)

/-- `drift_facts`. -/
def driftFacts (nodes : List (Node Json)) (edges : List (Edge Json)) (flows : List Flow) :
    AdrFacts where
  nodes := (conflicts nodes edges).map fun c => driftNode contentHash flows c.1 c.2.1 c.2.2
  edges := (conflicts nodes edges).flatMap fun c => driftEdges contentHash nodes c.1 c.2.1 c.2.2

/-! ### Both -/

/-- The graph with the recovered decisions. -/
def projectedNodes (nodes : List (Node Json)) (edges : List (Edge Json)) : List (Node Json) :=
  nodes ++ (recoveredAdrs contentHash nodes edges).nodes

def projectedEdges (nodes : List (Node Json)) (edges : List (Edge Json)) : List (Edge Json) :=
  edges ++ (recoveredAdrs contentHash nodes edges).edges

/-- `derive_adr_facts`. -/
def deriveAdrFacts (nodes : List (Node Json)) (edges : List (Edge Json)) (flows : List Flow) :
    AdrFacts :=
  let recovered := recoveredAdrs contentHash nodes edges
  let drift := driftFacts contentHash (projectedNodes contentHash nodes edges)
    (projectedEdges contentHash nodes edges) flows
  { nodes := sortBy Node.id (recovered.nodes ++ drift.nodes)
    edges := sortBy Edge.key (recovered.edges ++ drift.edges) }

end

/-! ### Derived provenance -/

variable {props : Json} {p : Provenance} {id : String} {r : Edge Json × Provenance}

section

variable {contentHash : String → Hash} {nodes : List (Node Json)} {edges : List (Edge Json)}
variable {channel adr : Node Json} {e : Edge Json} {ps : Provenance × Provenance}

section

variable (h : typedProvenance props = some p)
include h

theorem typedProvenance_some :
    Provenance.fromValue (index props "prov") = some p
      ∧ confidenceAboveCeiling p.tier p.confidenceTier = false := by
  obtain ⟨hread, hceiling⟩ := Option.filter_eq_some_iff.mp h
  exact ⟨hread, by simpa using hceiling⟩

theorem confidence_of_typed :
    confidence props = p.confidenceTier := by
  rw [confidence, h]
  rfl

theorem fits_of_typed :
    ∀ e ∈ p.evidence, e.Fits :=
  Provenance.fits_of_fromValue (typedProvenance_some h).1

end

theorem confidence_written (hprov : index props "prov" = p.toJson)
    (hfits : ∀ e ∈ p.evidence, e.Fits)
    (hceiling : confidenceAboveCeiling p.tier p.confidenceTier = false) :
    confidence props = p.confidenceTier := by
  refine confidence_of_typed ?_
  rw [typedProvenance, hprov, Provenance.fromValue_toJson hfits]
  exact Option.filter_eq_some_iff.mpr ⟨rfl, by simp [hceiling]⟩

theorem fits_combined {provenances : List Provenance}
    (h : ∀ p ∈ provenances, ∀ e ∈ p.evidence, e.Fits) : ∀ e ∈ combinedEvidence provenances, e.Fits := by
  intro e he
  obtain ⟨p, hp, hmem⟩ := Ingest.mem_distinctEvidence.mp he
  exact h p hp e hmem

theorem mem_related : r ∈ related edges id ↔
    r.1 ∈ edges ∧ relatedProvenance id r.1 = some r.2 := by
  rw [related, List.mem_filterMap]
  constructor
  · rintro ⟨e, he, hsome⟩
    obtain ⟨p, hp, rfl⟩ := Option.map_eq_some_iff.mp hsome
    exact ⟨he, hp⟩
  · rintro ⟨he, hp⟩
    exact ⟨r.1, he, Option.map_eq_some_iff.mpr ⟨r.2, hp, rfl⟩⟩

theorem relatedProvenance_some (h : relatedProvenance id e = some p) :
    typedProvenance e.props = some p ∧ p.confidenceTier ≠ .gap := by
  rw [relatedProvenance] at h
  split_ifs at h
  obtain ⟨htyped, hgap⟩ := Option.filter_eq_some_iff.mp h
  exact ⟨htyped, by simpa using hgap⟩

theorem recoveredConfidence_cases (edges : List (Edge Json)) (id : String) :
    (recoveredConfidence edges id = .inferredWeak
        ∧ ∃ r ∈ related edges id, r.2.confidenceTier = .inferredWeak)
      ∨ (recoveredConfidence edges id = .inferredStrong
        ∧ ∀ r ∈ related edges id, r.2.confidenceTier ≠ .inferredWeak) := by
  rw [recoveredConfidence]
  split_ifs with h
  · obtain ⟨r, hr, hweak⟩ := List.any_eq_true.mp h
    exact .inl ⟨rfl, r, hr, beq_iff_eq.mp hweak⟩
  · refine .inr ⟨rfl, fun r hr hweak => h ?_⟩
    exact List.any_eq_true.mpr ⟨r, hr, beq_iff_eq.mpr hweak⟩

theorem recovered_make (edges : List (Edge Json)) (channel : Node Json) (fact : String) :
    Provenance.make contentHash .semantic (recoveredConfidence edges channel.id)
        (recoveryEvidence edges channel) "t2.adr-recovery" fact
      = .ok (recoveredProvenance contentHash edges channel fact) := by
  have hceiling : confidenceAboveCeiling .semantic (recoveredConfidence edges channel.id) = false := by
    rcases recoveredConfidence_cases edges channel.id with ⟨h, -⟩ | ⟨h, -⟩
    · rw [h]
      decide
    · rw [h]
      decide
  rw [Provenance.make, hceiling]
  rfl

theorem within_of_make {tier : Tier} {c : ConfidenceTier} {evidence : List EvidenceRef}
    {extractorId fact : String}
    (h : Provenance.make contentHash tier c evidence extractorId fact = .ok p) :
    confidenceAboveCeiling tier c = false := by
  rw [Provenance.make] at h
  split_ifs at h with hceiling
  simpa using hceiling

theorem confidence_recovered (fact : String) (hprov : index props "prov"
    = (recoveredProvenance contentHash edges channel fact).toJson) :
    confidence props = recoveredConfidence edges channel.id := by
  have hmake : Provenance.make contentHash .semantic (recoveredConfidence edges channel.id) _ _ fact
      = .ok _ := recovered_make edges channel fact
  refine confidence_written hprov ?_ (within_of_make hmake)
  refine fits_combined fun p hp => ?_
  rcases List.mem_append.mp hp with hp | hp
  · obtain ⟨r, hr, rfl⟩ := List.mem_map.mp hp
    exact fits_of_typed (relatedProvenance_some (mem_related.mp hr).2).1
  · exact fits_of_typed (Option.mem_toList.mp hp)

/-- What is known of two facts in conflict. -/
structure InConflict (edges : List (Edge Json)) (adr : Node Json) (e : Edge Json)
    (ps : Provenance × Provenance) : Prop where
  adrTyped : typedProvenance adr.props = some ps.1
  edgeTyped : typedProvenance e.props = some ps.2
  known : ps.2.confidenceTier ≠ .gap
  decided : ∃ d ∈ edges, decides adr e d = true

theorem conflict_some (h : conflict edges adr e = some ps) : InConflict edges adr e ps := by
  rw [conflict] at h
  split_ifs at h with hcond
  simp only [Option.bind_eq_bind, Option.bind_eq_some_iff, Option.ite_none_left_eq_some,
    Option.some_inj] at h
  obtain ⟨pe, hpe, pa, hpa, -, rfl⟩ := h
  obtain ⟨htyped, hgap⟩ := Option.filter_eq_some_iff.mp hpe
  simp only [Bool.and_eq_true] at hcond
  exact ⟨hpa, htyped, by simpa using hgap, List.any_eq_true.mp hcond.2⟩

theorem drift_make (h : InConflict edges adr e ps) :
    Provenance.make contentHash (driftTier ps.2) ps.2.confidenceTier (driftEvidence ps.1 ps.2)
        (driftExtractor (driftTier ps.2)) (driftCanonical adr e)
      = .ok (driftProvenance contentHash adr e ps) := by
  have hceiling : confidenceAboveCeiling (driftTier ps.2) ps.2.confidenceTier = false := by
    have hedge := (typedProvenance_some h.edgeTyped).2
    have hknown := h.known
    rw [driftTier]
    cases hc : ps.2.confidenceTier with
    | confirmed =>
      rw [if_pos rfl]
      rwa [hc] at hedge
    | inferredStrong | inferredWeak =>
      rw [if_neg (by decide)]
      decide
    | gap => exact absurd hc hknown
  rw [Provenance.make, hceiling]
  rfl

theorem confidence_drift (h : InConflict edges adr e ps)
    (hprov : index props "prov" = (driftProvenance contentHash adr e ps).toJson) :
    confidence props = ps.2.confidenceTier := by
  have hmake : Provenance.make contentHash (driftTier ps.2) ps.2.confidenceTier _ _ _ = .ok _ :=
    drift_make h
  show confidence props = (driftProvenance contentHash adr e ps).confidenceTier
  refine confidence_written hprov ?_ (within_of_make hmake)
  refine fits_combined fun p hp => ?_
  rcases List.mem_cons.mp hp with rfl | hp
  · exact fits_of_typed h.adrTyped
  · rw [List.mem_singleton.mp hp]
    exact fits_of_typed h.edgeTyped

end

/-! ### What a fact is derived from -/

/-- Derived facts, and the properties of the facts they are derived from. -/
structure Derivation where
  nodes : List (Node Json)
  edges : List (Edge Json)
  supports : List Json

/-- No derived fact is stronger than a fact it is derived from. -/
def Derivation.Respects (d : Derivation) : Prop :=
  ∀ p ∈ d.nodes.map Node.props ++ d.edges.map Edge.props, ∀ support ∈ d.supports,
    (confidence p).rank ≤ (confidence support).rank

section

variable (contentHash : String → Hash)

/-- A decision rests on its channel and on the edges of the channel. -/
def recovery (edges : List (Edge Json)) (channel : Node Json) : Derivation where
  nodes := [recoveredNode contentHash edges channel]
  edges := [recoveredEdge contentHash edges channel]
  supports := channel.props :: (related edges channel.id).map fun r => r.1.props

/-- A drift rests on the ADR, the offending edge, and the edges by which the ADR decides an end of
it. -/
def drift (nodes : List (Node Json)) (edges : List (Edge Json)) (flows : List Flow)
    (c : Node Json × Edge Json × Provenance × Provenance) : Derivation where
  nodes := [driftNode contentHash flows c.1 c.2.1 c.2.2]
  edges := driftEdges contentHash nodes c.1 c.2.1 c.2.2
  supports := c.1.props :: c.2.1.props :: (edges.filter (decides c.1 c.2.1)).map Edge.props

def derivations (nodes : List (Node Json)) (edges : List (Edge Json)) (flows : List Flow) :
    List Derivation :=
  let nodes' := projectedNodes contentHash nodes edges
  let edges' := projectedEdges contentHash nodes edges
  (nodes.filter (recovers nodes edges)).map (recovery contentHash edges)
    ++ (conflicts nodes' edges').map (drift contentHash nodes' edges' flows)

theorem deriveAdrFacts_perm (nodes : List (Node Json)) (edges : List (Edge Json))
    (flows : List Flow) :
    (deriveAdrFacts contentHash nodes edges flows).nodes.Perm
        ((derivations contentHash nodes edges flows).flatMap Derivation.nodes)
      ∧ (deriveAdrFacts contentHash nodes edges flows).edges.Perm
        ((derivations contentHash nodes edges flows).flatMap Derivation.edges) := by
  constructor
  · refine (sortBy_perm _ _).trans (List.Perm.of_eq ?_)
    simp only [derivations, List.flatMap_append, List.flatMap_map, recoveredAdrs, driftFacts]
    rw [List.map_eq_flatMap, List.map_eq_flatMap]
    rfl
  · refine (sortBy_perm _ _).trans (List.Perm.of_eq ?_)
    simp only [derivations, List.flatMap_append, List.flatMap_map, recoveredAdrs, driftFacts]
    rw [List.map_eq_flatMap]
    rfl

end

section

variable {contentHash : String → Hash} {nodes : List (Node Json)} {edges : List (Edge Json)}
variable {channel : Node Json} {flows : List Flow}

theorem recoveredConfidence_le (h : r ∈ related edges id) :
    (recoveredConfidence edges id).rank ≤ (confidence r.1.props).rank := by
  obtain ⟨htyped, hgap⟩ := relatedProvenance_some (mem_related.mp h).2
  rw [confidence_of_typed htyped]
  rcases recoveredConfidence_cases edges id with ⟨hweak, -⟩ | ⟨hstrong, hnone⟩
  · rw [hweak]
    cases hc : r.2.confidenceTier with
    | gap => exact absurd hc hgap
    | confirmed | inferredStrong | inferredWeak => decide
  · have hnot := hnone r h
    rw [hstrong]
    cases hc : r.2.confidenceTier with
    | gap => exact absurd hc hgap
    | inferredWeak => exact absurd hc hnot
    | confirmed => decide
    | inferredStrong => decide

theorem recoveredConfidence_le_iff (id : String) (c : ConfidenceTier) :
    (recoveredConfidence edges id).rank ≤ c.rank ↔
      c ≠ .gap ∧ (c = .inferredWeak → ∃ r ∈ related edges id, r.2.confidenceTier = .inferredWeak) := by
  rcases recoveredConfidence_cases edges id with ⟨hweak, hsome⟩ | ⟨hstrong, hnone⟩
  · rw [hweak]
    cases c <;> simp [ConfidenceTier.rank, hsome]
  · have hnot : ¬∃ r ∈ related edges id, r.2.confidenceTier = .inferredWeak := by
      rintro ⟨r, hr, hc⟩
      exact hnone r hr hc
    rw [hstrong]
    cases c <;> simp [ConfidenceTier.rank, hnot]

theorem recovery_respects_iff : (recovery contentHash edges channel).Respects ↔
    confidence channel.props ≠ .gap
      ∧ (confidence channel.props = .inferredWeak →
        ∃ r ∈ related edges channel.id, r.2.confidenceTier = .inferredWeak) := by
  have hnode : confidence (recoveredNode contentHash edges channel).props
      = recoveredConfidence edges channel.id :=
    confidence_recovered (recoveredCanonical edges channel.id) rfl
  have hedge : confidence (recoveredEdge contentHash edges channel).props
      = recoveredConfidence edges channel.id := confidence_recovered _ rfl
  rw [← recoveredConfidence_le_iff]
  constructor
  · intro h
    rw [← hnode]
    exact h _ List.mem_cons_self _ List.mem_cons_self
  · intro h p hp support hsupport
    have hp : confidence p = recoveredConfidence edges channel.id := by
      rcases List.mem_cons.mp hp with rfl | hp
      · exact hnode
      · rw [List.mem_singleton.mp hp]
        exact hedge
    rw [hp]
    rcases List.mem_cons.mp hsupport with rfl | hsupport
    · exact h
    · obtain ⟨r, hr, rfl⟩ := List.mem_map.mp hsupport
      exact recoveredConfidence_le hr

theorem drift_respects_iff {adr : Node Json} {e : Edge Json} {ps : Provenance × Provenance}
    (h : InConflict edges adr e ps) : (drift contentHash nodes edges flows (adr, e, ps)).Respects ↔
      (confidence e.props).rank ≤ (confidence adr.props).rank
        ∧ ∀ d ∈ edges, decides adr e d = true →
          (confidence e.props).rank ≤ (confidence d.props).rank := by
  have hedge : confidence e.props = ps.2.confidenceTier := confidence_of_typed h.edgeTyped
  have hwritten : ∀ props, index props "prov" = (driftProvenance contentHash adr e ps).toJson →
      confidence props = ps.2.confidenceTier := fun props hprov => confidence_drift h hprov
  have hderived : ∀ p ∈ (drift contentHash nodes edges flows (adr, e, ps)).nodes.map Node.props
      ++ (drift contentHash nodes edges flows (adr, e, ps)).edges.map Edge.props,
      confidence p = confidence e.props := by
    intro p hp
    rw [hedge]
    rcases List.mem_cons.mp hp with rfl | hp
    · exact hwritten _ rfl
    · obtain ⟨d, hd, rfl⟩ := List.mem_map.mp hp
      obtain ⟨t, -, rfl⟩ := List.mem_map.mp hd
      exact hwritten _ rfl
  constructor
  · intro hall
    have hnode := hall _ List.mem_cons_self
    rw [hderived _ List.mem_cons_self] at hnode
    refine ⟨hnode _ List.mem_cons_self, fun d hd hdecides => hnode _ ?_⟩
    exact List.mem_cons_of_mem _ (List.mem_cons_of_mem _
      (List.mem_map_of_mem (List.mem_filter.mpr ⟨hd, hdecides⟩)))
  · rintro ⟨hadr, hdecisions⟩ p hp support hsupport
    rw [hderived p hp]
    rcases List.mem_cons.mp hsupport with rfl | hsupport
    · exact hadr
    rcases List.mem_cons.mp hsupport with rfl | hsupport
    · exact le_rfl
    · obtain ⟨d, hd, rfl⟩ := List.mem_map.mp hsupport
      obtain ⟨hd, hdecides⟩ := List.mem_filter.mp hd
      exact hdecisions d hd hdecides

theorem mem_conflicts {c : Node Json × Edge Json × Provenance × Provenance} :
    c ∈ conflicts nodes edges ↔
      c.1 ∈ nodes ∧ c.2.1 ∈ edges ∧ conflict edges c.1 c.2.1 = some c.2.2 := by
  obtain ⟨adr, e, ps⟩ := c
  simp only [conflicts, List.mem_flatMap, List.mem_filterMap, Option.map_eq_some_iff,
    Prod.mk.injEq]
  constructor
  · rintro ⟨_, hadr, _, he, _, hps, rfl, rfl, rfl⟩
    exact ⟨hadr, he, hps⟩
  · rintro ⟨hadr, he, hps⟩
    exact ⟨adr, hadr, e, he, ps, hps, rfl, rfl, rfl⟩

end

namespace Sample

/-- A channel that is only weakly inferred, with a confirmed publisher. -/
def weakChannel : Node Json where
  id := "chan:orders"
  label := "Channel"
  props := .obj [("prov", Provenance.toJson
    { tier := .semantic
      confidenceTier := .inferredWeak
      evidence := [⟨"o/r", "a.ts", 0, 9, "c"⟩]
      extractorId := "t2"
      contentHash := "0000000000000000000000000000000000000000000000000000000000000000" })]

def publishes : Edge Json := ⟨"sym:publish", "chan:orders", "PUBLISHES", FlowTracer.Sample.confirmed⟩

end Sample

end Spec

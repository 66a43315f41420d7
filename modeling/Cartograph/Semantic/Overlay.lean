/-
The best-effort overlay (`overlay`, `crates/semantic/src/lib.rs`).

A proposal that is approved fills a gap: the overlay has an edge to the target of the proposal in
place of the edge to the gap.  The code takes out every edge to a gap that is filled, and keeps
one proposal for a gap.

* `overlay_nodes`, `overlay_edges` — what the overlay consists of;
* `overlay_exact_iff` — when it differs from the graph in the filled slots only;
* `overlay_shared_gap` — two edges to one gap, of which one is filled.
-/
import Cartograph.Lib.SortBy
import Cartograph.Properties
import Cartograph.Provenance

namespace Semantic

open GraphStore Investigation SortBy

def EXTRACTOR_ID : String := "t2.semantic-ann"

/-- `Value::index`: anything missing is `null`. -/
def index (j : Json) (name : String) : Json :=
  match j with
  | .obj fields => (findMember name fields).getD .null
  | _ => .null

/-- A staged link.  The similarity is the number as it is written. -/
structure SemanticProposal where
  gapId : String
  sourceId : String
  targetId : String
  edgeLabel : String
  similarity : Json
  provenance : Provenance
  targetNode : Option (Node Json)

/-- The numbers of an evaluation that an edge cites, as they are written. -/
structure EvalReport where
  precisionFloor : Json
  similarityThreshold : Json
  precision : Json
  recallRate : Json

namespace SemanticProposal

def asEdge (eval : EvalReport) (p : SemanticProposal) : Edge Json where
  src := p.sourceId
  dst := p.targetId
  label := p.edgeLabel
  props := .obj [("resolver", .str EXTRACTOR_ID), ("fills_gap", .str p.gapId),
    ("similarity", p.similarity),
    ("eval", .obj [("precision", eval.precision), ("recall", eval.recallRate),
      ("precision_floor", eval.precisionFloor),
      ("similarity_threshold", eval.similarityThreshold)]),
    ("prov", p.provenance.toJson)]

/-- Whether an edge is in the slot of the proposal. -/
def slot (p : SemanticProposal) (e : Edge Json) : Bool :=
  e.src == p.sourceId && e.dst == p.gapId && e.label == p.edgeLabel

end SemanticProposal

structure Overlay where
  nodes : List (Node Json)
  edges : List (Edge Json)
  gapsFilled : ℕ

section Overlay

variable (nodes : List (Node Json)) (edges : List (Edge Json)) (approved : List SemanticProposal)

def gapIds : List String := (nodes.filter fun n => n.label == "Gap").map Node.id

/-- The proposals that fill an existing gap. -/
def accepted : List SemanticProposal :=
  (approved.filter fun p => (gapIds nodes).contains p.gapId).filter fun p =>
    edges.any fun e => p.slot e
      && index (index e.props "prov") "confidence_tier" == .str "Gap"

/-- `approved`, one proposal for a gap. -/
def fills : Table String SemanticProposal :=
  Table.ofList SemanticProposal.gapId id (accepted nodes edges approved)

/-- `resolved`. -/
def resolved : List String := (fills nodes edges approved).rows.map Prod.fst

/-- The nodes of gaps that are not filled, and all others. -/
def keptNodes : List (Node Json) :=
  nodes.filter fun n => !(resolved nodes edges approved).contains n.id

/-- The targets that no node is there for. -/
def targets : List (Node Json) :=
  ((fills nodes edges approved).rows.filterMap fun r => r.2.targetNode).filter fun n =>
    !((keptNodes nodes edges approved).map Node.id).contains n.id

def overlay (eval : EvalReport) : Overlay where
  nodes := distinct Node.id
    (sortBy Node.id (keptNodes nodes edges approved ++ targets nodes edges approved))
  edges := sortBy (fun e : Edge Json => toLex (e.src, toLex (e.dst, e.label)))
    ((edges.filter fun e => !(resolved nodes edges approved).contains e.dst)
      ++ (fills nodes edges approved).rows.map fun r => r.2.asEdge eval)
  gapsFilled := (fills nodes edges approved).rows.length

end Overlay

section Exact

variable {nodes : List (Node Json)} {edges : List (Edge Json)} {approved : List SemanticProposal}

/-- The gaps that are filled. -/
def filled (nodes : List (Node Json)) (edges : List (Edge Json))
    (approved : List SemanticProposal) : List String :=
  (accepted nodes edges approved).map SemanticProposal.gapId

theorem mem_resolved {id : String} :
    id ∈ resolved nodes edges approved ↔ id ∈ filled nodes edges approved :=
  Table.mem_keys_ofList

theorem not_resolved {id : String} :
    (!(resolved nodes edges approved).contains id) = true ↔ id ∉ filled nodes edges approved := by
  rw [Bool.not_eq_true', ← Bool.not_eq_true, List.contains_iff_mem, mem_resolved]

/-! ### Nodes -/

theorem mem_keptNodes {n : Node Json} : n ∈ keptNodes nodes edges approved ↔
    n ∈ nodes ∧ n.id ∉ filled nodes edges approved := by
  rw [keptNodes, List.mem_filter, not_resolved]

theorem overlay_nodes_iff (eval : EvalReport) :
    (∀ n ∈ nodes, n.id ∉ filled nodes edges approved →
      n ∈ (overlay nodes edges approved eval).nodes)
    ↔ ∀ n ∈ nodes, ∀ n' ∈ nodes, n.id ∉ filled nodes edges approved → n'.id = n.id → n' = n := by
  set all := keptNodes nodes edges approved ++ targets nodes edges approved with hall
  have hmem : ∀ n, n ∈ sortBy Node.id all ↔ n ∈ all := fun n =>
    (sortBy_perm Node.id all).mem_iff
  constructor
  · intro hstay n hn n' hn' hnot hid
    have hkeys : ((distinct Node.id (sortBy Node.id all)).map Node.id).Nodup :=
      distinct_nodup (sortBy_pairwise _ _)
    exact List.inj_on_of_nodup_map hkeys (hstay n' hn' (hid ▸ hnot)) (hstay n hn hnot) hid
  · intro hone n hn hnot
    have hkept : n ∈ keptNodes nodes edges approved := mem_keptNodes.mpr ⟨hn, hnot⟩
    have hin : n ∈ sortBy Node.id all := (hmem n).mpr (List.mem_append_left _ hkept)
    obtain ⟨n', hn', hid⟩ : ∃ n' ∈ distinct Node.id (sortBy Node.id all), n'.id = n.id :=
      distinct_covers hin
    have hn'' := (hmem n').mp ((distinct_sublist Node.id (sortBy Node.id all)).subset hn')
    rcases List.mem_append.mp hn'' with hown | htarget
    · obtain ⟨hmem', -⟩ := mem_keptNodes.mp hown
      rw [← hone n hn n' hmem' hnot hid]
      exact hn'
    · -- a target is added under an id of its own
      have hnew := (List.mem_filter.mp htarget).2
      rw [hid, List.contains_iff_mem.mpr (List.mem_map_of_mem hkept)] at hnew
      exact absurd hnew (by decide)

/-! ### Edges -/

/-- The edges outside the slots that are filled. -/
def outside (nodes : List (Node Json)) (edges : List (Edge Json))
    (approved : List SemanticProposal) : List (Edge Json) :=
  edges.filter fun e => !(accepted nodes edges approved).any fun p => p.slot e

theorem slot_dst {p : SemanticProposal} {e : Edge Json} (h : p.slot e = true) : e.dst = p.gapId := by
  rw [SemanticProposal.slot, Bool.and_eq_true, Bool.and_eq_true] at h
  exact beq_iff_eq.mp h.1.2

theorem kept_sublist (nodes : List (Node Json)) (edges : List (Edge Json))
    (approved : List SemanticProposal) :
    (edges.filter fun e => !(resolved nodes edges approved).contains e.dst).Sublist
      (outside nodes edges approved) := by
  refine List.monotone_filter_right edges fun e hkept => ?_
  have hnot := not_resolved.mp hkept
  rw [Bool.not_eq_true', ← Bool.not_eq_true, List.any_eq_true]
  rintro ⟨p, hp, hslot⟩
  exact hnot (slot_dst hslot ▸ List.mem_map_of_mem hp)

/-- The edges of the overlay are those outside the slots and one for each fill exactly when every
edge to a filled gap is in a slot and no gap is filled twice. -/
theorem overlay_edges_iff (eval : EvalReport) :
    ((overlay nodes edges approved eval).edges.Perm (outside nodes edges approved
      ++ (accepted nodes edges approved).map fun p => p.asEdge eval))
    ↔ (∀ e ∈ edges, e.dst ∈ filled nodes edges approved →
        ∃ p ∈ accepted nodes edges approved, p.slot e = true)
      ∧ (filled nodes edges approved).Nodup := by
  have hsorted : (overlay nodes edges approved eval).edges.Perm
      ((edges.filter fun e => !(resolved nodes edges approved).contains e.dst)
        ++ (fills nodes edges approved).rows.map fun r => r.2.asEdge eval) := sortBy_perm _ _
  have hkept := kept_sublist nodes edges approved
  obtain ⟨hle, hnodup⟩ := Table.length_ofList_eq_iff SemanticProposal.gapId id
    (accepted nodes edges approved)
  constructor
  · intro hperm
    have hlength := (hsorted.symm.trans hperm).length_eq
    rw [List.length_append, List.length_append, List.length_map, List.length_map] at hlength
    have hkept_le := hkept.length_le
    have hsame : (fills nodes edges approved).rows.length
        = (accepted nodes edges approved).length := by
      have hfills_le : (fills nodes edges approved).rows.length
        ≤ (accepted nodes edges approved).length := hle
      omega
    refine ⟨fun e he hdst => ?_, hnodup.mp hsame⟩
    have hall := hkept.eq_of_length (by omega)
    by_contra hnone
    have hout : e ∈ outside nodes edges approved := by
      refine List.mem_filter.mpr ⟨he, ?_⟩
      rw [Bool.not_eq_true', ← Bool.not_eq_true, List.any_eq_true]
      exact hnone
    rw [← hall] at hout
    exact not_resolved.mp (List.mem_filter.mp hout).2 hdst
  · rintro ⟨hslots, hgaps⟩
    refine hsorted.trans (List.Perm.append (.of_eq ?_) ?_)
    · refine List.filter_congr fun e he => ?_
      rw [Bool.eq_iff_iff, not_resolved, Bool.not_eq_true', ← Bool.not_eq_true, List.any_eq_true]
      refine not_congr ⟨hslots e he, ?_⟩
      rintro ⟨p, hp, hslot⟩
      exact slot_dst hslot ▸ List.mem_map_of_mem hp
    · have hrows := Table.rows_ofList_perm id hgaps
      have hedges := hrows.map fun r => r.2.asEdge eval
      rwa [List.map_map] at hedges

/-- **The overlay.**  It holds every node but those of filled gaps, the edges outside the slots
that are filled, and one edge for each fill, exactly when every edge to a filled gap is in the
slot of a fill, no gap is filled twice, and no two nodes that are kept have one id. -/
theorem overlay_exact_iff (nodes : List (Node Json)) (edges : List (Edge Json))
    (approved : List SemanticProposal) (eval : EvalReport) :
    ((∀ n ∈ nodes, n.id ∉ filled nodes edges approved →
        n ∈ (overlay nodes edges approved eval).nodes)
      ∧ (overlay nodes edges approved eval).edges.Perm (outside nodes edges approved
        ++ (accepted nodes edges approved).map fun p => p.asEdge eval))
    ↔ (∀ e ∈ edges, e.dst ∈ filled nodes edges approved →
        ∃ p ∈ accepted nodes edges approved, p.slot e = true)
      ∧ (filled nodes edges approved).Nodup
      ∧ ∀ n ∈ nodes, ∀ n' ∈ nodes, n.id ∉ filled nodes edges approved → n'.id = n.id → n' = n := by
  rw [overlay_nodes_iff, overlay_edges_iff]
  exact ⟨fun h => ⟨h.2.1, h.2.2, h.1⟩, fun h => ⟨h.2.2, h.1, h.2.1⟩⟩

end Exact

namespace Sample

def fact (src label : String) : Edge Json where
  src := src
  dst := "gap:call"
  label := label
  props := .obj [("prov", .obj [("confidence_tier", .str "Gap")])]

def gap : Node Json := ⟨"gap:call", "Gap", .obj []⟩

/-- A proposal for the call from `sym:a`. -/
def proposal : SemanticProposal where
  gapId := "gap:call"
  sourceId := "sym:a"
  targetId := "sym:t"
  edgeLabel := "CALLS"
  similarity := .num "0.97"
  provenance := ⟨.semantic, .inferredStrong, [], EXTRACTOR_ID, "00"⟩
  targetNode := none

def eval : EvalReport := ⟨.num "0.95", .num "0.9", .num "1.0", .num "1.0"⟩

end Sample

/-- The call from `sym:b` to the same gap is lost when the one from `sym:a` is filled. -/
theorem overlay_shared_gap : ¬∀ (nodes : List (Node Json)) (edges : List (Edge Json))
    (approved : List SemanticProposal) (eval : EvalReport) (e : Edge Json), e ∈ edges →
    (∀ p ∈ accepted nodes edges approved, p.slot e = false) →
    e ∈ (overlay nodes edges approved eval).edges := by
  intro hall
  have hone : (overlay [Sample.gap] [Sample.fact "sym:a" "CALLS", Sample.fact "sym:b" "CALLS"]
      [Sample.proposal] Sample.eval).edges.map Edge.src = ["sym:a"] := by decide
  have hb := hall [Sample.gap] [Sample.fact "sym:a" "CALLS", Sample.fact "sym:b" "CALLS"]
    [Sample.proposal] Sample.eval (Sample.fact "sym:b" "CALLS") (by simp) (fun p hp => by
      obtain rfl : p = Sample.proposal := by
        have hin := (List.mem_filter.mp (List.mem_filter.mp hp).1).1
        exact List.mem_singleton.mp hin
      decide)
  have hsrc := List.mem_map_of_mem (f := Edge.src) hb
  rw [hone] at hsrc
  exact absurd hsrc (by decide)

end Semantic

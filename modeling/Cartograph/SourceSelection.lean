/-
Source selections of a graph (`crates/core-graph/src/source.rs`).

A selection read copies the graph and, of the same revision, the source association of each
requested fact.  An association that is malformed, or that does not match the fact, makes the
fact's state invalid; it does not fail the read.

* `snapshotDigest_node`, `snapshotDigest_edge` — the digests of the facts of a snapshot;
* `state_of_read` — the state that a read has for a fact.
-/
import Cartograph.Ingest.Receipts

namespace GraphStore

open Checked
open Ingest (factRank factRank_injective)

def maxSourceSelectionKeys : ℕ := 65

/-- The source association of a requested fact, as it was observed. -/
inductive FactSourceState
  | missing
  | absent (factDigest : String)
  | present (factDigest : String) (binding : SourceBinding)
  | invalid (factDigest : Option String)
  deriving DecidableEq

structure FactSourceSelection where
  fact : FactKey
  state : FactSourceState
  deriving DecidableEq

structure SourceSelectionSnapshot (V : Type) where
  graph : List (Node V) × List (Edge V)
  selections : List FactSourceSelection

inductive SelectionBinding
  | absent
  | invalid
  | present (binding : SourceBinding)

variable {fact : FactKey} {v : FactSourceSelection}

section

variable {V : Type} (c : Codec V)

/-- `load_selection_binding`.  The byte lengths that its SQL asks for are those of the validation. -/
def Store.loadSelectionBinding (fact : FactKey) (s : Store) : SelectionBinding :=
  match s.bindingRow fact with
  | none => .absent
  | some row =>
    let binding : SourceBinding := ⟨fact, row.repoKey, row.receiptId, row.emittedFactDigest⟩
    match binding.validate with
    | .ok () => .present binding
    | .error _ => .invalid

/-- `snapshot_digest`.  The facts of a snapshot are in the order by which the source searches it. -/
def snapshotDigest (graph : List (Node V) × List (Edge V)) : FactKey → Option String
  | .node id => (graph.1.find? fun n => n.id == id).map c.nodeDigest
  | .edge source label destination =>
    (graph.2.find? fun e => e.key == edgeKey source destination label).map c.edgeDigest

def selectionState : Option String → SelectionBinding → FactSourceState
  | none, .absent => .missing
  | some factDigest, .absent => .absent factDigest
  | some factDigest, .present binding =>
    if binding.emittedFactDigest = factDigest then .present factDigest binding
    else .invalid (some factDigest)
  | none, .present _ => .invalid none
  | factDigest, .invalid => .invalid factDigest

/-- The state of a fact in the revision of this graph. -/
def Store.factState (s : Store) (graph : List (Node V) × List (Edge V)) (fact : FactKey) :
    FactSourceState :=
  selectionState (snapshotDigest c graph fact) (s.loadSelectionBinding fact)

/-- `read_source_selection_snapshot`: the requested facts in order, each once. -/
def Store.readSourceSelectionSnapshot (keys : List FactKey) (s : Store) :
    Except GraphError (SourceSelectionSnapshot V) := do
  ensure (keys.length ≤ maxSourceSelectionKeys) (.sourceBinding "too many source selection keys")
  keys.forM FactKey.validate
  let graph ← s.readSnapshot c
  pure ⟨graph, (Table.ofList factRank id keys).rows.map fun r => ⟨r.2, s.factState c graph r.2⟩⟩

/-- Selections by their facts. -/
def selectionTable (selections : List FactSourceSelection) :
    Table (String ⊕ₗ (String ×ₗ String ×ₗ String)) FactSourceSelection :=
  Table.ofList (fun v => factRank v.fact) id selections

variable {c} {s : Store} {graph : List (Node V) × List (Edge V)} {keys : List FactKey}
  {snapshot : SourceSelectionSnapshot V}

/-! ### Digests of a snapshot -/

section

variable (h : s.readSnapshot c = .ok graph)
include h

theorem readSnapshot_keys :
    graph.1.map Node.id = s.nodes.rows.map Prod.fst
      ∧ graph.2.map Edge.key = s.edges.rows.map Prod.fst := by
  simp only [Store.readSnapshot, bind_eq_ok, pure_eq_ok] at h
  obtain ⟨nodes, hnodes, edges, hedges, rfl⟩ := h
  constructor
  · refine map_mapM_ok (fun r n hn => ?_) hnodes
    simp only [bind_eq_ok, orFail_eq_ok, pure_eq_ok] at hn
    obtain ⟨props, -, rfl⟩ := hn
    rfl
  · refine map_mapM_ok (fun r e he => ?_) hedges
    simp only [bind_eq_ok, orFail_eq_ok, pure_eq_ok] at he
    obtain ⟨props, -, rfl⟩ := he
    exact EdgeKey.edgeKey_eta r.1

theorem snapshot_ids_nodup : (graph.1.map Node.id).Nodup := by
  rw [(readSnapshot_keys h).1]
  exact s.nodes.keys_nodup

theorem snapshot_keys_nodup :
    (graph.2.map Edge.key).Nodup := by
  rw [(readSnapshot_keys h).2]
  exact s.edges.keys_nodup

theorem snapshot_edges_sorted :
    graph.2.Pairwise fun a b => a.key ≤ b.key := by
  refine List.pairwise_map.mp ((readSnapshot_keys h).2 ▸ List.pairwise_map.mpr ?_)
  exact s.edges.sorted.imp le_of_lt

theorem snapshotDigest_node {n : Node V} (hn : n ∈ graph.1) :
    snapshotDigest c graph (.node n.id) = some (c.nodeDigest n) := by
  rw [snapshotDigest, Table.find?_distinct (snapshot_ids_nodup h) hn rfl]
  rfl

theorem snapshotDigest_edge {e : Edge V} (he : e ∈ graph.2) :
    snapshotDigest c graph (.edge e.src e.label e.dst) = some (c.edgeDigest e) := by
  show ((graph.2.find? fun e' => e'.key == e.key).map c.edgeDigest) = _
  rw [Table.find?_distinct (snapshot_keys_nodup h) he rfl]
  rfl

end

/-! ### What is read -/

theorem readSelections_ok (h : s.readSourceSelectionSnapshot c keys = .ok snapshot) :
    s.readSnapshot c = .ok snapshot.graph
      ∧ ∀ v ∈ snapshot.selections, v.state = s.factState c snapshot.graph v.fact := by
  simp only [Store.readSourceSelectionSnapshot, bind_eq_ok, pure_eq_ok] at h
  obtain ⟨-, -, -, -, graph, hgraph, rfl⟩ := h
  refine ⟨hgraph, fun v hv => ?_⟩
  obtain ⟨r, -, rfl⟩ := List.mem_map.mp hv
  rfl

theorem find?_selectionTable {selections : List FactSourceSelection}
    (h : (selectionTable selections).find? (factRank fact) = some v) :
    v ∈ selections ∧ v.fact = fact := by
  rw [selectionTable, Table.find?_ofList] at h
  obtain ⟨a, ha, rfl⟩ := Option.map_eq_some_iff.mp h
  have hkey : factRank a.fact = factRank fact := by simpa using List.find?_some ha
  exact ⟨List.mem_reverse.mp (List.mem_of_find?_eq_some ha), factRank_injective hkey⟩

theorem state_of_read (h : s.readSourceSelectionSnapshot c keys = .ok snapshot)
    (hv : (selectionTable snapshot.selections).find? (factRank fact) = some v) :
    v = ⟨fact, s.factState c snapshot.graph fact⟩ := by
  obtain ⟨hmem, rfl⟩ := find?_selectionTable hv
  rw [← (readSelections_ok h).2 v hmem]

end

end GraphStore

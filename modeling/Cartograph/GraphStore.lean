/-
The graph store (`crates/core-graph`): two tables of facts and two tables of
source associations, with the SQLite rules that tie them together.

* `nodes` and `edges` hold the facts, properties as the JSON text the store
  wrote;
* `nodeBindings` and `edgeBindings` hold the current source associations;
* foreign keys reject an edge without endpoints, and the triggers of
  `source.rs` delete the association of a fact at each write to the fact.

A statement that SQLite runs on many rows is one function here, with the
triggers it fires.  Public operations are transactions: a failed one leaves
the store as it was (`Checked.transact`).  What `serde_json` and the digests do
is a parameter, the `Codec`.
-/
import Cartograph.Lib.Table
import Cartograph.Lib.Checked
import Cartograph.Lib.Runs

namespace GraphStore

open Checked

/-! ### Facts and patches -/

/-- A node of the unified graph. -/
structure Node (V : Type) where
  id : String
  label : String
  props : V
  deriving BEq

/-- A directed edge of the unified graph. -/
structure Edge (V : Type) where
  src : String
  dst : String
  label : String
  props : V
  deriving BEq

/-- The primary key `(src, dst, label)` of an edge, ordered lexicographically. -/
abbrev EdgeKey := String ×ₗ String ×ₗ String

/-- The key of the edge from `src` to `dst` with `label`. -/
def edgeKey (src dst label : String) : EdgeKey := toLex (src, toLex (dst, label))

namespace EdgeKey

/-- Source node id. -/
def src (k : EdgeKey) : String := (ofLex k).1

/-- Destination node id. -/
def dst (k : EdgeKey) : String := (ofLex (ofLex k).2).1

/-- Edge label. -/
def label (k : EdgeKey) : String := (ofLex (ofLex k).2).2

@[simp] theorem edgeKey_eta (k : EdgeKey) : edgeKey (src k) (dst k) (label k) = k := rfl

end EdgeKey

@[simp] theorem src_edgeKey (s d l : String) : EdgeKey.src (edgeKey s d l) = s := rfl
@[simp] theorem dst_edgeKey (s d l : String) : EdgeKey.dst (edgeKey s d l) = d := rfl

/-- The key of an edge. -/
def Edge.key {V : Type} (e : Edge V) : EdgeKey := edgeKey e.src e.dst e.label

/-- The edge starts or ends at `id`. -/
def EdgeKey.incident (id : String) (k : EdgeKey) : Bool := k.src == id || k.dst == id

@[simp] theorem EdgeKey.incident_iff {id : String} {k : EdgeKey} :
    k.incident id = true ↔ k.src = id ∨ k.dst = id := by
  simp [EdgeKey.incident]

/-- A scoped set of graph changes.  Deletions precede upserts. -/
structure GraphPatch (V : Type) where
  upsertNodes : List (Node V) := []
  upsertEdges : List (Edge V) := []
  deleteNodeIds : List String := []
  deleteEdges : List (String × String × String) := []

/-- The failures of the opt-in bounded reader. -/
inductive SnapshotBoundsError
  | invalidLimits | rowLimit | rawByteLimit | canonicalByteLimit | jsonDepthLimit
  | jsonValueLimit | invalidSchema | invalidRow | invalidJson
  deriving DecidableEq

/-- Errors of graph-store operations. -/
inductive GraphError
  | storage
  | props
  | sourceBinding (reason : String)
  | snapshotBounds (e : SnapshotBoundsError)
  deriving DecidableEq

/-- What the store takes from outside: the property codec of `serde_json` and
the digests of complete facts. -/
structure Codec (V : Type) where
  toText : V → String
  fromText : String → Option V
  nodeDigest : Node V → String
  edgeDigest : Edge V → String

/-! ### Tables -/

/-- The columns of `nodes` besides `id`. -/
structure NodeRow where
  label : String
  props : String
  deriving DecidableEq

/-- The columns of a source association besides its fact. -/
structure BindingRow where
  repoKey : String
  receiptId : String
  emittedFactDigest : String
  deriving DecidableEq

/-- The four tables.  `edgeBindings` is keyed as `edges` is; the column order of
its SQL primary key only matters where rows are listed. -/
structure Store where
  nodes : Table String NodeRow
  edges : Table EdgeKey String
  nodeBindings : Table String BindingRow
  edgeBindings : Table EdgeKey BindingRow

/-- A newly created database. -/
def Store.empty : Store := ⟨.empty, .empty, .empty, .empty⟩

/-- Foreign keys of `edges` and of the two association tables. -/
structure Store.ForeignKeys (s : Store) : Prop where
  edge_src : ∀ k, (s.edges.find? k).isSome → (s.nodes.find? k.src).isSome
  edge_dst : ∀ k, (s.edges.find? k).isSome → (s.nodes.find? k.dst).isSome
  node_binding : ∀ id, (s.nodeBindings.find? id).isSome → (s.nodes.find? id).isSome
  edge_binding : ∀ k, (s.edgeBindings.find? k).isSome → (s.edges.find? k).isSome

section Operations

variable {V : Type} (c : Codec V)

/-! ### Statements and their triggers -/

/-- `DELETE FROM edges WHERE p`: the trigger `source_binding_edge_delete` and the
cascade of the foreign key remove the association of each deleted row. -/
def Store.removeEdges (p : EdgeKey → Bool) (s : Store) : Store :=
  { s with
    edges := s.edges.filter fun k _ => !p k
    edgeBindings := s.edgeBindings.filter fun k _ => !(p k && (s.edges.find? k).isSome) }

/-- `DELETE FROM nodes WHERE p`, with `source_binding_node_delete`.  Callers have
removed the incident edges, so no foreign key is left dangling. -/
def Store.removeNodes (p : String → Bool) (s : Store) : Store :=
  let gone := fun id => p id && (s.nodes.find? id).isSome
  { s with
    nodes := s.nodes.filter fun id _ => !p id
    nodeBindings := s.nodeBindings.filter fun id _ => !gone id
    edgeBindings := s.edgeBindings.filter fun k _ => !(gone k.src || gone k.dst) }

/-- `INSERT INTO nodes .. ON CONFLICT(id) DO UPDATE`. -/
def Store.writeNode (node : Node V) (s : Store) : Store :=
  let nodes := s.nodes.put node.id ⟨node.label, c.toText node.props⟩
  match s.nodes.find? node.id with
  | none =>
    -- source_binding_node_insert
    { s with
      nodes
      nodeBindings := s.nodeBindings.erase node.id
      edgeBindings := s.edgeBindings.filter fun k _ => !k.incident node.id }
  | some _ =>
    -- source_binding_node_update, with OLD.id = NEW.id
    { s with nodes, nodeBindings := s.nodeBindings.erase node.id }

/-- The row `INSERT INTO edges .. ON CONFLICT(src, dst, label) DO UPDATE` leaves,
with `source_binding_edge_insert` or `source_binding_edge_update`. -/
def Store.upsertEdgeRow (edge : Edge V) (s : Store) : Store :=
  { s with
    edges := s.edges.put edge.key (c.toText edge.props)
    edgeBindings := s.edgeBindings.erase edge.key }

def Store.writeEdge (edge : Edge V) (s : Store) : Except GraphError Store :=
  match s.edges.find? edge.key with
  | some _ => .ok (s.upsertEdgeRow c edge)
  | none =>
    -- only an insertion checks the foreign keys
    if (s.nodes.find? edge.src).isSome ∧ (s.nodes.find? edge.dst).isSome then
      .ok (s.upsertEdgeRow c edge)
    else .error .storage

/-- `DELETE FROM edges WHERE src = ?1 AND dst = ?2 AND label = ?3`. -/
def Store.deleteEdgeRow (key : String × String × String) (s : Store) : Store :=
  s.removeEdges fun k => k == edgeKey key.1 key.2.1 key.2.2

/-- The two statements that delete a node with its incident edges. -/
def Store.deleteNodeRow (id : String) (s : Store) : Store :=
  (s.removeEdges (EdgeKey.incident id)).removeNodes (· == id)

/-- `apply_patch_rows`: scoped changes inside the caller's transaction. -/
def Store.applyPatchRows (patch : GraphPatch V) (s : Store) : Except GraphError Store :=
  let s := patch.deleteEdges.foldl (fun s key => s.deleteEdgeRow key) s
  let s := patch.deleteNodeIds.foldl (fun s id => s.deleteNodeRow id) s
  let s := patch.upsertNodes.foldl (fun s node => s.writeNode c node) s
  patch.upsertEdges.foldlM (fun s edge => s.writeEdge c edge) s

/-! ### Reads -/

/-- `read_nodes(None)`: every node in id order. -/
def Store.readNodes (s : Store) : Except GraphError (List (Node V)) :=
  s.nodes.rows.mapM fun r => do
    let props ← orFail (c.fromText r.2.props) .props
    pure ⟨r.1, r.2.label, props⟩

/-- `read_edges(None)`: every edge in `(src, dst, label)` order. -/
def Store.readEdges (s : Store) : Except GraphError (List (Edge V)) :=
  s.edges.rows.mapM fun r => do
    let props ← orFail (c.fromText r.2) .props
    pure ⟨r.1.src, r.1.dst, r.1.label, props⟩

/-- `read_snapshot`: nodes, then edges, from one revision. -/
def Store.readSnapshot (s : Store) : Except GraphError (List (Node V) × List (Edge V)) := do
  let nodes ← s.readNodes c
  let edges ← s.readEdges c
  pure (nodes, edges)

/-- `get_node`. -/
def Store.getNode (id : String) (s : Store) : Except GraphError (Option (Node V)) :=
  match s.nodes.find? id with
  | none => .ok none
  | some row => do
    let props ← orFail (c.fromText row.props) .props
    pure (some ⟨id, row.label, props⟩)

/-! ### Operations on facts -/

/-- `put_node`. -/
def Store.putNode (node : Node V) (s : Store) : Store × Except GraphError Unit :=
  transact (fun s => pure ((), s.writeNode c node)) s

/-- `put_edge`. -/
def Store.putEdge (edge : Edge V) (s : Store) : Store × Except GraphError Unit :=
  transact (fun s => do pure ((), ← s.writeEdge c edge)) s

/-- `delete_edges_from_with_label`. -/
def Store.deleteEdgesFromWithLabel (src label : String) (s : Store) :
    Store × Except GraphError Unit :=
  transact (fun s => pure ((), s.removeEdges fun k => k.src == src && k.label == label)) s

/-- `delete_edge`. -/
def Store.deleteEdge (src dst label : String) (s : Store) : Store × Except GraphError Unit :=
  transact (fun s => pure ((), s.deleteEdgeRow (src, dst, label))) s

/-- `delete_node`. -/
def Store.deleteNode (id : String) (s : Store) : Store × Except GraphError Unit :=
  transact (fun s => pure ((), s.deleteNodeRow id)) s

/-- `clear`: every edge, then every node. -/
def Store.clear (s : Store) : Store × Except GraphError Unit :=
  transact (fun s => pure ((), (s.removeEdges fun _ => true).removeNodes fun _ => true)) s

variable [BEq V]

/-- `apply_patch_if_snapshot_matches`. -/
def Store.applyPatchIfSnapshotMatches (expected : List (Node V) × List (Edge V))
    (patch : GraphPatch V) (s : Store) : Store × Except GraphError Bool :=
  transact (fun s => do
    let current ← s.readSnapshot c
    if current != expected then
      pure (false, s)
    else
      let s ← s.applyPatchRows c patch
      pure (true, s)) s

end Operations

end GraphStore

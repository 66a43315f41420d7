/-
Current source associations of the graph store (`crates/core-graph/src/source.rs`)
and the machine of all operations on a store.

An association names an immutable producer receipt for one complete fact.  It is
published together with a patch (`applyPatchWithSourceBindings`) and read back
with a digest comparison (`currentSourceBinding`).  The schema checks of the
source are left out: no operation changes the schema.
-/
import Cartograph.GraphStore

namespace GraphStore

open Checked

/-! ### Identities and their bounds -/

def maxIdBytes : Nat := 8192
def maxLabelBytes : Nat := 256
def maxRepoBytes : Nat := 256
def maxReceiptBytes : Nat := 256
def maxBindings : Nat := 100000

/-- Node or directed-edge identity. -/
inductive FactKey
  | node (id : String)
  | edge (source label destination : String)
  deriving DecidableEq

structure SourceBinding where
  fact : FactKey
  repoKey : String
  receiptId : String
  emittedFactDigest : String
  deriving DecidableEq

def bounded (value : String) (maximum : Nat) : Except GraphError Unit :=
  ensure (value ≠ "" ∧ value.utf8ByteSize ≤ maximum ∧ '\x00' ∉ value.toList)
    (.sourceBinding "invalid bounded identity")

def FactKey.validate : FactKey → Except GraphError Unit
  | .node id => bounded id maxIdBytes
  | .edge source label destination => do
    bounded source maxIdBytes
    bounded label maxLabelBytes
    bounded destination maxIdBytes

def lowerHex (ch : Char) : Bool := ch.isDigit || ('a' ≤ ch && ch ≤ 'f')

def FactKey.digestPrefix : FactKey → String
  | .node _ => "node-v1:"
  | .edge _ _ _ => "edge-v1:"

def SourceBinding.validate (b : SourceBinding) : Except GraphError Unit := do
  b.fact.validate
  bounded b.repoKey maxRepoBytes
  bounded b.receiptId maxReceiptBytes
  let head := b.fact.digestPrefix.toList
  let digest := b.emittedFactDigest.toList.drop head.length
  ensure (head.isPrefixOf b.emittedFactDigest.toList ∧ digest.length = 64 ∧ digest.all lowerHex)
    (.sourceBinding "invalid complete fact digest")

section Operations

variable {V : Type} (c : Codec V)

/-! ### Reads of one fact -/

/-- The association row of a fact. -/
def Store.bindingRow (s : Store) : FactKey → Option BindingRow
  | .node id => s.nodeBindings.find? id
  | .edge source label destination => s.edgeBindings.find? (edgeKey source destination label)

def Store.loadBinding (fact : FactKey) (s : Store) : Except GraphError (Option SourceBinding) :=
  match s.bindingRow fact with
  | none => .ok none
  | some row => do
    let binding : SourceBinding := ⟨fact, row.repoKey, row.receiptId, row.emittedFactDigest⟩
    binding.validate
    pure (some binding)

/-- `current_digest`: the digest of the stored fact, if it exists. -/
def Store.currentDigest (fact : FactKey) (s : Store) : Except GraphError (Option String) :=
  match fact with
  | .node id =>
    match s.nodes.find? id with
    | none => .ok none
    | some row => do
      let props ← orFail (c.fromText row.props) .props
      pure (some (c.nodeDigest ⟨id, row.label, props⟩))
  | .edge source label destination =>
    match s.edges.find? (edgeKey source destination label) with
    | none => .ok none
    | some text => do
      let props ← orFail (c.fromText text) .props
      pure (some (c.edgeDigest ⟨source, destination, label, props⟩))

/-- `current_source_binding`: the association, checked against its fact in the
same revision. -/
def Store.currentSourceBinding (fact : FactKey) (s : Store) :
    Except GraphError (Option SourceBinding) := do
  fact.validate
  match ← s.loadBinding fact with
  | none => pure none
  | some binding => do
    let digest ← s.currentDigest c fact
    ensure (digest = some binding.emittedFactDigest)
      (.sourceBinding "missing fact or complete fact digest mismatch")
    pure (some binding)

/-- `source_bindings_for_repo`, nodes by id and then edges by
`(source, label, destination)`. -/
def Store.sourceBindingsForRepo (repoKey : String) (s : Store) :
    Except GraphError (List SourceBinding) := do
  bounded repoKey maxRepoBytes
  let nodes := s.nodeBindings.rows.filter fun r => r.2.repoKey == repoKey
  let edges := s.edgeBindings.rows.filter fun r => r.2.repoKey == repoKey
  ensure (nodes.length + edges.length ≤ maxBindings) (.sourceBinding "too many associations")
  let key := fun (r : EdgeKey × BindingRow) => edgeKey r.1.src r.1.label r.1.dst
  let bindings := nodes.map (fun r =>
      (⟨.node r.1, repoKey, r.2.receiptId, r.2.emittedFactDigest⟩ : SourceBinding)) ++
    (edges.mergeSort fun a b => decide (key a ≤ key b)).map (fun r =>
      ⟨.edge r.1.src r.1.label r.1.dst, repoKey, r.2.receiptId, r.2.emittedFactDigest⟩)
  bindings.forM SourceBinding.validate
  pure bindings

/-! ### Publication -/

/-- Every binding is valid, owned by `repoKey` and names a fact not `seen`. -/
def checkBindings (repoKey : String) : List SourceBinding → List FactKey → Except GraphError Unit
  | [], _ => .ok ()
  | b :: rest, seen => do
    b.validate
    ensure (b.repoKey = repoKey ∧ b.fact ∉ seen)
      (.sourceBinding "duplicate or wrong-owner association")
    checkBindings repoKey rest (b.fact :: seen)

/-- No requested fact is associated by another repository. -/
def Store.checkOwners (repoKey : String) (s : Store) : List SourceBinding → Except GraphError Unit
  | [] => .ok ()
  | b :: rest => do
    let old ← s.loadBinding b.fact
    ensure (∀ o ∈ old, o.repoKey = repoKey)
      (.sourceBinding "fact belongs to another source association")
    s.checkOwners repoKey rest

def Store.removeRepoBindings (repoKey : String) (s : Store) : Store :=
  { s with
    nodeBindings := s.nodeBindings.filter fun _ row => !(row.repoKey == repoKey)
    edgeBindings := s.edgeBindings.filter fun _ row => !(row.repoKey == repoKey) }

def Store.putBinding (fact : FactKey) (row : BindingRow) (s : Store) : Store :=
  match fact with
  | .node id => { s with nodeBindings := s.nodeBindings.put id row }
  | .edge source label destination =>
    { s with edgeBindings := s.edgeBindings.put (edgeKey source destination label) row }

/-- One association inserted: its digest is that of the stored fact, and its
primary key is free.  Column checks repeat `SourceBinding.validate`. -/
def Store.insertBinding (repoKey : String) (s : Store) (b : SourceBinding) :
    Except GraphError Store := do
  let digest ← s.currentDigest c b.fact
  ensure (digest = some b.emittedFactDigest)
    (.sourceBinding "missing fact or complete fact digest mismatch")
  ensure (s.bindingRow b.fact = none) .storage
  pure (s.putBinding b.fact ⟨repoKey, b.receiptId, b.emittedFactDigest⟩)

variable [BEq V]

/-- `apply_patch_with_source_bindings_if_snapshot_matches`. -/
def Store.applyPatchWithSourceBindings (expected : List (Node V) × List (Edge V))
    (patch : GraphPatch V) (repoKey : String) (bindings : List SourceBinding) (s : Store) :
    Store × Except GraphError Bool :=
  transact (fun s => do
    bounded repoKey maxRepoBytes
    ensure (bindings.length ≤ maxBindings) (.sourceBinding "too many associations")
    checkBindings repoKey bindings []
    let current ← s.readSnapshot c
    if current != expected then
      pure (false, s)
    else do
      -- before the triggers of the patch invalidate touched rows
      s.checkOwners repoKey bindings
      let s ← (s.removeRepoBindings repoKey).applyPatchRows c patch
      let s ← bindings.foldlM (Store.insertBinding c repoKey) s
      pure (true, s)) s

/-! ### All operations -/

/-- The writing operations of a store. -/
inductive Op (V : Type)
  | putNode (node : Node V)
  | putEdge (edge : Edge V)
  | deleteEdgesFromWithLabel (src label : String)
  | deleteEdge (src dst label : String)
  | deleteNode (id : String)
  | clear
  | applyPatchIfSnapshotMatches (expected : List (Node V) × List (Edge V)) (patch : GraphPatch V)
  | applyPatchWithSourceBindings (expected : List (Node V) × List (Edge V))
      (patch : GraphPatch V) (repoKey : String) (bindings : List SourceBinding)

def Store.step (s : Store) : Op V → Store × Except GraphError Bool
  | .putNode node => let r := s.putNode c node; (r.1, r.2.map fun _ => true)
  | .putEdge edge => let r := s.putEdge c edge; (r.1, r.2.map fun _ => true)
  | .deleteEdgesFromWithLabel src label =>
    let r := s.deleteEdgesFromWithLabel src label; (r.1, r.2.map fun _ => true)
  | .deleteEdge src dst label =>
    let r := s.deleteEdge src dst label; (r.1, r.2.map fun _ => true)
  | .deleteNode id => let r := s.deleteNode id; (r.1, r.2.map fun _ => true)
  | .clear => let r := s.clear; (r.1, r.2.map fun _ => true)
  | .applyPatchIfSnapshotMatches expected patch =>
    s.applyPatchIfSnapshotMatches c expected patch
  | .applyPatchWithSourceBindings expected patch repoKey bindings =>
    s.applyPatchWithSourceBindings c expected patch repoKey bindings

/-- A store from its creation on, under any sequence of writes. -/
def machine : Machine Store (Op V) (Except GraphError Bool) where
  init s := s = Store.empty
  enabled _ _ := True
  step := Store.step c

end Operations

end GraphStore

/-
Conditional publication is an atomic compare-and-swap.

The abstract layer is `View`: a store as four partial functions.  `View.patch`
says in one formula what a patch is for: deletions with the incident edges,
then the last upsert of each key.  The tables refine it:

* `applyPatchRows_spec` — the statement sequence of `apply_patch_rows` succeeds
  exactly when every upserted edge finds its endpoints, and then computes
  `View.patch`;
* `applyPatchRows_foreignKeys` — and keeps the foreign keys;
* `compare_and_swap` — the public operation.
-/
import Cartograph.Properties
import Cartograph.StoreView

namespace GraphStore

open Checked

/-! ### The pure patch -/

/-- The last element of `l` with key `k`: the write that wins. -/
def lastWith {α κ : Type} [DecidableEq κ] (key : α → κ) (k : κ) (l : List α) : Option α :=
  l.reverse.find? fun a => key a = k

variable {α κ : Type} {key : α → κ} {k : κ} {l : List α} {s : Store}

theorem lastWith_snoc [DecidableEq κ] (key : α → κ) (k : κ) (l : List α) (a : α) :
    lastWith key k (l ++ [a]) = if key a = k then some a else lastWith key k l := by
  by_cases h : key a = k
  · simp [lastWith, h]
  · simp [lastWith, h]

theorem lastWith_isSome [DecidableEq κ] :
    (lastWith key k l).isSome ↔ ∃ a ∈ l, key a = k := by
  simp [lastWith, List.find?_isSome]

theorem lastWith_eq_none [DecidableEq κ] :
    lastWith key k l = none ↔ k ∉ l.map key := by
  rw [← Option.not_isSome_iff_eq_none, lastWith_isSome, List.mem_map]

theorem notMem_of_same [DecidableEq κ] [BEq α] {current stored : Option α} {a : α}
    (hwrite : ∀ a', lastWith key k l = some a' ↔ current = some a' ∧ (stored == some a') = false)
    (hcurrent : current = some a) (hsame : (stored == some a) = true) : k ∉ l.map key := by
  rw [← lastWith_eq_none, Option.eq_none_iff_forall_ne_some]
  intro a' hlast
  obtain ⟨hfind, hdiff⟩ := (hwrite a').mp hlast
  rw [hcurrent, Option.some_inj] at hfind
  rw [← hfind, hsame] at hdiff
  exact absurd hdiff (by simp)

section Patch

variable {V : Type} (c : Codec V)

/-- The nodes a patch deletes. -/
def GraphPatch.dropsNode (p : GraphPatch V) (id : String) : Prop := id ∈ p.deleteNodeIds

/-- The edges a patch deletes: by key, or with an endpoint. -/
def GraphPatch.dropsEdge (p : GraphPatch V) (k : EdgeKey) : Prop :=
  (k.src, k.dst, k.label) ∈ p.deleteEdges ∨ k.src ∈ p.deleteNodeIds ∨ k.dst ∈ p.deleteNodeIds

/-- The store after the deletions of a patch. -/
noncomputable def View.afterDeletes (p : GraphPatch V) (g : View) : View :=
  g.without p.dropsNode p.dropsEdge

/-- **The pure patch**: delete edges, delete nodes with their incident edges,
then upsert nodes and edges, the last write of a key winning. -/
noncomputable def View.patch (p : GraphPatch V) (g : View) : View where
  node id :=
    match lastWith Node.id id p.upsertNodes with
    | some n => some ⟨n.label, c.toText n.props⟩
    | none => (g.afterDeletes p).node id
  edge k :=
    match lastWith Edge.key k p.upsertEdges with
    | some e => some (c.toText e.props)
    | none => (g.afterDeletes p).edge k
  nodeBinding id :=
    match lastWith Node.id id p.upsertNodes with
    | some _ => none
    | none => (g.afterDeletes p).nodeBinding id
  edgeBinding k :=
    match lastWith Edge.key k p.upsertEdges with
    | some _ => none
    | none => (g.afterDeletes p).edgeBinding k

/-- Every upserted edge has its endpoints once the deletions and the node
upserts are done. -/
def View.Attachable (p : GraphPatch V) (g : View) : Prop :=
  ∀ e ∈ p.upsertEdges,
    ((g.patch c p).node e.src).isSome ∧ ((g.patch c p).node e.dst).isSome

variable {c}

/-! ### The statement sequence -/

theorem view_foldl {α : Type} {f : Store → α → Store} {g : View → α → View}
    (hview : ∀ s a, s.ForeignKeys → (f s a).view = g s.view a)
    (hkeys : ∀ s a, s.ForeignKeys → (f s a).ForeignKeys) :
    ∀ (l : List α) {s : Store}, s.ForeignKeys →
      (l.foldl f s).view = l.foldl g s.view ∧ (l.foldl f s).ForeignKeys
  | [], _, h => ⟨rfl, h⟩
  | a :: l, s, h => by
    obtain ⟨h1, h2⟩ := view_foldl hview hkeys l (hkeys s a h)
    refine ⟨?_, h2⟩
    rw [List.foldl_cons, h1, hview s a h, List.foldl_cons]

theorem foldl_without {α : Type} (p : α → String → Prop) (q : α → EdgeKey → Prop) :
    ∀ (l : List α) (g : View), l.foldl (fun g a => g.without (p a) (q a)) g
      = g.without (fun id => ∃ a ∈ l, p a id) (fun k => ∃ a ∈ l, q a k)
  | [], g => by simp [View.without_false]
  | a :: l, g => by
    rw [List.foldl_cons, foldl_without p q l, View.without_without]
    simp

/-- The deletions of a patch, as the tables perform them. -/
def Store.deleteRows (p : GraphPatch V) (s : Store) : Store :=
  p.deleteNodeIds.foldl (fun s id => s.deleteNodeRow id)
    (p.deleteEdges.foldl (fun s key => s.deleteEdgeRow key) s)

theorem view_deleteRows (h : s.ForeignKeys) (p : GraphPatch V) :
    (s.deleteRows p).view = s.view.afterDeletes p ∧ (s.deleteRows p).ForeignKeys := by
  obtain ⟨h1, hk1⟩ := view_foldl (f := fun s key => s.deleteEdgeRow key)
    (g := fun g key => g.without (fun _ => False) (fun k => (k.src, k.dst, k.label) = key))
    (fun s a h => view_deleteEdgeRow h a) (fun s a h => removeEdges_foreignKeys h _)
    p.deleteEdges h
  obtain ⟨h2, hk2⟩ := view_foldl (f := fun s id => s.deleteNodeRow id)
    (g := fun g id => g.without (fun x => x = id) (fun k => k.src = id ∨ k.dst = id))
    (fun s a h => view_deleteNodeRow h a) (fun s a h => deleteNodeRow_foreignKeys h a)
    p.deleteNodeIds hk1
  refine ⟨?_, hk2⟩
  rw [Store.deleteRows, h2, h1, foldl_without, foldl_without, View.without_without,
    View.afterDeletes]
  congr 1
  · funext id
    simp [GraphPatch.dropsNode]
  · funext k
    simp only [GraphPatch.dropsEdge, eq_iff_iff]
    constructor
    · rintro (⟨key, hkey, rfl⟩ | ⟨id, hid, rfl | rfl⟩)
      · exact .inl hkey
      · exact .inr (.inl hid)
      · exact .inr (.inr hid)
    · rintro (hkey | hid | hid)
      · exact .inl ⟨_, hkey, rfl⟩
      · exact .inr ⟨_, hid, .inl rfl⟩
      · exact .inr ⟨_, hid, .inr rfl⟩

theorem foldl_setNode (l : List (Node V)) (g : View) :
    l.foldl (fun g n => g.setNode n.id ⟨n.label, c.toText n.props⟩) g =
      { g with
        node := fun id =>
          match lastWith Node.id id l with
          | some n => some ⟨n.label, c.toText n.props⟩
          | none => g.node id
        nodeBinding := fun id =>
          match lastWith Node.id id l with
          | some _ => none
          | none => g.nodeBinding id } := by
  induction l using List.reverseRecOn with
  | nil => simp [lastWith]
  | append_singleton l n ih =>
    rw [List.foldl_append, ih, List.foldl_cons, List.foldl_nil]
    ext1
    · funext id
      by_cases h : n.id = id
      · simp [View.setNode, lastWith_snoc, h]
      · simp [View.setNode, lastWith_snoc, h, Ne.symm h]
    · rfl
    · funext id
      by_cases h : n.id = id
      · simp [View.setNode, lastWith_snoc, h]
      · simp [View.setNode, lastWith_snoc, h, Ne.symm h]
    · rfl

theorem foldl_setEdge (l : List (Edge V)) (g : View) :
    l.foldl (fun g e => g.setEdge e.key (c.toText e.props)) g =
      { g with
        edge := fun k =>
          match lastWith Edge.key k l with
          | some e => some (c.toText e.props)
          | none => g.edge k
        edgeBinding := fun k =>
          match lastWith Edge.key k l with
          | some _ => none
          | none => g.edgeBinding k } := by
  induction l using List.reverseRecOn with
  | nil => simp [lastWith]
  | append_singleton l e ih =>
    rw [List.foldl_append, ih, List.foldl_cons, List.foldl_nil]
    ext1
    · rfl
    · funext k
      by_cases h : e.key = k
      · simp [View.setEdge, lastWith_snoc, h]
      · simp [View.setEdge, lastWith_snoc, h, Ne.symm h]
    · rfl
    · funext k
      by_cases h : e.key = k
      · simp [View.setEdge, lastWith_snoc, h]
      · simp [View.setEdge, lastWith_snoc, h, Ne.symm h]

/-- The edge writes succeed together or not at all: nodes do not change while
edges are written, so one endpoint test decides all of them. -/
theorem foldlM_writeEdge {s' : Store} : ∀ (l : List (Edge V)) {s : Store}, s.ForeignKeys →
    (l.foldlM (fun s e => s.writeEdge c e) s = .ok s' ↔
      (∀ e ∈ l, (s.nodes.find? e.src).isSome ∧ (s.nodes.find? e.dst).isSome) ∧
        s' = l.foldl (fun s e => s.upsertEdgeRow c e) s)
  | [], s, _ => by
    rw [List.foldlM_nil, pure_eq_ok, List.foldl_nil, eq_comm]
    exact ⟨fun h => ⟨fun e he => absurd he (by simp), h⟩, And.right⟩
  | e :: l, s, h => by
    rw [List.foldlM_cons, bind_eq_ok]
    constructor
    · rintro ⟨s1, h1, h2⟩
      obtain ⟨hep, rfl⟩ := (writeEdge_eq_ok h).mp h1
      obtain ⟨hall, hs'⟩ :=
        (foldlM_writeEdge l (upsertEdgeRow_foreignKeys h hep.1 hep.2)).mp h2
      refine ⟨fun e' he' => ?_, hs'⟩
      rcases List.mem_cons.mp he' with rfl | he'
      · exact hep
      · exact hall e' he'
    · rintro ⟨hall, hs'⟩
      have hep := hall e (by simp)
      refine ⟨_, (writeEdge_eq_ok h).mpr ⟨hep, rfl⟩, ?_⟩
      refine (foldlM_writeEdge l (upsertEdgeRow_foreignKeys h hep.1 hep.2)).mpr ⟨?_, hs'⟩
      exact fun e' he' => hall e' (List.mem_cons_of_mem _ he')

theorem view_foldl_upsertEdgeRow (l : List (Edge V)) (s : Store) :
    (l.foldl (fun s e => s.upsertEdgeRow c e) s).view
      = l.foldl (fun g e => g.setEdge e.key (c.toText e.props)) s.view :=
  (List.foldl_hom Store.view fun s e => (view_upsertEdgeRow s e).symm).symm

/-- The node upserts of a patch, on top of its deletions. -/
def Store.upsertNodeRows (c : Codec V) (p : GraphPatch V) (s : Store) : Store :=
  p.upsertNodes.foldl (fun s n => s.writeNode c n) (s.deleteRows p)

theorem upsertNodeRows_spec (h : s.ForeignKeys) (p : GraphPatch V) :
    (s.upsertNodeRows c p).ForeignKeys ∧
      (s.upsertNodeRows c p).nodes.find? = (s.view.patch c p).node ∧
      (p.upsertEdges.foldl (fun s e => s.upsertEdgeRow c e) (s.upsertNodeRows c p)).view
        = s.view.patch c p := by
  obtain ⟨hd, hkd⟩ := view_deleteRows h p
  obtain ⟨hn, hkn⟩ := view_foldl (f := fun s n => s.writeNode c n)
    (g := fun g n => g.setNode n.id ⟨n.label, c.toText n.props⟩)
    (fun s a h => view_writeNode h a) (fun s a h => writeNode_foreignKeys h a) p.upsertNodes hkd
  rw [hd, foldl_setNode] at hn
  refine ⟨hkn, congrArg View.node hn, ?_⟩
  rw [view_foldl_upsertEdgeRow, Store.upsertNodeRows, hn, foldl_setEdge]
  rfl

/-- `apply_patch_rows` succeeds exactly on attachable edges, and then the store
holds exactly the pure patch. -/
theorem applyPatchRows_spec {s' : Store} (h : s.ForeignKeys) (p : GraphPatch V) :
    s.applyPatchRows c p = .ok s' ↔ s.view.Attachable c p ∧ s'.view = s.view.patch c p := by
  obtain ⟨hk, hnodes, hview⟩ := upsertNodeRows_spec (c := c) h p
  rw [show s.applyPatchRows c p
    = p.upsertEdges.foldlM (fun s e => s.writeEdge c e) (s.upsertNodeRows c p) from rfl,
    foldlM_writeEdge _ hk, hnodes]
  refine and_congr_right fun _ => ?_
  constructor
  · rintro rfl
    exact hview
  · intro h'
    exact Store.view_injective (h'.trans hview.symm)

/-! ### Compare and swap -/

variable {p : GraphPatch V}

theorem patch_node_of_notMem {g : View} {id : String} (hup : id ∉ p.upsertNodes.map Node.id)
    (hdel : id ∉ p.deleteNodeIds) :
    (g.patch c p).node id = g.node id := by
  simp [View.patch, lastWith_eq_none.mpr hup, View.afterDeletes, View.without, GraphPatch.dropsNode, hdel]

theorem patch_edge_of_notMem {g : View} {k : EdgeKey} (hup : k ∉ p.upsertEdges.map Edge.key)
    (hdel : ¬p.dropsEdge k) :
    (g.patch c p).edge k = g.edge k := by
  simp [View.patch, lastWith_eq_none.mpr hup, View.afterDeletes, View.without, hdel]

variable [BEq V] {expected : List (Node V) × List (Edge V)}

theorem conditionalPatch_eq_true {s s' : Store} (h : s.ForeignKeys) :
    s.applyPatchIfSnapshotMatches c expected p = (s', .ok true) ↔
      (∃ g, s.readSnapshot c = .ok g ∧ (g == expected) = true) ∧ s.view.Attachable c p ∧
        s'.view = s.view.patch c p := by
  rw [applyPatchIfSnapshotMatches_eq_ok]
  constructor
  · rintro ⟨g, hg, he, hp⟩
    exact ⟨⟨g, hg, he.symm⟩, (applyPatchRows_spec h p).mp hp⟩
  · rintro ⟨⟨g, hg, he⟩, hp⟩
    exact ⟨g, hg, he.symm, (applyPatchRows_spec h p).mpr hp⟩

theorem conditionalPatch_refused {s s' : Store} {r : Except GraphError Bool}
    (hr : s.applyPatchIfSnapshotMatches c expected p = (s', r)) (h : r ≠ .ok true) : s' = s := by
  cases r with
  | error e => exact (transact_error.mp hr).2
  | ok b =>
    cases b with
    | true => exact absurd rfl h
    | false =>
      obtain ⟨g, -, -, hs⟩ := applyPatchIfSnapshotMatches_eq_ok.mp hr
      simpa using hs

end Patch

/-- Two nodes and an edge between them. -/
def twoNodesPatch : GraphPatch Json where
  upsertNodes := [⟨"a", "Symbol", .obj []⟩, ⟨"b", "Symbol", .obj []⟩]
  upsertEdges := [⟨"a", "b", "CALLS", .obj []⟩]

end GraphStore

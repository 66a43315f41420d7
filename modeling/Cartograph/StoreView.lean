/-
A store as partial functions, and what each statement does to it.

`View` is the abstract store: four partial functions.  Every statement of the
tables refines a small step on views, provided the foreign keys hold, and keeps
the foreign keys:

* `view_removeEdges`, `view_removeNodes` — deletions with their triggers;
* `view_writeNode`, `view_upsertEdgeRow` — upserts with their triggers;
* `step_statements` — every operation is a sequence of such statements, so that
  an invariant is checked statement by statement;
* `reachable_foreignKeys` — the foreign keys hold in every reachable store.
-/
import Cartograph.SourceStore

namespace GraphStore

open Checked

/-! ### The abstract store -/

/-- A store as partial functions from keys to rows. -/
@[ext] structure View where
  node : String → Option NodeRow
  edge : EdgeKey → Option String
  nodeBinding : String → Option BindingRow
  edgeBinding : EdgeKey → Option BindingRow

def Store.view (s : Store) : View :=
  ⟨s.nodes.find?, s.edges.find?, s.nodeBindings.find?, s.edgeBindings.find?⟩

variable {s s' : Store}

theorem Store.view_injective (h : s.view = s'.view) : s = s' := by
  obtain ⟨n, e, nb, eb⟩ := s
  obtain ⟨n', e', nb', eb'⟩ := s'
  simp only [Store.view, View.mk.injEq] at h
  obtain ⟨h1, h2, h3, h4⟩ := h
  rw [Table.ext_find? (congrFun h1), Table.ext_find? (congrFun h2),
    Table.ext_find? (congrFun h3), Table.ext_find? (congrFun h4)]

namespace View

open scoped Classical in
/-- Facts and their associations taken away. -/
noncomputable def without (nodeGone : String → Prop) (edgeGone : EdgeKey → Prop) (g : View) :
    View where
  node id := if nodeGone id then none else g.node id
  edge k := if edgeGone k then none else g.edge k
  nodeBinding id := if nodeGone id then none else g.nodeBinding id
  edgeBinding k := if edgeGone k then none else g.edgeBinding k

/-- One node written; its association is invalidated. -/
def setNode (id : String) (row : NodeRow) (g : View) : View :=
  { g with
    node := Function.update g.node id (some row)
    nodeBinding := Function.update g.nodeBinding id none }

/-- One edge written; its association is invalidated. -/
def setEdge (k : EdgeKey) (text : String) (g : View) : View :=
  { g with
    edge := Function.update g.edge k (some text)
    edgeBinding := Function.update g.edgeBinding k none }

theorem without_without (p p' : String → Prop) (q q' : EdgeKey → Prop) (g : View) :
    (g.without p q).without p' q'
      = g.without (fun id => p id ∨ p' id) (fun k => q k ∨ q' k) := by
  classical
  ext1 <;> funext x <;> simp only [without] <;> split_ifs <;> tauto

theorem without_false (g : View) : g.without (fun _ => False) (fun _ => False) = g := by
  simp [without]

end View

variable {p : String → Bool} {fact : FactKey} {P : Store → Prop} {s s' : Store}

section Statements

variable {V : Type} {c : Codec V}

/-! ### Each statement refines its abstract step -/

theorem view_removeEdges (h : s.ForeignKeys) (p : EdgeKey → Bool) :
    (s.removeEdges p).view = s.view.without (fun _ => False) (fun k => p k = true) := by
  ext1
  · funext id
    simp [Store.view, Store.removeEdges, View.without]
  · funext k
    cases hk : s.edges.find? k <;> cases hp : p k <;>
      simp [Store.view, Store.removeEdges, View.without, hk, hp]
  · funext id
    simp [Store.view, Store.removeEdges, View.without]
  · funext k
    -- An association without its edge is excluded by the foreign key.
    cases hb : s.edgeBindings.find? k with
    | none => simp [Store.view, Store.removeEdges, View.without, hb]
    | some b =>
      obtain ⟨e, he⟩ := Option.isSome_iff_exists.mp (h.edge_binding k (by simp [hb]))
      cases hp : p k <;> simp [Store.view, Store.removeEdges, View.without, hb, hp, he]

theorem removeEdges_foreignKeys (h : s.ForeignKeys) (p : EdgeKey → Bool) :
    (s.removeEdges p).ForeignKeys where
  edge_src k hk := h.edge_src k (by
    cases he : s.edges.find? k <;> simp_all [Store.removeEdges])
  edge_dst k hk := h.edge_dst k (by
    cases he : s.edges.find? k <;> simp_all [Store.removeEdges])
  node_binding := h.node_binding
  edge_binding k hk := by
    have hb : (s.edgeBindings.find? k).isSome := by
      cases hb : s.edgeBindings.find? k <;> simp_all [Store.removeEdges]
    obtain ⟨b, hb⟩ := Option.isSome_iff_exists.mp hb
    obtain ⟨e, he⟩ := Option.isSome_iff_exists.mp (h.edge_binding k (by simp [hb]))
    cases hp : p k <;> simp_all [Store.removeEdges]

theorem view_deleteEdgeRow (h : s.ForeignKeys) (key : String × String × String) :
    (s.deleteEdgeRow key).view
      = s.view.without (fun _ => False) (fun k => (k.src, k.dst, k.label) = key) := by
  rw [Store.deleteEdgeRow, view_removeEdges h]
  congr
  funext k
  obtain ⟨a, b, l⟩ := key
  have hk : k = edgeKey a b l ↔ (k.src, k.dst, k.label) = (a, b, l) := by
    constructor
    · rintro rfl
      rfl
    · intro h
      simp only [Prod.mk.injEq] at h
      rw [← EdgeKey.edgeKey_eta k, h.1, h.2.1, h.2.2]
  simpa using hk

/-- No edge of the store starts or ends at a node that satisfies `p`. -/
def Store.Detached (s : Store) (p : String → Bool) : Prop :=
  ∀ k, (s.edges.find? k).isSome → p k.src = false ∧ p k.dst = false

theorem detached_removeEdges (s : Store) (id : String) :
    (s.removeEdges (EdgeKey.incident id)).Detached (· == id) := by
  intro k hk
  cases he : s.edges.find? k with
  | none => simp [Store.removeEdges, he] at hk
  | some e =>
    have hinc : EdgeKey.incident id k = false := by
      cases hi : EdgeKey.incident id k
      · rfl
      · simp [Store.removeEdges, he, hi] at hk
    simpa [EdgeKey.incident] using hinc

theorem view_removeNodes (h : s.ForeignKeys) (hp : s.Detached p) :
    (s.removeNodes p).view = s.view.without (fun id => p id = true) (fun _ => False) := by
  ext1
  · funext id
    cases hn : s.nodes.find? id <;> cases hpi : p id <;>
      simp [Store.view, Store.removeNodes, View.without, hn, hpi]
  · funext k
    simp [Store.view, Store.removeNodes, View.without]
  · funext id
    cases hb : s.nodeBindings.find? id with
    | none => simp [Store.view, Store.removeNodes, View.without, hb]
    | some b =>
      obtain ⟨r, hr⟩ := Option.isSome_iff_exists.mp (h.node_binding id (by simp [hb]))
      cases hpi : p id <;> simp [Store.view, Store.removeNodes, View.without, hb, hpi, hr]
  · funext k
    cases hb : s.edgeBindings.find? k with
    | none => simp [Store.view, Store.removeNodes, View.without, hb]
    | some b =>
      obtain ⟨hsrc, hdst⟩ := hp k (h.edge_binding k (by simp [hb]))
      simp [Store.view, Store.removeNodes, View.without, hb, hsrc, hdst]

theorem removeNodes_foreignKeys (h : s.ForeignKeys) (hp : s.Detached p) :
    (s.removeNodes p).ForeignKeys where
  edge_src k hk := by
    obtain ⟨r, hr⟩ := Option.isSome_iff_exists.mp (h.edge_src k hk)
    simp [Store.removeNodes, hr, (hp k hk).1]
  edge_dst k hk := by
    obtain ⟨r, hr⟩ := Option.isSome_iff_exists.mp (h.edge_dst k hk)
    simp [Store.removeNodes, hr, (hp k hk).2]
  node_binding id hid := by
    obtain ⟨b, hb⟩ : ∃ b, s.nodeBindings.find? id = some b := by
      cases hb : s.nodeBindings.find? id <;> simp_all [Store.removeNodes]
    obtain ⟨r, hr⟩ := Option.isSome_iff_exists.mp (h.node_binding id (by simp [hb]))
    cases hpi : p id <;> simp_all [Store.removeNodes]
  edge_binding k hk := by
    refine h.edge_binding k ?_
    cases hb : s.edgeBindings.find? k <;> simp_all [Store.removeNodes]

theorem view_deleteNodeRow (h : s.ForeignKeys) (id : String) :
    (s.deleteNodeRow id).view
      = s.view.without (fun x => x = id) (fun k => k.src = id ∨ k.dst = id) := by
  rw [Store.deleteNodeRow,
    view_removeNodes (removeEdges_foreignKeys h _) (detached_removeEdges s id),
    view_removeEdges h, View.without_without]
  simp

theorem deleteNodeRow_foreignKeys (h : s.ForeignKeys) (id : String) :
    (s.deleteNodeRow id).ForeignKeys :=
  removeNodes_foreignKeys (removeEdges_foreignKeys h _) (detached_removeEdges s id)

theorem view_writeNode (h : s.ForeignKeys) (n : Node V) :
    (s.writeNode c n).view = s.view.setNode n.id ⟨n.label, c.toText n.props⟩ := by
  cases hn : s.nodes.find? n.id with
  | some r =>
    ext1 <;> funext x <;> simp [Store.view, Store.writeNode, hn, View.setNode, Function.update_apply]
  | none =>
    ext1
    · funext x
      simp [Store.view, Store.writeNode, hn, View.setNode, Function.update_apply]
    · funext k
      simp [Store.view, Store.writeNode, hn, View.setNode]
    · funext x
      simp [Store.view, Store.writeNode, hn, View.setNode, Function.update_apply]
    · funext k
      -- A new node has no incident edge, so no association is lost.
      cases hb : s.edgeBindings.find? k with
      | none => simp [Store.view, Store.writeNode, hn, View.setNode, hb]
      | some b =>
        have hedge := h.edge_binding k (by simp [hb])
        have hsrc : k.src ≠ n.id := by
          intro he
          have := h.edge_src k hedge
          simp [he, hn] at this
        have hdst : k.dst ≠ n.id := by
          intro he
          have := h.edge_dst k hedge
          simp [he, hn] at this
        simp [Store.view, Store.writeNode, hn, View.setNode, hb, EdgeKey.incident, hsrc, hdst]

theorem writeNode_foreignKeys (h : s.ForeignKeys) (n : Node V) :
    (s.writeNode c n).ForeignKeys := by
  have hview := view_writeNode (c := c) h n
  have hnodes : ∀ id, (s.nodes.find? id).isSome → ((s.writeNode c n).nodes.find? id).isSome := by
    intro id hid
    rw [show (s.writeNode c n).nodes.find? = _ from congrArg View.node hview]
    by_cases he : id = n.id
    · simp [View.setNode, he]
    · simpa [View.setNode, Function.update_apply, he, Store.view] using hid
  have hedges : (s.writeNode c n).edges.find? = s.edges.find? := congrArg View.edge hview
  have hbind : (s.writeNode c n).edgeBindings.find? = s.edgeBindings.find? :=
    congrArg View.edgeBinding hview
  refine ⟨fun k hk => ?_, fun k hk => ?_, fun id hid => ?_, fun k hk => ?_⟩
  · exact hnodes _ (h.edge_src k (hedges ▸ hk))
  · exact hnodes _ (h.edge_dst k (hedges ▸ hk))
  · refine hnodes _ (h.node_binding id ?_)
    rw [show (s.writeNode c n).nodeBindings.find? = _ from congrArg View.nodeBinding hview] at hid
    by_cases he : id = n.id
    · simp [View.setNode, he] at hid
    · simpa [View.setNode, Function.update_apply, he, Store.view] using hid
  · rw [hedges]
    exact h.edge_binding k (hbind ▸ hk)

theorem view_upsertEdgeRow (s : Store) (e : Edge V) :
    (s.upsertEdgeRow c e).view = s.view.setEdge e.key (c.toText e.props) := by
  ext1 <;> funext x <;>
    simp [Store.view, Store.upsertEdgeRow, View.setEdge, Function.update_apply]

theorem upsertEdgeRow_foreignKeys (h : s.ForeignKeys) {e : Edge V}
    (hsrc : (s.nodes.find? e.src).isSome) (hdst : (s.nodes.find? e.dst).isSome) :
    (s.upsertEdgeRow c e).ForeignKeys where
  edge_src k hk := by
    by_cases he : k = e.key
    · simpa [Store.upsertEdgeRow, he, Edge.key] using hsrc
    · exact h.edge_src k (by simpa [Store.upsertEdgeRow, he] using hk)
  edge_dst k hk := by
    by_cases he : k = e.key
    · simpa [Store.upsertEdgeRow, he, Edge.key] using hdst
    · exact h.edge_dst k (by simpa [Store.upsertEdgeRow, he] using hk)
  node_binding := h.node_binding
  edge_binding k hk := by
    by_cases he : k = e.key
    · simp [Store.upsertEdgeRow, he] at hk
    · simpa [Store.upsertEdgeRow, he] using
        h.edge_binding k (by simpa [Store.upsertEdgeRow, he] using hk)

theorem writeEdge_eq_ok (h : s.ForeignKeys) {e : Edge V} :
    s.writeEdge c e = .ok s' ↔
      ((s.nodes.find? e.src).isSome ∧ (s.nodes.find? e.dst).isSome) ∧
        s' = s.upsertEdgeRow c e := by
  cases he : s.edges.find? e.key with
  | some t =>
    have hsrc := h.edge_src e.key (by simp [he])
    have hdst := h.edge_dst e.key (by simp [he])
    simp only [Edge.key, src_edgeKey, dst_edgeKey] at hsrc hdst
    simp [Store.writeEdge, he, hsrc, hdst, eq_comm]
  | none =>
    simp only [Store.writeEdge, he]
    by_cases hep : (s.nodes.find? e.src).isSome ∧ (s.nodes.find? e.dst).isSome
    · rw [if_pos hep, Except.ok.injEq, eq_comm]
      exact ⟨fun h => ⟨hep, h⟩, And.right⟩
    · rw [if_neg hep]
      exact ⟨fun h => absurd h (by simp), fun h => absurd h.1 hep⟩

/-! ### Associations -/

/-- The fact is stored. -/
def Store.HasFact (s : Store) : FactKey → Prop
  | .node id => (s.nodes.find? id).isSome
  | .edge source label destination => (s.edges.find? (edgeKey source destination label)).isSome

theorem hasFact_of_currentDigest {d : String} (h : s.currentDigest c fact = .ok (some d)) :
    s.HasFact fact := by
  cases fact with
  | node id =>
    cases hn : s.nodes.find? id with
    | none => simp [Store.currentDigest, hn] at h
    | some row => simp [Store.HasFact, hn]
  | edge source label destination =>
    cases he : s.edges.find? (edgeKey source destination label) with
    | none => simp [Store.currentDigest, he] at h
    | some text => simp [Store.HasFact, he]

theorem insertBinding_eq_ok {repoKey : String} {b : SourceBinding} :
    s.insertBinding c repoKey b = .ok s' ↔
      s.currentDigest c b.fact = .ok (some b.emittedFactDigest) ∧ s.bindingRow b.fact = none ∧
        s' = s.putBinding b.fact ⟨repoKey, b.receiptId, b.emittedFactDigest⟩ := by
  simp only [Store.insertBinding, bind_eq_ok, ensure_eq_ok, pure_eq_ok]
  constructor
  · rintro ⟨d, hd, -, rfl, -, hrow, rfl⟩
    exact ⟨hd, hrow, rfl⟩
  · rintro ⟨hd, hrow, rfl⟩
    exact ⟨_, hd, (), rfl, (), hrow, rfl⟩

theorem putBinding_foreignKeys (h : s.ForeignKeys) (hfact : s.HasFact fact) (row : BindingRow) :
    (s.putBinding fact row).ForeignKeys := by
  cases fact with
  | node id =>
    refine ⟨h.edge_src, h.edge_dst, fun id' hid => ?_, h.edge_binding⟩
    by_cases he : id' = id
    · subst he
      exact hfact
    · exact h.node_binding id' (by simpa [Store.putBinding, he] using hid)
  | edge source label destination =>
    refine ⟨h.edge_src, h.edge_dst, h.node_binding, fun k hk => ?_⟩
    by_cases he : k = edgeKey source destination label
    · subst he
      exact hfact
    · exact h.edge_binding k (by simpa [Store.putBinding, he] using hk)

theorem removeRepoBindings_foreignKeys (h : s.ForeignKeys) (repoKey : String) :
    (s.removeRepoBindings repoKey).ForeignKeys := by
  refine ⟨h.edge_src, h.edge_dst, fun id hid => h.node_binding id ?_,
    fun k hk => h.edge_binding k ?_⟩
  · cases hb : s.nodeBindings.find? id with
    | none => simp [Store.removeRepoBindings, hb] at hid
    | some row => rfl
  · cases hb : s.edgeBindings.find? k with
    | none => simp [Store.removeRepoBindings, hb] at hk
    | some row => rfl

/-! ### Operations are sequences of statements -/

/-- One statement of the store that succeeds. -/
inductive Statement (c : Codec V) : Store → Store → Prop
  | removeEdges (s : Store) (p : EdgeKey → Bool) : Statement c s (s.removeEdges p)
  | removeNodes {s : Store} {p : String → Bool} (h : s.Detached p) :
      Statement c s (s.removeNodes p)
  | writeNode (s : Store) (n : Node V) : Statement c s (s.writeNode c n)
  | writeEdge {s s' : Store} {e : Edge V} (h : s.writeEdge c e = .ok s') : Statement c s s'
  | removeRepoBindings (s : Store) (repoKey : String) :
      Statement c s (s.removeRepoBindings repoKey)
  | insertBinding {s s' : Store} {repoKey : String} {b : SourceBinding}
      (h : s.insertBinding c repoKey b = .ok s') : Statement c s s'

/-- Statements one after the other. -/
def Statements (c : Codec V) : Store → Store → Prop := Relation.ReflTransGen (Statement c)

theorem Statement.foreignKeys (h : Statement c s s') (hs : s.ForeignKeys) :
    s'.ForeignKeys := by
  cases h with
  | removeEdges p => exact removeEdges_foreignKeys hs p
  | removeNodes hp => exact removeNodes_foreignKeys hs hp
  | writeNode n => exact writeNode_foreignKeys hs n
  | writeEdge he =>
    obtain ⟨hep, rfl⟩ := (writeEdge_eq_ok hs).mp he
    exact upsertEdgeRow_foreignKeys hs hep.1 hep.2
  | removeRepoBindings repoKey => exact removeRepoBindings_foreignKeys hs repoKey
  | insertBinding hb =>
    obtain ⟨hd, -, rfl⟩ := insertBinding_eq_ok.mp hb
    exact putBinding_foreignKeys hs (hasFact_of_currentDigest hd) _

/-- **Statement rule**: an invariant of the statements is one of their
sequences. -/
theorem Statements.invariant (hP : ∀ s s', s.ForeignKeys → P s → Statement c s s' → P s')
    (h : Statements c s s') (hk : s.ForeignKeys) (hs : P s) : s'.ForeignKeys ∧ P s' := by
  induction h with
  | refl => exact ⟨hk, hs⟩
  | tail _ hst ih => exact ⟨hst.foreignKeys ih.1, hP _ _ ih.1 ih.2 hst⟩

theorem foldl_statements {α : Type} {f : Store → α → Store}
    (hf : ∀ s a, Statements c s (f s a)) : ∀ (l : List α) (s : Store), Statements c s (l.foldl f s)
  | [], _ => .refl
  | a :: l, s => (hf s a).trans (foldl_statements hf l (f s a))

theorem foldlM_statements {α : Type} {f : Store → α → Except GraphError Store}
    (hf : ∀ s a s', f s a = .ok s' → Statements c s s') :
    ∀ (l : List α) {s s' : Store}, l.foldlM f s = .ok s' → Statements c s s'
  | [], s, s', h => by
    rw [List.foldlM_nil, pure_eq_ok] at h
    rw [h]
    exact .refl
  | a :: l, s, s', h => by
    rw [List.foldlM_cons, bind_eq_ok] at h
    obtain ⟨s1, h1, h2⟩ := h
    exact (hf s a s1 h1).trans (foldlM_statements hf l h2)

theorem deleteEdgeRow_statements (s : Store) (key : String × String × String) :
    Statements c s (s.deleteEdgeRow key) :=
  .single (.removeEdges s _)

theorem deleteNodeRow_statements (s : Store) (id : String) :
    Statements c s (s.deleteNodeRow id) :=
  .tail (.single (.removeEdges s _)) (.removeNodes (detached_removeEdges s id))

theorem applyPatchRows_statements {p : GraphPatch V} (h : s.applyPatchRows c p = .ok s') :
    Statements c s s':= by
  refine .trans (foldl_statements (fun s key => deleteEdgeRow_statements s key) p.deleteEdges s) ?_
  refine .trans (foldl_statements deleteNodeRow_statements p.deleteNodeIds _) ?_
  refine .trans (foldl_statements (fun s n => .single (.writeNode s n)) p.upsertNodes _) ?_
  exact foldlM_statements (fun s e s' he => .single (.writeEdge he)) p.upsertEdges h

end Statements

section Steps

variable {V : Type} [BEq V] {c : Codec V} {expected : List (Node V) × List (Edge V)}

theorem applyPatchIfSnapshotMatches_eq_ok {b : Bool} {p : GraphPatch V} :
    s.applyPatchIfSnapshotMatches c expected p = (s', .ok b) ↔
      ∃ g, s.readSnapshot c = .ok g ∧ b = (g == expected) ∧
        if b then s.applyPatchRows c p = .ok s' else s' = s := by
  rw [Store.applyPatchIfSnapshotMatches, transact_ok, bind_eq_ok]
  refine exists_congr fun g => and_congr_right fun _ => ?_
  cases hg : g == expected with
  | true =>
    simp only [bne, hg, Bool.not_true, Bool.false_eq_true, if_false, bind_eq_ok, pure_eq_ok,
      Prod.mk.injEq]
    constructor
    · rintro ⟨s1, h1, rfl, rfl⟩
      exact ⟨rfl, h1⟩
    · rintro ⟨rfl, h1⟩
      exact ⟨s', h1, rfl, rfl⟩
  | false =>
    simp only [bne, hg, Bool.not_false, if_true, pure_eq_ok, Prod.mk.injEq]
    constructor
    · rintro ⟨rfl, rfl⟩
      exact ⟨rfl, rfl⟩
    · rintro ⟨rfl, rfl⟩
      exact ⟨rfl, rfl⟩

/-- The checks on the request itself, before the store is read. -/
def Admissible (repoKey : String) (bindings : List SourceBinding) : Prop :=
  bounded repoKey maxRepoBytes = .ok () ∧ bindings.length ≤ maxBindings ∧
    checkBindings repoKey bindings [] = .ok ()

theorem applyPatchWithSourceBindings_eq_ok {b : Bool} {p : GraphPatch V} {repoKey : String}
    {bindings : List SourceBinding} :
    s.applyPatchWithSourceBindings c expected p repoKey bindings = (s', .ok b) ↔
      Admissible repoKey bindings ∧ ∃ g, s.readSnapshot c = .ok g ∧ b = (g == expected) ∧
        if b then
          s.checkOwners repoKey bindings = .ok () ∧
            ∃ s1, (s.removeRepoBindings repoKey).applyPatchRows c p = .ok s1 ∧
              bindings.foldlM (Store.insertBinding c repoKey) s1 = .ok s'
        else s' = s := by
  rw [Store.applyPatchWithSourceBindings, transact_ok]
  simp only [bind_eq_ok, ensure_eq_ok, Admissible]
  constructor
  · rintro ⟨⟨⟩, hrepo, ⟨⟩, hlen, ⟨⟩, hcheck, g, hg, h⟩
    refine ⟨⟨hrepo, hlen, hcheck⟩, g, hg, ?_⟩
    cases he : g == expected with
    | true =>
      simp only [bne, he, Bool.not_true, Bool.false_eq_true, if_false, bind_eq_ok, pure_eq_ok,
        Prod.mk.injEq] at h
      obtain ⟨⟨⟩, hown, s1, h1, s2, h2, rfl, rfl⟩ := h
      exact ⟨rfl, hown, s1, h1, h2⟩
    | false =>
      simp only [bne, he, Bool.not_false, if_true, pure_eq_ok, Prod.mk.injEq] at h
      obtain ⟨rfl, rfl⟩ := h
      exact ⟨rfl, rfl⟩
  · rintro ⟨⟨hrepo, hlen, hcheck⟩, g, hg, hb, h⟩
    refine ⟨(), hrepo, (), hlen, (), hcheck, g, hg, ?_⟩
    cases he : g == expected with
    | true =>
      rw [he] at hb
      subst hb
      obtain ⟨hown, s1, h1, h2⟩ := h
      simp only [bne, he, Bool.not_true, Bool.false_eq_true, if_false, bind_eq_ok, pure_eq_ok,
        Prod.mk.injEq]
      exact ⟨(), hown, s1, h1, s', h2, trivial, rfl⟩
    | false =>
      rw [he] at hb
      subst hb
      simp only [Bool.false_eq_true, if_false] at h
      simp [bne, he, pure_eq_ok, h]

theorem step_statements (s : Store) (op : Op V) : Statements c s (s.step c op).1 := by
  cases op with
  | putNode n => exact .single (.writeNode s n)
  | putEdge e =>
    cases he : s.writeEdge c e with
    | ok s' =>
      have hst : (s.step c (.putEdge e)).1 = s' := by
        simp [Store.step, Store.putEdge, transact, he, bind, Except.bind, pure, Except.pure]
      rw [hst]
      exact .single (.writeEdge he)
    | error er =>
      have hst : (s.step c (.putEdge e)).1 = s := by
        simp [Store.step, Store.putEdge, transact, he, bind, Except.bind]
      rw [hst]
      exact .refl
  | deleteEdgesFromWithLabel src label | deleteEdge src dst label =>
    exact .single (.removeEdges s _)
  | deleteNode id => exact deleteNodeRow_statements s id
  | clear =>
    refine .tail (.single (.removeEdges s _)) (.removeNodes fun k hk => ?_)
    cases he : s.edges.find? k with
    | none | some text => simp [Store.removeEdges, he] at hk
  | applyPatchIfSnapshotMatches expected p =>
    show Statements c s (s.applyPatchIfSnapshotMatches c expected p).1
    cases hr : s.applyPatchIfSnapshotMatches c expected p with
    | mk s' r =>
      cases r with
      | error e =>
        obtain ⟨-, rfl⟩ := transact_error.mp hr
        exact .refl
      | ok b =>
        obtain ⟨g, -, -, h⟩ := applyPatchIfSnapshotMatches_eq_ok.mp hr
        cases b with
        | true => exact applyPatchRows_statements h
        | false =>
          simp only [Bool.false_eq_true, if_false] at h
          rw [h]
          exact .refl
  | applyPatchWithSourceBindings expected p repoKey bindings =>
    show Statements c s (s.applyPatchWithSourceBindings c expected p repoKey bindings).1
    cases hr : s.applyPatchWithSourceBindings c expected p repoKey bindings with
    | mk s' r =>
      cases r with
      | error e =>
        obtain ⟨-, rfl⟩ := transact_error.mp hr
        exact .refl
      | ok b =>
        obtain ⟨-, g, -, -, h⟩ := applyPatchWithSourceBindings_eq_ok.mp hr
        cases b with
        | true =>
          obtain ⟨-, s1, h1, h2⟩ := h
          refine .trans (.single (.removeRepoBindings s repoKey)) ?_
          refine .trans (applyPatchRows_statements h1) ?_
          exact foldlM_statements (fun s b s' hb => .single (.insertBinding hb)) bindings h2
        | false =>
          simp only [Bool.false_eq_true, if_false] at h
          rw [h]
          exact .refl

theorem empty_foreignKeys : Store.empty.ForeignKeys := by
  refine ⟨fun k hk => ?_, fun k hk => ?_, fun id hid => ?_, fun k hk => ?_⟩
  · simp [Store.empty] at hk
  · simp [Store.empty] at hk
  · simp [Store.empty] at hid
  · simp [Store.empty] at hk

/-- **Store rule**: what holds of the empty store and is kept by each statement
holds in every reachable store, together with the foreign keys. -/
theorem reachable_invariant (hempty : P Store.empty)
    (hP : ∀ s s', s.ForeignKeys → P s → Statement c s s' → P s') (h : (machine c).Reachable s) :
    s.ForeignKeys ∧ P s := by
  refine h.invariant (P := fun s => s.ForeignKeys ∧ P s) ?_ ?_
  · rintro s rfl
    exact ⟨empty_foreignKeys, hempty⟩
  · intro s op s' o hs _ hst
    have hstmts := step_statements (c := c) s op
    rw [show s.step c op = (s', o) from hst] at hstmts
    exact hstmts.invariant hP hs.1 hs.2

/-- In every reachable store the endpoints of each edge, and the fact of each
association, exist. -/
theorem reachable_foreignKeys (h : (machine c).Reachable s) : s.ForeignKeys :=
  (reachable_invariant (P := fun _ => True) trivial (fun _ _ _ _ _ => trivial) h).1

end Steps

end GraphStore

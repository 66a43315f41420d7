/-
Source associations are current, and publication keeps to its repository.

An association is only worth something while the fact it was published with is
the stored fact.  The triggers remove it at each write to the fact and
publication compares digests, so that

* `source_bindings_fresh` — in every reachable store each association's digest
  is that of its stored fact, and reading it never reports a mismatch;
* `publication_bindings` — after a publication for a repository the
  associations are the published ones and those of other repositories that the
  patch did not touch;
* `publication_frame` — what a publication does, and that a refused one does
  nothing;
* `publication_mismatch` — when a publication ends with the comparison of digests.
-/
import Cartograph.ConditionalPatch

namespace GraphStore

open Checked

/-! ### Associations that survive a step -/

/-- Every association of `g'` is one of `g`, of a fact that is the same in both. -/
structure View.Keeps (g g' : View) : Prop where
  node : ∀ id row, g'.nodeBinding id = some row →
    g.nodeBinding id = some row ∧ g'.node id = g.node id
  edge : ∀ k row, g'.edgeBinding k = some row →
    g.edgeBinding k = some row ∧ g'.edge k = g.edge k

theorem keeps_without (g : View) (p : String → Prop) (q : EdgeKey → Prop) :
    g.Keeps (g.without p q) := by
  classical
  refine ⟨fun id row h => ?_, fun k row h => ?_⟩
  · by_cases hp : p id
    · simp [View.without, hp] at h
    · simpa [View.without, hp] using h
  · by_cases hq : q k
    · simp [View.without, hq] at h
    · simpa [View.without, hq] using h

theorem keeps_setNode (g : View) (id : String) (n : NodeRow) : g.Keeps (g.setNode id n) := by
  refine ⟨fun id' row h => ?_, fun k row h => ⟨h, rfl⟩⟩
  by_cases he : id' = id
  · simp [View.setNode, he] at h
  · simpa [View.setNode, he] using h

theorem keeps_setEdge (g : View) (k : EdgeKey) (text : String) : g.Keeps (g.setEdge k text) := by
  refine ⟨fun id row h => ⟨h, rfl⟩, fun k' row h => ?_⟩
  by_cases he : k' = k
  · simp [View.setEdge, he] at h
  · simpa [View.setEdge, he] using h

variable {s : Store} {repoKey : String} {row : BindingRow} {fact : FactKey}

variable {id d : String} {s' : Store} {b : SourceBinding}

theorem removeRepoBindings_node :
    (s.removeRepoBindings repoKey).nodeBindings.find? id = some row ↔
      s.nodeBindings.find? id = some row ∧ row.repoKey ≠ repoKey := by
  simp [Store.removeRepoBindings, Option.filter_eq_some_iff]

theorem removeRepoBindings_edge {k : EdgeKey} :
    (s.removeRepoBindings repoKey).edgeBindings.find? k = some row ↔
      s.edgeBindings.find? k = some row ∧ row.repoKey ≠ repoKey := by
  simp [Store.removeRepoBindings, Option.filter_eq_some_iff]

/-! ### Freshness -/

section Fresh

variable {V : Type} {c : Codec V}

/-- Each association's fact is stored, and its digest is the digest of that
fact. -/
structure Store.Fresh (c : Codec V) (s : Store) : Prop where
  node : ∀ id row, s.nodeBindings.find? id = some row →
    ∃ n props, s.nodes.find? id = some n ∧ c.fromText n.props = some props ∧
      row.emittedFactDigest = c.nodeDigest ⟨id, n.label, props⟩
  edge : ∀ k row, s.edgeBindings.find? k = some row →
    ∃ text props, s.edges.find? k = some text ∧ c.fromText text = some props ∧
      row.emittedFactDigest = c.edgeDigest ⟨k.src, k.dst, k.label, props⟩

theorem Store.Fresh.keeps (hs : s.Fresh c) (h : s.view.Keeps s'.view) :
    s'.Fresh c := by
  refine ⟨fun id row hrow => ?_, fun k row hrow => ?_⟩
  · obtain ⟨hold, hsame⟩ := h.node id row hrow
    obtain ⟨n, props, hn, hrest⟩ := hs.node id row hold
    exact ⟨n, props, hsame.trans hn, hrest⟩
  · obtain ⟨hold, hsame⟩ := h.edge k row hrow
    obtain ⟨text, props, ht, hrest⟩ := hs.edge k row hold
    exact ⟨text, props, hsame.trans ht, hrest⟩

theorem currentDigest_node :
    s.currentDigest c (.node id) = .ok (some d) ↔
      ∃ n props, s.nodes.find? id = some n ∧ c.fromText n.props = some props ∧
        d = c.nodeDigest ⟨id, n.label, props⟩ := by
  cases hn : s.nodes.find? id with
  | none => simp [Store.currentDigest, hn]
  | some n =>
    simp only [Store.currentDigest, hn, bind_eq_ok, orFail_eq_ok, pure_eq_ok, Option.some_inj]
    constructor
    · rintro ⟨props, hprops, hd⟩
      exact ⟨n, props, rfl, hprops, hd.symm⟩
    · rintro ⟨n', props, rfl, hprops, hd⟩
      exact ⟨props, hprops, hd.symm⟩

theorem currentDigest_edge {source label destination : String} :
    s.currentDigest c (.edge source label destination) = .ok (some d) ↔
      ∃ text props, s.edges.find? (edgeKey source destination label) = some text ∧
        c.fromText text = some props ∧ d = c.edgeDigest ⟨source, destination, label, props⟩ := by
  cases he : s.edges.find? (edgeKey source destination label) with
  | none => simp [Store.currentDigest, he]
  | some text =>
    simp only [Store.currentDigest, he, bind_eq_ok, orFail_eq_ok, pure_eq_ok, Option.some_inj]
    constructor
    · rintro ⟨props, hprops, hd⟩
      exact ⟨text, props, rfl, hprops, hd.symm⟩
    · rintro ⟨text', props, rfl, hprops, hd⟩
      exact ⟨props, hprops, hd.symm⟩

theorem Store.Fresh.putBinding (hs : s.Fresh c)
    (hd : s.currentDigest c fact = .ok (some row.emittedFactDigest)) :
    (s.putBinding fact row).Fresh c := by
  cases fact with
  | node id =>
    refine ⟨fun id' row' hrow => ?_, hs.edge⟩
    rcases Table.find?_put_eq_some.mp hrow with ⟨rfl, rfl⟩ | ⟨-, hold⟩
    · exact currentDigest_node.mp hd
    · exact hs.node id' row' hold
  | edge source label destination =>
    refine ⟨hs.node, fun k row' hrow => ?_⟩
    rcases Table.find?_put_eq_some.mp hrow with ⟨rfl, rfl⟩ | ⟨-, hold⟩
    · exact currentDigest_edge.mp hd
    · exact hs.edge k row' hold

theorem Statement.fresh (h : Statement c s s') (hk : s.ForeignKeys) (hs : s.Fresh c) :
    s'.Fresh c := by
  cases h with
  | removeEdges p => exact hs.keeps (view_removeEdges hk p ▸ keeps_without ..)
  | removeNodes hp => exact hs.keeps (view_removeNodes hk hp ▸ keeps_without ..)
  | writeNode n => exact hs.keeps (view_writeNode hk n ▸ keeps_setNode ..)
  | writeEdge he =>
    obtain ⟨-, rfl⟩ := (writeEdge_eq_ok hk).mp he
    exact hs.keeps (view_upsertEdgeRow s _ ▸ keeps_setEdge ..)
  | removeRepoBindings repoKey =>
    refine hs.keeps ⟨fun id row hrow => ⟨?_, rfl⟩, fun k row hrow => ⟨?_, rfl⟩⟩
    · exact (removeRepoBindings_node.mp hrow).1
    · exact (removeRepoBindings_edge.mp hrow).1
  | insertBinding hb =>
    obtain ⟨hd, -, rfl⟩ := insertBinding_eq_ok.mp hb
    exact hs.putBinding hd

theorem empty_fresh : Store.empty.Fresh c := by
  refine ⟨fun id row h => ?_, fun k row h => ?_⟩
  · simp [Store.empty] at h
  · simp [Store.empty] at h

theorem Store.Fresh.currentDigest (hs : s.Fresh c) (h : s.bindingRow fact = some row) :
    s.currentDigest c fact = .ok (some row.emittedFactDigest) := by
  cases fact with
  | node id => exact currentDigest_node.mpr (hs.node id row h)
  | edge source label destination => exact currentDigest_edge.mpr (hs.edge _ row h)

theorem loadBinding_eq_some (h : s.loadBinding fact = .ok (some b)) :
    s.bindingRow fact = some ⟨b.repoKey, b.receiptId, b.emittedFactDigest⟩ := by
  cases hrow : s.bindingRow fact with
  | none => simp [Store.loadBinding, hrow] at h
  | some row =>
    simp only [Store.loadBinding, hrow, bind_eq_ok, pure_eq_ok, Option.some_inj] at h
    obtain ⟨-, -, rfl⟩ := h
    rfl

/-- The message of a failed digest comparison. -/
def mismatch : GraphError := .sourceBinding "missing fact or complete fact digest mismatch"

theorem bounded_ne_mismatch {value : String} {maximum : ℕ} :
    bounded value maximum ≠ .error mismatch := by
  intro h
  exact absurd (ensure_eq_error.mp h).2 (by decide)

theorem validate_ne_mismatch : fact.validate ≠ .error mismatch := by
  intro h
  cases fact with
  | node id => exact bounded_ne_mismatch h
  | edge source label destination =>
    rcases bind_eq_error.mp h with h | ⟨⟨⟩, -, h⟩
    · exact bounded_ne_mismatch h
    rcases bind_eq_error.mp h with h | ⟨⟨⟩, -, h⟩
    · exact bounded_ne_mismatch h
    · exact bounded_ne_mismatch h

theorem binding_validate_ne_mismatch : b.validate ≠ .error mismatch := by
  intro h
  rcases bind_eq_error.mp h with h | ⟨⟨⟩, -, h⟩
  · exact validate_ne_mismatch h
  rcases bind_eq_error.mp h with h | ⟨⟨⟩, -, h⟩
  · exact bounded_ne_mismatch h
  rcases bind_eq_error.mp h with h | ⟨⟨⟩, -, h⟩
  · exact bounded_ne_mismatch h
  · exact absurd (ensure_eq_error.mp h).2 (by decide)

theorem loadBinding_ne_mismatch :
    s.loadBinding fact ≠ .error mismatch := by
  intro h
  cases hrow : s.bindingRow fact with
  | none => simp [Store.loadBinding, hrow] at h
  | some row =>
    simp only [Store.loadBinding, hrow] at h
    rcases bind_eq_error.mp h with h | ⟨⟨⟩, -, h⟩
    · exact binding_validate_ne_mismatch h
    · exact pure_ne_error h

end Fresh

/-- **Associations are never stale.**  In every reachable store, under any
sequence of writes including failed ones, an association belongs to a stored
fact with its digest; reading a current association never finds a mismatch. -/
theorem source_bindings_fresh {V : Type} [BEq V] (c : Codec V) (s : Store)
    (h : (machine c).Reachable s) :
    s.Fresh c ∧ ∀ fact, s.currentSourceBinding c fact
      ≠ .error (.sourceBinding "missing fact or complete fact digest mismatch") := by
  obtain ⟨-, hfresh⟩ := reachable_invariant (P := Store.Fresh c) empty_fresh
    (fun s s' hk hs hst => hst.fresh hk hs) h
  refine ⟨hfresh, fun fact herr => ?_⟩
  rw [Store.currentSourceBinding] at herr
  rcases bind_eq_error.mp herr with herr | ⟨⟨⟩, -, herr⟩
  · exact validate_ne_mismatch herr
  rcases bind_eq_error.mp herr with herr | ⟨o, ho, herr⟩
  · exact loadBinding_ne_mismatch herr
  cases o with
  | none => exact pure_ne_error herr
  | some b =>
    rcases bind_eq_error.mp herr with herr | ⟨d, hd, herr⟩
    · rw [hfresh.currentDigest (loadBinding_eq_some ho)] at herr
      exact absurd herr (by simp)
    · rw [hfresh.currentDigest (loadBinding_eq_some ho), Except.ok.injEq] at hd
      rcases bind_eq_error.mp herr with herr | ⟨⟨⟩, -, herr⟩
      · exact (ensure_eq_error.mp herr).1 hd.symm
      · exact pure_ne_error herr

/-- The node `a`, published by `repo` with its digest. -/
def symbolBinding : SourceBinding :=
  ⟨.node "a", "repo", "receipt",
    "node-v1:088b25b383a6695b7614e46efba91b99df1343c8e6f8a38bbd96b4aedf338d84"⟩

def symbolPatch : GraphPatch Json where
  upsertNodes := [⟨"a", "Symbol", .obj []⟩]

def symbolStore : Store :=
  (Store.empty.applyPatchWithSourceBindings emptyPropsCodec ([], []) symbolPatch "repo"
    [symbolBinding]).1

theorem symbolStore_reachable : (machine emptyPropsCodec).Reachable symbolStore :=
  (Machine.Reachable.initial rfl).steps (.snoc .refl trivial (i := .applyPatchWithSourceBindings
    ([], []) symbolPatch "repo" [symbolBinding]) rfl)

theorem source_bindings_fresh_symbol :
    (machine emptyPropsCodec).Reachable symbolStore ∧
      symbolStore.currentSourceBinding emptyPropsCodec (.node "a") = .ok (some symbolBinding) ∧
      symbolStore.Fresh emptyPropsCodec := by
  refine ⟨symbolStore_reachable, by rfl, ?_⟩
  exact (source_bindings_fresh emptyPropsCodec symbolStore symbolStore_reachable).1

/-! ### Publication -/

/-- The patch upserts or deletes the fact, or deletes an endpoint of the edge. -/
def GraphPatch.touches {V : Type} (p : GraphPatch V) : FactKey → Prop
  | .node id => id ∈ p.upsertNodes.map Node.id ∨ p.dropsNode id
  | .edge source label destination =>
    edgeKey source destination label ∈ p.upsertEdges.map Edge.key ∨
      p.dropsEdge (edgeKey source destination label)

variable {repoKey : String} {bindings : List SourceBinding} {s : Store}

section Publication

variable {V : Type} {c : Codec V}

theorem bindingRow_removeRepoBindings :
    (s.removeRepoBindings repoKey).bindingRow fact = some row ↔
      s.bindingRow fact = some row ∧ row.repoKey ≠ repoKey := by
  cases fact with
  | node id => exact removeRepoBindings_node
  | edge source label destination => exact removeRepoBindings_edge

variable {s s' : Store}

theorem bindingRow_applyPatchRows (h : s.ForeignKeys) {p : GraphPatch V}
    (hp : s.applyPatchRows c p = .ok s') (fact : FactKey) (row : BindingRow) :
    s'.bindingRow fact = some row ↔ s.bindingRow fact = some row ∧ ¬p.touches fact := by
  obtain ⟨-, hview⟩ := (applyPatchRows_spec h p).mp hp
  cases fact with
  | node id =>
    rw [show s'.bindingRow (.node id) = (s.view.patch c p).nodeBinding id from
      congrFun (congrArg View.nodeBinding hview) id]
    by_cases hup : id ∈ p.upsertNodes.map Node.id
    · obtain ⟨n, hn⟩ := Option.ne_none_iff_exists'.mp (mt lastWith_eq_none.mp (not_not.mpr hup))
      simp only [View.patch, hn]
      exact ⟨fun h => absurd h (by simp), fun h => absurd (.inl hup) h.2⟩
    · by_cases hdel : p.dropsNode id
      · simp only [View.patch, lastWith_eq_none.mpr hup, View.afterDeletes, View.without, if_pos hdel]
        exact ⟨fun h => absurd h (by simp), fun h => absurd (.inr hdel) h.2⟩
      · simp only [View.patch, lastWith_eq_none.mpr hup, View.afterDeletes, View.without, if_neg hdel]
        exact ⟨fun h => ⟨h, not_or.mpr ⟨hup, hdel⟩⟩, And.left⟩
  | edge source label destination =>
    rw [show s'.bindingRow (.edge source label destination)
      = (s.view.patch c p).edgeBinding (edgeKey source destination label) from
      congrFun (congrArg View.edgeBinding hview) _]
    by_cases hup : edgeKey source destination label ∈ p.upsertEdges.map Edge.key
    · obtain ⟨e, he⟩ := Option.ne_none_iff_exists'.mp (mt lastWith_eq_none.mp (not_not.mpr hup))
      simp only [View.patch, he]
      exact ⟨fun h => absurd h (by simp), fun h => absurd (.inl hup) h.2⟩
    · by_cases hdel : p.dropsEdge (edgeKey source destination label)
      · simp only [View.patch, lastWith_eq_none.mpr hup, View.afterDeletes, View.without, if_pos hdel]
        exact ⟨fun h => absurd h (by simp), fun h => absurd (.inr hdel) h.2⟩
      · simp only [View.patch, lastWith_eq_none.mpr hup, View.afterDeletes, View.without, if_neg hdel]
        exact ⟨fun h => ⟨h, not_or.mpr ⟨hup, hdel⟩⟩, And.left⟩

theorem bindingRow_putBinding (s : Store) (fact fact' : FactKey) (row : BindingRow) :
    (s.putBinding fact row).bindingRow fact'
      = if fact' = fact then some row else s.bindingRow fact' := by
  cases fact with
  | node id =>
    cases fact' with
    | node id' | edge source label destination => simp [Store.putBinding, Store.bindingRow]
  | edge source label destination =>
    cases fact' with
    | node id' => simp [Store.putBinding, Store.bindingRow]
    | edge source' label' destination' =>
      have hkey : edgeKey source' destination' label' = edgeKey source destination label ↔
          FactKey.edge source' label' destination' = .edge source label destination := by
        simp only [edgeKey, EmbeddingLike.apply_eq_iff_eq, Prod.mk.injEq, FactKey.edge.injEq]
        exact and_congr_right fun _ => and_comm
      simp only [Store.putBinding, Store.bindingRow, Table.find?_put, hkey]

theorem bindingRow_insertBindings (fact : FactKey) (row : BindingRow) :
    ∀ (l : List SourceBinding) {s s' : Store},
      l.foldlM (Store.insertBinding c repoKey) s = .ok s' →
      (s'.bindingRow fact = some row ↔ s.bindingRow fact = some row ∨
        ∃ b ∈ l, b.fact = fact ∧ row = ⟨repoKey, b.receiptId, b.emittedFactDigest⟩)
  | [], s, s', h => by
    rw [List.foldlM_nil, pure_eq_ok] at h
    simp [h]
  | b :: l, s, s', h => by
    rw [List.foldlM_cons, bind_eq_ok] at h
    obtain ⟨s1, h1, h2⟩ := h
    obtain ⟨-, hfree, rfl⟩ := insertBinding_eq_ok.mp h1
    rw [bindingRow_insertBindings fact row l h2, bindingRow_putBinding]
    simp only [List.mem_cons, exists_eq_or_imp]
    by_cases he : fact = b.fact
    · subst he
      rw [if_pos rfl, hfree, Option.some_inj]
      simp [eq_comm]
    · rw [if_neg he]
      simp [Ne.symm he]

theorem checkBindings_eq_ok : ∀ {l : List SourceBinding} {seen : List FactKey},
    checkBindings repoKey l seen = .ok () → ∀ b ∈ l, b.repoKey = repoKey
  | [], _, _, b, hb => absurd hb (by simp)
  | b' :: l, seen, h, b, hb => by
    simp only [checkBindings, bind_eq_ok, ensure_eq_ok] at h
    obtain ⟨⟨⟩, -, ⟨⟩, ⟨howner, -⟩, hrest⟩ := h
    rcases List.mem_cons.mp hb with rfl | hb
    · exact howner
    · exact checkBindings_eq_ok hrest b hb

theorem checkOwners_eq_ok : ∀ {l : List SourceBinding},
    s.checkOwners repoKey l = .ok () →
      ∀ b ∈ l, ∀ row, s.bindingRow b.fact = some row → row.repoKey = repoKey
  | [], _, b, hb, _, _ => absurd hb (by simp)
  | b' :: l, h, b, hb, row, hrow => by
    simp only [Store.checkOwners, bind_eq_ok, ensure_eq_ok] at h
    obtain ⟨o, hload, ⟨⟩, hown, hrest⟩ := h
    rcases List.mem_cons.mp hb with rfl | hb
    · simp only [Store.loadBinding, hrow, bind_eq_ok, pure_eq_ok] at hload
      obtain ⟨⟨⟩, -, rfl⟩ := hload
      exact hown _ rfl
    · exact checkOwners_eq_ok hrest b hb row hrow

variable [BEq V]

/-- The associations after a publication: the published ones, and those of other
repositories whose facts the patch does not touch. -/
theorem publication_bindings (h : s.ForeignKeys) {expected : List (Node V) × List (Edge V)}
    {p : GraphPatch V}
    (hp : s.applyPatchWithSourceBindings c expected p repoKey bindings = (s', .ok true))
    (fact : FactKey) (row : BindingRow) :
    s'.bindingRow fact = some row ↔
      (s.bindingRow fact = some row ∧ row.repoKey ≠ repoKey ∧ ¬p.touches fact) ∨
        (row.repoKey = repoKey ∧
          ⟨fact, row.repoKey, row.receiptId, row.emittedFactDigest⟩ ∈ bindings) := by
  obtain ⟨⟨-, -, hcheck⟩, g, -, -, -, s1, h1, h2⟩ := applyPatchWithSourceBindings_eq_ok.mp hp
  have howner := checkBindings_eq_ok hcheck
  rw [bindingRow_insertBindings fact row bindings h2,
    bindingRow_applyPatchRows (removeRepoBindings_foreignKeys h repoKey) h1,
    bindingRow_removeRepoBindings, and_assoc]
  refine or_congr_right ?_
  constructor
  · rintro ⟨b, hb, rfl, rfl⟩
    refine ⟨rfl, ?_⟩
    rw [← howner b hb]
    exact hb
  · rintro ⟨rfl, hmem⟩
    exact ⟨_, hmem, rfl, rfl⟩

theorem publication_refused {r : Except GraphError Bool} {expected : List (Node V) × List (Edge V)}
    {p : GraphPatch V} (hr : s.applyPatchWithSourceBindings c expected p repoKey bindings = (s', r))
    (h : r ≠ .ok true) : s' = s := by
  cases r with
  | error e => exact (transact_error.mp hr).2
  | ok b =>
    cases b with
    | true => exact absurd rfl h
    | false =>
      obtain ⟨-, g, -, -, hs⟩ := applyPatchWithSourceBindings_eq_ok.mp hr
      simpa using hs

end Publication

/-- **Publication frame.**  After a successful publication the repository's
associations are the given list; another repository keeps its association unless
the patch touches the fact, and then the fact has none.  A stale snapshot is
answered with `false`; against the current one a fact of another repository, like
every failing step, is an error.  Nothing changes in either case. -/
theorem publication_frame {V : Type} [BEq V] (c : Codec V) (s : Store) (h : s.ForeignKeys)
    (expected : List (Node V) × List (Edge V)) (p : GraphPatch V) (repoKey : String)
    (bindings : List SourceBinding) (s' : Store) (r : Except GraphError Bool)
    (hr : s.applyPatchWithSourceBindings c expected p repoKey bindings = (s', r)) :
    (r = .ok true →
      (∀ b : SourceBinding, b ∈ bindings ↔ b.repoKey = repoKey ∧
        s'.bindingRow b.fact = some ⟨b.repoKey, b.receiptId, b.emittedFactDigest⟩) ∧
      (∀ fact row, row.repoKey ≠ repoKey →
        (s'.bindingRow fact = some row ↔ s.bindingRow fact = some row ∧ ¬p.touches fact)) ∧
      ∀ fact row, s.bindingRow fact = some row → row.repoKey ≠ repoKey → p.touches fact →
        s'.bindingRow fact = none) ∧
    (r ≠ .ok true → s' = s) ∧
    (r = .ok false ↔ Admissible repoKey bindings ∧
      ∃ g, s.readSnapshot c = .ok g ∧ (g == expected) = false) ∧
    ((∀ g, s.readSnapshot c = .ok g → (g == expected) = true) →
      (r = .ok true ∨ ∃ e, r = .error e) ∧
      ((∃ b ∈ bindings, ∃ row, s.bindingRow b.fact = some row ∧ row.repoKey ≠ repoKey) →
        ∃ e, r = .error e)) := by
  have hfalse : r = .ok false ↔ Admissible repoKey bindings ∧
      ∃ g, s.readSnapshot c = .ok g ∧ (g == expected) = false := by
    constructor
    · rintro rfl
      obtain ⟨hadm, g, hg, he, -⟩ := applyPatchWithSourceBindings_eq_ok.mp hr
      exact ⟨hadm, g, hg, he.symm⟩
    · rintro ⟨hadm, g, hg, he⟩
      have hres : s.applyPatchWithSourceBindings c expected p repoKey bindings = (s, .ok false) :=
        applyPatchWithSourceBindings_eq_ok.mpr ⟨hadm, g, hg, he.symm, rfl⟩
      exact congrArg Prod.snd (hr.symm.trans hres)
  refine ⟨?_, publication_refused hr, hfalse, fun hcurrent => ?_⟩
  · rintro rfl
    have hbind := publication_bindings h hr
    obtain ⟨⟨-, -, hcheck⟩, g, -, -, hown, -⟩ := applyPatchWithSourceBindings_eq_ok.mp hr
    refine ⟨fun b => ?_, fun fact row hrow => ?_, fun fact row hrow hne htouch => ?_⟩
    · rw [hbind]
      constructor
      · intro hb
        exact ⟨checkBindings_eq_ok hcheck b hb, .inr ⟨checkBindings_eq_ok hcheck b hb, hb⟩⟩
      · rintro ⟨hb, ⟨-, hne, -⟩ | ⟨-, hmem⟩⟩
        · exact absurd hb hne
        · exact hmem
    · rw [hbind]
      constructor
      · rintro (⟨hold, -, hun⟩ | ⟨heq, -⟩)
        · exact ⟨hold, hun⟩
        · exact absurd heq hrow
      · rintro ⟨hold, hun⟩
        exact .inl ⟨hold, hrow, hun⟩
    · rw [Option.eq_none_iff_forall_ne_some]
      intro row' hrow'
      rcases (hbind fact row').mp hrow' with ⟨-, -, hun⟩ | ⟨-, hmem⟩
      · exact hun htouch
      · exact hne (checkOwners_eq_ok hown _ hmem row hrow)
  · -- a current snapshot is never answered with `false`
    have hnot : r ≠ .ok false := by
      intro hr'
      obtain ⟨-, g, hg, he⟩ := hfalse.mp hr'
      rw [hcurrent g hg] at he
      exact absurd he (by simp)
    have hcases : r = .ok true ∨ ∃ e, r = .error e := by
      cases r with
      | error e => exact .inr ⟨e, rfl⟩
      | ok b =>
        cases b with
        | true => exact .inl rfl
        | false => exact absurd rfl hnot
    refine ⟨hcases, ?_⟩
    rintro ⟨b, hb, row, hrow, hne⟩
    rcases hcases with rfl | herr
    · obtain ⟨-, g, -, -, hown, -⟩ := applyPatchWithSourceBindings_eq_ok.mp hr
      exact absurd (checkOwners_eq_ok hown b hb row hrow) hne
    · exact herr

theorem publication_frame_symbol :
    Store.empty.ForeignKeys ∧ ∀ b : SourceBinding, b ∈ [symbolBinding] ↔ b.repoKey = "repo" ∧
      symbolStore.bindingRow b.fact = some ⟨b.repoKey, b.receiptId, b.emittedFactDigest⟩ := by
  have hframe := publication_frame emptyPropsCodec Store.empty empty_foreignKeys ([], [])
    symbolPatch "repo" [symbolBinding] symbolStore (.ok true) rfl
  exact ⟨empty_foreignKeys, (hframe.1 rfl).1⟩

/-- Against a stale snapshot a fact of another repository is no error: the
request is answered with `false`. -/
theorem publication_stale_not_error :
    ¬∀ (s : Store) (expected : List (Node Json) × List (Edge Json)) (p : GraphPatch Json)
      (repoKey : String) (bindings : List SourceBinding),
      (machine emptyPropsCodec).Reachable s →
      (∃ b ∈ bindings, ∃ row, s.bindingRow b.fact = some row ∧ row.repoKey ≠ repoKey) →
      ∃ e, (s.applyPatchWithSourceBindings emptyPropsCodec expected p repoKey bindings).2
        = .error e := by
  intro hclaim
  have hbound : symbolStore.bindingRow (.node "a")
      = some ⟨"repo", "receipt", symbolBinding.emittedFactDigest⟩ := rfl
  obtain ⟨e, he⟩ := hclaim symbolStore ([], []) symbolPatch "other"
    [{ symbolBinding with repoKey := "other" }] symbolStore_reachable
    ⟨_, List.mem_singleton_self _, _, hbound, by decide⟩
  have hstale : (symbolStore.applyPatchWithSourceBindings emptyPropsCodec ([], []) symbolPatch
      "other" [{ symbolBinding with repoKey := "other" }]).2 = .ok false := rfl
  rw [hstale] at he
  exact absurd he (by simp)

/-! ### When the comparison of digests fails -/

section Mismatch

variable {V : Type} {c : Codec V}

theorem readSnapshot_ne_mismatch : s.readSnapshot c ≠ .error mismatch := by
  intro h
  have hprops : ∀ text, orFail (c.fromText text) GraphError.props ≠ .error mismatch :=
    fun text h => absurd (orFail_eq_error.mp h).2 (by decide)
  rcases bind_eq_error.mp h with h | ⟨nodes, -, h⟩
  · obtain ⟨row, -, h⟩ := mapM_eq_error h
    rcases bind_eq_error.mp h with h | ⟨props, -, h⟩
    · exact hprops _ h
    · exact pure_ne_error h
  rcases bind_eq_error.mp h with h | ⟨edges, -, h⟩
  · obtain ⟨row, -, h⟩ := mapM_eq_error h
    rcases bind_eq_error.mp h with h | ⟨props, -, h⟩
    · exact hprops _ h
    · exact pure_ne_error h
  · exact pure_ne_error h

theorem checkBindings_ne_mismatch : ∀ {l : List SourceBinding}
    {seen : List FactKey}, checkBindings repoKey l seen ≠ .error mismatch
  | [], _, h => absurd h (by simp [checkBindings])
  | b :: l, seen, h => by
    rcases bind_eq_error.mp h with h | ⟨⟨⟩, -, h⟩
    · exact binding_validate_ne_mismatch h
    rcases bind_eq_error.mp h with h | ⟨⟨⟩, -, h⟩
    · exact absurd (ensure_eq_error.mp h).2 (by decide)
    · exact checkBindings_ne_mismatch h

theorem checkOwners_ne_mismatch : ∀ {l : List SourceBinding},
    s.checkOwners repoKey l ≠ .error mismatch
  | [], h => absurd h (by simp [Store.checkOwners])
  | b :: l, h => by
    rcases bind_eq_error.mp h with h | ⟨old, -, h⟩
    · exact loadBinding_ne_mismatch h
    rcases bind_eq_error.mp h with h | ⟨⟨⟩, -, h⟩
    · exact absurd (ensure_eq_error.mp h).2 (by decide)
    · exact checkOwners_ne_mismatch h

theorem applyPatchRows_ne_mismatch {p : GraphPatch V} :
    s.applyPatchRows c p ≠ .error mismatch := by
  intro h
  obtain ⟨s', e, -, he⟩ := foldlM_eq_error h
  simp only [Store.writeEdge] at he
  split at he
  · exact absurd he (by simp)
  · split at he
    · exact absurd he (by simp)
    · exact absurd (Except.error.inj he) (by decide)

theorem currentDigest_putBinding (s : Store) (fact fact' : FactKey) (row : BindingRow) :
    (s.putBinding fact row).currentDigest c fact' = s.currentDigest c fact' := by
  cases fact <;> cases fact' <;> rfl

theorem currentDigest_insertBindings : ∀ (l : List SourceBinding) {s s' : Store},
    l.foldlM (Store.insertBinding c repoKey) s = .ok s' →
      (∀ fact, s'.currentDigest c fact = s.currentDigest c fact) ∧
        ∀ b ∈ l, s.currentDigest c b.fact = .ok (some b.emittedFactDigest)
  | [], s, s', h => by
    rw [List.foldlM_nil, pure_eq_ok] at h
    subst h
    exact ⟨fun fact => rfl, fun b hb => absurd hb List.not_mem_nil⟩
  | b :: l, s, s', h => by
    rw [List.foldlM_cons, bind_eq_ok] at h
    obtain ⟨s1, h1, h⟩ := h
    obtain ⟨hd, -, rfl⟩ := insertBinding_eq_ok.mp h1
    obtain ⟨hsame, hrest⟩ := currentDigest_insertBindings l h
    simp only [currentDigest_putBinding] at hsame hrest
    exact ⟨hsame, List.forall_mem_cons.mpr ⟨hd, hrest⟩⟩

/-- Where every digest can be read and every row is free, inserting associations fails at the first
one that has another digest. -/
theorem insertBindings_mismatch : ∀ (l : List SourceBinding) {s : Store},
    (∀ b ∈ l, ∃ d, s.currentDigest c b.fact = .ok d) → (∀ b ∈ l, s.bindingRow b.fact = none) →
    (l.map (·.fact)).Nodup →
    (l.foldlM (Store.insertBinding c repoKey) s = .error mismatch
      ↔ ∃ b ∈ l, s.currentDigest c b.fact ≠ .ok (some b.emittedFactDigest))
  | [], s, _, _, _ => iff_of_false pure_ne_error (by simp)
  | b :: l, s, hread, hfree, hnodup => by
    obtain ⟨hfresh, hnodup⟩ := List.nodup_cons.mp hnodup
    obtain ⟨⟨d, hd⟩, hread⟩ := List.forall_mem_cons.mp hread
    obtain ⟨hrow, hfree⟩ := List.forall_mem_cons.mp hfree
    rw [List.foldlM_cons]
    by_cases hsame : d = some b.emittedFactDigest
    · -- one that matches is inserted, and the rest is compared with the same facts
      have hstep : s.insertBinding c repoKey b
          = .ok (s.putBinding b.fact ⟨repoKey, b.receiptId, b.emittedFactDigest⟩) :=
        insertBinding_eq_ok.mpr ⟨hsame ▸ hd, hrow, rfl⟩
      have hrest : ∀ b' ∈ l, b'.fact ≠ b.fact := by
        intro b' hb' heq
        exact hfresh (List.mem_map.mpr ⟨b', hb', heq⟩)
      rw [hstep, ok_bind, insertBindings_mismatch l ?_ ?_ hnodup]
      · simp only [currentDigest_putBinding, List.mem_cons, exists_eq_or_imp]
        exact (or_iff_right (not_not.mpr (hsame ▸ hd))).symm
      · intro b' hb'
        rw [currentDigest_putBinding]
        exact hread b' hb'
      · intro b' hb'
        rw [bindingRow_putBinding, if_neg (hrest b' hb')]
        exact hfree b' hb'
    · refine iff_of_true ?_ ⟨b, List.mem_cons_self, ?_⟩
      · refine bind_eq_error.mpr (.inl ?_)
        rw [Store.insertBinding, hd, ok_bind]
        exact bind_eq_error.mpr (.inl (ensure_eq_error.mpr ⟨hsame, rfl⟩))
      · rw [hd]
        exact fun h => hsame (Except.ok.inj h)

variable [BEq V]

theorem publication_mismatch {expected : List (Node V) × List (Edge V)} {p : GraphPatch V} :
    (s.applyPatchWithSourceBindings c expected p repoKey bindings).2 = .error mismatch ↔
      Admissible repoKey bindings ∧ (∃ g, s.readSnapshot c = .ok g ∧ (g == expected) = true) ∧
        s.checkOwners repoKey bindings = .ok () ∧
          ∃ s1, (s.removeRepoBindings repoKey).applyPatchRows c p = .ok s1 ∧
            bindings.foldlM (Store.insertBinding c repoKey) s1 = .error mismatch := by
  have hbody : (s.applyPatchWithSourceBindings c expected p repoKey bindings).2 = .error mismatch
      ↔ s.applyPatchWithSourceBindings c expected p repoKey bindings = (s, .error mismatch) := by
    constructor
    · intro h
      have hpair : s.applyPatchWithSourceBindings c expected p repoKey bindings
          = ((s.applyPatchWithSourceBindings c expected p repoKey bindings).1, .error mismatch) :=
        Prod.ext rfl h
      rw [hpair, publication_refused hpair (by simp)]
    · intro h
      rw [h]
  rw [hbody, Store.applyPatchWithSourceBindings, transact_error]
  constructor
  · rintro ⟨h, -⟩
    -- no check before the comparison has its message
    rcases bind_eq_error.mp h with h | ⟨⟨⟩, hrepo, h⟩
    · exact absurd h bounded_ne_mismatch
    rcases bind_eq_error.mp h with h | ⟨⟨⟩, hlen, h⟩
    · exact absurd (ensure_eq_error.mp h).2 (by decide)
    rcases bind_eq_error.mp h with h | ⟨⟨⟩, hcheck, h⟩
    · exact absurd h checkBindings_ne_mismatch
    rcases bind_eq_error.mp h with h | ⟨g, hg, h⟩
    · exact absurd h readSnapshot_ne_mismatch
    cases he : g == expected with
    | false => simp [bne, he, pure_ne_error] at h
    | true =>
      simp only [bne, he, Bool.not_true, Bool.false_eq_true, if_false] at h
      rcases bind_eq_error.mp h with h | ⟨⟨⟩, howners, h⟩
      · exact absurd h checkOwners_ne_mismatch
      rcases bind_eq_error.mp h with h | ⟨s1, h1, h⟩
      · exact absurd h applyPatchRows_ne_mismatch
      rcases bind_eq_error.mp h with h | ⟨s2, -, h⟩
      · exact ⟨⟨hrepo, (ensure_eq_ok.mp hlen), hcheck⟩, ⟨g, hg, he⟩, howners, s1, h1, h⟩
      · exact absurd h pure_ne_error
  · rintro ⟨⟨hrepo, hlen, hcheck⟩, ⟨g, hg, he⟩, howners, s1, h1, h2⟩
    simp [hrepo, ensure_of hlen, hcheck, hg, bne, he, howners, h1, h2, bind, Except.bind]

end Mismatch

end GraphStore

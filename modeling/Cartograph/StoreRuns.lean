/-
Runs of the graph store.

What is stored of the facts is a function of the writes that succeeded: a write goes on with the
abstract store as `Op.effect` says, and one that fails or is refused changes nothing.  The reads
see the facts and nothing else (`store_refines`).
-/
import Cartograph.Ingest.Effect
import Cartograph.SourceBindings
import Cartograph.SourceSelection

namespace GraphStore

open Checked

/-- The facts of a store, without the associations. -/
def View.facts (g : View) : View := ⟨g.node, g.edge, fun _ => none, fun _ => none⟩

variable {c : Codec Json} {s s' : Store} {tr : List (Machine.Event Store (Op Json)
  (Except GraphError Bool))} {op : Op Json} {out : Except GraphError Bool}

/-- What a write does to the facts when it succeeds. -/
noncomputable def Op.effect (c : Codec Json) (g : View) : Op Json → View
  | .putNode n => g.setNode n.id ⟨n.label, c.toText n.props⟩
  | .putEdge e => g.setEdge e.key (c.toText e.props)
  | .deleteEdgesFromWithLabel src label =>
    g.without (fun _ => False) fun k => k.src = src ∧ k.label = label
  | .deleteEdge src dst label => g.without (fun _ => False) fun k => k = edgeKey src dst label
  | .deleteNode id => g.without (· = id) fun k => k.src = id ∨ k.dst = id
  | .clear => g.without (fun _ => True) fun _ => True
  | .applyPatchIfSnapshotMatches _ p => g.patch c p
  | .applyPatchWithSourceBindings _ p _ _ => g.patch c p

/-- The facts after a run. -/
noncomputable def factsOf (c : Codec Json)
    (tr : List (Machine.Event Store (Op Json) (Except GraphError Bool))) : View :=
  tr.foldl (fun g e => if e.out = .ok true then e.op.effect c g else g) Store.empty.view

theorem facts_effect (g : View) : (op.effect c g).facts = op.effect c g.facts := by
  cases op with
  | putNode | putEdge =>
    ext1 <;> funext x <;>
      simp [Op.effect, View.facts, View.setNode, View.setEdge, Function.update_apply]
  | deleteEdgesFromWithLabel | deleteEdge | deleteNode | clear =>
    ext1 <;> funext x <;> simp [Op.effect, View.facts, View.without]
  | applyPatchIfSnapshotMatches _ p | applyPatchWithSourceBindings _ p =>
    ext1
    · rfl
    · rfl
    · funext id
      cases h : lastWith Node.id id p.upsertNodes <;>
        simp [Op.effect, View.facts, View.patch, View.afterDeletes, View.without, h]
    · funext k
      cases h : lastWith Edge.key k p.upsertEdges <;>
        simp [Op.effect, View.facts, View.patch, View.afterDeletes, View.without, h]

theorem step_facts (h : s.ForeignKeys) (hst : s.step c op = (s', out)) :
    s'.view.facts = if out = .ok true then op.effect c s.view.facts else s.view.facts := by
  rw [← facts_effect, ← apply_ite View.facts]
  cases op with
  | putNode n =>
    obtain ⟨rfl, rfl⟩ := Prod.mk.inj hst
    exact congrArg View.facts (view_writeNode h n)
  | putEdge e =>
    cases he : s.writeEdge c e with
    | error e' =>
      have heq : s.step c (.putEdge e) = (s, .error e') := by
        simp [Store.step, Store.putEdge, transact, he, bind, Except.bind, Except.map]
      obtain ⟨rfl, rfl⟩ := Prod.mk.inj (heq.symm.trans hst)
      rfl
    | ok s1 =>
      have heq : s.step c (.putEdge e) = (s1, .ok true) := by
        simp [Store.step, Store.putEdge, transact, he, bind, Except.bind, pure, Except.pure, Except.map]
      obtain ⟨rfl, rfl⟩ := Prod.mk.inj (heq.symm.trans hst)
      obtain ⟨-, rfl⟩ := (writeEdge_eq_ok h).mp he
      exact congrArg View.facts (view_upsertEdgeRow s e)
  | deleteEdgesFromWithLabel src label | deleteEdge src dst label =>
    obtain ⟨rfl, rfl⟩ := Prod.mk.inj hst
    refine congrArg View.facts ((view_removeEdges h _).trans (.trans ?_ (if_pos rfl).symm))
    simp [Op.effect]
  | deleteNode id =>
    obtain ⟨rfl, rfl⟩ := Prod.mk.inj hst
    exact congrArg View.facts (view_deleteNodeRow h id)
  | clear =>
    obtain ⟨rfl, rfl⟩ := Prod.mk.inj hst
    have hnone : (s.removeEdges fun _ => true).Detached fun _ => true := by
      intro k hk
      simp [Store.removeEdges] at hk
    have hview := view_removeNodes (removeEdges_foreignKeys h fun _ => true) hnone
    rw [view_removeEdges h, View.without_without] at hview
    refine congrArg View.facts (hview.trans (.trans ?_ (if_pos rfl).symm))
    simp [Op.effect]
  | applyPatchIfSnapshotMatches expected p =>
    by_cases hout : out = .ok true
    · subst hout
      exact congrArg View.facts ((conditionalPatch_eq_true h).mp hst).2.2
    · rw [if_neg hout, conditionalPatch_refused hst hout]
  | applyPatchWithSourceBindings expected p repoKey bindings =>
    by_cases hout : out = .ok true
    · subst hout
      obtain ⟨hnodes, hedges⟩ := Ingest.publication_facts h hst
      rw [if_pos rfl]
      exact congrArg₂ (fun n e => (⟨n, e, fun _ => none, fun _ => none⟩ : View)) hnodes hedges
    · rw [if_neg hout, publication_refused hst hout]

theorem steps_facts (h : (machine c).Steps Store.empty tr s) : s.view.facts = factsOf c tr := by
  induction h with
  | refl => rfl
  | snoc hs _ hst ih =>
    rw [step_facts (reachable_foreignKeys ⟨_, _, rfl, hs⟩) hst, ih, factsOf, factsOf,
      List.foldl_append]
    rfl

variable {g : List (Node Json) × List (Edge Json)}

theorem readSnapshot_congr (h : s'.view.facts = s.view.facts) :
    s'.readSnapshot c = s.readSnapshot c := by
  have hnodes : s'.nodes = s.nodes := Table.ext_find? (congrFun (congrArg View.node h))
  have hedges : s'.edges = s.edges := Table.ext_find? (congrFun (congrArg View.edge h))
  rw [Store.readSnapshot, Store.readSnapshot, Store.readNodes, Store.readNodes, Store.readEdges,
    Store.readEdges, hnodes, hedges]

theorem mem_ids (hread : s.readSnapshot c = .ok g) {id : String} :
    id ∈ g.1.map Node.id ↔ (s.nodes.find? id).isSome := by
  rw [(readSnapshot_keys hread).1]
  simp [Option.isSome_iff_exists, Table.find?_eq_some_iff]

theorem getNode_read (hread : s.readSnapshot c = .ok g) {n : Node Json} (hn : n ∈ g.1) :
    s.getNode c n.id = .ok (some n) := by
  obtain ⟨r, hr, hok⟩ := (mem_mapM_ok (Ingest.readSnapshot_ok hread).1 n).mp hn
  simp only [bind_eq_ok, orFail_eq_ok, pure_eq_ok] at hok
  obtain ⟨props, hprops, rfl⟩ := hok
  have hfind : s.nodes.find? r.1 = some r.2 := Table.find?_eq_some_iff.mpr hr
  rw [Store.getNode, hfind]
  simp [hprops, orFail, bind, Except.bind, pure, Except.pure]

/-- **The graph store refines the graph.**  After any writes its facts are those that the writes
that succeeded leave, the last one of a fact winning.  A snapshot that is read is a graph, says of
each node what `get_node` says, and depends on nothing but the facts. -/
theorem store_refines (h : (machine c).Steps Store.empty tr s) :
    s.view.facts = factsOf c tr
    ∧ ∀ g, s.readSnapshot c = .ok g →
      (g.1.map Node.id).Nodup ∧ (g.2.map Edge.key).Nodup
      ∧ (∀ e ∈ g.2, e.src ∈ g.1.map Node.id ∧ e.dst ∈ g.1.map Node.id)
      ∧ (∀ n ∈ g.1, s.getNode c n.id = .ok (some n))
      ∧ (∀ id ∉ g.1.map Node.id, s.getNode c id = .ok none)
      ∧ ∀ tr' s', (machine c).Steps Store.empty tr' s' → factsOf c tr' = factsOf c tr →
        s'.readSnapshot c = .ok g := by
  refine ⟨steps_facts h, fun g hread => ⟨snapshot_ids_nodup hread, snapshot_keys_nodup hread,
    fun e he => ?_, fun n hn => getNode_read hread hn, fun id hid => ?_, fun tr' s' h' heq => ?_⟩⟩
  · have hkeys := reachable_foreignKeys (c := c) ⟨_, _, rfl, h⟩
    have hedge : (s.edges.find? e.key).isSome := by
      have hmem := List.mem_map_of_mem (f := Edge.key) he
      rw [(readSnapshot_keys hread).2] at hmem
      obtain ⟨r, hr, hkey⟩ := List.mem_map.mp hmem
      exact hkey ▸ Option.isSome_of_eq_some (Table.find?_eq_some_iff.mpr hr)
    exact ⟨(mem_ids hread).mpr (hkeys.edge_src _ hedge), (mem_ids hread).mpr (hkeys.edge_dst _ hedge)⟩
  · rw [mem_ids hread, Option.not_isSome_iff_eq_none] at hid
    rw [Store.getNode, hid]
  · rw [readSnapshot_congr ((steps_facts h').trans (heq.trans (steps_facts h).symm)), hread]

theorem store_refines_missing :
    ((machine emptyPropsCodec).exec Store.empty [.putNode ⟨"a", "Symbol", .obj []⟩]).getNode
      emptyPropsCodec "b" = .ok none := by
  have hsteps := Machine.steps_exec (M := machine emptyPropsCodec) (s := Store.empty)
    fun _ (i : Op Json) (_ : i ∈ [Op.putNode ⟨"a", "Symbol", .obj []⟩]) => trivial
  obtain ⟨-, hgraph⟩ := store_refines hsteps
  obtain ⟨-, -, -, -, hmissing, -⟩ := hgraph ([⟨"a", "Symbol", .obj []⟩], []) (by rfl)
  exact hmissing "b" (by simp)

end GraphStore

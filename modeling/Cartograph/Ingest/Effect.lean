/-
What a load does to the graph.

A node that was not extracted is deleted when it is `Stale`; an edge that was not extracted is
deleted when the repository owns it or an endpoint goes.  Every fact of the extraction is
written, or was there already.  `LoadEffect` says so of the stores before and after, and what
follows uses nothing else of the load.

* `staleNode_iff` — which nodes the patch deletes;
* `load_effect` — a load that succeeds has this effect.
-/
import Cartograph.Ingest.Load

namespace Ingest

open GraphStore Investigation Checked

/-- The extraction has the endpoints of its edges. -/
def Extraction.Closed (extraction : Extraction) (repo : String) : Prop :=
  ∀ edge ∈ extraction.edges,
    Extracted extraction repo edge.src ∧ Extracted extraction repo edge.dst

/-- An edge of the store that the repository does not own. -/
def ForeignEdge (c : Codec Json) (repo : String) (s : Store) (k : EdgeKey) : Prop :=
  ∃ edge, storedEdge c s k = some edge ∧ factOwnedByRepo edge.props repo = false

/-- A node that was not extracted, in a namespace of the repository; or owned by its evidence,
or a placeholder, without an edge of others. -/
def Stale (c : Codec Json) (extraction : Extraction) (repo : String) (s : Store) (node : Node Json) :
    Prop :=
  ¬Extracted extraction repo node.id ∧
    (idExplicitlyOwnedByRepo node.id repo = true ∨
      ((factOwnedByRepo node.props repo = true ∨ placeholder node.props = true) ∧
        ¬∃ k, k.incident node.id = true ∧ ForeignEdge c repo s k))

def Deletes (c : Codec Json) (extraction : Extraction) (repo : String) (s : Store) (id : String) :
    Prop :=
  ∃ node, storedNode c s id = some node ∧ Stale c extraction repo s node

structure LoadEffect (c : Codec Json) (contentHash : String → Hash) (extraction : Extraction)
    (repo commit : String) (s s' : Store) : Prop where
  newNode : ∀ id node, (currentNodes contentHash extraction repo commit).find? id = some node →
    s'.nodes.find? id = some ⟨node.label, c.toText node.props⟩ ∨
      (s'.nodes.find? id = s.nodes.find? id ∧ (storedNode c s id == some node) = true)
  oldNode : ∀ id, ¬Extracted extraction repo id → ¬Deletes c extraction repo s id →
    s'.nodes.find? id = s.nodes.find? id
  goneNode : ∀ id, Deletes c extraction repo s id → s'.nodes.find? id = none
  newEdge : ∀ k edge, (mergeEdgeOccurrences contentHash extraction.edges).find? k = some edge →
    s'.edges.find? k = some (c.toText edge.props) ∨
      (s'.edges.find? k = s.edges.find? k ∧ (storedEdge c s k == some edge) = true)
  oldEdge : ∀ k, k ∉ extraction.edges.map Edge.key → ForeignEdge c repo s k →
    ¬Deletes c extraction repo s k.src → ¬Deletes c extraction repo s k.dst →
    s'.edges.find? k = s.edges.find? k
  goneEdge : ∀ k, k ∉ extraction.edges.map Edge.key → (s'.edges.find? k).isSome = true →
    s'.edges.find? k = s.edges.find? k ∧ ForeignEdge c repo s k ∧
      ¬Deletes c extraction repo s k.src ∧ ¬Deletes c extraction repo s k.dst

variable {edge : Edge Json} {node : Node Json} {stats : ReconcileStats}
  {expected : List (Node Json) × List (Edge Json)}

section Patch

variable {c : Codec Json} {contentHash : String → Hash} {extraction : Extraction}
  {repo commit : String} {s : Store} {existingNodes : Table String (Node Json)}
  {existingEdges : Table EdgeKey (Edge Json)} {k : EdgeKey} {id : String}

theorem extracted_of_incident (hclosed : extraction.Closed repo)
    (hk : k ∈ extraction.edges.map Edge.key) (hid : k.incident id = true) :
    Extracted extraction repo id := by
  obtain ⟨edge, hedge, rfl⟩ := List.mem_map.mp hk
  rcases EdgeKey.incident_iff.mp hid with rfl | rfl
  · exact (hclosed edge hedge).1
  · exact (hclosed edge hedge).2

theorem mem_keys_iff :
    k ∈ (mergeEdgeOccurrences contentHash extraction.edges).rows.map Prod.fst
      ↔ k ∈ extraction.edges.map Edge.key := by
  rw [← isSome_mergeEdgeOccurrences contentHash, Option.isSome_iff_exists,
    List.mem_map]
  constructor
  · rintro ⟨⟨k', edge⟩, hr, rfl⟩
    exact ⟨edge, Table.find?_eq_some_iff.mpr hr⟩
  · rintro ⟨edge, hedge⟩
    exact ⟨(k, edge), Table.find?_eq_some_iff.mp hedge, rfl⟩

theorem staleEdge_iff :
    staleEdge repo (mergeEdgeOccurrences contentHash extraction.edges) k edge = true
      ↔ factOwnedByRepo edge.props repo = true ∧ k ∉ extraction.edges.map Edge.key := by
  rw [staleEdge, Bool.and_eq_true, Option.isNone_iff_eq_none, ← isSome_mergeEdgeOccurrences
    contentHash, Option.not_isSome_iff_eq_none]

theorem any_remaining (contentHash : String → Hash)
    (hedges : ∀ k, existingEdges.find? k = storedEdge c s k) (hclosed : extraction.Closed repo)
    (hid : ¬Extracted extraction repo id) :
    (remainingEdgeKeys repo (mergeEdgeOccurrences contentHash extraction.edges) existingEdges).any
        (fun key => key.incident id) = true
      ↔ ∃ k, k.incident id = true ∧ ForeignEdge c repo s k := by
  rw [List.any_eq_true]
  constructor
  · rintro ⟨k, hk, hincident⟩
    have hnew : k ∉ extraction.edges.map Edge.key := fun h =>
      hid (extracted_of_incident hclosed h hincident)
    refine ⟨k, hincident, ?_⟩
    rcases List.mem_append.mp hk with hk | hk
    · obtain ⟨⟨k', edge⟩, hr, rfl⟩ := List.mem_map.mp hk
      obtain ⟨hr, hkept⟩ := List.mem_filter.mp hr
      refine ⟨edge, (hedges k').symm.trans (Table.find?_eq_some_iff.mpr hr), ?_⟩
      cases howned : factOwnedByRepo edge.props repo with
      | false => rfl
      | true =>
        rw [staleEdge_iff.mpr ⟨howned, hnew⟩] at hkept
        exact absurd hkept (by simp)
    · exact absurd (mem_keys_iff.mp hk) hnew
  · rintro ⟨k, hincident, edge, hedge, howned⟩
    refine ⟨k, List.mem_append_left _ (List.mem_map.mpr ⟨(k, edge), ?_, rfl⟩), hincident⟩
    refine List.mem_filter.mpr ⟨Table.find?_eq_some_iff.mp ((hedges k).trans hedge), ?_⟩
    simp [staleEdge, howned]

theorem staleNode_iff (hedges : ∀ k, existingEdges.find? k = storedEdge c s k)
    (hclosed : extraction.Closed repo) :
    staleNode repo (currentNodes contentHash extraction repo commit)
        (mergeEdgeOccurrences contentHash extraction.edges) existingEdges node.id node = true
      ↔ Stale c extraction repo s node := by
  have hcurrent : ((currentNodes contentHash extraction repo commit).find? node.id).isNone = true
      ↔ ¬Extracted extraction repo node.id := by
    rw [← isSome_currentNodes contentHash commit]
    cases (currentNodes contentHash extraction repo commit).find? node.id <;> simp
  unfold staleNode Stale
  rw [Bool.and_eq_true, hcurrent]
  refine and_congr_right fun hid => ?_
  rw [← any_remaining contentHash hedges hclosed hid]
  cases idExplicitlyOwnedByRepo node.id repo <;> cases factOwnedByRepo node.props repo <;>
    cases placeholder node.props <;> simp

theorem mem_deleteNodeIds (hnodes : ∀ id, existingNodes.find? id = storedNode c s id)
    (hedges : ∀ k, existingEdges.find? k = storedEdge c s k) (hclosed : extraction.Closed repo) :
    id ∈ (reconcilePatch repo (currentNodes contentHash extraction repo commit)
        (mergeEdgeOccurrences contentHash extraction.edges) existingNodes
        existingEdges).deleteNodeIds ↔ Deletes c extraction repo s id := by
  simp only [reconcilePatch, List.mem_map, List.mem_filter]
  constructor
  · rintro ⟨⟨id, node⟩, ⟨hr, hstale⟩, rfl⟩
    have hnode : storedNode c s id = some node :=
      (hnodes id).symm.trans (Table.find?_eq_some_iff.mpr hr)
    obtain rfl := storedNode_id hnode
    exact ⟨node, hnode, (staleNode_iff hedges hclosed).mp hstale⟩
  · rintro ⟨node, hnode, hstale⟩
    obtain rfl := storedNode_id hnode
    exact ⟨(node.id, node), ⟨Table.find?_eq_some_iff.mp ((hnodes _).trans hnode),
      (staleNode_iff hedges hclosed).mpr hstale⟩, rfl⟩

theorem mem_deleteEdges (hedges : ∀ k, existingEdges.find? k = storedEdge c s k)
    (nodes : Table String (Node Json)) :
    (k.src, k.dst, k.label) ∈ (reconcilePatch repo nodes
        (mergeEdgeOccurrences contentHash extraction.edges) existingNodes
        existingEdges).deleteEdges
      ↔ k ∉ extraction.edges.map Edge.key ∧
        ∃ edge, storedEdge c s k = some edge ∧ factOwnedByRepo edge.props repo = true := by
  simp only [reconcilePatch, List.mem_map, List.mem_filter]
  constructor
  · rintro ⟨⟨k', edge⟩, ⟨hr, hstale⟩, heq⟩
    have hedge : storedEdge c s k' = some edge :=
      (hedges k').symm.trans (Table.find?_eq_some_iff.mpr hr)
    have hkey : k' = k := by
      rw [← storedEdge_key hedge, Edge.key, ← EdgeKey.edgeKey_eta k]
      simp only [Prod.mk.injEq] at heq
      rw [heq.1, heq.2.1, heq.2.2]
    subst hkey
    obtain ⟨howned, hnew⟩ := staleEdge_iff.mp hstale
    exact ⟨List.mem_map.not.mp hnew, edge, hedge, howned⟩
  · rintro ⟨hnew, edge, hedge, howned⟩
    refine ⟨(k, edge), ⟨Table.find?_eq_some_iff.mp ((hedges k).trans hedge), ?_⟩, ?_⟩
    · exact staleEdge_iff.mpr ⟨howned, List.mem_map.not.mpr hnew⟩
    · rw [← storedEdge_key hedge]
      rfl

theorem lastWith_upsertNodes (hnodes : ∀ id, existingNodes.find? id = storedNode c s id)
    (edges : Table EdgeKey (Edge Json)) :
    lastWith Node.id id (reconcilePatch repo (currentNodes contentHash extraction repo commit)
        edges existingNodes existingEdges).upsertNodes = some node
      ↔ (currentNodes contentHash extraction repo commit).find? id = some node ∧
        (storedNode c s id == some node) = false := by
  have hkey : ∀ r ∈ (currentNodes contentHash extraction repo commit).rows, r.2.id = r.1 := by
    intro r hr
    exact currentNodes_id (Table.find?_eq_some_iff.mpr hr)
  have hids : ((currentNodes contentHash extraction repo commit).rows.map Prod.snd).map Node.id
      = (currentNodes contentHash extraction repo commit).rows.map Prod.fst := by
    rw [List.map_map]
    exact List.map_congr_left hkey
  have hnodup : ((reconcilePatch repo (currentNodes contentHash extraction repo commit) edges
      existingNodes existingEdges).upsertNodes.map Node.id).Nodup := by
    refine List.Nodup.sublist (List.Sublist.map _ List.filter_sublist) ?_
    rw [hids]
    exact Table.keys_nodup _
  rw [lastWith_eq_some hnodup]
  simp only [reconcilePatch, List.mem_filter, List.mem_map]
  constructor
  · rintro ⟨⟨⟨⟨id', node⟩, hr, rfl⟩, hdiff⟩, rfl⟩
    have hid := hkey _ hr
    simp only at hid hdiff ⊢
    rw [hid]
    refine ⟨Table.find?_eq_some_iff.mpr hr, ?_⟩
    rw [← hnodes, ← hid]
    simpa using hdiff
  · rintro ⟨hfind, hdiff⟩
    have hid := currentNodes_id hfind
    refine ⟨⟨⟨(id, node), Table.find?_eq_some_iff.mp hfind, rfl⟩, ?_⟩, hid⟩
    rw [hid, hnodes, hdiff]
    rfl

theorem lastWith_upsertEdges (hedges : ∀ k, existingEdges.find? k = storedEdge c s k)
    (nodes : Table String (Node Json)) :
    lastWith Edge.key k (reconcilePatch repo nodes
        (mergeEdgeOccurrences contentHash extraction.edges) existingNodes
        existingEdges).upsertEdges = some edge
      ↔ (mergeEdgeOccurrences contentHash extraction.edges).find? k = some edge ∧
        (storedEdge c s k == some edge) = false := by
  have hkey : ∀ r ∈ (mergeEdgeOccurrences contentHash extraction.edges).rows, r.2.key = r.1 := by
    intro r hr
    obtain ⟨g, hg, hr⟩ := find?_mergeEdgeOccurrences.mp (Table.find?_eq_some_iff.mpr hr)
    rw [hr, mergeEdgeGroup_key, last_key hg]
  have hnodup : ((reconcilePatch repo nodes (mergeEdgeOccurrences contentHash extraction.edges)
      existingNodes existingEdges).upsertEdges.map Edge.key).Nodup := by
    have hrows := (mergeEdgeOccurrences contentHash extraction.edges).keys_nodup
    simp only [reconcilePatch, List.map_map]
    rw [List.map_congr_left (g := Prod.fst)]
    · exact hrows.sublist (List.Sublist.map _ List.filter_sublist)
    · intro r hr
      exact hkey r (List.mem_of_mem_filter hr)
  rw [lastWith_eq_some hnodup]
  simp only [reconcilePatch, List.mem_filter, List.mem_map]
  constructor
  · rintro ⟨⟨⟨k', edge⟩, ⟨hr, hdiff⟩, rfl⟩, rfl⟩
    have hk := hkey _ hr
    simp only at hk hdiff ⊢
    rw [hk]
    refine ⟨Table.find?_eq_some_iff.mpr hr, ?_⟩
    rw [← hedges]
    simpa using hdiff
  · rintro ⟨hfind, hdiff⟩
    refine ⟨⟨(k, edge), ⟨Table.find?_eq_some_iff.mp hfind, ?_⟩, rfl⟩,
      hkey _ (Table.find?_eq_some_iff.mp hfind)⟩
    simp only [hedges, hdiff, Bool.not_false]

end Patch

/-! ### A load that succeeds -/

section Load

variable {c : Codec Json} {contentHash : String → Hash} {extraction : Extraction}
  {repo commit : String} {bindings : List SourceBinding} {s s' : Store}

theorem insertBindings_facts {repoKey : String} : ∀ (l : List SourceBinding) {s s' : Store},
    l.foldlM (Store.insertBinding c repoKey) s = .ok s' →
      s'.nodes = s.nodes ∧ s'.edges = s.edges
  | [], s, s', h => by
    rw [List.foldlM_nil, pure_eq_ok] at h
    rw [h]
    exact ⟨rfl, rfl⟩
  | b :: l, s, s', h => by
    rw [List.foldlM_cons, bind_eq_ok] at h
    obtain ⟨s1, h1, h2⟩ := h
    obtain ⟨-, -, rfl⟩ := insertBinding_eq_ok.mp h1
    obtain ⟨hnodes, hedges⟩ := insertBindings_facts l h2
    rw [hnodes, hedges]
    cases b.fact with
    | node id | edge source label destination => exact ⟨rfl, rfl⟩

theorem load_ok (h : loadIntoGraphWithBindings c contentHash extraction repo commit bindings s
      = (s', .ok stats)) :
    ∃ expected, s.readSnapshot c = .ok expected ∧
      s.applyPatchWithSourceBindings c expected
        (reconcile contentHash extraction repo commit expected).1 repo bindings
          = (s', .ok true) := by
  unfold loadIntoGraphWithBindings at h
  cases hread : s.readSnapshot c with
  | error e =>
    rw [hread] at h
    exact absurd (congrArg Prod.snd h) (by simp)
  | ok expected =>
    rw [hread] at h
    simp only at h
    refine ⟨expected, rfl, ?_⟩
    split at h
    · next s1 hs1 =>
      obtain rfl : s1 = s' := congrArg Prod.fst h
      exact hs1
    · exact absurd (congrArg Prod.snd h) (by simp)
    · exact absurd (congrArg Prod.snd h) (by simp)

theorem publication_facts (hk : s.ForeignKeys) {p : GraphPatch Json}
    (h : s.applyPatchWithSourceBindings c expected p repo bindings = (s', .ok true)) :
    s'.nodes.find? = (s.view.patch c p).node ∧ s'.edges.find? = (s.view.patch c p).edge := by
  obtain ⟨-, g, -, -, -, s1, h1, h2⟩ := applyPatchWithSourceBindings_eq_ok.mp h
  obtain ⟨-, hview⟩ := (applyPatchRows_spec (removeRepoBindings_foreignKeys hk repo) p).mp h1
  obtain ⟨hnodes, hedges⟩ := insertBindings_facts bindings h2
  rw [hnodes, hedges]
  exact ⟨congrArg View.node hview, congrArg View.edge hview⟩

/-- The patch of a load, read off its lists. -/
structure PatchSpec (c : Codec Json) (contentHash : String → Hash) (extraction : Extraction)
    (repo commit : String) (s : Store) (p : GraphPatch Json) : Prop where
  dropNode : ∀ id, id ∈ p.deleteNodeIds ↔ Deletes c extraction repo s id
  dropEdge : ∀ k : EdgeKey, (k.src, k.dst, k.label) ∈ p.deleteEdges ↔
    k ∉ extraction.edges.map Edge.key ∧
      ∃ edge, storedEdge c s k = some edge ∧ factOwnedByRepo edge.props repo = true
  writeNode : ∀ id node, lastWith Node.id id p.upsertNodes = some node ↔
    (currentNodes contentHash extraction repo commit).find? id = some node ∧
      (storedNode c s id == some node) = false
  writeEdge : ∀ k edge, lastWith Edge.key k p.upsertEdges = some edge ↔
    (mergeEdgeOccurrences contentHash extraction.edges).find? k = some edge ∧
      (storedEdge c s k == some edge) = false

theorem reconcile_spec (hread : s.readSnapshot c = .ok expected) (hclosed : extraction.Closed repo)
    :
    PatchSpec c contentHash extraction repo commit s
      (reconcile contentHash extraction repo commit expected).1 where
  dropNode _ := mem_deleteNodeIds (existing_nodes hread) (existing_edges hread) hclosed
  dropEdge _ := mem_deleteEdges (existing_edges hread) _
  writeNode _ _ := lastWith_upsertNodes (existing_nodes hread) _
  writeEdge _ _ := lastWith_upsertEdges (existing_edges hread) _

variable {p : GraphPatch Json} {id : String} {k : EdgeKey}

section

variable (hp : PatchSpec c contentHash extraction repo commit s p)
include hp

theorem PatchSpec.notMem_nodes
    (hid : ¬Extracted extraction repo id) : id ∉ p.upsertNodes.map Node.id := by
  rw [← lastWith_eq_none, Option.eq_none_iff_forall_ne_some]
  intro node hnode
  obtain ⟨hfind, -⟩ := (hp.writeNode id node).mp hnode
  exact hid ((isSome_currentNodes contentHash commit).mp (by rw [hfind]; rfl))

theorem PatchSpec.notMem_edges
    (hnew : k ∉ extraction.edges.map Edge.key) : k ∉ p.upsertEdges.map Edge.key := by
  rw [← lastWith_eq_none, Option.eq_none_iff_forall_ne_some]
  intro edge hedge
  obtain ⟨hfind, -⟩ := (hp.writeEdge k edge).mp hedge
  exact hnew ((isSome_mergeEdgeOccurrences contentHash).mp (by rw [hfind]; rfl))

theorem PatchSpec.dropsEdge_iff :
    p.dropsEdge k ↔
      (k ∉ extraction.edges.map Edge.key ∧
        ∃ edge, storedEdge c s k = some edge ∧ factOwnedByRepo edge.props repo = true) ∨
      Deletes c extraction repo s k.src ∨ Deletes c extraction repo s k.dst := by
  rw [GraphPatch.dropsEdge, hp.dropEdge, hp.dropNode, hp.dropNode]

end

theorem not_deletes_of_extracted (hid : Extracted extraction repo id) :
    ¬Deletes c extraction repo s id := by
  rintro ⟨node, hnode, hstale, -⟩
  rw [storedNode_id hnode] at hstale
  exact hstale hid

theorem load_effect (hk : s.ForeignKeys) (hclosed : extraction.Closed repo)
    (h : loadIntoGraphWithBindings c contentHash extraction repo commit bindings s
      = (s', .ok stats)) :
    LoadEffect c contentHash extraction repo commit s s' := by
  obtain ⟨expected, hread, hpublish⟩ := load_ok h
  obtain ⟨hnodes, hedges⟩ := publication_facts hk hpublish
  have hp : PatchSpec c contentHash extraction repo commit s _ := reconcile_spec hread hclosed
  generalize (reconcile contentHash extraction repo commit expected).1 = p at hp hnodes hedges
  refine ⟨?_, ?_, ?_, ?_, ?_, ?_⟩
  · intro id node hnode
    -- written, or stored as it is and left alone
    have hid : Extracted extraction repo id :=
      (isSome_currentNodes contentHash commit).mp (by rw [hnode]; rfl)
    cases hsame : storedNode c s id == some node with
    | false =>
      left
      rw [hnodes]
      simp only [View.patch, (hp.writeNode id node).mpr ⟨hnode, hsame⟩]
    | true =>
      right
      refine ⟨?_, rfl⟩
      have hup : id ∉ p.upsertNodes.map Node.id := notMem_of_same (hp.writeNode id) hnode hsame
      rw [hnodes, patch_node_of_notMem hup fun hdel =>
        not_deletes_of_extracted hid ((hp.dropNode id).mp hdel)]
      rfl
  · intro id hid hkept
    rw [hnodes, patch_node_of_notMem (hp.notMem_nodes hid) fun hdel =>
      hkept ((hp.dropNode id).mp hdel)]
    rfl
  · rintro id ⟨node, hnode, hstale⟩
    have hid : ¬Extracted extraction repo id := storedNode_id hnode ▸ hstale.1
    have hdel := (hp.dropNode id).mpr ⟨node, hnode, hstale⟩
    rw [hnodes]
    simp [View.patch, lastWith_eq_none.mpr (hp.notMem_nodes hid), View.afterDeletes, View.without,
      GraphPatch.dropsNode, hdel]
  · intro k edge hedge
    have hkey : k ∈ extraction.edges.map Edge.key :=
      (isSome_mergeEdgeOccurrences contentHash).mp (by rw [hedge]; rfl)
    cases hsame : storedEdge c s k == some edge with
    | false =>
      left
      rw [hedges]
      simp only [View.patch, (hp.writeEdge k edge).mpr ⟨hedge, hsame⟩]
    | true =>
      right
      refine ⟨?_, rfl⟩
      have hup : k ∉ p.upsertEdges.map Edge.key := notMem_of_same (hp.writeEdge k) hedge hsame
      have hkept : ¬p.dropsEdge k := by
        -- the endpoints of an extracted edge are extracted
        rw [hp.dropsEdge_iff]
        rintro (⟨hnew, -⟩ | hsrc | hdst)
        · exact hnew hkey
        · exact not_deletes_of_extracted
            (extracted_of_incident hclosed hkey (by simp)) hsrc
        · exact not_deletes_of_extracted
            (extracted_of_incident hclosed hkey (by simp)) hdst
      rw [hedges, patch_edge_of_notMem hup hkept]
      rfl
  · rintro k hnew ⟨edge, hedge, howned⟩ hsrc hdst
    have hkept : ¬p.dropsEdge k := by
      rw [hp.dropsEdge_iff]
      rintro (⟨-, edge', hedge', howned'⟩ | hdel | hdel)
      · rw [hedge, Option.some_inj] at hedge'
        rw [← hedge', howned] at howned'
        exact absurd howned' (by simp)
      · exact hsrc hdel
      · exact hdst hdel
    rw [hedges, patch_edge_of_notMem (hp.notMem_edges hnew) hkept]
    rfl
  · intro k hnew hsome
    have hkept : ¬p.dropsEdge k := by
      intro hdrop
      rw [hedges] at hsome
      simp [View.patch, lastWith_eq_none.mpr (hp.notMem_edges hnew), View.afterDeletes,
        View.without, hdrop] at hsome
    have hsame : s'.edges.find? k = s.edges.find? k := by
      rw [hedges, patch_edge_of_notMem (hp.notMem_edges hnew) hkept]
      rfl
    -- an owned edge would have been stale
    rw [hp.dropsEdge_iff, not_or, not_or] at hkept
    obtain ⟨hfresh, hsrc, hdst⟩ := hkept
    refine ⟨hsame, ?_, hsrc, hdst⟩
    rw [hsame] at hsome
    obtain ⟨text, htext⟩ := Option.isSome_iff_exists.mp hsome
    obtain ⟨edge, hedge⟩ := storedEdge_of_row hread htext
    refine ⟨edge, hedge, ?_⟩
    cases howned : factOwnedByRepo edge.props repo with
    | false => rfl
    | true => exact absurd ⟨hnew, edge, hedge, howned⟩ hfresh

end Load

end Ingest

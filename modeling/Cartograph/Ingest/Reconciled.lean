/-
The graph after a load.

`Reconciled` says what a load is for: the extraction is stored, what the repository owned and
no longer has is gone, the rest is as it was, and a second load of the same extraction has
nothing to do.  The nodes a load deletes take their edges with them, whoever owns these, and
whether a node is still referred to is asked before that.  `NoneStranded` rules out a node that
loses its last edge in this way; it is exactly what a load needs.

* `LoadEffect.node_stored`, `LoadEffect.edge_stored` — the extraction is stored;
* `LoadEffect.referenced_iff` — no stale node is left behind exactly when none is stranded;
* `reload_empty` — a second load has an empty patch;
* `reconciled_iff_noneStranded` — the result, and `backing_edge_strands_channel`, a load that
  leaves a channel behind.
-/
import Cartograph.Ingest.Effect
import Cartograph.SourceBindings

namespace Ingest

open GraphStore Investigation Checked

/-- The text of a value is read back as an equal value. -/
def ReadsBack (c : Codec Json) (v : Json) : Prop :=
  ∃ v', c.fromText (c.toText v) = some v' ∧ (v' == v) = true

/-- The values a load may write are read back from their texts. -/
structure PublishedReadBack (c : Codec Json) (contentHash : String → Hash)
    (extraction : Extraction) (repo commit : String) : Prop where
  node : ∀ id node, (currentNodes contentHash extraction repo commit).find? id = some node →
    ReadsBack c node.props
  edge : ∀ k edge, (mergeEdgeOccurrences contentHash extraction.edges).find? k = some edge →
    ReadsBack c edge.props

/-- What a load is for. -/
structure Reconciled (c : Codec Json) (contentHash : String → Hash) (extraction : Extraction)
    (repo commit : String) (s s' : Store) : Prop where
  /-- The last node of an id is stored, the `Repo` node after those of the extraction. -/
  nodes : ∀ id node,
    lastWith Node.id id (extraction.nodes ++ [repoNode contentHash repo commit]) = some node →
      ∃ stored, storedNode c s' id = some stored ∧ (stored == node) = true
  /-- The occurrences of an edge are stored as one edge. -/
  edges : ∀ k (g : Occurrences), g.all = extraction.edges.filter (·.key = k) →
    ∃ stored, storedEdge c s' k = some stored ∧ (stored == mergeEdgeGroup contentHash g) = true
  ownedEdges : ∀ k edge, storedEdge c s' k = some edge → factOwnedByRepo edge.props repo = true →
    k ∈ extraction.edges.map Edge.key
  namespaces : ∀ id, (s'.nodes.find? id).isSome = true → idExplicitlyOwnedByRepo id repo = true →
    Extracted extraction repo id
  /-- A node owned by its evidence, and a placeholder, is an endpoint of an edge. -/
  referenced : ∀ id node, storedNode c s' id = some node → ¬Extracted extraction repo id →
    factOwnedByRepo node.props repo = true ∨ placeholder node.props = true →
    ∃ k, (s'.edges.find? k).isSome = true ∧ k.incident id = true
  otherNodes : ∀ id, ¬Extracted extraction repo id →
    (∀ node, storedNode c s id = some node → idExplicitlyOwnedByRepo id repo = false ∧
      factOwnedByRepo node.props repo = false ∧ placeholder node.props = false) →
    s'.nodes.find? id = s.nodes.find? id
  otherEdges : ∀ k, k ∉ extraction.edges.map Edge.key →
    (∀ edge, storedEdge c s k = some edge → factOwnedByRepo edge.props repo = false) →
    (∀ id, k.incident id = true → (s.nodes.find? id).isSome = true →
      (s'.nodes.find? id).isSome = true) → s'.edges.find? k = s.edges.find? k
  /-- Loading the extraction again has an empty patch and changes no fact. -/
  again : ∃ expected, s'.readSnapshot c = .ok expected ∧
    (reconcile contentHash extraction repo commit expected).1 = {} ∧
    (reconcile contentHash extraction repo commit expected).2.deleted = 0 ∧
    ∀ bindings,
      (loadIntoGraphWithBindings c contentHash extraction repo commit bindings s').1.nodes
          = s'.nodes ∧
        (loadIntoGraphWithBindings c contentHash extraction repo commit bindings s').1.edges
          = s'.edges

/-- A node the repository owns by its evidence, or a placeholder, that others refer to keeps
one of these edges: one without a node that is stale in a namespace of the repository. -/
def NoneStranded (c : Codec Json) (extraction : Extraction) (repo : String) (s : Store) : Prop :=
  ∀ id node, storedNode c s id = some node → ¬Extracted extraction repo id →
    idExplicitlyOwnedByRepo id repo = false →
    factOwnedByRepo node.props repo = true ∨ placeholder node.props = true →
    (∃ k, k.incident id = true ∧ ForeignEdge c repo s k) →
    ∃ k, k.incident id = true ∧ ForeignEdge c repo s k ∧
      ∀ id', k.incident id' = true → idExplicitlyOwnedByRepo id' repo = true →
        Extracted extraction repo id'

/-! ### Stored facts -/

variable {id : String} {k : EdgeKey} {node : Node Json} {edge : Edge Json}
  {expected : List (Node Json) × List (Edge Json)}

section Facts

variable {c : Codec Json} {contentHash : String → Hash} {extraction : Extraction}
  {repo commit : String} {s s' : Store}

theorem node_beq (id label : String) (v v' : Json) :
    ((⟨id, label, v⟩ : Node Json) == ⟨id, label, v'⟩) = (v == v') := by
  show (id == id && (label == label && v == v')) = (v == v')
  simp

theorem edge_beq (src dst label : String) (v v' : Json) :
    ((⟨src, dst, label, v⟩ : Edge Json) == ⟨src, dst, label, v'⟩) = (v == v') := by
  show (src == src && (dst == dst && (label == label && v == v'))) = (v == v')
  simp

theorem of_beq_some {α : Type} [BEq α] {o : Option α} {a : α} (h : (o == some a) = true) :
    ∃ b, o = some b ∧ (b == a) = true := by
  cases o with
  | none => exact absurd h (by simp)
  | some b => exact ⟨b, rfl, h⟩

theorem storedNode_congr (h : s'.nodes.find? id = s.nodes.find? id) :
    storedNode c s' id = storedNode c s id := by
  rw [storedNode, storedNode, h]

theorem storedEdge_congr (h : s'.edges.find? k = s.edges.find? k) :
    storedEdge c s' k = storedEdge c s k := by
  rw [storedEdge, storedEdge, h]

theorem isSome_of_storedNode (h : storedNode c s id = some node) :
    (s.nodes.find? id).isSome = true := by
  obtain ⟨row, hrow, -⟩ := Option.bind_eq_some_iff.mp h
  rw [hrow]
  rfl

theorem isSome_of_storedEdge (h : storedEdge c s k = some edge) :
    (s.edges.find? k).isSome = true := by
  obtain ⟨text, htext, -⟩ := Option.bind_eq_some_iff.mp h
  rw [htext]
  rfl

namespace LoadEffect

variable (h : LoadEffect c contentHash extraction repo commit s s')

include h

section

variable (hback : PublishedReadBack c contentHash extraction repo commit)
include hback

theorem node_stored
    (hnode : (currentNodes contentHash extraction repo commit).find? id = some node) :
    ∃ stored, storedNode c s' id = some stored ∧ (stored == node) = true := by
  rcases h.newNode id node hnode with hrow | ⟨hsame, heq⟩
  · obtain ⟨v, hv, hveq⟩ := hback.node id node hnode
    obtain rfl := currentNodes_id hnode
    refine ⟨⟨node.id, node.label, v⟩, ?_, ?_⟩
    · rw [storedNode, hrow, Option.bind_some, hv]
      rfl
    · rw [node_beq]
      exact hveq
  · rw [storedNode_congr hsame]
    exact of_beq_some heq

theorem edge_stored
    (hedge : (mergeEdgeOccurrences contentHash extraction.edges).find? k = some edge) :
    ∃ stored, storedEdge c s' k = some stored ∧ (stored == edge) = true := by
  rcases h.newEdge k edge hedge with hrow | ⟨hsame, heq⟩
  · obtain ⟨v, hv, hveq⟩ := hback.edge k edge hedge
    obtain ⟨g, hg, hgedge⟩ := find?_mergeEdgeOccurrences.mp hedge
    have hkey : edge.key = k := by rw [hgedge, mergeEdgeGroup_key, last_key hg]
    obtain rfl := hkey
    refine ⟨⟨edge.src, edge.dst, edge.label, v⟩, ?_, ?_⟩
    · rw [storedEdge, hrow, Option.bind_some, hv]
      rfl
    · rw [edge_beq]
      exact hveq
  · rw [storedEdge_congr hsame]
    exact of_beq_some heq

end

/-- A node that was not extracted and is there after the load was there before, and is not
deleted. -/
theorem kept_node (hid : ¬Extracted extraction repo id) (hsome : (s'.nodes.find? id).isSome = true)
    :
    ¬Deletes c extraction repo s id ∧ s'.nodes.find? id = s.nodes.find? id := by
  have hkept : ¬Deletes c extraction repo s id := by
    intro hdel
    rw [h.goneNode id hdel] at hsome
    exact absurd hsome (by simp)
  exact ⟨hkept, h.oldNode id hid hkept⟩

theorem owned_edge_extracted (hedge : storedEdge c s' k = some edge)
    (howned : factOwnedByRepo edge.props repo = true) :
    k ∈ extraction.edges.map Edge.key := by
  by_contra hnew
  obtain ⟨hsame, ⟨edge', hedge', hforeign⟩, -⟩ := h.goneEdge k hnew (isSome_of_storedEdge hedge)
  rw [storedEdge_congr hsame, hedge', Option.some_inj] at hedge
  rw [← hedge, hforeign] at howned
  exact absurd howned (by simp)

theorem namespace_extracted (hread : s.readSnapshot c = .ok expected)
    (hsome : (s'.nodes.find? id).isSome = true) (hid : idExplicitlyOwnedByRepo id repo = true) :
    Extracted extraction repo id := by
  by_contra hnew
  obtain ⟨hkept, hsame⟩ := h.kept_node hnew hsome
  rw [hsame] at hsome
  obtain ⟨row, hrow⟩ := Option.isSome_iff_exists.mp hsome
  obtain ⟨node, hnode⟩ := storedNode_of_row hread hrow
  have hnodeId := storedNode_id hnode
  exact hkept ⟨node, hnode, hnodeId ▸ hnew, .inl (hnodeId ▸ hid)⟩

theorem incident_after (hclosed : extraction.Closed repo) (hid : ¬Extracted extraction repo id)
    (hincident : k.incident id = true) :
    (s'.edges.find? k).isSome = true ↔ ForeignEdge c repo s k ∧
      ¬Deletes c extraction repo s k.src ∧ ¬Deletes c extraction repo s k.dst := by
  have hnew : k ∉ extraction.edges.map Edge.key := fun hk =>
    hid (extracted_of_incident hclosed hk hincident)
  constructor
  · intro hsome
    exact (h.goneEdge k hnew hsome).2
  · rintro ⟨hforeign, hsrc, hdst⟩
    rw [h.oldEdge k hnew hforeign hsrc hdst]
    obtain ⟨edge, hedge, -⟩ := hforeign
    exact isSome_of_storedEdge hedge

end LoadEffect

/-- Of the endpoints of an edge of others, a load deletes those in the namespaces of the
repository. -/
theorem deletes_endpoint (hforeign : ForeignEdge c repo s k) (hincident : k.incident id = true)
    (hdel : Deletes c extraction repo s id) :
    ¬Extracted extraction repo id ∧ idExplicitlyOwnedByRepo id repo = true := by
  obtain ⟨node, hnode, hnew, hstale⟩ := hdel
  have hid := storedNode_id hnode
  rw [hid] at hnew hstale
  refine ⟨hnew, ?_⟩
  rcases hstale with hexplicit | ⟨-, hnone⟩
  · exact hexplicit
  · exact absurd ⟨k, hincident, hforeign⟩ hnone

theorem LoadEffect.referenced_iff (h : LoadEffect c contentHash extraction repo commit s s')
    (hk : s.ForeignKeys) (hclosed : extraction.Closed repo)
    (hread : s.readSnapshot c = .ok expected) :
    (∀ id node, storedNode c s' id = some node → ¬Extracted extraction repo id →
      factOwnedByRepo node.props repo = true ∨ placeholder node.props = true →
      ∃ k, (s'.edges.find? k).isSome = true ∧ k.incident id = true)
      ↔ NoneStranded c extraction repo s := by
  constructor
  · intro href id node hnode hnew hexplicit howned hedge
    -- a node with an edge of others is not deleted
    have hkept : ¬Deletes c extraction repo s id := by
      rintro ⟨node', hnode', -, hstale⟩
      rw [hnode, Option.some_inj] at hnode'
      subst hnode'
      rw [storedNode_id hnode] at hstale
      rcases hstale with hid | ⟨-, hnone⟩
      · rw [hexplicit] at hid
        exact absurd hid (by simp)
      · exact hnone hedge
    have hsame := storedNode_congr (c := c) (h.oldNode id hnew hkept)
    obtain ⟨k, hsome, hincident⟩ := href id node (hsame.trans hnode) hnew howned
    obtain ⟨hforeign, hsrc, hdst⟩ := (h.incident_after hclosed hnew hincident).mp hsome
    refine ⟨k, hincident, hforeign, ?_⟩
    -- a stale endpoint in a namespace of the repository would have taken the edge with it
    intro id' hincident' hexplicit'
    by_contra hnew'
    obtain ⟨edge, hedge', -⟩ := hforeign
    have hrow : (s.nodes.find? id').isSome = true := by
      have hk' := isSome_of_storedEdge hedge'
      rcases EdgeKey.incident_iff.mp hincident' with rfl | rfl
      · exact hk.edge_src k hk'
      · exact hk.edge_dst k hk'
    obtain ⟨row, hrow⟩ := Option.isSome_iff_exists.mp hrow
    obtain ⟨node', hnode'⟩ := storedNode_of_row hread hrow
    have hid' := storedNode_id hnode'
    have hdel : Deletes c extraction repo s id' :=
      ⟨node', hnode', hid' ▸ hnew', .inl (hid' ▸ hexplicit')⟩
    rcases EdgeKey.incident_iff.mp hincident' with rfl | rfl
    · exact hsrc hdel
    · exact hdst hdel
  · intro hnone id node hnode hnew howned
    obtain ⟨hkept, hsame⟩ := h.kept_node hnew (isSome_of_storedNode hnode)
    rw [storedNode_congr hsame] at hnode
    have hid := storedNode_id hnode
    have hexplicit : idExplicitlyOwnedByRepo id repo = false := by
      cases hexplicit : idExplicitlyOwnedByRepo id repo with
      | false => rfl
      | true => exact absurd ⟨node, hnode, hid ▸ hnew, .inl (hid ▸ hexplicit)⟩ hkept
    -- it was kept, so an edge referred to it
    have hedge : ∃ k, k.incident id = true ∧ ForeignEdge c repo s k := by
      by_contra hnoedge
      exact hkept ⟨node, hnode, hid ▸ hnew, .inr ⟨howned, hid ▸ hnoedge⟩⟩
    obtain ⟨k, hincident, hforeign, hend⟩ := hnone id node hnode hnew hexplicit howned hedge
    refine ⟨k, (h.incident_after hclosed hnew hincident).mpr ⟨hforeign, ?_, ?_⟩, hincident⟩
    · intro hdel
      obtain ⟨hnew', hexplicit'⟩ := deletes_endpoint hforeign (by simp) hdel
      exact hnew' (hend k.src (by simp) hexplicit')
    · intro hdel
      obtain ⟨hnew', hexplicit'⟩ := deletes_endpoint hforeign (by simp) hdel
      exact hnew' (hend k.dst (by simp) hexplicit')

/-! ### Loading again -/

theorem readSnapshot_of_rows
    (hnodes : ∀ id row, s.nodes.find? id = some row → ∃ v, c.fromText row.props = some v)
    (hedges : ∀ k text, s.edges.find? k = some text → ∃ v, c.fromText text = some v) :
    ∃ expected, s.readSnapshot c = .ok expected := by
  obtain ⟨nodes, hn⟩ : ∃ nodes, s.readNodes c = .ok nodes := by
    refine mapM_ok ?_
    intro r hr
    obtain ⟨v, hv⟩ := hnodes r.1 r.2 (Table.find?_eq_some_iff.mpr hr)
    exact ⟨⟨r.1, r.2.label, v⟩, by rw [hv]; rfl⟩
  obtain ⟨edges, he⟩ : ∃ edges, s.readEdges c = .ok edges := by
    refine mapM_ok ?_
    intro r hr
    obtain ⟨v, hv⟩ := hedges r.1 r.2 (Table.find?_eq_some_iff.mpr hr)
    exact ⟨⟨r.1.src, r.1.dst, r.1.label, v⟩, by rw [hv]; rfl⟩
  refine ⟨(nodes, edges), ?_⟩
  simp only [Store.readSnapshot, bind_eq_ok, pure_eq_ok]
  exact ⟨nodes, hn, edges, he, rfl⟩

theorem text_of_storedNode {row : NodeRow} (hrow : s.nodes.find? id = some row)
    (h : storedNode c s id = some node) :
    ∃ v, c.fromText row.props = some v := by
  rw [storedNode, hrow, Option.bind_some, Option.map_eq_some_iff] at h
  obtain ⟨v, hv, -⟩ := h
  exact ⟨v, hv⟩

theorem text_of_storedEdge {text : String} (hrow : s.edges.find? k = some text)
    (h : storedEdge c s k = some edge) :
    ∃ v, c.fromText text = some v := by
  rw [storedEdge, hrow, Option.bind_some, Option.map_eq_some_iff] at h
  obtain ⟨v, hv, -⟩ := h
  exact ⟨v, hv⟩

theorem LoadEffect.readable (h : LoadEffect c contentHash extraction repo commit s s')
    (hback : PublishedReadBack c contentHash extraction repo commit)
    (hread : s.readSnapshot c = .ok expected) :
    ∃ expected', s'.readSnapshot c = .ok expected' := by
  refine readSnapshot_of_rows ?_ ?_
  · intro id row hrow
    by_cases hid : Extracted extraction repo id
    · obtain ⟨node, hnode⟩ :=
        Option.isSome_iff_exists.mp ((isSome_currentNodes contentHash commit).mpr hid)
      obtain ⟨stored, hstored, -⟩ := h.node_stored hback hnode
      exact text_of_storedNode hrow hstored
    · obtain ⟨-, hsame⟩ := h.kept_node hid (by rw [hrow]; rfl)
      obtain ⟨node, hnode⟩ := storedNode_of_row hread (hsame.symm.trans hrow)
      exact text_of_storedNode (hsame.symm.trans hrow) hnode
  · intro k text hrow
    by_cases hk : k ∈ extraction.edges.map Edge.key
    · obtain ⟨edge, hedge⟩ :=
        Option.isSome_iff_exists.mp ((isSome_mergeEdgeOccurrences contentHash).mpr hk)
      obtain ⟨stored, hstored, -⟩ := h.edge_stored hback hedge
      exact text_of_storedEdge hrow hstored
    · obtain ⟨hsame, -⟩ := h.goneEdge k hk (by rw [hrow]; rfl)
      obtain ⟨edge, hedge⟩ := storedEdge_of_row hread (hsame.symm.trans hrow)
      exact text_of_storedEdge (hsame.symm.trans hrow) hedge

variable {p : GraphPatch Json}

theorem PatchSpec.eq_empty
    (hp : PatchSpec c contentHash extraction repo commit s p)
    (hnodes : ∀ id node, (currentNodes contentHash extraction repo commit).find? id = some node →
      (storedNode c s id == some node) = true)
    (hedges : ∀ k edge, (mergeEdgeOccurrences contentHash extraction.edges).find? k = some edge →
      (storedEdge c s k == some edge) = true)
    (hgone : ∀ id, ¬Deletes c extraction repo s id)
    (howned : ∀ k edge, storedEdge c s k = some edge → factOwnedByRepo edge.props repo = true →
      k ∈ extraction.edges.map Edge.key) : p = {} := by
  have hupNodes : p.upsertNodes = [] := by
    refine List.eq_nil_iff_forall_not_mem.mpr fun node hnode => ?_
    obtain ⟨node', hnode'⟩ : ∃ node', lastWith Node.id node.id p.upsertNodes = some node' :=
      Option.isSome_iff_exists.mp (lastWith_isSome.mpr ⟨node, hnode, rfl⟩)
    obtain ⟨hfind, hdiff⟩ := (hp.writeNode _ _).mp hnode'
    rw [hnodes _ _ hfind] at hdiff
    exact absurd hdiff (by simp)
  have hupEdges : p.upsertEdges = [] := by
    refine List.eq_nil_iff_forall_not_mem.mpr fun edge hedge => ?_
    obtain ⟨edge', hedge'⟩ : ∃ edge', lastWith Edge.key edge.key p.upsertEdges = some edge' :=
      Option.isSome_iff_exists.mp (lastWith_isSome.mpr ⟨edge, hedge, rfl⟩)
    obtain ⟨hfind, hdiff⟩ := (hp.writeEdge _ _).mp hedge'
    rw [hedges _ _ hfind] at hdiff
    exact absurd hdiff (by simp)
  have hdelNodes : p.deleteNodeIds = [] := by
    refine List.eq_nil_iff_forall_not_mem.mpr fun id hid => ?_
    exact hgone id ((hp.dropNode id).mp hid)
  have hdelEdges : p.deleteEdges = [] := by
    refine List.eq_nil_iff_forall_not_mem.mpr fun key hkey => ?_
    obtain ⟨hnew, edge, hedge, ho⟩ := (hp.dropEdge (edgeKey key.1 key.2.1 key.2.2)).mp hkey
    exact hnew (howned _ edge hedge ho)
  obtain ⟨upsertNodes, upsertEdges, deleteNodeIds, deleteEdges⟩ := p
  simp only at hupNodes hupEdges hdelNodes hdelEdges
  rw [hupNodes, hupEdges, hdelNodes, hdelEdges]

theorem patch_empty (c : Codec Json) (g : View) :
    (g.patch c ({} : GraphPatch Json)).node = g.node
      ∧ (g.patch c ({} : GraphPatch Json)).edge = g.edge := by
  constructor
  · funext id
    exact patch_node_of_notMem (by simp) (by simp)
  · funext k
    exact patch_edge_of_notMem (by simp) (by simp [GraphPatch.dropsEdge])

theorem load_of_empty (hk : s.ForeignKeys) (hread : s.readSnapshot c = .ok expected)
    (hempty : (reconcile contentHash extraction repo commit expected).1 = {})
    (bindings : List SourceBinding) :
    (loadIntoGraphWithBindings c contentHash extraction repo commit bindings s).1.nodes = s.nodes ∧
      (loadIntoGraphWithBindings c contentHash extraction repo commit bindings s).1.edges
        = s.edges := by
  unfold loadIntoGraphWithBindings
  rw [hread]
  simp only [hempty]
  split
  · next s1 hpublish =>
    obtain ⟨hnodes, hedges⟩ := publication_facts hk hpublish
    obtain ⟨hn, he⟩ := patch_empty c s.view
    refine ⟨Table.ext_find? fun id => ?_, Table.ext_find? fun k => ?_⟩
    · rw [hnodes, hn]
      rfl
    · rw [hedges, he]
      rfl
  · next s1 hpublish =>
    rw [publication_refused hpublish (by simp)]
    exact ⟨rfl, rfl⟩
  · next s1 e hpublish =>
    rw [publication_refused hpublish (by simp)]
    exact ⟨rfl, rfl⟩

theorem publication_foreignKeys (hk : s.ForeignKeys) {bindings : List SourceBinding}
    (h : s.applyPatchWithSourceBindings c expected p repo bindings = (s', .ok true)) :
    s'.ForeignKeys := by
  have hstatements : Statements c s s' := by
    have hstep := step_statements (c := c) s (.applyPatchWithSourceBindings expected p repo bindings)
    rwa [show s.step c (.applyPatchWithSourceBindings expected p repo bindings) = (s', .ok true)
      from h] at hstep
  exact (hstatements.invariant (P := fun _ => True) (fun _ _ _ _ _ => trivial) hk trivial).1

theorem reload_empty (h : LoadEffect c contentHash extraction repo commit s s')
    (hclosed : extraction.Closed repo)
    (hback : PublishedReadBack c contentHash extraction repo commit)
    {expected' : List (Node Json) × List (Edge Json)} (hread : s.readSnapshot c = .ok expected)
    (hread' : s'.readSnapshot c = .ok expected')
    (hreferenced : ∀ id node, storedNode c s' id = some node → ¬Extracted extraction repo id →
      factOwnedByRepo node.props repo = true ∨ placeholder node.props = true →
      ∃ k, (s'.edges.find? k).isSome = true ∧ k.incident id = true) :
    (reconcile contentHash extraction repo commit expected').1 = {} := by
  have hp : PatchSpec c contentHash extraction repo commit s' _ := reconcile_spec hread' hclosed
  refine hp.eq_empty ?_ ?_ ?_ ?_
  · intro id node hnode
    obtain ⟨stored, hstored, heq⟩ := h.node_stored hback hnode
    rw [hstored]
    exact heq
  · intro k edge hedge
    obtain ⟨stored, hstored, heq⟩ := h.edge_stored hback hedge
    rw [hstored]
    exact heq
  · rintro id ⟨node, hnode, hnew, hstale⟩
    rw [storedNode_id hnode] at hnew hstale
    rcases hstale with hexplicit | ⟨howned, hnone⟩
    · exact hnew (h.namespace_extracted hread (isSome_of_storedNode hnode) hexplicit)
    · obtain ⟨k, hsome, hincident⟩ := hreferenced id node hnode hnew howned
      obtain ⟨text, htext⟩ := Option.isSome_iff_exists.mp hsome
      obtain ⟨edge, hedge⟩ := storedEdge_of_row hread' htext
      refine hnone ⟨k, hincident, edge, hedge, ?_⟩
      cases hown : factOwnedByRepo edge.props repo with
      | false => rfl
      | true =>
        have hkey := h.owned_edge_extracted hedge hown
        exact absurd (extracted_of_incident hclosed hkey hincident) hnew
  · intro k edge hedge howned
    exact h.owned_edge_extracted hedge howned

/-- **Re-ingest reconciliation.**  A load that succeeds reconciles the graph with its
extraction exactly when it strands no node: when no node that the repository owns by its
evidence, and no placeholder, has edges of others only to nodes that are stale in the
repository's namespaces. -/
theorem reconciled_iff_noneStranded {bindings : List SourceBinding} {stats : ReconcileStats}
    (hk : s.ForeignKeys) (hclosed : extraction.Closed repo)
    (hback : PublishedReadBack c contentHash extraction repo commit)
    (hload : loadIntoGraphWithBindings c contentHash extraction repo commit bindings s
      = (s', .ok stats)) :
    Reconciled c contentHash extraction repo commit s s' ↔ NoneStranded c extraction repo s := by
  have h := load_effect hk hclosed hload
  obtain ⟨expected, hread, hpublish⟩ := load_ok hload
  rw [← h.referenced_iff hk hclosed hread]
  constructor
  · exact Reconciled.referenced
  · intro hreferenced
    refine ⟨?_, ?_, ?_, ?_, hreferenced, ?_, ?_, ?_⟩
    · intro id node hnode
      rw [← find?_currentNodes] at hnode
      exact h.node_stored hback hnode
    · intro k g hg
      exact h.edge_stored hback (find?_mergeEdgeOccurrences.mpr ⟨g, hg, rfl⟩)
    · intro k edge hedge howned
      exact h.owned_edge_extracted hedge howned
    · intro id hsome hid
      exact h.namespace_extracted hread hsome hid
    · intro id hnew hother
      refine h.oldNode id hnew ?_
      rintro ⟨node, hnode, -, hstale⟩
      obtain ⟨hexplicit, howned, hplaceholder⟩ := hother node hnode
      rw [storedNode_id hnode, hexplicit, howned, hplaceholder] at hstale
      simp at hstale
    · intro k hnew hother hends
      cases hrow : s.edges.find? k with
      | none =>
        cases hrow' : s'.edges.find? k with
        | none => rfl
        | some text =>
          obtain ⟨hsame, -⟩ := h.goneEdge k hnew (by rw [hrow']; rfl)
          exact hrow'.symm.trans (hsame.trans hrow)
      | some text =>
        obtain ⟨edge, hedge⟩ := storedEdge_of_row hread hrow
        have hsome := isSome_of_storedEdge hedge
        -- its endpoints are still there, so the load has not deleted them
        have hkept : ∀ id, k.incident id = true → (s.nodes.find? id).isSome = true →
            ¬Deletes c extraction repo s id := by
          intro id hincident hnode hdel
          have hgone := hends id hincident hnode
          rw [h.goneNode id hdel] at hgone
          exact absurd hgone (by simp)
        rw [← hrow]
        refine h.oldEdge k hnew ⟨edge, hedge, hother edge hedge⟩ ?_ ?_
        · exact hkept k.src (by simp) (hk.edge_src k hsome)
        · exact hkept k.dst (by simp) (hk.edge_dst k hsome)
    · obtain ⟨expected', hread'⟩ := h.readable hback hread
      have hempty := reload_empty h hclosed hback hread hread' hreferenced
      refine ⟨expected', hread', hempty, ?_, ?_⟩
      · show (reconcile contentHash extraction repo commit expected').1.deleteEdges.length
          + (reconcile contentHash extraction repo commit expected').1.deleteNodeIds.length = 0
        rw [hempty]
        rfl
      · intro bindings'
        exact load_of_empty (publication_foreignKeys hk hpublish) hread' hempty bindings'

end Facts

/-! ### A channel behind a deployed resource -/

def sampleProv (repo : String) : Json :=
  .obj [("prov", (Provenance.toJson
    ⟨.deterministic, .confirmed, [⟨repo, "main.tf", 0, 1, "c1"⟩], "iac", "h"⟩))]

def sampleResource : Node Json := ⟨"res:o/r@q", "Resource", .obj []⟩

/-- A channel that the code of the repository names. -/
def sampleChannel : Node Json := ⟨"chan:sqs-queue:u", "Channel", sampleProv "o/r"⟩

/-- The state file is an input and not source of a repository. -/
def sampleBacks : Edge Json := ⟨"res:o/r@q", "chan:sqs-queue:u", "BACKS", sampleProv ""⟩

def sampleHash (_ : String) : Hash :=
  ⟨"695ddd88700a0461f8df5f7aab944ff9f561bc21d2e5dd2f6f14bca0958f077f", by decide⟩

/-- The texts of these values, read back. -/
def sampleCodec : Codec Json where
  toText := Json.render
  fromText text := [sampleResource.props, sampleChannel.props, sampleBacks.props,
    (repoNode sampleHash "o/r" "c2").props].find? fun v => v.render == text
  nodeDigest := GraphStore.nodeDigest fun text => (sampleHash text).text
  edgeDigest := GraphStore.edgeDigest fun text => (sampleHash text).text

def sampleGraph : Store :=
  (machine sampleCodec).exec Store.empty
    [.putNode sampleResource, .putNode sampleChannel, .putEdge sampleBacks]

theorem sampleGraph_foreignKeys : sampleGraph.ForeignKeys :=
  reachable_foreignKeys ((Machine.Reachable.initial rfl).steps
    (Machine.steps_exec fun _ _ _ => trivial))

def readsBack (c : Codec Json) (v : Json) : Bool :=
  match c.fromText (c.toText v) with
  | some v' => v' == v
  | none => false

theorem readsBack_sound {c : Codec Json} {v : Json} (h : readsBack c v = true) : ReadsBack c v := by
  unfold readsBack at h
  cases hv : c.fromText (c.toText v) with
  | none =>
    rw [hv] at h
    exact absurd h (by simp)
  | some v' =>
    rw [hv] at h
    exact ⟨v', hv, h⟩

theorem publishedReadBack_of_rows {c : Codec Json} {contentHash : String → Hash}
    {extraction : Extraction} {repo commit : String}
    (hnodes : (currentNodes contentHash extraction repo commit).rows.all
      (fun r => readsBack c r.2.props) = true)
    (hedges : (mergeEdgeOccurrences contentHash extraction.edges).rows.all
      (fun r => readsBack c r.2.props) = true) :
    PublishedReadBack c contentHash extraction repo commit where
  node _ _ hnode :=
    readsBack_sound (List.all_eq_true.mp hnodes _ (Table.find?_eq_some_iff.mp hnode))
  edge _ _ hedge :=
    readsBack_sound (List.all_eq_true.mp hedges _ (Table.find?_eq_some_iff.mp hedge))

/-- The resource is extracted again, and the channel keeps its edge. -/
def sampleExtraction : Extraction := ⟨[sampleResource], []⟩

def sampleLoad (extraction : Extraction) : Store × Except LoadError ReconcileStats :=
  loadIntoGraphWithBindings sampleCodec sampleHash extraction "o/r" "c2" [] sampleGraph

/-- What is read back of the graph, and of the loads with the resource and without it. -/
theorem sample_evaluated :
    ((storedEdge sampleCodec sampleGraph sampleBacks.key).any
      fun edge => !factOwnedByRepo edge.props "o/r") = true
    ∧ (∀ extraction ∈ [sampleExtraction, ⟨[], []⟩], (sampleLoad extraction).2.toBool = true
      ∧ ((currentNodes sampleHash extraction "o/r" "c2").rows.all
        fun r => readsBack sampleCodec r.2.props) = true)
    ∧ ((storedNode sampleCodec (sampleLoad ⟨[], []⟩).1 "chan:sqs-queue:u").any
      fun node => factOwnedByRepo node.props "o/r") = true
    ∧ (sampleLoad ⟨[], []⟩).1.edges.rows.isEmpty = true := by
  decide +kernel

theorem sample_noneStranded : NoneStranded sampleCodec sampleExtraction "o/r" sampleGraph := by
  intro id node hnode hnew _ howned _
  have hrows : sampleGraph.nodes.rows.all (fun r => r.1 == "res:o/r@q" || r.1 == "chan:sqs-queue:u")
      = true := by decide
  have hid : id = "chan:sqs-queue:u" := by
    obtain ⟨row, hrow⟩ := Option.isSome_iff_exists.mp (isSome_of_storedNode hnode)
    have hmem := List.all_eq_true.mp hrows _ (Table.find?_eq_some_iff.mp hrow)
    rcases (by simpa using hmem : id = "res:o/r@q" ∨ id = "chan:sqs-queue:u") with rfl | rfl
    · exact absurd (.inl (by decide)) hnew
    · rfl
  obtain ⟨edge, hedge, hother⟩ := (Option.any_eq_true _ _).mp sample_evaluated.1
  refine ⟨sampleBacks.key, ?_, ⟨edge, hedge, by simpa using hother⟩, ?_⟩
  · rw [hid]
    decide
  · intro id' hincident hexplicit
    rcases EdgeKey.incident_iff.mp hincident with rfl | rfl
    · exact .inl (by decide)
    · exact absurd hexplicit (by decide)

theorem ok_of_toBool {σ ε α : Type} {r : σ × Except ε α} (h : r.2.toBool = true) :
    ∃ a, r = (r.1, .ok a) := by
  obtain ⟨s, result⟩ := r
  cases result with
  | error e => exact absurd h (by simp [Except.toBool])
  | ok a => exact ⟨a, rfl⟩

theorem reconciled_iff_noneStranded_sample :
    NoneStranded sampleCodec sampleExtraction "o/r" sampleGraph ∧
      Reconciled sampleCodec sampleHash sampleExtraction "o/r" "c2" sampleGraph
        (sampleLoad sampleExtraction).1 := by
  obtain ⟨hok, hrows⟩ := sample_evaluated.2.1 sampleExtraction (by simp)
  obtain ⟨stats, hload⟩ := ok_of_toBool hok
  have hclosed : sampleExtraction.Closed "o/r" := fun edge hedge => absurd hedge (by
    simp [sampleExtraction])
  have hback : PublishedReadBack sampleCodec sampleHash sampleExtraction "o/r" "c2" :=
    publishedReadBack_of_rows hrows rfl
  refine ⟨sample_noneStranded, ?_⟩
  exact (reconciled_iff_noneStranded sampleGraph_foreignKeys hclosed hback hload).mpr
    sample_noneStranded

/-- The resource is gone: it takes the edge with it, and the channel stays without one. -/
theorem backing_edge_strands_channel :
    ¬∀ (c : Codec Json) (contentHash : String → Hash) (extraction : Extraction)
      (repo commit : String) (bindings : List SourceBinding) (s s' : Store)
      (stats : ReconcileStats), s.ForeignKeys → extraction.Closed repo →
      PublishedReadBack c contentHash extraction repo commit →
      loadIntoGraphWithBindings c contentHash extraction repo commit bindings s = (s', .ok stats) →
      Reconciled c contentHash extraction repo commit s s' := by
  intro h
  obtain ⟨-, hloads, hchannel, hnone⟩ := sample_evaluated
  obtain ⟨hok, hrows⟩ := hloads ⟨[], []⟩ (by simp)
  obtain ⟨stats, hload⟩ := ok_of_toBool hok
  have hback : PublishedReadBack sampleCodec sampleHash ⟨[], []⟩ "o/r" "c2" :=
    publishedReadBack_of_rows hrows rfl
  have hreconciled := h sampleCodec sampleHash ⟨[], []⟩ "o/r" "c2" [] sampleGraph _ stats
    sampleGraph_foreignKeys (fun edge hedge => absurd hedge (by simp)) hback hload
  obtain ⟨node, hnode, howned⟩ := (Option.any_eq_true _ _).mp hchannel
  have hnew : ¬Extracted ⟨[], []⟩ "o/r" "chan:sqs-queue:u" := by
    rintro (hmem | heq)
    · exact absurd hmem (by simp)
    · exact absurd heq (by decide)
  obtain ⟨k, hk, -⟩ := hreconciled.referenced _ node hnode hnew (.inl howned)
  obtain ⟨text, htext⟩ := Option.isSome_iff_exists.mp hk
  have hmem := Table.find?_eq_some_iff.mp htext
  rw [List.isEmpty_iff.mp hnone] at hmem
  exact absurd hmem (by simp)

end Ingest

/-
Publication of bound facts (`src-tauri/src/main.rs`).

The binder only sees the extraction.  The load publishes its own `Repo` node over an extracted one,
keeps a stored fact that compares equal, and deletes nodes with their edges; what it writes is read
back from its text before the digests are compared.  `Survives` says that none of this changes the
digest of a fact, and it is exactly what the bindings of an extraction need.

* `node_after`, `edge_after` — the rows of extracted facts after the patch of a load;
* `currentDigest_matched`, `load_mismatch_iff` — their digests, and when a load fails on them;
* `bindings_match_published` — the bindings, and `bindings_match_published_fails`, a load that
  publishes its own node in place of the one that is bound.
-/
import Cartograph.Ingest.Receipts
import Cartograph.Ingest.Reconciled

namespace Ingest

open GraphStore Investigation Checked

/-! ### Facts after the patch -/

/-- A stored node in a namespace of the repository that was not extracted: the load deletes it
whatever edges it has. -/
def Uprooted (extraction : Extraction) (repo : String) (s : Store) (id : String) : Prop :=
  (s.nodes.find? id).isSome = true ∧ ¬Extracted extraction repo id
    ∧ idExplicitlyOwnedByRepo id repo = true

section Patch

variable {c : Codec Json} {contentHash : String → Hash} {extraction : Extraction}
  {repo commit : String} {s : Store} {expected : List (Node Json) × List (Edge Json)}
  {id : String} {k : EdgeKey} {node : Node Json} {edge : Edge Json}

theorem notMem_deleteNodeIds (hid : Extracted extraction repo id) :
    id ∉ (reconcile contentHash extraction repo commit expected).1.deleteNodeIds := by
  intro hdel
  simp only [reconcile, reconcilePatch, List.mem_map, List.mem_filter] at hdel
  obtain ⟨⟨id', node⟩, ⟨-, hstale⟩, rfl⟩ := hdel
  simp only [staleNode, Bool.and_eq_true, Option.isNone_iff_eq_none] at hstale
  have hsome := (isSome_currentNodes contentHash commit).mpr hid
  rw [hstale.1] at hsome
  exact absurd hsome (by simp)

theorem remaining_incident {existingEdges : Table EdgeKey (Edge Json)}
    (hk : k ∈ extraction.edges.map Edge.key) (hincident : k.incident id = true) :
    (remainingEdgeKeys repo (mergeEdgeOccurrences contentHash extraction.edges)
      existingEdges).any (fun key => key.incident id) = true :=
  List.any_eq_true.mpr ⟨k, List.mem_append_right _ (mem_keys_iff.mpr hk), hincident⟩

section

variable (hread : s.readSnapshot c = .ok expected)
include hread

theorem mem_deleteNodeIds_incident
    (hk : k ∈ extraction.edges.map Edge.key) (hincident : k.incident id = true) :
    id ∈ (reconcile contentHash extraction repo commit expected).1.deleteNodeIds
      ↔ Uprooted extraction repo s id := by
  constructor
  · intro hdel
    have hnew : ¬Extracted extraction repo id := fun hid => notMem_deleteNodeIds hid hdel
    simp only [reconcile, reconcilePatch, List.mem_map, List.mem_filter] at hdel
    obtain ⟨⟨id', node⟩, ⟨hrow, hstale⟩, rfl⟩ := hdel
    have hnode := (existing_nodes hread id').symm.trans (Table.find?_eq_some_iff.mpr hrow)
    refine ⟨isSome_of_storedNode hnode, hnew, ?_⟩
    -- the edge remains, so being owned by evidence or a placeholder does not matter
    simp only [staleNode, remaining_incident hk hincident, Bool.not_true, Bool.or_false,
      Bool.and_false, Bool.and_eq_true] at hstale
    exact hstale.2.2
  · rintro ⟨hstored, hnew, hexplicit⟩
    obtain ⟨row, hrow⟩ := Option.isSome_iff_exists.mp hstored
    obtain ⟨node, hnode⟩ := storedNode_of_row hread hrow
    have hcurrent : (currentNodes contentHash extraction repo commit).find? id = none := by
      rw [← Option.not_isSome_iff_eq_none, isSome_currentNodes]
      exact hnew
    simp only [reconcile, reconcilePatch, List.mem_map, List.mem_filter]
    refine ⟨(id, node), ⟨Table.find?_eq_some_iff.mp ((existing_nodes hread id).trans hnode), ?_⟩,
      rfl⟩
    simp [staleNode, hcurrent, hexplicit]

theorem dropsEdge_incident (hk : k ∈ extraction.edges.map Edge.key) :
    (reconcile contentHash extraction repo commit expected).1.dropsEdge k
      ↔ ∃ id, k.incident id = true ∧ Uprooted extraction repo s id := by
  -- stale edges are not extracted
  have hkey : (k.src, k.dst, k.label)
      ∉ (reconcile contentHash extraction repo commit expected).1.deleteEdges := by
    intro hmem
    exact ((mem_deleteEdges (existing_edges hread) _).mp hmem).1 hk
  rw [GraphPatch.dropsEdge, or_iff_right hkey,
    mem_deleteNodeIds_incident hread hk (EdgeKey.incident_iff.mpr (.inl rfl)),
    mem_deleteNodeIds_incident hread hk (EdgeKey.incident_iff.mpr (.inr rfl))]
  constructor
  · rintro (hsrc | hdst)
    · exact ⟨k.src, EdgeKey.incident_iff.mpr (.inl rfl), hsrc⟩
    · exact ⟨k.dst, EdgeKey.incident_iff.mpr (.inr rfl), hdst⟩
  · rintro ⟨id, hincident, hid⟩
    rcases EdgeKey.incident_iff.mp hincident with rfl | rfl
    · exact .inl hid
    · exact .inr hid

theorem node_after
    (hnode : (currentNodes contentHash extraction repo commit).find? id = some node) :
    (s.view.patch c (reconcile contentHash extraction repo commit expected).1).node id
      = if (storedNode c s id == some node) = true then s.nodes.find? id
        else some ⟨node.label, c.toText node.props⟩ := by
  have hwrite : ∀ node', lastWith Node.id id
      (reconcile contentHash extraction repo commit expected).1.upsertNodes = some node' ↔ _ :=
    fun _ => lastWith_upsertNodes (existing_nodes hread) _
  have hid : Extracted extraction repo id :=
    (isSome_currentNodes contentHash commit).mp (by rw [hnode]; rfl)
  cases hsame : storedNode c s id == some node with
  | false =>
    rw [if_neg Bool.false_ne_true]
    simp only [View.patch, (hwrite node).mpr ⟨hnode, hsame⟩]
  | true =>
    rw [if_pos rfl, patch_node_of_notMem ?_ (notMem_deleteNodeIds hid)]
    · rfl
    · exact notMem_of_same hwrite hnode hsame

/-- The row of an extracted edge: the stored one where it compares equal, unless an endpoint of it
is deleted. -/
theorem edge_after
    (hedge : (mergeEdgeOccurrences contentHash extraction.edges).find? k = some edge) :
    (¬(storedEdge c s k == some edge) = true →
        (s.view.patch c (reconcile contentHash extraction repo commit expected).1).edge k
          = some (c.toText edge.props))
      ∧ ((storedEdge c s k == some edge) = true →
        ((∃ id, k.incident id = true ∧ Uprooted extraction repo s id) →
          (s.view.patch c (reconcile contentHash extraction repo commit expected).1).edge k = none)
        ∧ ((¬∃ id, k.incident id = true ∧ Uprooted extraction repo s id) →
          (s.view.patch c (reconcile contentHash extraction repo commit expected).1).edge k
            = s.edges.find? k)) := by
  have hwrite : ∀ edge', lastWith Edge.key k
      (reconcile contentHash extraction repo commit expected).1.upsertEdges = some edge' ↔ _ :=
    fun _ => lastWith_upsertEdges (existing_edges hread) _
  have hk : k ∈ extraction.edges.map Edge.key :=
    (isSome_mergeEdgeOccurrences contentHash).mp (by rw [hedge]; rfl)
  refine ⟨fun hdiff => ?_, fun hsame => ?_⟩
  · simp only [View.patch, (hwrite edge).mpr ⟨hedge, Bool.eq_false_iff.mpr hdiff⟩]
  · have hup : k ∉ (reconcile contentHash extraction repo commit expected).1.upsertEdges.map
        Edge.key := notMem_of_same hwrite hedge hsame
    refine ⟨fun huprooted => ?_, fun hrooted => ?_⟩
    · have hdrop : (reconcile contentHash extraction repo commit expected).1.dropsEdge k :=
        (dropsEdge_incident hread hk).mpr huprooted
      simp [View.patch, lastWith_eq_none.mpr hup, View.afterDeletes, View.without, hdrop]
    · rw [patch_edge_of_notMem hup fun hdrop => hrooted ((dropsEdge_incident hread hk).mp hdrop)]
      rfl

/-- An extracted edge has an endpoint after the patch when it was extracted, or stored and not
uprooted. -/
theorem isSome_incident
    (hk : k ∈ extraction.edges.map Edge.key) (hincident : k.incident id = true) :
    ((s.view.patch c (reconcile contentHash extraction repo commit expected).1).node id).isSome
        = true
      ↔ Extracted extraction repo id ∨
        ((s.nodes.find? id).isSome = true ∧ idExplicitlyOwnedByRepo id repo = false) := by
  by_cases hid : Extracted extraction repo id
  · obtain ⟨node, hnode⟩ := Option.isSome_iff_exists.mp
      ((isSome_currentNodes contentHash commit).mpr hid)
    refine iff_of_true ?_ (.inl hid)
    rw [node_after hread hnode]
    by_cases hsame : (storedNode c s id == some node) = true
    · rw [if_pos hsame]
      obtain ⟨old, hold, -⟩ := of_beq_some hsame
      exact isSome_of_storedNode hold
    · rw [if_neg hsame]
      rfl
  · have hup : id ∉ (reconcile contentHash extraction repo commit expected).1.upsertNodes.map
        Node.id := by
      rw [← lastWith_eq_none, Option.eq_none_iff_forall_ne_some]
      intro node hnode
      have hfind := ((lastWith_upsertNodes (existing_nodes hread) _).mp hnode).1
      exact hid ((isSome_currentNodes contentHash commit).mp (by rw [hfind]; rfl))
    have hdel : id ∈ (reconcile contentHash extraction repo commit expected).1.deleteNodeIds
        ↔ Uprooted extraction repo s id := mem_deleteNodeIds_incident hread hk hincident
    simp only [View.patch, lastWith_eq_none.mpr hup, View.afterDeletes, View.without,
      GraphPatch.dropsNode, hdel, Uprooted, hid]
    by_cases hexplicit : idExplicitlyOwnedByRepo id repo = true
    · by_cases hstored : (s.nodes.find? id).isSome = true
      · simp [hexplicit, hstored]
      · simp [hexplicit, hstored, Store.view]
    · simp [hexplicit, Store.view]

theorem attachable_iff :
    s.view.Attachable c (reconcile contentHash extraction repo commit expected).1 ↔
      ∀ k edge, (mergeEdgeOccurrences contentHash extraction.edges).find? k = some edge →
        ¬(storedEdge c s k == some edge) = true → ∀ id, k.incident id = true →
          Extracted extraction repo id ∨
            ((s.nodes.find? id).isSome = true ∧ idExplicitlyOwnedByRepo id repo = false) := by
  have hkey : ∀ {k edge}, (mergeEdgeOccurrences contentHash extraction.edges).find? k = some edge →
      edge.key = k ∧ k ∈ extraction.edges.map Edge.key := by
    intro k edge hedge
    obtain ⟨g, hg, rfl⟩ := find?_mergeEdgeOccurrences.mp hedge
    exact ⟨by rw [mergeEdgeGroup_key, last_key hg],
      (isSome_mergeEdgeOccurrences contentHash).mp (by rw [hedge]; rfl)⟩
  constructor
  · intro h k edge hedge hdiff id hincident
    obtain ⟨hedgeKey, hk⟩ := hkey hedge
    have hwritten : lastWith Edge.key k
        (reconcile contentHash extraction repo commit expected).1.upsertEdges = some edge :=
      (lastWith_upsertEdges (existing_edges hread) _).mpr ⟨hedge, Bool.eq_false_iff.mpr hdiff⟩
    obtain ⟨hsrc, hdst⟩ := h edge (List.mem_reverse.mp (List.mem_of_find?_eq_some hwritten))
    have hsome : ((s.view.patch c (reconcile contentHash extraction repo commit expected).1).node
        id).isSome = true := by
      rcases EdgeKey.incident_iff.mp hincident with rfl | rfl
      · rw [← hedgeKey]
        exact hsrc
      · rw [← hedgeKey]
        exact hdst
    exact (isSome_incident hread hk hincident).mp hsome
  · intro h edge hmem
    simp only [reconcile, reconcilePatch, List.mem_map, List.mem_filter] at hmem
    obtain ⟨⟨k, edge⟩, ⟨hrow, hdiff⟩, rfl⟩ := hmem
    have hedge := Table.find?_eq_some_iff.mpr hrow
    obtain ⟨rfl, hk⟩ := hkey hedge
    have hends := h _ _ hedge (by
      rw [← existing_edges hread]
      simpa using hdiff)
    exact ⟨(isSome_incident hread hk (EdgeKey.incident_iff.mpr (.inl rfl))).mpr
        (hends edge.src (EdgeKey.incident_iff.mpr (.inl rfl))),
      (isSome_incident hread hk (EdgeKey.incident_iff.mpr (.inr rfl))).mpr
        (hends edge.dst (EdgeKey.incident_iff.mpr (.inr rfl)))⟩

end

end Patch

/-! ### Facts that keep their digest -/

/-- A value as it is read back from its text. -/
def reread (c : Codec Json) (v : Json) : Json := (c.fromText (c.toText v)).getD v

/-- What a load leaves of a node: the stored one where that compares equal. -/
def leftNode (c : Codec Json) (s : Store) (node : Node Json) : Node Json :=
  if storedNode c s node.id == some node then (storedNode c s node.id).getD node
  else { node with props := reread c node.props }

def leftEdge (c : Codec Json) (s : Store) (edge : Edge Json) : Edge Json :=
  if storedEdge c s edge.key == some edge then (storedEdge c s edge.key).getD edge
  else { edge with props := reread c edge.props }

/-- A load leaves an extracted fact with the digest it was extracted with.  The `Repo` node takes
the place of a node with its id, and an edge that is not written again can lose an endpoint. -/
def Survives (c : Codec Json) (contentHash : String → Hash) (extraction : Extraction)
    (repo commit : String) (s : Store) : FactKey → Prop
  | .node nodeId => ∀ last node, lastWith Node.id nodeId extraction.nodes = some last →
      lastWith Node.id nodeId (extraction.nodes ++ [repoNode contentHash repo commit]) = some node →
        c.nodeDigest (leftNode c s node) = c.nodeDigest last
  | .edge source label destination => ∀ edge,
      (mergeEdgeOccurrences contentHash extraction.edges).find? (edgeKey source destination label)
          = some edge →
        c.edgeDigest (leftEdge c s edge) = c.edgeDigest edge ∧
          ((storedEdge c s edge.key == some edge) = true →
            ∀ nodeId, edge.key.incident nodeId = true → ¬Uprooted extraction repo s nodeId)

/-- The values a load may write have texts that can be read. -/
structure PublishedParses (c : Codec Json) (contentHash : String → Hash)
    (extraction : Extraction) (repo commit : String) : Prop where
  node : ∀ nodeId node, (currentNodes contentHash extraction repo commit).find? nodeId = some node →
    ∃ v, c.fromText (c.toText node.props) = some v
  edge : ∀ k edge, (mergeEdgeOccurrences contentHash extraction.edges).find? k = some edge →
    ∃ v, c.fromText (c.toText edge.props) = some v

variable {old : Node Json} {l : List SourceBinding} {p : GraphPatch Json}

section Digest

variable {c : Codec Json} {contentHash : String → Hash} {extraction : Extraction}
  {repo commit : String} {s s₁ : Store} {expected : List (Node Json) × List (Edge Json)}
  {nodeId : String} {node : Node Json} {edge : Edge Json}

theorem leftNode_of_same (hold : storedNode c s node.id = some old)
    (hsame : (storedNode c s node.id == some node) = true) : leftNode c s node = old := by
  rw [leftNode, if_pos hsame, hold, Option.getD_some]

theorem leftEdge_of_same {old : Edge Json} (hold : storedEdge c s edge.key = some old)
    (hsame : (storedEdge c s edge.key == some edge) = true) : leftEdge c s edge = old := by
  rw [leftEdge, if_pos hsame, hold, Option.getD_some]

theorem reread_of_some {v v' : Json} (h : c.fromText (c.toText v) = some v') : reread c v = v' := by
  rw [reread, h, Option.getD_some]

theorem currentDigest_storedNode (hold : storedNode c s nodeId = some old)
    (hrow : s₁.nodes.find? nodeId = s.nodes.find? nodeId) :
    s₁.currentDigest c (.node nodeId) = .ok (some (c.nodeDigest old)) := by
  obtain ⟨row, hstored, hold⟩ := Option.bind_eq_some_iff.mp hold
  obtain ⟨props, hprops, rfl⟩ := Option.map_eq_some_iff.mp hold
  exact currentDigest_node.mpr ⟨row, props, hrow.trans hstored, hprops, rfl⟩

theorem currentDigest_storedEdge {source label destination : String} {old : Edge Json}
    (hold : storedEdge c s (edgeKey source destination label) = some old)
    (hrow : s₁.edges.find? (edgeKey source destination label)
      = s.edges.find? (edgeKey source destination label)) :
    s₁.currentDigest c (.edge source label destination) = .ok (some (c.edgeDigest old)) := by
  obtain ⟨text, hstored, hold⟩ := Option.bind_eq_some_iff.mp hold
  obtain ⟨props, hprops, rfl⟩ := Option.map_eq_some_iff.mp hold
  exact currentDigest_edge.mpr ⟨text, props, hrow.trans hstored, hprops, rfl⟩

section

variable (hread : s.readSnapshot c = .ok expected)
include hread

section

variable (hparses : PublishedParses c contentHash extraction repo commit)
include hparses

theorem currentDigest_node_after
    (hnode : (currentNodes contentHash extraction repo commit).find? nodeId = some node)
    (hrow : s₁.nodes.find? nodeId
      = (s.view.patch c (reconcile contentHash extraction repo commit expected).1).node nodeId) :
    s₁.currentDigest c (.node nodeId) = .ok (some (c.nodeDigest (leftNode c s node))) := by
  obtain rfl := currentNodes_id hnode
  rw [node_after hread hnode] at hrow
  by_cases hsame : (storedNode c s node.id == some node) = true
  · rw [if_pos hsame] at hrow
    obtain ⟨old, hold, -⟩ := of_beq_some hsame
    rw [leftNode_of_same hold hsame]
    exact currentDigest_storedNode hold hrow
  · rw [if_neg hsame] at hrow
    obtain ⟨v, hv⟩ := hparses.node _ node hnode
    rw [leftNode, if_neg hsame, reread_of_some hv]
    exact currentDigest_node.mpr ⟨_, v, hrow, hv, rfl⟩

theorem currentDigest_edge_after
    (hedge : (mergeEdgeOccurrences contentHash extraction.edges).find? edge.key = some edge)
    (hrow : s₁.edges.find? edge.key
      = (s.view.patch c (reconcile contentHash extraction repo commit expected).1).edge edge.key) :
    ∃ d, s₁.currentDigest c (.edge edge.src edge.label edge.dst) = .ok d ∧
      ∀ digest, d = some digest ↔ c.edgeDigest (leftEdge c s edge) = digest ∧
        ((storedEdge c s edge.key == some edge) = true →
          ∀ nodeId, edge.key.incident nodeId = true → ¬Uprooted extraction repo s nodeId) := by
  obtain ⟨hwritten, hkept⟩ := edge_after hread hedge
  by_cases hsame : (storedEdge c s edge.key == some edge) = true
  · obtain ⟨old, hold, -⟩ := of_beq_some hsame
    by_cases huprooted : ∃ id, edge.key.incident id = true ∧ Uprooted extraction repo s id
    · -- deleted with its endpoint, so there is no digest
      rw [(hkept hsame).1 huprooted] at hrow
      refine ⟨none, ?_, fun digest => ?_⟩
      · rw [Edge.key] at hrow
        simp only [Store.currentDigest, hrow]
      · obtain ⟨id, hincident, hid⟩ := huprooted
        refine iff_of_false (by simp) ?_
        rintro ⟨-, hrooted⟩
        exact hrooted hsame id hincident hid
    · rw [(hkept hsame).2 huprooted] at hrow
      refine ⟨some (c.edgeDigest old), currentDigest_storedEdge hold hrow, fun digest => ?_⟩
      rw [leftEdge_of_same hold hsame, Option.some_inj]
      refine (and_iff_left fun _ id hincident hid => ?_).symm
      exact huprooted ⟨id, hincident, hid⟩
  · rw [hwritten hsame] at hrow
    obtain ⟨v, hv⟩ := hparses.edge _ edge hedge
    refine ⟨some (c.edgeDigest (leftEdge c s edge)), ?_, fun digest => ?_⟩
    · rw [leftEdge, if_neg hsame, reread_of_some hv]
      exact currentDigest_edge.mpr ⟨_, v, hrow, hv, rfl⟩
    · rw [Option.some_inj]
      exact (and_iff_left fun h => absurd h hsame).symm

/-- After the patch the digest of a matched fact can be read, and it is the one of the receipt
exactly when the fact survives. -/
theorem currentDigest_matched (hview : s₁.nodes.find?
        = (s.view.patch c (reconcile contentHash extraction repo commit expected).1).node
      ∧ s₁.edges.find?
        = (s.view.patch c (reconcile contentHash extraction repo commit expected).1).edge)
    {r : Receipt} (hr : r.matchesFact c contentHash extraction = true) :
    ∃ d, s₁.currentDigest c r.factKey = .ok d ∧
      (d = some r.factDigest
        ↔ Survives c contentHash extraction repo commit s r.factKey) := by
  have hextracted := extractedDigest_of_matches hr
  cases hkey : r.factKey with
  | node nodeId =>
    rw [hkey, extractedDigest, Option.map_eq_some_iff] at hextracted
    obtain ⟨last, hlast, hdigest⟩ := hextracted
    -- the published node is the last one, or the `Repo` node
    have hid : nodeId ∈ extraction.nodes.map Node.id :=
      List.mem_map.mpr (lastWith_isSome.mp (Option.isSome_iff_exists.mpr ⟨last, hlast⟩))
    obtain ⟨node, hnode⟩ := Option.isSome_iff_exists.mp
      ((isSome_currentNodes contentHash commit).mpr (.inl hid : Extracted extraction repo nodeId))
    refine ⟨_, currentDigest_node_after hread hparses hnode (congrFun hview.1 nodeId), ?_⟩
    rw [Option.some_inj, ← hdigest]
    rw [find?_currentNodes] at hnode
    constructor
    · intro hsame last' node' hlast' hnode'
      rw [hlast, Option.some_inj] at hlast'
      rw [hnode, Option.some_inj] at hnode'
      rw [← hlast', ← hnode', hsame]
    · intro h
      exact h last node hlast hnode
  | edge source label destination =>
    rw [hkey, extractedDigest, Option.map_eq_some_iff] at hextracted
    obtain ⟨edge, hedge, hdigest⟩ := hextracted
    -- the merged edge has the key it is found under
    have hedgeKey : edge.key = edgeKey source destination label := by
      obtain ⟨g, hg, rfl⟩ := find?_mergeEdgeOccurrences.mp hedge
      rw [mergeEdgeGroup_key, last_key hg]
    have hends : edge.src = source ∧ edge.dst = destination ∧ edge.label = label :=
      ⟨congrArg EdgeKey.src hedgeKey, congrArg EdgeKey.dst hedgeKey,
        congrArg EdgeKey.label hedgeKey⟩
    obtain ⟨rfl, rfl, rfl⟩ := hends
    obtain ⟨d, hd, hiff⟩ := currentDigest_edge_after hread hparses hedge
      (congrFun hview.2 edge.key)
    refine ⟨d, hd, ?_⟩
    rw [hiff, ← hdigest]
    constructor
    · intro h edge' hedge'
      rw [hedge, Option.some_inj] at hedge'
      rw [← hedge']
      exact h
    · intro h
      exact h edge hedge

end

end

end Digest

/-! ### A publication up to the comparison -/

theorem checkBindings_iff {repo : String} : ∀ {l : List SourceBinding} {seen : List FactKey},
    (l.map (·.fact)).Nodup → (∀ b ∈ l, b.fact ∉ seen) →
    (checkBindings repo l seen = .ok () ↔ ∀ b ∈ l, b.validate = .ok () ∧ b.repoKey = repo)
  | [], seen, _, _ => iff_of_true rfl (by simp)
  | b :: l, seen, hnodup, hseen => by
    obtain ⟨hfresh, hnodup⟩ := List.nodup_cons.mp hnodup
    obtain ⟨hfirst, hseen⟩ := List.forall_mem_cons.mp hseen
    have hrest : ∀ b' ∈ l, b'.fact ∉ b.fact :: seen := by
      intro b' hb'
      rw [List.mem_cons, not_or]
      exact ⟨fun heq => hfresh (List.mem_map.mpr ⟨b', hb', heq⟩), hseen b' hb'⟩
    rw [List.forall_mem_cons, ← checkBindings_iff hnodup hrest]
    simp only [checkBindings, bind_eq_ok, ensure_eq_ok]
    constructor
    · rintro ⟨⟨⟩, hvalid, ⟨⟩, ⟨howner, -⟩, h⟩
      exact ⟨⟨hvalid, howner⟩, h⟩
    · rintro ⟨⟨hvalid, howner⟩, h⟩
      exact ⟨(), hvalid, (), ⟨howner, hfirst⟩, h⟩

theorem checkOwners_iff {repo : String} {s : Store} :
    s.checkOwners repo l = .ok () ↔
      ∀ b ∈ l, ∃ old, s.loadBinding b.fact = .ok old ∧ ∀ o ∈ old, o.repoKey = repo := by
  induction l with
  | nil => exact iff_of_true rfl (by simp)
  | cons b l ih =>
    rw [List.forall_mem_cons, ← ih]
    simp only [Store.checkOwners, bind_eq_ok, ensure_eq_ok]
    constructor
    · rintro ⟨old, hload, ⟨⟩, howner, h⟩
      exact ⟨⟨old, hload, howner⟩, h⟩
    · rintro ⟨⟨old, hload, howner⟩, h⟩
      exact ⟨old, hload, (), howner, h⟩

/-- The checks before the comparison of digests: the graph can be read, the associations are of the
repository and within the limits, no fact is bound by another repository, and every edge that is
written has its endpoints. -/
structure Publishable (c : Codec Json) (contentHash : String → Hash) (extraction : Extraction)
    (repo : String) (s : Store) (receipts : List Receipt) : Prop where
  readable : ∃ expected, s.readSnapshot c = .ok expected
  repoKey : bounded repo maxRepoBytes = .ok ()
  count : ((receipts.filter (·.matchesFact c contentHash extraction)).map
    Receipt.factKey).dedup.length ≤ maxBindings
  valid : ∀ r, Binds c contentHash extraction receipts r →
    r.binding.validate = .ok () ∧ r.repoKey = repo
  owners : ∀ r, Binds c contentHash extraction receipts r →
    ∃ old, s.loadBinding r.factKey = .ok old ∧ ∀ o ∈ old, o.repoKey = repo
  endpoints : ∀ k edge, (mergeEdgeOccurrences contentHash extraction.edges).find? k = some edge →
    ¬(storedEdge c s k == some edge) = true → ∀ id, k.incident id = true →
      Extracted extraction repo id ∨
        ((s.nodes.find? id).isSome = true ∧ idExplicitlyOwnedByRepo id repo = false)

section Publication

variable {c : Codec Json} {contentHash : String → Hash} {extraction : Extraction}
  {repo commit : String} {s s₁ : Store} {expected : List (Node Json) × List (Edge Json)}
  {receipts : List Receipt}

theorem length_matchingBindings :
    (matchingBindings c contentHash extraction receipts).length
      = ((receipts.filter (·.matchesFact c contentHash extraction)).map
        Receipt.factKey).dedup.length := by
  rw [← List.length_map (·.fact)]
  refine List.Perm.length_eq ((List.perm_ext_iff_of_nodup nodup_matchingBindings
    (List.nodup_dedup _)).mpr fun fact => ?_)
  rw [List.mem_dedup, List.mem_map, List.mem_map]
  constructor
  · rintro ⟨b, hb, rfl⟩
    obtain ⟨r, hr, rfl⟩ := mem_matchingBindings.mp hb
    exact ⟨r, List.mem_filter.mpr hr.matches, rfl⟩
  · rintro ⟨r, hr, rfl⟩
    obtain ⟨hmem, hmatches⟩ := List.mem_filter.mp hr
    obtain ⟨r', hr', hkey⟩ := exists_binds hmem hmatches
    exact ⟨r'.binding, mem_matchingBindings.mpr ⟨r', hr', rfl⟩, hkey⟩

theorem admissible_iff :
    GraphStore.Admissible repo (matchingBindings c contentHash extraction receipts)
      ↔ bounded repo maxRepoBytes = .ok () ∧
        ((receipts.filter (·.matchesFact c contentHash extraction)).map
          Receipt.factKey).dedup.length ≤ maxBindings ∧
        ∀ r, Binds c contentHash extraction receipts r →
          r.binding.validate = .ok () ∧ r.repoKey = repo := by
  rw [GraphStore.Admissible, length_matchingBindings,
    checkBindings_iff nodup_matchingBindings fun b _ => List.not_mem_nil]
  refine and_congr_right fun _ => and_congr_right fun _ => ?_
  constructor
  · intro h r hr
    exact h _ (mem_matchingBindings.mpr ⟨r, hr, rfl⟩)
  · intro h b hb
    obtain ⟨r, hr, rfl⟩ := mem_matchingBindings.mp hb
    exact h r hr

theorem owners_iff :
    s.checkOwners repo (matchingBindings c contentHash extraction receipts) = .ok ()
      ↔ ∀ r, Binds c contentHash extraction receipts r →
        ∃ old, s.loadBinding r.factKey = .ok old ∧ ∀ o ∈ old, o.repoKey = repo := by
  rw [checkOwners_iff]
  constructor
  · intro h r hr
    exact h _ (mem_matchingBindings.mpr ⟨r, hr, rfl⟩)
  · intro h b hb
    obtain ⟨r, hr, rfl⟩ := mem_matchingBindings.mp hb
    exact h r hr

theorem snapshot_beq (hdistinct : ∀ text v, c.fromText text = some v → v.Distinct)
    (hread : s.readSnapshot c = .ok expected) : (expected == expected) = true := by
  have hlist : ∀ {α : Type} [BEq α] {l : List α}, (∀ a ∈ l, (a == a) = true) → (l == l) = true := by
    intro α _ l
    induction l with
    | nil => exact fun _ => rfl
    | cons a l ih =>
      intro h
      obtain ⟨hfirst, hrest⟩ := List.forall_mem_cons.mp h
      rw [List.cons_beq_cons, hfirst, ih hrest]
      rfl
  obtain ⟨hnodes, hedges⟩ := readSnapshot_ok hread
  show (expected.1 == expected.1 && expected.2 == expected.2) = true
  rw [Bool.and_eq_true]
  refine ⟨hlist fun node hnode => ?_, hlist fun edge hedge => ?_⟩
  · obtain ⟨row, -, hrow⟩ := (mem_mapM_ok hnodes node).mp hnode
    simp only [bind_eq_ok, orFail_eq_ok, pure_eq_ok] at hrow
    obtain ⟨v, hv, rfl⟩ := hrow
    rw [node_beq]
    exact valueEq_self (hdistinct _ v hv)
  · obtain ⟨row, -, hrow⟩ := (mem_mapM_ok hedges edge).mp hedge
    simp only [bind_eq_ok, orFail_eq_ok, pure_eq_ok] at hrow
    obtain ⟨v, hv, rfl⟩ := hrow
    rw [edge_beq]
    exact valueEq_self (hdistinct _ v hv)

section

variable (hs : s.ForeignKeys)
include hs

theorem bindingRow_patched (howners : s.checkOwners repo l = .ok ())
    (h1 : (s.removeRepoBindings repo).applyPatchRows c p = .ok s₁) :
    ∀ b ∈ l, s₁.bindingRow b.fact = none := by
  intro b hb
  rw [Option.eq_none_iff_forall_ne_some]
  intro row hrow
  rw [bindingRow_applyPatchRows (removeRepoBindings_foreignKeys hs repo) h1,
    bindingRow_removeRepoBindings] at hrow
  obtain ⟨⟨hold, hforeign⟩, -⟩ := hrow
  exact hforeign (checkOwners_eq_ok howners b hb row hold)

theorem facts_patched (h1 : (s.removeRepoBindings repo).applyPatchRows c p = .ok s₁) :
    s₁.nodes.find? = (s.view.patch c p).node ∧ s₁.edges.find? = (s.view.patch c p).edge := by
  obtain ⟨-, hview⟩ := (applyPatchRows_spec (removeRepoBindings_foreignKeys hs repo) p).mp h1
  exact ⟨congrArg View.node hview, congrArg View.edge hview⟩

theorem applyPatchRows_of_attachable :
    (∃ s₁, (s.removeRepoBindings repo).applyPatchRows c p = .ok s₁) ↔ s.view.Attachable c p := by
  have hkeys := removeRepoBindings_foreignKeys hs repo
  constructor
  · rintro ⟨s₁, h1⟩
    exact ((applyPatchRows_spec hkeys p).mp h1).1
  · intro hattachable
    obtain ⟨-, -, hview⟩ := upsertNodeRows_spec (c := c) hkeys p
    exact ⟨_, (applyPatchRows_spec hkeys p).mpr ⟨hattachable, hview⟩⟩

theorem comparison_fails_iff (hread : s.readSnapshot c = .ok expected)
    (hparses : PublishedParses c contentHash extraction repo commit)
    (howners : s.checkOwners repo (matchingBindings c contentHash extraction receipts) = .ok ())
    (h1 : (s.removeRepoBindings repo).applyPatchRows c
      (reconcile contentHash extraction repo commit expected).1 = .ok s₁) :
    (matchingBindings c contentHash extraction receipts).foldlM (Store.insertBinding c repo) s₁
        = .error mismatch
      ↔ ∃ r ∈ receipts, r.matchesFact c contentHash extraction = true ∧
        ¬Survives c contentHash extraction repo commit s r.factKey := by
  have hdigest : ∀ r : Receipt, r.matchesFact c contentHash extraction = true →
      ∃ d, s₁.currentDigest c r.factKey = .ok d ∧
        (d = some r.factDigest ↔ Survives c contentHash extraction repo commit s r.factKey) :=
    fun r hr => currentDigest_matched hread hparses (facts_patched hs h1) hr
  have hreads : ∀ b ∈ matchingBindings c contentHash extraction receipts,
      ∃ d, s₁.currentDigest c b.fact = .ok d := by
    intro b hb
    obtain ⟨r, hr, rfl⟩ := mem_matchingBindings.mp hb
    obtain ⟨d, hd, -⟩ := hdigest r hr.matches.2
    exact ⟨d, hd⟩
  rw [insertBindings_mismatch _ hreads (bindingRow_patched hs howners h1) nodup_matchingBindings]
  constructor
  · rintro ⟨b, hb, hdiff⟩
    obtain ⟨r, hr, rfl⟩ := mem_matchingBindings.mp hb
    obtain ⟨d, hd, hiff⟩ := hdigest r hr.matches.2
    refine ⟨r, hr.matches.1, hr.matches.2, fun hsurvives => hdiff ?_⟩
    exact hd.trans (congrArg Except.ok (hiff.mpr hsurvives))
  · rintro ⟨r, hr, hmatches, hlost⟩
    -- the last receipt of the fact binds it
    obtain ⟨r', hr', hkey⟩ := exists_binds hr hmatches
    obtain ⟨d, hd, hiff⟩ := hdigest r' hr'.matches.2
    refine ⟨r'.binding, mem_matchingBindings.mpr ⟨r', hr', rfl⟩, fun hsame => hlost ?_⟩
    rw [← hkey]
    exact hiff.mp (Except.ok.inj (hd.symm.trans hsame))

end

theorem load_mismatch {bindings : List SourceBinding} :
    (loadIntoGraphWithBindings c contentHash extraction repo commit bindings s).2
        = .error (.graph mismatch)
      ↔ ∃ expected, s.readSnapshot c = .ok expected ∧
        (s.applyPatchWithSourceBindings c expected
          (reconcile contentHash extraction repo commit expected).1 repo bindings).2
          = .error mismatch := by
  rw [loadIntoGraphWithBindings]
  cases hread : s.readSnapshot c with
  | error e =>
    refine iff_of_false (fun h => ?_) (by simp)
    have he : e = mismatch := by simpa using h
    exact readSnapshot_ne_mismatch (he ▸ hread)
  | ok expected =>
    simp only [Except.ok.injEq, exists_eq_left']
    generalize s.applyPatchWithSourceBindings c expected
      (reconcile contentHash extraction repo commit expected).1 repo bindings = answer
    obtain ⟨s', result⟩ := answer
    cases result with
    | error e => simp
    | ok b => cases b <;> simp [graphChanged]

theorem load_mismatch_iff (hs : s.ForeignKeys)
    (hdistinct : ∀ text v, c.fromText text = some v → v.Distinct)
    (hparses : PublishedParses c contentHash extraction repo commit) :
    (loadIntoGraphWithBindings c contentHash extraction repo commit
        (matchingBindings c contentHash extraction receipts) s).2 = .error (.graph mismatch)
      ↔ Publishable c contentHash extraction repo s receipts ∧
        ∃ r ∈ receipts, r.matchesFact c contentHash extraction = true ∧
          ¬Survives c contentHash extraction repo commit s r.factKey := by
  rw [load_mismatch]
  constructor
  · rintro ⟨expected, hread, h⟩
    obtain ⟨hadmissible, -, howners, s₁, h1, hfails⟩ := publication_mismatch.mp h
    obtain ⟨hrepo, hcount, hvalid⟩ := admissible_iff.mp hadmissible
    have hattachable := (applyPatchRows_of_attachable hs).mp ⟨s₁, h1⟩
    exact ⟨⟨⟨expected, hread⟩, hrepo, hcount, hvalid, owners_iff.mp howners,
      (attachable_iff hread).mp hattachable⟩,
      (comparison_fails_iff hs hread hparses howners h1).mp hfails⟩
  · rintro ⟨h, hlost⟩
    obtain ⟨expected, hread⟩ := h.readable
    have howners := owners_iff.mpr h.owners
    have hattachable : s.view.Attachable c
        (reconcile contentHash extraction repo commit expected).1 :=
      (attachable_iff hread).mpr h.endpoints
    obtain ⟨s₁, h1⟩ : ∃ s₁, (s.removeRepoBindings repo).applyPatchRows c
        (reconcile contentHash extraction repo commit expected).1 = .ok s₁ :=
      (applyPatchRows_of_attachable hs).mpr hattachable
    exact ⟨expected, hread, publication_mismatch.mpr
      ⟨admissible_iff.mpr ⟨h.repoKey, h.count, h.valid⟩,
        ⟨expected, hread, snapshot_beq hdistinct hread⟩, howners, s₁, h1,
        (comparison_fails_iff hs hread hparses howners h1).mpr hlost⟩⟩

end Publication

/-- An extracted node with the id of the `Repo` node. -/
def extractedRepo : Node Json := ⟨"repo:o/r", "Repo", sampleProv "o/r"⟩

/-- The digests of this node, of the channel and of the `Repo` node of the load. -/
def boundCodec : Codec Json :=
  { sampleCodec with
    nodeDigest := fun node =>
      if node == extractedRepo then
        "node-v1:27c129da3f445de58d0adfe6aed7aa59d2ac310821259b30775f8c1001ccf3e5"
      else if node == sampleChannel then
        "node-v1:2b4d55577edf2c464ad79b650cc58bda960effc017b7b80f2ab5826c0d46c5d8"
      else "node-v1:e1c7e2c8f7f4fc396380731ef737e31919fc71bbdc828ccceaeae4a2470cb914" }

def nodeReceipt (node : Node Json) : Receipt :=
  ⟨"receipt", 1, "o/r", .node node.id, boundCodec.nodeDigest node,
    [⟨.provenance, 0, ⟨"o/r", "main.tf", 0, 1, "c1"⟩⟩]⟩

/-- A first load of one node, with its receipt. -/
def boundLoad (node : Node Json) : Store × Except LoadError ReconcileStats :=
  loadIntoGraphWithBindings boundCodec sampleHash ⟨[node], []⟩ "o/r" "c2"
    (matchingBindings boundCodec sampleHash ⟨[node], []⟩ [nodeReceipt node]) Store.empty

/-- The load has ended with the failed comparison. -/
def endsInMismatch : Except LoadError ReconcileStats → Bool
  | .error (.graph e) => e = mismatch
  | _ => false

theorem eq_mismatch {r : Except LoadError ReconcileStats} (h : endsInMismatch r = true) :
    r = .error (.graph mismatch) := by
  cases r with
  | ok stats => exact absurd h (by simp [endsInMismatch])
  | error e =>
    cases e with
    | message text => exact absurd h (by simp [endsInMismatch])
    | graph e =>
      have he : e = mismatch := by simpa [endsInMismatch] using h
      rw [he]

theorem boundCodec_distinct : ∀ text v, boundCodec.fromText text = some v → v.Distinct := by
  intro text v h
  have hmem := List.mem_of_find?_eq_some h
  simp only [List.mem_cons, List.not_mem_nil, or_false] at hmem
  rcases hmem with rfl | rfl | rfl | rfl <;>
    simp [Json.Distinct, Json.fieldsDistinct, Json.itemsDistinct, sampleResource, sampleChannel,
      sampleBacks, sampleProv, repoNode, repoProv, Provenance.toJson, EvidenceRef.toJson, Json.nat]

theorem PublishedReadBack.parses {c : Codec Json} {contentHash : String → Hash}
    {extraction : Extraction} {repo commit : String}
    (h : PublishedReadBack c contentHash extraction repo commit) :
    PublishedParses c contentHash extraction repo commit where
  node nodeId node hnode := by
    obtain ⟨v, hv, -⟩ := h.node nodeId node hnode
    exact ⟨v, hv⟩
  edge k edge hedge := by
    obtain ⟨v, hv, -⟩ := h.edge k edge hedge
    exact ⟨v, hv⟩

end Ingest

/-
Loading an extraction into the graph (`src-tauri/src/main.rs`).

`load_into_graph_with_bindings` compares the stored graph with the facts of an extraction and
its `Repo` node: stale edges of the repository go, then the nodes that are stale by their id
or that no edge refers to any more, and what is new or different is written.  The patch is
applied when the graph is still the one that was read.

* `find?_currentNodes` — the last node of an id, the `Repo` node after all others;
* `existing_nodes`, `existing_edges` — the maps of a snapshot hold the stored facts.
-/
import Cartograph.Ingest.Merge
import Cartograph.ConditionalPatch

namespace Ingest

open GraphStore Investigation Checked

structure Extraction where
  nodes : List (Node Json)
  edges : List (Edge Json)

/-! ### What a load reports -/

structure MergedFacts where
  nodes : ℕ
  edges : ℕ
  nodeCollisions : ℕ

structure PublishedFacts where
  nodes : List String
  edges : List EdgeKey
  merged : MergedFacts

structure ReconcileStats where
  insertedOrUpdated : ℕ
  unchanged : ℕ
  deleted : ℕ
  published : PublishedFacts

inductive LoadError
  | graph (e : GraphError)
  | message (text : String)

def graphChanged : LoadError :=
  .message "Graph changed during recovery publication; recover the source again."

/-! ### Current facts -/

section

variable (contentHash : String → Hash)

/-- The provenance of a `Repo` node; it is within the ceiling of its tier. -/
def repoProv (repo commit : String) : Provenance :=
  ⟨.deterministic, .confirmed, [], "app.ingest",
    (contentHash (Json.render (.arr [.str "registered-repo-v1", .str repo, .str commit]))).text⟩

def repoNode (repo commit : String) : Node Json where
  id := repoNodeId repo
  label := "Repo"
  props := .obj [("commit", .str commit), ("prov", (repoProv contentHash repo commit).toJson)]

/-- The nodes of the extraction by id, and the ids that were given different facts. -/
def collectNodes (nodes : List (Node Json)) : Table String (Node Json) × OrderedSet String :=
  nodes.foldl (fun (acc : Table String (Node Json) × OrderedSet String) node =>
    let colliding := match acc.1.find? node.id with
      | some previous => if previous != node then acc.2.insert node.id else acc.2
      | none => acc.2
    (acc.1.put node.id node, colliding)) (.empty, .empty)

def currentNodes (extraction : Extraction) (repo commit : String) : Table String (Node Json) :=
  (collectNodes extraction.nodes).1.put (repoNodeId repo) (repoNode contentHash repo commit)

def distinctEdgeCount (edges : List (Edge Json)) : ℕ :=
  (OrderedSet.ofList (edges.map Edge.key)).elements.length

def mergedFacts (extraction : Extraction) : MergedFacts where
  nodes := extraction.nodes.length - (collectNodes extraction.nodes).1.rows.length
  edges := extraction.edges.length - distinctEdgeCount extraction.edges
  nodeCollisions := (collectNodes extraction.nodes).2.elements.length

end

/-! ### The patch -/

section

variable (repo : String) (nodes : Table String (Node Json)) (edges : Table EdgeKey (Edge Json))
  (existingNodes : Table String (Node Json)) (existingEdges : Table EdgeKey (Edge Json))

/-- An edge of the repository that was not extracted again. -/
def staleEdge (key : EdgeKey) (edge : Edge Json) : Bool :=
  factOwnedByRepo edge.props repo && (edges.find? key).isNone

def remainingEdgeKeys : List EdgeKey :=
  (existingEdges.rows.filter fun r => !staleEdge repo edges r.1 r.2).map Prod.fst
    ++ edges.rows.map Prod.fst

/-- A node is deleted when it was not extracted again and is in a namespace of the repository,
or is owned by it or a placeholder and no remaining edge refers to it. -/
def staleNode (id : String) (node : Node Json) : Bool :=
  let hasRemainingIncident :=
    (remainingEdgeKeys repo edges existingEdges).any fun key => key.incident id
  let owned := factOwnedByRepo node.props repo || idExplicitlyOwnedByRepo id repo
  let orphanPlaceholder := placeholder node.props && !hasRemainingIncident
  (nodes.find? id).isNone &&
    ((owned && (idExplicitlyOwnedByRepo id repo || !hasRemainingIncident)) || orphanPlaceholder)

def reconcilePatch : GraphPatch Json where
  deleteEdges := (existingEdges.rows.filter fun r => staleEdge repo edges r.1 r.2).map fun r =>
    (r.2.src, r.2.dst, r.2.label)
  deleteNodeIds := (existingNodes.rows.filter fun r =>
    staleNode repo nodes edges existingEdges r.1 r.2).map Prod.fst
  upsertNodes := (nodes.rows.map Prod.snd).filter fun node =>
    !(existingNodes.find? node.id == some node)
  upsertEdges := (edges.rows.filter fun r => !(existingEdges.find? r.1 == some r.2)).map Prod.snd

end

/-- The patch of a load against a snapshot, and what it reports. -/
def reconcile (contentHash : String → Hash) (extraction : Extraction) (repo commit : String)
    (expected : List (Node Json) × List (Edge Json)) : GraphPatch Json × ReconcileStats :=
  let nodes := currentNodes contentHash extraction repo commit
  let edges := mergeEdgeOccurrences contentHash extraction.edges
  let existingNodes := Table.ofList Node.id id expected.1
  let existingEdges := Table.ofList Edge.key id expected.2
  let patch := reconcilePatch repo nodes edges existingNodes existingEdges
  let written := patch.upsertNodes.length + patch.upsertEdges.length
  (patch,
    { insertedOrUpdated := written
      unchanged := nodes.rows.length + edges.rows.length - written
      deleted := patch.deleteEdges.length + patch.deleteNodeIds.length
      published := ⟨nodes.rows.map Prod.fst, edges.rows.map Prod.fst, mergedFacts extraction⟩ })

def loadIntoGraphWithBindings (c : Codec Json) (contentHash : String → Hash)
    (extraction : Extraction) (repo commit : String) (bindings : List SourceBinding) (s : Store) :
    Store × Except LoadError ReconcileStats :=
  match s.readSnapshot c with
  | .error e => (s, .error (.graph e))
  | .ok expected =>
    let (patch, stats) := reconcile contentHash extraction repo commit expected
    match s.applyPatchWithSourceBindings c expected patch repo bindings with
    | (s', .ok true) => (s', .ok stats)
    | (s', .ok false) => (s', .error graphChanged)
    | (s', .error e) => (s', .error (.graph e))

/-! ### Current and stored facts -/

/-- A node of the extraction, or the `Repo` node. -/
def Extracted (extraction : Extraction) (repo id : String) : Prop :=
  id ∈ extraction.nodes.map Node.id ∨ id = repoNodeId repo

theorem collectNodes_fst (nodes : List (Node Json)) :
    (collectNodes nodes).1 = Table.ofList Node.id id nodes := by
  induction nodes using List.reverseRecOn with
  | nil => rfl
  | append_singleton nodes node ih =>
    rw [Table.ofList_concat, ← ih, collectNodes, List.foldl_append, List.foldl_cons,
      List.foldl_nil]
    rfl

theorem find?_ofList {α κ : Type} [LinearOrder κ] (key : α → κ) (l : List α) (k : κ) :
    (Table.ofList key id l).find? k = lastWith key k l := by
  rw [Table.find?_ofList, Option.map_id, id_eq, lastWith]

theorem find?_currentNodes (contentHash : String → Hash) (extraction : Extraction)
    (repo commit id : String) :
    (currentNodes contentHash extraction repo commit).find? id
      = lastWith Node.id id (extraction.nodes ++ [repoNode contentHash repo commit]) := by
  rw [currentNodes, collectNodes_fst, Table.find?_put, find?_ofList, lastWith_snoc]
  have hid : (repoNode contentHash repo commit).id = repoNodeId repo := rfl
  by_cases hrepo : id = repoNodeId repo
  · rw [if_pos hrepo, if_pos (hid.trans hrepo.symm)]
  · rw [if_neg hrepo, if_neg fun h => hrepo (h.symm.trans hid)]

variable {extraction : Extraction}

theorem isSome_currentNodes (contentHash : String → Hash) (commit : String) {repo id : String} :
    ((currentNodes contentHash extraction repo commit).find? id).isSome = true
      ↔ Extracted extraction repo id := by
  rw [find?_currentNodes, lastWith_isSome, Extracted, List.mem_map]
  constructor
  · rintro ⟨node, hnode, rfl⟩
    rcases List.mem_append.mp hnode with hnode | hnode
    · exact .inl ⟨node, hnode, rfl⟩
    · rw [List.mem_singleton.mp hnode]
      exact .inr rfl
  · rintro (⟨node, hnode, rfl⟩ | rfl)
    · exact ⟨node, List.mem_append_left _ hnode, rfl⟩
    · exact ⟨_, List.mem_append_right _ (List.mem_singleton_self _), rfl⟩

theorem currentNodes_id {contentHash : String → Hash} {repo commit id : String} {node : Node Json}
    (h : (currentNodes contentHash extraction repo commit).find? id = some node) :
    node.id = id := by
  rw [find?_currentNodes, lastWith] at h
  simpa using List.find?_some h

/-- The node stored under an id. -/
def storedNode (c : Codec Json) (s : Store) (id : String) : Option (Node Json) :=
  (s.nodes.find? id).bind fun row => (c.fromText row.props).map fun props => ⟨id, row.label, props⟩

def storedEdge (c : Codec Json) (s : Store) (k : EdgeKey) : Option (Edge Json) :=
  (s.edges.find? k).bind fun text =>
    (c.fromText text).map fun props => ⟨k.src, k.dst, k.label, props⟩

theorem storedNode_id {c : Codec Json} {s : Store} {id : String} {node : Node Json}
    (h : storedNode c s id = some node) : node.id = id := by
  obtain ⟨row, -, hrow⟩ := Option.bind_eq_some_iff.mp h
  obtain ⟨props, -, rfl⟩ := Option.map_eq_some_iff.mp hrow
  rfl

theorem storedEdge_key {c : Codec Json} {s : Store} {k : EdgeKey} {edge : Edge Json}
    (h : storedEdge c s k = some edge) : edge.key = k := by
  obtain ⟨text, -, htext⟩ := Option.bind_eq_some_iff.mp h
  obtain ⟨props, -, rfl⟩ := Option.map_eq_some_iff.mp htext
  exact EdgeKey.edgeKey_eta k

theorem lastWith_eq_some {α κ : Type} [DecidableEq κ] {key : α → κ} {l : List α} {k : κ} {a : α}
    (h : (l.map key).Nodup) : lastWith key k l = some a ↔ a ∈ l ∧ key a = k := by
  constructor
  · intro hlast
    have hmem := List.mem_of_find?_eq_some hlast
    exact ⟨List.mem_reverse.mp hmem, by simpa using List.find?_some hlast⟩
  · rintro ⟨ha, rfl⟩
    obtain ⟨b, hb⟩ : ∃ b, lastWith key (key a) l = some b :=
      Option.isSome_iff_exists.mp (lastWith_isSome.mpr ⟨a, ha, rfl⟩)
    have hbmem : b ∈ l := List.mem_reverse.mp (List.mem_of_find?_eq_some hb)
    have hbkey : key b = key a := by simpa using List.find?_some hb
    rw [hb, List.inj_on_of_nodup_map h hbmem ha hbkey]

section Snapshot

variable {c : Codec Json} {s : Store} {expected : List (Node Json) × List (Edge Json)}

theorem readSnapshot_ok (h : s.readSnapshot c = .ok expected) :
    s.readNodes c = .ok expected.1 ∧ s.readEdges c = .ok expected.2 := by
  simp only [Store.readSnapshot, bind_eq_ok, pure_eq_ok] at h
  obtain ⟨nodes, hnodes, edges, hedges, rfl⟩ := h
  exact ⟨hnodes, hedges⟩

end Snapshot

theorem lastWith_mapM_rows {κ ν α ε : Type} [LinearOrder κ] {key : α → κ} {t : Table κ ν}
    {f : κ × ν → Except ε α} {l : List α} (hkey : ∀ r a, f r = .ok a → key a = r.1)
    (h : t.rows.mapM f = .ok l) (k : κ) :
    lastWith key k l = (t.find? k).bind fun v => (f (k, v)).toOption := by
  have hkeys : l.map key = t.rows.map Prod.fst := map_mapM_ok hkey h
  refine Option.ext fun a => ?_
  rw [lastWith_eq_some (hkeys ▸ t.keys_nodup), mem_mapM_ok h, Option.bind_eq_some_iff]
  constructor
  · rintro ⟨⟨r, hr, ha⟩, rfl⟩
    obtain ⟨k, v⟩ := r
    rw [hkey _ _ ha]
    refine ⟨v, Table.find?_eq_some_iff.mpr hr, ?_⟩
    rw [ha]
    rfl
  · rintro ⟨v, hv, ha⟩
    have hok : f (k, v) = .ok a := by
      cases hf : f (k, v) with
      | error e =>
        rw [hf] at ha
        exact absurd ha (by simp [Except.toOption])
      | ok b =>
        rw [hf] at ha
        rw [Option.some_inj.mp ha]
    exact ⟨⟨(k, v), Table.find?_eq_some_iff.mp hv, hok⟩, hkey _ _ hok⟩

section Snapshot

variable {c : Codec Json} {s : Store} {expected : List (Node Json) × List (Edge Json)}

section

variable (h : s.readSnapshot c = .ok expected)
include h

theorem existing_nodes (nodeId : String) :
    (Table.ofList Node.id id expected.1).find? nodeId = storedNode c s nodeId := by
  rw [find?_ofList, lastWith_mapM_rows ?_ (readSnapshot_ok h).1]
  · rw [storedNode]
    cases s.nodes.find? nodeId with
    | none => rfl
    | some row =>
      simp only [Option.bind_some]
      cases c.fromText row.props with
      | none => rfl
      | some props => rfl
  · intro r node hnode
    simp only [bind_eq_ok, orFail_eq_ok, pure_eq_ok] at hnode
    obtain ⟨props, -, rfl⟩ := hnode
    rfl

theorem existing_edges (k : EdgeKey) :
    (Table.ofList Edge.key id expected.2).find? k = storedEdge c s k := by
  rw [find?_ofList, lastWith_mapM_rows ?_ (readSnapshot_ok h).2]
  · rw [storedEdge]
    cases s.edges.find? k with
    | none => rfl
    | some text =>
      simp only [Option.bind_some]
      cases c.fromText text with
      | none => rfl
      | some props => rfl
  · intro r edge hedge
    simp only [bind_eq_ok, orFail_eq_ok, pure_eq_ok] at hedge
    obtain ⟨props, -, rfl⟩ := hedge
    exact EdgeKey.edgeKey_eta r.1

theorem storedNode_of_row {nodeId : String} {row : NodeRow}
    (hrow : s.nodes.find? nodeId = some row) : ∃ node, storedNode c s nodeId = some node := by
  obtain ⟨node, hnode⟩ := ok_of_mapM_ok (readSnapshot_ok h).1 (Table.find?_eq_some_iff.mp hrow)
  simp only [bind_eq_ok, orFail_eq_ok, pure_eq_ok] at hnode
  obtain ⟨props, hprops, rfl⟩ := hnode
  refine ⟨⟨nodeId, row.label, props⟩, ?_⟩
  rw [storedNode, hrow, Option.bind_some, hprops]
  rfl

theorem storedEdge_of_row {k : EdgeKey} {text : String}
    (hrow : s.edges.find? k = some text) : ∃ edge, storedEdge c s k = some edge := by
  obtain ⟨edge, hedge⟩ := ok_of_mapM_ok (readSnapshot_ok h).2 (Table.find?_eq_some_iff.mp hrow)
  simp only [bind_eq_ok, orFail_eq_ok, pure_eq_ok] at hedge
  obtain ⟨props, hprops, rfl⟩ := hedge
  refine ⟨⟨k.src, k.dst, k.label, props⟩, ?_⟩
  rw [storedEdge, hrow, Option.bind_some, hprops]
  rfl

end

end Snapshot

end Ingest

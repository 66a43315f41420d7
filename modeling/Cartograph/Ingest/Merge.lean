/-
The facts of an extraction (`src-tauri/src/main.rs`).

A load stores one fact for a key.  Of the nodes with one id the last is stored; the
occurrences of an edge are merged, so that no site loses its citation.  Who owns a stored fact
is read off its evidence, off its id, or off its being a placeholder.

* `find?_groupEdges` — the occurrences of a key, in the order of the extraction;
* `find?_mergeEdgeOccurrences` — the one edge they become.
-/
import Cartograph.Provenance
import Cartograph.Properties
import Cartograph.Lib.SortBy
import Cartograph.Lib.OrderedSet

namespace Ingest

open GraphStore Investigation

/-! ### Members of property values -/

/-- `Value::get`. -/
def member? (name : String) : Json → Option Json
  | .obj fields => findMember name fields
  | _ => none

/-- The assignment `value[name] = v`, on an object. -/
def setMember (name : String) (v : Json) : Json → Json
  | .obj fields => .obj (insertMember name v fields)
  | j => j

/-! ### Ownership -/

def factOwnedByRepo (props : Json) (repo : String) : Bool :=
  match Provenance.fromValue ((member? "prov" props).getD .null) with
  | some provenance => !provenance.evidence.isEmpty && provenance.evidence.all (·.repo == repo)
  | none => false

/-- The namespaces of ids that name their repository. -/
def repoNamespaces : List String :=
  ["file:", "sym:", "ep:", "res:", "screen:", "adr:", "tool:", "gap:call:", "gap:chan:", "gap:fetch:"]

def repoNodeId (repo : String) : String := "repo:" ++ repo

def idExplicitlyOwnedByRepo (id repo : String) : Bool :=
  id == repoNodeId repo
    || repoNamespaces.any fun space => (space ++ repo ++ "@").toList.isPrefixOf id.toList

/-- `props["placeholder"].as_bool() == Some(true)`. -/
def placeholder (props : Json) : Bool :=
  match member? "placeholder" props with
  | some (.bool b) => b
  | _ => false

/-! ### Merging the occurrences of an edge -/

def MAX_MERGED_EDGE_EVIDENCE : ℕ := 32

/-- The occurrences of one key, of which there is at least one. -/
structure Occurrences where
  earlier : List (Edge Json)
  last : Edge Json

def Occurrences.all (g : Occurrences) : List (Edge Json) := g.earlier ++ [g.last]

/-- `entry(key).or_default().push(edge)`. -/
def Occurrences.push (g : Option Occurrences) (edge : Edge Json) : Occurrences :=
  match g with
  | some g => ⟨g.all, edge⟩
  | none => ⟨[], edge⟩

def edgeProv (edge : Edge Json) : Option Provenance :=
  (member? "prov" edge.props).bind Provenance.fromValue

def evidenceKey (e : EvidenceRef) : String ×ₗ String ×ₗ ℕ ×ₗ ℕ ×ₗ String :=
  toLex (e.repo, toLex (e.path, toLex (e.byteStart, toLex (e.byteEnd, e.commitSha))))

section

variable (contentHash : String → Hash)

def mergeEdgeGroup (occurrences : Occurrences) : Edge Json :=
  let last := occurrences.last
  if occurrences.earlier.isEmpty then last else
  match edgeProv last with
  | none => last
  | some prov =>
    let unioned := (occurrences.all.filterMap edgeProv).filter fun other =>
      other.tier == prov.tier && other.confidenceTier == prov.confidenceTier
        && other.extractorId == prov.extractorId
    let hashes := OrderedSet.ofList (unioned.map (·.contentHash))
    let evidence := (SortBy.sortBy evidenceKey (unioned.flatMap (·.evidence))).destutter (· ≠ ·)
    let omitted := evidence.length - MAX_MERGED_EDGE_EVIDENCE
    let hash := if 1 < unioned.length then
        (contentHash (Json.render (.arr [.str "merged-edge-v1",
          .arr (hashes.elements.map .str), .arr (evidence.map EvidenceRef.toJson),
          .nat omitted]))).text
      else prov.contentHash
    let merged := { prov with
      contentHash := hash
      evidence := evidence.take MAX_MERGED_EDGE_EVIDENCE }
    let props := setMember "prov" merged.toJson last.props
    { last with
      props := if 0 < omitted then setMember "evidence_omitted" (.nat omitted) props else props }

def groupEdges (edges : List (Edge Json)) : Table EdgeKey Occurrences :=
  edges.foldl (fun groups edge => groups.put edge.key (.push (groups.find? edge.key) edge)) .empty

def mergeEdgeOccurrences (edges : List (Edge Json)) : Table EdgeKey (Edge Json) :=
  (groupEdges edges).mapValues (mergeEdgeGroup contentHash)

end

theorem groupEdges_concat (edges : List (Edge Json)) (edge : Edge Json) :
    groupEdges (edges ++ [edge])
      = (groupEdges edges).put edge.key (.push ((groupEdges edges).find? edge.key) edge) := by
  rw [groupEdges, List.foldl_append, List.foldl_cons, List.foldl_nil]
  rfl

theorem find?_groupEdges (edges : List (Edge Json)) (k : EdgeKey) :
    (((groupEdges edges).find? k).map Occurrences.all).getD [] = edges.filter (·.key = k) := by
  induction edges using List.reverseRecOn with
  | nil => rfl
  | append_singleton edges edge ih =>
    rw [groupEdges_concat, Table.find?_put, List.filter_append]
    by_cases hk : k = edge.key
    · have hlast : [edge].filter (fun e => decide (e.key = k)) = [edge] := by simp [hk]
      rw [if_pos hk, hlast, ← ih, hk]
      cases (groupEdges edges).find? edge.key with
      | none => rfl
      | some g => rfl
    · have hlast : [edge].filter (fun e => decide (e.key = k)) = [] := by
        simp [show edge.key ≠ k from fun h => hk h.symm]
      rw [if_neg hk, hlast, ih, List.append_nil]

variable {edges : List (Edge Json)} {k : EdgeKey}

theorem find?_groupEdges_eq_some {g : Occurrences} :
    (groupEdges edges).find? k = some g ↔ g.all = edges.filter (·.key = k) := by
  have hall := find?_groupEdges edges k
  constructor
  · intro hg
    rw [hg] at hall
    exact hall
  · intro hg
    rw [← hg] at hall
    cases hfind : (groupEdges edges).find? k with
    | none =>
      rw [hfind] at hall
      exact absurd hall.symm (by simp [Occurrences.all])
    | some g' =>
      rw [hfind] at hall
      have hall : g'.all = g.all := hall
      obtain ⟨hearlier, hlast⟩ := List.append_inj' hall rfl
      obtain ⟨earlier, last⟩ := g
      obtain ⟨earlier', last'⟩ := g'
      simp only [List.cons.injEq, and_true] at hearlier hlast
      rw [hearlier, hlast]

theorem mergeEdgeGroup_key (contentHash : String → Hash) (g : Occurrences) :
    (mergeEdgeGroup contentHash g).key = g.last.key := by
  simp only [mergeEdgeGroup]
  split
  · rfl
  · split
    · rfl
    · rfl

theorem last_key {g : Occurrences} (h : g.all = edges.filter (·.key = k)) : g.last.key = k := by
  have hmem : g.last ∈ edges.filter (·.key = k) := by
    rw [← h]
    exact List.mem_append_right _ (List.mem_singleton_self _)
  simpa using (List.mem_filter.mp hmem).2

theorem find?_mergeEdgeOccurrences {contentHash : String → Hash} {edge : Edge Json} :
    (mergeEdgeOccurrences contentHash edges).find? k = some edge ↔
      ∃ g, g.all = edges.filter (·.key = k) ∧ edge = mergeEdgeGroup contentHash g := by
  rw [mergeEdgeOccurrences, Table.find?_mapValues, Option.map_eq_some_iff]
  constructor
  · rintro ⟨g, hg, rfl⟩
    exact ⟨g, find?_groupEdges_eq_some.mp hg, rfl⟩
  · rintro ⟨g, hg, rfl⟩
    exact ⟨g, find?_groupEdges_eq_some.mpr hg, rfl⟩

theorem isSome_mergeEdgeOccurrences (contentHash : String → Hash) :
    ((mergeEdgeOccurrences contentHash edges).find? k).isSome = true ↔ k ∈ edges.map Edge.key := by
  have hall := find?_groupEdges edges k
  rw [mergeEdgeOccurrences, Table.find?_mapValues, Option.isSome_map, List.mem_map]
  constructor
  · intro h
    obtain ⟨g, hg⟩ := Option.isSome_iff_exists.mp h
    have hg := find?_groupEdges_eq_some.mp hg
    have hmem : g.last ∈ edges.filter (·.key = k) := by
      rw [← hg]
      exact List.mem_append_right _ (List.mem_singleton_self _)
    exact ⟨g.last, (List.mem_filter.mp hmem).1, last_key hg⟩
  · rintro ⟨edge, hedge, rfl⟩
    cases hfind : (groupEdges edges).find? edge.key with
    | some g => rfl
    | none =>
      rw [hfind] at hall
      have hmem : edge ∈ edges.filter (·.key = edge.key) :=
        List.mem_filter.mpr ⟨hedge, by simp⟩
      rw [← hall] at hmem
      exact absurd hmem (by simp)

end Ingest

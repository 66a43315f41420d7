/-
What a neighbourhood holds.

The hub searches the snapshot hop by hop, over the edges whose ends are both nodes of it,
and stops early when a hop met nothing new.

* `spread_ball` — the search meets what is at most so many steps away;
* `neighborhood_exact` — a neighbourhood selects the nodes within its distance and the edges
  between them, and on a graph without dangling edges what `khop_subgraph` cuts out.
-/
import Cartograph.ContextHub.Pages
import Cartograph.Semantic.Context

namespace ContextHub

open Checked GraphStore Investigation SortBy Layers
open ContextSnapshot (meet visit spread selects inScope selected)
open Semantic.Adjacency (near)

/-- Both ends are nodes. -/
def Attached (nodes : List (Node Json.Value)) (e : Edge Json.Value) : Prop :=
  e.src ∈ nodes.map Node.id ∧ e.dst ∈ nodes.map Node.id

/-- The undirected graph of the edges between existing nodes. -/
def linked (nodes : List (Node Json.Value)) (edges : List (Edge Json.Value)) :
    SimpleGraph String :=
  .fromRel fun a b => ∃ e ∈ edges, Attached nodes e ∧ e.src = a ∧ e.dst = b

/-! ### Snapshots -/

variable {hash : String → String} {nodes : List (Node Json.Value)} {edges : List (Edge Json.Value)}
  {s : ContextSnapshot}

theorem new_parts (h : ContextSnapshot.new hash nodes edges = .ok s) :
    s.facts = (sortNodes nodes).map nodeFact ++ (sortEdges edges).map edgeFact
      ∧ s.nodeIds = .ofList ((sortNodes nodes).map Node.id)
      ∧ s.neighbors = (sortEdges edges).foldl (connect s.nodeIds) .empty := by
  rw [ContextSnapshot.new] at h
  split at h
  · exact absurd h (by simp)
  · split at h
    · exact absurd h (by simp)
    · obtain rfl := Except.ok.inj h
      exact ⟨rfl, rfl, rfl⟩

variable {id x y start : String} {hops : ℕ}

section

variable (h : ContextSnapshot.new hash nodes edges = .ok s)
include h

theorem contains_nodeIds :
    s.nodeIds.contains id = true ↔ id ∈ nodes.map Node.id := by
  rw [(new_parts h).2.1, OrderedSet.contains_ofList]
  exact ((sortBy_perm _ _).map Node.id).mem_iff

theorem near_neighbors :
    near s.neighbors x y ↔
      ∃ e ∈ edges, Attached nodes e ∧ ((e.src = x ∧ e.dst = y) ∨ (e.src = y ∧ e.dst = x)) := by
  have hfold := @Semantic.near_foldl Json.Value
    (fun e => s.nodeIds.contains e.src && s.nodeIds.contains e.dst) .empty (sortEdges edges) x y
  have hnone : ¬ near .empty x y := by
    rintro ⟨_, hfind, -⟩
    exact absurd hfind (by simp)
  rw [or_iff_left hnone] at hfold
  rw [(new_parts h).2.2]
  refine hfold.trans ?_
  have hmem : ∀ e, e ∈ sortEdges edges ↔ e ∈ edges := fun e => (sortBy_perm _ _).mem_iff
  refine exists_congr fun e => and_congr (hmem e) (and_congr ?_ Iff.rfl)
  rw [Bool.and_eq_true, contains_nodeIds h, contains_nodeIds h]
  rfl

theorem adj_linked :
    (linked nodes edges).Adj x y ↔ x ≠ y ∧ near s.neighbors x y := by
  rw [linked, SimpleGraph.fromRel_adj, near_neighbors h, ← exists_or]
  refine and_congr Iff.rfl (exists_congr fun e => ?_)
  tauto

end

/-! ### The search -/

theorem visit_eq (s : ContextSnapshot) (state : OrderedSet String × OrderedSet String)
    (node : String) :
    s.visit state node = (Semantic.Adjacency.neighbors s.neighbors node).foldl meet state := by
  rw [visit, Semantic.Adjacency.neighbors]
  cases s.neighbors.find? node with
  | none => rfl
  | some neighbors => rfl

/-- The elements of a set. -/
def members (ids : OrderedSet String) : Set String := {y | ids.contains y = true}

theorem meet_collects : Collects (fun state => members state.1) (fun state => members state.2)
    meet where
  seen_meet := by
    intro s y
    ext z
    rw [meet, members, members, Set.mem_insert_iff, Set.mem_ofPred_eq,
      Set.mem_ofPred_eq]
    by_cases hy : s.1.contains y = true
    · rw [if_pos hy]
      refine ⟨.inr, ?_⟩
      rintro (rfl | hz)
      · exact hy
      · exact hz
    · rw [if_neg hy, OrderedSet.contains_insert]
  fresh_meet := by
    intro s y
    ext z
    rw [meet, members, members, Set.mem_union, Set.mem_ofPred_eq,
      Set.mem_ofPred_eq, Set.mem_ofPred_eq]
    show _ ↔ s.2.contains z = true ∨ (z = y ∧ ¬ s.1.contains y = true)
    by_cases hy : s.1.contains y = true
    · rw [if_pos hy]
      simp [hy]
    · rw [if_neg hy, OrderedSet.contains_insert]
      simp [hy, or_comm]

theorem spread_ball (s : ContextSnapshot) {anchor : String} (hops : ℕ) {n : ℕ}
    {visited frontier : OrderedSet String}
    (hvisited : members visited = ball (near s.neighbors) anchor n)
    (hfrontier : members frontier = sphere (near s.neighbors) anchor n) :
    members (s.spread hops visited frontier)
      = ball (near s.neighbors) anchor (n + hops) := by
  induction hops generalizing n visited frontier with
  | zero => exact hvisited
  | succ hops ih =>
    have hloop : frontier.elements.foldl s.visit (visited, .empty)
        = (frontier.elements.flatMap (Semantic.Adjacency.neighbors s.neighbors)).foldl meet
          (visited, .empty) := by
      rw [List.foldl_flatMap]
      exact congrArg (fun f => List.foldl f _ _) (funext fun state => funext fun id => visit_eq ..)
    obtain ⟨hball, hsphere⟩ := meet_collects.round (s := (visited, .empty)) hvisited
      (by ext y; simp [members])
      (l := frontier.elements.flatMap (Semantic.Adjacency.neighbors s.neighbors)) (fun y => by
        rw [List.mem_flatMap, ← hfrontier]
        exact exists_congr fun x => and_congr OrderedSet.mem_elements Semantic.mem_neighbors)
    rw [spread, hloop]
    generalize (frontier.elements.flatMap (Semantic.Adjacency.neighbors s.neighbors)).foldl
      meet (visited, .empty) = state at hball hsphere
    show members (if state.2.rows = [] then state.1 else s.spread hops state.1 state.2) = _
    by_cases hend : state.2.rows = []
    · rw [if_pos hend]
      have hnone : sphere (near s.neighbors) anchor (n + 1) = ∅ := by
        rw [← hsphere]
        ext y
        rw [members, Set.mem_ofPred_eq, ← OrderedSet.mem_elements, OrderedSet.elements, hend]
        simp
      have hlast := (ball_of_sphere_empty hnone hops).1
      rw [Nat.add_right_comm, Nat.add_assoc] at hlast
      rw [hlast]
      exact hball
    · rw [if_neg hend, ih hball hsphere, Nat.add_right_comm, Nat.add_assoc]

theorem neighborhood_ball (s : ContextSnapshot) (start : String) (hops : ℕ) :
    members (s.neighborhood start hops)
      = ball (near s.neighbors) start hops := by
  have hstart : members (OrderedSet.ofList [start]) = {start} := by
    ext y
    rw [members, Set.mem_ofPred_eq, OrderedSet.contains_ofList, List.mem_singleton]
    rfl
  have hball := spread_ball s hops (n := 0) hstart hstart
  rwa [Nat.zero_add] at hball

theorem contains_neighborhood (h : ContextSnapshot.new hash nodes edges = .ok s) :
    (s.neighborhood start hops).contains id = true
      ↔ (linked nodes edges).edist start id ≤ hops := by
  have hadj : ∀ {x y}, (linked nodes edges).Adj x y → near s.neighbors x y :=
    fun hadj => ((adj_linked h).mp hadj).2
  have hnear : ∀ {x y}, near s.neighbors x y →
      x = y ∨ (linked nodes edges).Adj x y := by
    intro x y hnear
    by_cases hxy : x = y
    · exact .inl hxy
    · exact .inr ((adj_linked h).mpr ⟨hxy, hnear⟩)
  rw [← mem_ball_iff_edist hadj hnear, ← neighborhood_ball]
  rfl

/-! ### Selections -/

/-- Everything in the neighbourhood of `start`. -/
def around (start : String) (hops : ℕ) : Selection := ⟨.neighborhood start hops, none, .empty⟩

theorem selects_around {ids : OrderedSet String} {f : ContextFact} :
    selects (around start hops) (some ids) f = inScope ids f.reference := by
  simp [selects, around, OrderedSet.contains, Table.empty]

theorem selected_around (h : ContextSnapshot.new hash nodes edges = .ok s) (start : String)
    (hops : ℕ) (ids : OrderedSet String) :
    (s.selected (around start hops) (some ids)).Perm
      ((nodes.filter fun n => ids.contains n.id).map nodeFact
        ++ (edges.filter fun e => ids.contains e.src && ids.contains e.dst).map edgeFact) := by
  have hpredicate : selects (around start hops) (some ids) = fun f => inScope ids f.reference :=
    funext fun f => selects_around
  have hnodes : (fun f : ContextFact => inScope ids f.reference) ∘ nodeFact
      = fun n => ids.contains n.id := by
    funext n
    rw [Function.comp_apply, nodeFact, reference_make]
    rfl
  have hedges : (fun f : ContextFact => inScope ids f.reference) ∘ edgeFact
      = fun e => ids.contains e.src && ids.contains e.dst := by
    funext e
    rw [Function.comp_apply, edgeFact, reference_make]
    rfl
  rw [selected, hpredicate, (new_parts h).1, List.filter_append, List.filter_map,
    List.filter_map, hnodes, hedges]
  exact (((sortBy_perm _ _).filter _).map _).append (((sortBy_perm _ _).filter _).map _)

theorem khop_nodes (distance : Table String ℕ) :
    (nodes.filterMap fun n => (distance.find? n.id).map fun d => (d, n)).map
        (fun m => nodeFact m.2)
      = (nodes.filter fun n => (distance.find? n.id).isSome).map nodeFact := by
  induction nodes with
  | nil => rfl
  | cons n rest ih =>
    cases hfind : distance.find? n.id with
    | none =>
      rw [List.filterMap_cons_none (by rw [hfind]; rfl), List.filter_cons_of_neg (by simp [hfind]), ih]
    | some d =>
      rw [List.filterMap_cons_some (by rw [hfind]; rfl), List.filter_cons_of_pos (by simp [hfind]),
        List.map_cons, List.map_cons, ih]

theorem khop_contains (h : ContextSnapshot.new hash nodes edges = .ok s)
    (hattached : ∀ e ∈ edges, Attached nodes e) (start : String) (hops : ℕ) (id : String) :
    ((Semantic.search (Semantic.adjacencyOf edges) start hops).1.find? id).isSome
      = (s.neighborhood start hops).contains id := by
  have hnear : near s.neighbors = (Semantic.adjacencyOf edges).near := by
    funext x y
    refine propext ((near_neighbors h).trans (Iff.trans ?_ Semantic.near_adjacencyOf.symm))
    refine exists_congr fun e => and_congr_right fun he => ?_
    exact and_iff_right (hattached e he)
  have hball : members (s.neighborhood start hops) = _ := neighborhood_ball s start hops
  have hseen := (Semantic.search_layers (Semantic.adjacencyOf edges) start hops).1
  rw [← hnear, ← hball] at hseen
  exact Bool.eq_iff_iff.mpr (Set.ext_iff.mp hseen id)

/-- **Neighbourhoods.**  The neighbourhood of a node selects exactly the nodes at distance at
most `hops`, along edges between existing nodes in either direction, and the edges between
them; on a graph without dangling edges these are what `khop_subgraph` cuts out. -/
theorem neighborhood_exact {hash : String → String} {nodes : List (Node Json.Value)}
    {edges : List (Edge Json.Value)} {s : ContextSnapshot}
    (h : ContextSnapshot.new hash nodes edges = .ok s) (start : String) (hops : ℕ) :
    (∀ id, (s.neighborhood start hops).contains id = true
      ↔ (linked nodes edges).edist start id ≤ hops)
    ∧ (∀ f, f ∈ s.selected (around start hops) (some (s.neighborhood start hops)) ↔
      (∃ n ∈ nodes, (linked nodes edges).edist start n.id ≤ hops ∧ f = nodeFact n)
      ∨ ∃ e ∈ edges, (linked nodes edges).edist start e.src ≤ hops
        ∧ (linked nodes edges).edist start e.dst ≤ hops ∧ f = edgeFact e)
    ∧ ((∀ e ∈ edges, Attached nodes e) →
      let g := Semantic.khopSubgraph nodes edges start hops
      (g.nodes.map (fun m => nodeFact m.2) ++ g.edges.map edgeFact).Perm
        (s.selected (around start hops) (some (s.neighborhood start hops)))) := by
  refine ⟨fun id => contains_neighborhood h, fun f => ?_, fun hattached => ?_⟩
  · rw [(selected_around h start hops _).mem_iff, List.mem_append, List.mem_map, List.mem_map]
    refine or_congr (exists_congr fun n => ?_) (exists_congr fun e => ?_)
    · rw [List.mem_filter, contains_neighborhood h, and_assoc, eq_comm (a := f)]
    · rw [List.mem_filter, Bool.and_eq_true, contains_neighborhood h, contains_neighborhood h,
        and_assoc, and_assoc, eq_comm (a := f)]
  · refine List.Perm.trans (.append ?_ ?_) (selected_around h start hops _).symm
    · refine ((sortBy_perm _ _).map _).trans (.of_eq ?_)
      rw [khop_nodes]
      exact congrArg (List.map nodeFact)
        (List.filter_congr fun n _ => khop_contains h hattached start hops n.id)
    · refine ((sortBy_perm _ _).map _).trans (.of_eq ?_)
      refine congrArg (List.map edgeFact) (List.filter_congr fun e _ => ?_)
      rw [khop_contains h hattached, khop_contains h hattached]

namespace Sample

/-- Three nodes in a row; the first also points at itself, and the last out of the graph. -/
def rowNodes : List (Node Json.Value) :=
  [⟨"a", "Symbol", none⟩, ⟨"b", "Symbol", none⟩, ⟨"c", "Symbol", none⟩]

def rowEdges : List (Edge Json.Value) :=
  [⟨"a", "a", "CALLS", none⟩, ⟨"b", "a", "CALLS", none⟩, ⟨"b", "c", "CALLS", none⟩,
    ⟨"a", "x", "CALLS", none⟩]

end Sample

/-- One hop from the first node the second is met, over an edge that points the other way,
and the third is not. -/
theorem neighborhood_exact_row : ∃ s, ContextSnapshot.new Sample.hash Sample.rowNodes Sample.rowEdges = .ok s
    ∧ (linked Sample.rowNodes Sample.rowEdges).edist "a" "b" ≤ 1
    ∧ ¬ (linked Sample.rowNodes Sample.rowEdges).edist "a" "c" ≤ 1 := by
  have hmet : ((ContextSnapshot.new Sample.hash Sample.rowNodes Sample.rowEdges).toOption.map
      fun s => (s.neighborhood "a" 1).elements) = some ["a", "b"] := by
    decide
  obtain ⟨s, hs, helements⟩ := Option.map_eq_some_iff.mp hmet
  have hnew : ContextSnapshot.new Sample.hash Sample.rowNodes Sample.rowEdges = .ok s := by
    cases hcases : ContextSnapshot.new Sample.hash Sample.rowNodes Sample.rowEdges with
    | error e =>
      rw [hcases] at hs
      exact absurd hs (by simp [Except.toOption])
    | ok s' =>
      rw [hcases] at hs
      rw [Option.some_inj.mp hs]
  obtain ⟨hdistance, -⟩ := neighborhood_exact hnew "a" 1
  refine ⟨s, hnew, (hdistance "b").mp ?_, fun hle => ?_⟩
  · rw [← OrderedSet.mem_elements, helements]
    decide
  · have hmem := (hdistance "c").mpr hle
    rw [← OrderedSet.mem_elements, helements] at hmem
    exact absurd hmem (by decide)

end ContextHub

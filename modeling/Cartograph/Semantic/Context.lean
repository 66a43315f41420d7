/-
The context around a node (`crates/semantic/src/context.rs`).

`khop_subgraph` searches the undirected view of the graph from a focus, hop by hop, and
notes for each node the hop it was met at.  What it returns is cut out of the graph by the
nodes it met.

* `search_layers` — after `n` hops the nodes met are those at most `n` steps away, and the
  frontier holds those exactly `n` steps away.
-/
import Cartograph.Lib.Layers
import Cartograph.Lib.OrderedSet
import Cartograph.Lib.SortBy
import Cartograph.GraphStore

namespace Semantic

open GraphStore SortBy Layers

variable {V : Type}

/-- A k-hop neighbourhood around one focus. -/
structure Subgraph (V : Type) where
  focus : String
  nodes : List (ℕ × Node V)
  edges : List (Edge V)

/-- `edge_identity`. -/
def edgeIdentity (e : Edge V) : String := e.src ++ " " ++ e.label ++ " " ++ e.dst

abbrev Adjacency := Table String (OrderedSet String)

def link (adjacency : Adjacency) (a b : String) : Adjacency :=
  adjacency.put a (((adjacency.find? a).getD .empty).insert b)

/-- The undirected view of the edges. -/
def adjacencyOf (edges : List (Edge V)) : Adjacency :=
  edges.foldl (fun adjacency e => link (link adjacency e.src e.dst) e.dst e.src) .empty

/-- The distances noted so far, and the next frontier. -/
abbrev Met := Table String ℕ × List String

/-- One neighbour, met at a hop. -/
def meet (hop : ℕ) (s : Met) (neighbor : String) : Met :=
  if (s.1.find? neighbor).isSome then s else (s.1.put neighbor hop, s.2 ++ [neighbor])

/-- One node of the frontier. -/
def visit (adjacency : Adjacency) (hop : ℕ) (s : Met) (id : String) : Met :=
  match adjacency.find? id with
  | none => s
  | some neighbors => neighbors.elements.foldl (meet hop) s

/-- The loop over the hops. -/
def search (adjacency : Adjacency) (focus : String) : ℕ → Met
  | 0 => (Table.empty.put focus 0, [focus])
  | n + 1 =>
    let s := search adjacency focus n
    s.2.foldl (visit adjacency (n + 1)) (s.1, [])

def khopSubgraph (nodes : List (Node V)) (edges : List (Edge V)) (focus : String) (k : ℕ) :
    Subgraph V :=
  let distance := (search (adjacencyOf edges) focus k).1
  { focus := focus
    nodes := sortBy (fun m => toLex (m.1, m.2.id))
      (nodes.filterMap fun n => (distance.find? n.id).map fun d => (d, n))
    edges := sortBy edgeIdentity
      (edges.filter fun e => (distance.find? e.src).isSome && (distance.find? e.dst).isSome) }

/-! ### Adjacency -/

/-- What is held as a neighbour. -/
def Adjacency.near (adjacency : Adjacency) (x y : String) : Prop :=
  ∃ neighbors, adjacency.find? x = some neighbors ∧ neighbors.contains y = true

def Adjacency.neighbors (adjacency : Adjacency) (x : String) : List String :=
  match adjacency.find? x with
  | none => []
  | some neighbors => neighbors.elements

variable {adjacency : Adjacency} {x y : String}

theorem mem_neighbors :
    y ∈ adjacency.neighbors x ↔ adjacency.near x y := by
  rw [Adjacency.neighbors, Adjacency.near]
  cases hfind : adjacency.find? x with
  | none => simp
  | some neighbors => simp [OrderedSet.mem_elements]

theorem near_link {a b : String} :
    (link adjacency a b).near x y ↔ (x = a ∧ y = b) ∨ adjacency.near x y := by
  rw [Adjacency.near, Adjacency.near, link, Table.find?_put]
  by_cases hx : x = a
  · subst hx
    rw [if_pos rfl]
    cases hfind : adjacency.find? x with
    | none => simp
    | some neighbors => simp
  · rw [if_neg hx]
    simp [hx]

theorem near_foldl {p : Edge V → Bool} {adjacency : Adjacency} {edges : List (Edge V)}
    {x y : String} :
    (edges.foldl (fun adjacency e =>
      if p e then link (link adjacency e.src e.dst) e.dst e.src else adjacency) adjacency).near x y ↔
    (∃ e ∈ edges, p e = true ∧ ((e.src = x ∧ e.dst = y) ∨ (e.src = y ∧ e.dst = x)))
      ∨ adjacency.near x y := by
  induction edges generalizing adjacency with
  | nil => simp
  | cons e rest ih =>
    rw [List.foldl_cons, ih]
    by_cases hp : p e = true
    · rw [if_pos hp, near_link, near_link]
      simp only [List.mem_cons, exists_eq_or_imp, hp, true_and]
      rw [eq_comm (a := x), eq_comm (a := y), eq_comm (a := x), eq_comm (a := y)]
      generalize (∃ e ∈ rest, p e = true ∧ _) = later
      generalize adjacency.near x y = before
      grind
    · rw [if_neg hp]
      simp only [List.mem_cons, exists_eq_or_imp, hp, Bool.false_eq_true, false_and, false_or]

theorem near_adjacencyOf {edges : List (Edge V)} :
    (adjacencyOf edges).near x y ↔
      ∃ e ∈ edges, (e.src = x ∧ e.dst = y) ∨ (e.src = y ∧ e.dst = x) := by
  have hfold := @near_foldl V (fun _ => true) .empty edges x y
  have hnone : ¬ Adjacency.near .empty x y := by
    rintro ⟨_, hfind, -⟩
    exact absurd hfind (by simp)
  simp only [if_true, true_and] at hfold
  exact hfold.trans (or_iff_left hnone)

/-! ### Layers -/

theorem visit_eq (adjacency : Adjacency) (hop : ℕ) (s : Met) (id : String) :
    visit adjacency hop s id = (adjacency.neighbors id).foldl (meet hop) s := by
  rw [visit, Adjacency.neighbors]
  cases adjacency.find? id with
  | none => rfl
  | some neighbors => rfl

theorem search_succ (adjacency : Adjacency) (focus : String) (n : ℕ) :
    search adjacency focus (n + 1)
      = ((search adjacency focus n).2.flatMap adjacency.neighbors).foldl (meet (n + 1))
        ((search adjacency focus n).1, []) := by
  rw [List.foldl_flatMap, search]
  exact congrArg (fun f => List.foldl f _ _) (funext fun s => funext fun id => visit_eq ..)

/-- The nodes with a distance, and the next frontier. -/
def seen (s : Met) : Set String := {y | (s.1.find? y).isSome = true}

def fresh (s : Met) : Set String := {y | y ∈ s.2}

theorem meet_collects (hop : ℕ) : Collects seen fresh (meet hop) where
  seen_meet := by
    intro s y
    ext z
    rw [meet, seen, seen, Set.mem_insert_iff, Set.mem_ofPred_eq, Set.mem_ofPred_eq]
    by_cases hy : (s.1.find? y).isSome = true
    · rw [if_pos hy]
      refine ⟨.inr, ?_⟩
      rintro (rfl | hz)
      · exact hy
      · exact hz
    · rw [if_neg hy, Table.find?_put]
      by_cases hz : z = y
      · simp [hz]
      · simp [hz]
  fresh_meet := by
    intro s y
    ext z
    rw [meet, fresh, fresh, Set.mem_union, Set.mem_ofPred_eq, Set.mem_ofPred_eq, Set.mem_ofPred_eq]
    show _ ↔ z ∈ s.2 ∨ (z = y ∧ ¬ (s.1.find? y).isSome = true)
    by_cases hy : (s.1.find? y).isSome = true
    · rw [if_pos hy]
      simp [hy]
    · rw [if_neg hy, List.mem_append, List.mem_singleton]
      simp [hy]

/-- **Layers.**  After `n` hops the search has met what is at most `n` steps away, and its
frontier is what is exactly `n` steps away. -/
theorem search_layers (adjacency : Adjacency) (focus : String) (n : ℕ) :
    seen (search adjacency focus n) = ball adjacency.near focus n
      ∧ fresh (search adjacency focus n) = sphere adjacency.near focus n := by
  induction n with
  | zero =>
    constructor
    · ext y
      show ((Table.empty.put focus 0).find? y).isSome = true ↔ y = focus
      rw [Table.find?_put]
      by_cases hy : y = focus
      · simp [hy]
      · simp [hy]
    · ext y
      show y ∈ [focus] ↔ y = focus
      exact List.mem_singleton
  | succ n ih =>
    obtain ⟨hseen, hfresh⟩ := ih
    rw [search_succ]
    refine (meet_collects (n + 1)).round (s := ((search adjacency focus n).1, [])) hseen ?_
      fun y => ?_
    · ext y
      show y ∈ [] ↔ False
      simp
    · rw [List.mem_flatMap, ← hfresh]
      exact exists_congr fun x => and_congr Iff.rfl mem_neighbors

end Semantic

/-
Breadth-first layers.

A breadth-first search goes from the nodes it met last to all their neighbours and keeps
those it has not met before.  After `n` rounds it has met the nodes at most `n` steps away,
and those it met last are exactly `n` steps away.

* `ball`, `sphere` — the nodes at most, and exactly, so many steps away;
* `mem_sphere_succ` — a new node has a neighbour among those met last;
* `mem_ball_iff_edist` — steps are distance in a simple graph;
* `Collects.round` — a loop that marks the nodes it meets and collects those it marks goes
  from one layer to the next.
-/
import Mathlib

namespace Layers

variable {ν : Type} (near : ν → ν → Prop) (start : ν)

/-- The nodes at most so many steps away. -/
def ball : ℕ → Set ν
  | 0 => {start}
  | n + 1 => ball n ∪ {y | ∃ x ∈ ball n, near x y}

/-- The nodes exactly so many steps away. -/
def sphere : ℕ → Set ν
  | 0 => {start}
  | n + 1 => ball near start (n + 1) \ ball near start n

variable {n : ℕ} {y : ν}

section Layers

variable {near start}

theorem mem_ball_succ : y ∈ ball near start (n + 1) ↔
    y ∈ ball near start n ∨ ∃ x ∈ ball near start n, near x y := Iff.rfl

theorem ball_subset_succ (n : ℕ) : ball near start n ⊆ ball near start (n + 1) :=
  fun _ hy => .inl hy

theorem ball_mono {m : ℕ} (h : n ≤ m) : ball near start n ⊆ ball near start m := by
  induction h with
  | refl => exact fun _ hy => hy
  | step _ ih => exact fun _ hy => ball_subset_succ _ (ih hy)

theorem sphere_subset (n : ℕ) : sphere near start n ⊆ ball near start n := by
  cases n with
  | zero => exact fun _ hy => hy
  | succ n => exact fun _ hy => hy.1

theorem mem_sphere_succ : y ∈ sphere near start (n + 1) ↔
    y ∉ ball near start n ∧ ∃ x ∈ sphere near start n, near x y := by
  constructor
  · rintro ⟨hball, hnew⟩
    obtain ⟨x, hx, hnear⟩ := hball.resolve_left hnew
    refine ⟨hnew, x, ?_, hnear⟩
    cases n with
    | zero => exact hx
    | succ n =>
      -- a neighbour met earlier would have led to `y` already
      refine ⟨hx, fun hearly => hnew ?_⟩
      exact mem_ball_succ.mpr (.inr ⟨x, hearly, hnear⟩)
  · rintro ⟨hnew, x, hx, hnear⟩
    exact ⟨mem_ball_succ.mpr (.inr ⟨x, sphere_subset n hx, hnear⟩), hnew⟩

theorem ball_succ (n : ℕ) :
    ball near start (n + 1) = ball near start n ∪ sphere near start (n + 1) := by
  ext y
  constructor
  · intro hy
    by_cases hold : y ∈ ball near start n
    · exact .inl hold
    · exact .inr ⟨hy, hold⟩
  · rintro (hy | hy)
    · exact ball_subset_succ n hy
    · exact hy.1

theorem ball_of_sphere_empty (h : sphere near start n = ∅) (m : ℕ) :
    ball near start (n + m) = ball near start n ∧ sphere near start (n + m) = ∅ := by
  induction m with
  | zero => exact ⟨rfl, h⟩
  | succ m ih =>
    obtain ⟨hball, hsphere⟩ := ih
    have hnone : sphere near start (n + m + 1) = ∅ := by
      ext y
      rw [mem_sphere_succ, hsphere]
      simp
    refine ⟨?_, hnone⟩
    rw [← Nat.add_assoc, ball_succ, hnone, Set.union_empty, hball]

/-! ### Distance -/

variable {G : SimpleGraph ν}

theorem mem_ball_of_walk (hadj : ∀ {x y}, G.Adj x y → near x y) {x : ν} (w : G.Walk x y) {m : ℕ}
    (hx : x ∈ ball near start m) : y ∈ ball near start (m + w.length) := by
  induction w generalizing m with
  | nil => exact hx
  | cons hxy w ih =>
    rw [SimpleGraph.Walk.length_cons, ← Nat.add_assoc, Nat.add_right_comm]
    exact ih (mem_ball_succ.mpr (.inr ⟨_, hx, hadj hxy⟩))

theorem mem_ball_iff_edist (hadj : ∀ {x y}, G.Adj x y → near x y)
    (hnear : ∀ {x y}, near x y → x = y ∨ G.Adj x y) :
    y ∈ ball near start n ↔ G.edist start y ≤ n := by
  constructor
  · intro hy
    induction n generalizing y with
    | zero =>
      obtain rfl : y = start := hy
      rw [SimpleGraph.edist_self]
      exact bot_le
    | succ n ih =>
      rcases mem_ball_succ.mp hy with hy | ⟨x, hx, hxy⟩
      · exact (ih hy).trans (by exact_mod_cast Nat.le_succ n)
      · have hstep : G.edist x y ≤ 1 := by
          rw [SimpleGraph.edist_le_one_iff_adj_or_eq]
          exact (hnear hxy).symm
        calc G.edist start y ≤ G.edist start x + G.edist x y := SimpleGraph.edist_triangle
          _ ≤ n + 1 := add_le_add (ih hx) hstep
          _ = ((n + 1 : ℕ) : ℕ∞) := by push_cast; rfl
  · intro hy
    have hreach : G.edist start y ≠ ⊤ := ne_top_of_le_ne_top (ENat.natCast_ne_top _) hy
    obtain ⟨w, hw⟩ := SimpleGraph.exists_walk_of_edist_ne_top hreach
    rw [← hw, Nat.cast_le] at hy
    have hball : y ∈ ball near start (0 + w.length) := mem_ball_of_walk hadj w rfl
    rw [Nat.zero_add] at hball
    exact ball_mono hy hball

end Layers

/-! ### Rounds -/

section Rounds

variable {σ : Type} (seen fresh : σ → Set ν) (meet : σ → ν → σ)

/-- A state that marks a node when it is met, and collects it when it was not marked. -/
structure Collects : Prop where
  seen_meet : ∀ s y, seen (meet s y) = insert y (seen s)
  fresh_meet : ∀ s y, fresh (meet s y) = fresh s ∪ {z | z = y ∧ y ∉ seen s}

variable {seen fresh meet}

theorem Collects.foldl (h : Collects seen fresh meet) (l : List ν) (s : σ) :
    seen (l.foldl meet s) = seen s ∪ {y | y ∈ l}
      ∧ fresh (l.foldl meet s) = fresh s ∪ {y | y ∈ l ∧ y ∉ seen s} := by
  induction l generalizing s with
  | nil => simp
  | cons y rest ih =>
    obtain ⟨hseen, hfresh⟩ := ih (meet s y)
    rw [h.seen_meet] at hseen hfresh
    rw [h.fresh_meet] at hfresh
    rw [List.foldl_cons]
    constructor
    · rw [hseen]
      ext z
      simp only [Set.mem_union, Set.mem_insert_iff, Set.mem_ofPred_eq, List.mem_cons]
      tauto
    · rw [hfresh]
      ext z
      simp only [Set.mem_union, Set.mem_insert_iff, Set.mem_ofPred_eq, List.mem_cons]
      by_cases hz : z = y
      · subst hz
        tauto
      · tauto

theorem Collects.round (h : Collects seen fresh meet) {near : ν → ν → Prop} {start : ν} {s : σ}
    (hseen : seen s = ball near start n) (hfresh : fresh s = ∅) {l : List ν}
    (hl : ∀ y, y ∈ l ↔ ∃ x ∈ sphere near start n, near x y) :
    seen (l.foldl meet s) = ball near start (n + 1)
      ∧ fresh (l.foldl meet s) = sphere near start (n + 1) := by
  obtain ⟨hseen', hfresh'⟩ := h.foldl l s
  have hsphere : fresh (l.foldl meet s) = sphere near start (n + 1) := by
    rw [hfresh', hfresh, Set.empty_union, hseen]
    ext y
    rw [Set.mem_ofPred_eq, hl, mem_sphere_succ, and_comm]
  refine ⟨?_, hsphere⟩
  rw [hseen', hseen, ball_succ]
  ext y
  rw [Set.mem_union, Set.mem_union, Set.mem_ofPred_eq, hl, mem_sphere_succ]
  by_cases hold : y ∈ ball near start n
  · simp [hold]
  · simp [hold]

end Rounds

end Layers

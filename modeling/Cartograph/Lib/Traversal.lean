/-
Bounded depth-first traversal.

A stack holds nodes still to be looked at, with their depth.  A node is expanded when it is
popped for the first time, unless it is a stop node; its arcs are taken in order and their
heads pushed.  At the depth limit a node is dropped, and the traversal is cut if the node
had anywhere to go.

* `finished` — with one step for the start and one for each arc, the stack is empty;
* `Explored` — the invariant: what was taken are the arcs of the expanded nodes, and what
  they lead to was expanded, is on the stack, or has no arcs;
* `mem_taken_iff` — a traversal that was not cut takes exactly the arcs of the nodes that
  are reachable without passing a stop node;
* `Depths` — the invariant of the depths: a node is expanded at the end of a path without
  repetition, and what it leads to is settled one step deeper;
* `Depths.expanded` — a node that a path leads to is expanded, unless a node of the path was
  expanded at the last depth;
* `Comes` — what a traversal takes from its stack: `comes_of_waiting`, nothing stays there;
  `cut_iff`, `visited_iff`, `lost_iff`, what it was cut at, visited and lost.
-/
import Mathlib

/-- A graph as a traversal sees it: the arcs out of a node, in the order they are taken. -/
structure Arcs (ν α : Type) where
  arcs : ν → List α
  head : α → ν
  stop : ν → Bool

structure Traversal (ν α : Type) where
  taken : List α := []
  visited : List ν := []
  stack : List (ν × ℕ) := []
  cut : Bool := false

namespace Arcs

variable {ν α : Type} [DecidableEq ν] (G : Arcs ν α) (limit : ℕ)

def step (t : Traversal ν α) : Traversal ν α :=
  match t.stack with
  | [] => t
  | (id, depth) :: rest =>
    if limit ≤ depth then { t with stack := rest, cut := t.cut || !(G.arcs id).isEmpty }
    else if id ∈ t.visited then { t with stack := rest }
    else if G.stop id then { t with visited := id :: t.visited, stack := rest }
    else
      { t with
        taken := t.taken ++ G.arcs id
        visited := id :: t.visited
        stack := (G.arcs id).map (fun a => (G.head a, depth + 1)) ++ rest }

def run : ℕ → Traversal ν α → Traversal ν α
  | 0, t => t
  | n + 1, t => run n (G.step limit t)

/-- The traversal from `start`. -/
def initial (start : ν) : Traversal ν α := { stack := [(start, 0)] }

/-- What one step does. -/
inductive Step (t : Traversal ν α) : Traversal ν α → Prop
  | done : t.stack = [] → Step t t
  | drop (id : ν) (depth : ℕ) (rest : List (ν × ℕ)) : t.stack = (id, depth) :: rest →
      limit ≤ depth → Step t { t with stack := rest, cut := t.cut || !(G.arcs id).isEmpty }
  | again (id : ν) (depth : ℕ) (rest : List (ν × ℕ)) : t.stack = (id, depth) :: rest →
      depth < limit → id ∈ t.visited → Step t { t with stack := rest }
  | stops (id : ν) (depth : ℕ) (rest : List (ν × ℕ)) : t.stack = (id, depth) :: rest →
      depth < limit → id ∉ t.visited → G.stop id = true →
      Step t { t with visited := id :: t.visited, stack := rest }
  | expands (id : ν) (depth : ℕ) (rest : List (ν × ℕ)) : t.stack = (id, depth) :: rest →
      depth < limit → id ∉ t.visited → G.stop id = false →
      Step t { t with
        taken := t.taken ++ G.arcs id
        visited := id :: t.visited
        stack := (G.arcs id).map (fun a => (G.head a, depth + 1)) ++ rest }

theorem step_cases (t : Traversal ν α) : G.Step limit t (G.step limit t) := by
  cases hstack : t.stack with
  | nil =>
    rw [step, hstack]
    exact .done hstack
  | cons top rest =>
    obtain ⟨id, depth⟩ := top
    rw [step, hstack]
    by_cases hdepth : limit ≤ depth
    · simp only [if_pos hdepth]
      exact .drop id depth rest hstack hdepth
    · simp only [if_neg hdepth]
      by_cases hvisited : id ∈ t.visited
      · simp only [if_pos hvisited]
        exact .again id depth rest hstack (Nat.lt_of_not_le hdepth) hvisited
      · simp only [if_neg hvisited]
        cases hstop : G.stop id with
        | true =>
          simp only [if_true]
          exact .stops id depth rest hstack (Nat.lt_of_not_le hdepth) hvisited hstop
        | false =>
          simp only [Bool.false_eq_true, if_false]
          exact .expands id depth rest hstack (Nat.lt_of_not_le hdepth) hvisited hstop

variable {P : Traversal ν α → Prop}

theorem run_invariant (hstep : ∀ t, P t → P (G.step limit t)) :
    ∀ n t, P t → P (G.run limit n t)
  | 0, _, h => h
  | n + 1, t, h => run_invariant hstep n _ (hstep t h)

/-! ### Termination -/

variable {t : Traversal ν α}

section Termination

variable {G} (all : List α) (tail : α → ν)

/-- The arcs that may still be taken. -/
def fresh (t : Traversal ν α) : List α :=
  all.filter fun a => decide (tail a ∉ t.visited)

/-- The steps still to be made, at most. -/
def potential (t : Traversal ν α) : ℕ :=
  t.stack.length + (fresh all tail t).length

theorem fresh_cons (t : Traversal ν α) (id : ν) (h : id ∉ t.visited) :
    (all.filter fun a => decide (tail a ∉ id :: t.visited)).length
      + (all.filter fun a => decide (tail a = id)).length = (fresh all tail t).length := by
  rw [fresh]
  induction all with
  | nil => rfl
  | cons a rest ih =>
    simp only [List.filter_cons, decide_eq_true_eq, List.mem_cons, not_or] at ih ⊢
    by_cases htail : tail a = id
    · have hold : tail a ∉ t.visited := by rwa [htail]
      simp only [htail, not_true_eq_false, false_and, if_false, if_true, List.length_cons, h,
        not_false_eq_true] at ih ⊢
      omega
    · by_cases hold : tail a ∈ t.visited
      · simp only [htail, hold, not_true_eq_false, and_false, if_false] at ih ⊢
        exact ih
      · simp only [htail, hold, not_false_eq_true, and_self, if_true, if_false,
          List.length_cons] at ih ⊢
        omega

theorem step_potential (harcs : ∀ id, (G.arcs id).Perm (all.filter fun a => decide (tail a = id)))
    (ht : t.stack ≠ []) :
    potential all tail (G.step limit t) < potential all tail t := by
  have hstep := G.step_cases limit t
  have hle : ∀ id, (all.filter fun a => decide (tail a ∉ id :: t.visited)).length
      ≤ (fresh all tail t).length := by
    intro id
    refine List.Sublist.length_le (List.monotone_filter_right _ fun a ha => ?_)
    simp only [decide_eq_true_eq, List.mem_cons, not_or] at ha ⊢
    exact ha.2
  generalize G.step limit t = t' at hstep ⊢
  cases hstep with
  | done hstack => exact absurd hstack ht
  | drop id depth rest hstack | again id depth rest hstack =>
    rw [potential, potential, hstack, List.length_cons]
    show rest.length + (fresh all tail t).length < _
    omega
  | stops id depth rest hstack =>
    rw [potential, potential, hstack, List.length_cons]
    show rest.length + (all.filter fun a => decide (tail a ∉ id :: t.visited)).length < _
    have := hle id
    omega
  | expands id depth rest hstack _ hfresh =>
    have hsplit := fresh_cons all tail t id hfresh
    have hlength := (harcs id).length_eq
    rw [potential, potential, hstack, List.length_cons]
    show ((G.arcs id).map _ ++ rest).length
      + (all.filter fun a => decide (tail a ∉ id :: t.visited)).length < _
    rw [List.length_append, List.length_map]
    omega

theorem run_finished (harcs : ∀ id, (G.arcs id).Perm (all.filter fun a => decide (tail a = id))) :
    ∀ (n : ℕ) (t : Traversal ν α), potential all tail t ≤ n → (G.run limit n t).stack = []
  | 0, t, h => by
    have hlength : t.stack.length = 0 := by
      rw [potential] at h
      omega
    exact List.length_eq_zero_iff.mp hlength
  | n + 1, t, h => by
    by_cases ht : t.stack = []
    · have hsame : G.step limit t = t := by rw [step, ht]
      rw [run, hsame]
      have hn : ∀ m, (G.run limit m t).stack = [] := by
        intro m
        induction m with
        | zero => exact ht
        | succ m ih => rwa [run, hsame]
      exact hn n
    · refine run_finished harcs n _ ?_
      have := step_potential limit all tail harcs ht
      omega

end Termination

/-! ### Reachable nodes -/

/-- Reachable without passing a stop node. -/
inductive Reaches (start : ν) : ν → Prop
  | start : Reaches start start
  | step {id : ν} {a : α} : Reaches start id → G.stop id = false → a ∈ G.arcs id →
      Reaches start (G.head a)

/-- The state of a traversal from `start`. -/
structure Explored (start : ν) (t : Traversal ν α) : Prop where
  visited : ∀ id ∈ t.visited, G.Reaches start id
  stack : ∀ top ∈ t.stack, G.Reaches start top.1
  taken : ∀ a, a ∈ t.taken ↔ ∃ id ∈ t.visited, G.stop id = false ∧ a ∈ G.arcs id
  closed : t.cut = false → ∀ id ∈ t.visited, G.stop id = false → ∀ a ∈ G.arcs id,
    G.head a ∈ t.visited ∨ G.head a ∈ t.stack.map Prod.fst ∨ G.arcs (G.head a) = []
  start : t.cut = false →
    start ∈ t.visited ∨ start ∈ t.stack.map Prod.fst ∨ G.arcs start = []

variable {G limit}

omit [DecidableEq ν] in
theorem explored_initial (start : ν) : G.Explored start (initial start) where
  visited := fun _ h => absurd h (by simp [initial])
  stack := by
    intro top htop
    obtain rfl : top = (start, 0) := by simpa [initial] using htop
    exact .start
  taken := fun a => by simp [initial]
  closed := fun _ _ h => absurd h (by simp [initial])
  start := fun _ => .inr (.inl (by simp [initial]))

variable {id' : ν} {N n : ℕ} {id : ν} {depth : ℕ} {rest : List (ν × ℕ)}

omit [DecidableEq ν] in
theorem settled {visited' : List ν} (hstack : t.stack = (id, depth) :: rest)
    (hgrows : ∀ x ∈ t.visited, x ∈ visited') (hid : id ∈ visited' ∨ G.arcs id = [])
    (h : id' ∈ t.visited ∨ id' ∈ t.stack.map Prod.fst ∨ G.arcs id' = []) :
    id' ∈ visited' ∨ id' ∈ rest.map Prod.fst ∨ G.arcs id' = [] := by
  rcases h with hvisited | hwaiting | hnone
  · exact .inl (hgrows id' hvisited)
  · rw [hstack, List.map_cons, List.mem_cons] at hwaiting
    rcases hwaiting with rfl | hwaiting
    · rcases hid with hvisited | hnone
      · exact .inl hvisited
      · exact .inr (.inr hnone)
    · exact .inr (.inl hwaiting)
  · exact .inr (.inr hnone)

variable {start : ν}

theorem Explored.step (h : G.Explored start t) :
    G.Explored start (G.step limit t) := by
  have hstep := G.step_cases limit t
  generalize G.step limit t = t' at hstep ⊢
  cases hstep with
  | done => exact h
  | drop id depth rest hstack =>
    -- if nothing was cut, the dropped node has no arcs
    have hold : ∀ {cut : Bool}, (cut || !(G.arcs id).isEmpty) = false →
        cut = false ∧ G.arcs id = [] := by
      intro cut hcut
      rw [Bool.or_eq_false_iff] at hcut
      exact ⟨hcut.1, by simpa using hcut.2⟩
    refine ⟨h.visited, fun top htop => ?_, h.taken, fun hcut id' hid' hgo a ha => ?_, fun hcut => ?_⟩
    · exact h.stack top (hstack ▸ List.mem_cons_of_mem _ htop)
    · obtain ⟨hbefore, hnone⟩ := hold hcut
      exact settled hstack (fun _ hx => hx) (.inr hnone) (h.closed hbefore id' hid' hgo a ha)
    · obtain ⟨hbefore, hnone⟩ := hold hcut
      exact settled hstack (fun _ hx => hx) (.inr hnone) (h.start hbefore)
  | again id depth rest hstack _ hvisited =>
    refine ⟨h.visited, fun top htop => ?_, h.taken, fun hcut id' hid' hgo a ha => ?_, fun hcut => ?_⟩
    · exact h.stack top (hstack ▸ List.mem_cons_of_mem _ htop)
    · exact settled hstack (fun _ hx => hx) (.inl hvisited) (h.closed hcut id' hid' hgo a ha)
    · exact settled hstack (fun _ hx => hx) (.inl hvisited) (h.start hcut)
  | stops id depth rest hstack _ _ hstop =>
    have hgrows : ∀ x ∈ t.visited, x ∈ id :: t.visited := fun x hx => List.mem_cons_of_mem _ hx
    have hid : id ∈ id :: t.visited ∨ G.arcs id = [] := .inl List.mem_cons_self
    refine ⟨fun x hx => ?_, fun top htop => ?_, fun a => ?_, fun hcut id' hid' hgo a ha => ?_,
      fun hcut => ?_⟩
    · rcases List.mem_cons.mp hx with rfl | hx
      · exact h.stack (x, depth) (hstack ▸ List.mem_cons_self)
      · exact h.visited x hx
    · exact h.stack top (hstack ▸ List.mem_cons_of_mem _ htop)
    · rw [h.taken]
      constructor
      · rintro ⟨id', hid', hgo, ha⟩
        exact ⟨id', hgrows id' hid', hgo, ha⟩
      · rintro ⟨id', hid', hgo, ha⟩
        rcases List.mem_cons.mp hid' with rfl | hid'
        · rw [hstop] at hgo
          exact absurd hgo (by simp)
        · exact ⟨id', hid', hgo, ha⟩
    · rcases List.mem_cons.mp hid' with rfl | hid'
      · rw [hstop] at hgo
        exact absurd hgo (by simp)
      · exact settled hstack hgrows hid (h.closed hcut id' hid' hgo a ha)
    · exact settled hstack hgrows hid (h.start hcut)
  | expands id depth rest hstack _ _ hgo =>
    have hreached : G.Reaches start id := h.stack (id, depth) (hstack ▸ List.mem_cons_self)
    have hgrows : ∀ x ∈ t.visited, x ∈ id :: t.visited := fun x hx => List.mem_cons_of_mem _ hx
    have hid : id ∈ id :: t.visited ∨ G.arcs id = [] := .inl List.mem_cons_self
    have hheads : ((G.arcs id).map fun a => (G.head a, depth + 1)).map Prod.fst
        = (G.arcs id).map G.head := by
      rw [List.map_map]
      rfl
    -- what waited still waits, below the heads of the new arcs
    have hwaits : ∀ {x}, x ∈ id :: t.visited ∨ x ∈ rest.map Prod.fst ∨ G.arcs x = [] →
        x ∈ id :: t.visited
          ∨ x ∈ ((G.arcs id).map (fun a => (G.head a, depth + 1)) ++ rest).map Prod.fst
          ∨ G.arcs x = [] := by
      rintro x (hvisited | hwaiting | hnone)
      · exact .inl hvisited
      · exact .inr (.inl (by rw [List.map_append]; exact List.mem_append_right _ hwaiting))
      · exact .inr (.inr hnone)
    refine ⟨fun x hx => ?_, fun top htop => ?_, fun a => ?_, fun hcut id' hid' hgo' a ha => ?_,
      fun hcut => hwaits (settled hstack hgrows hid (h.start hcut))⟩
    · rcases List.mem_cons.mp hx with rfl | hx
      · exact hreached
      · exact h.visited x hx
    · rcases List.mem_append.mp htop with hnew | hold
      · obtain ⟨a, ha, rfl⟩ := List.mem_map.mp hnew
        exact .step hreached hgo ha
      · exact h.stack top (hstack ▸ List.mem_cons_of_mem _ hold)
    · rw [List.mem_append, h.taken]
      constructor
      · rintro (⟨id', hid', hgo', ha⟩ | ha)
        · exact ⟨id', hgrows id' hid', hgo', ha⟩
        · exact ⟨id, List.mem_cons_self, hgo, ha⟩
      · rintro ⟨id', hid', hgo', ha⟩
        rcases List.mem_cons.mp hid' with rfl | hid'
        · exact .inr ha
        · exact .inl ⟨id', hid', hgo', ha⟩
    · rcases List.mem_cons.mp hid' with rfl | hid'
      · refine .inr (.inl ?_)
        rw [List.map_append, hheads]
        exact List.mem_append_left _ (List.mem_map_of_mem ha)
      · exact hwaits (settled hstack hgrows hid (h.closed hcut id' hid' hgo' a ha))

theorem explored_run (start : ν) (n : ℕ) : G.Explored start (G.run limit n (initial start)) :=
  G.run_invariant limit (fun _ h => h.step) n _ (explored_initial start)

omit [DecidableEq ν] in
theorem Explored.complete (h : G.Explored start t) (hdone : t.stack = []) (hcut : t.cut = false)
    (hid : G.Reaches start id) :
    id ∈ t.visited ∨ G.arcs id = [] := by
  have hrest : ∀ {x}, x ∈ t.visited ∨ x ∈ t.stack.map Prod.fst ∨ G.arcs x = [] →
      x ∈ t.visited ∨ G.arcs x = [] := by
    rintro x (hvisited | hwaiting | hnone)
    · exact .inl hvisited
    · rw [hdone] at hwaiting
      exact absurd hwaiting (by simp)
    · exact .inr hnone
  induction hid with
  | start => exact hrest (h.start hcut)
  | @step id a _ hgo ha ih =>
    rcases ih with hvisited | hnone
    · exact hrest (h.closed hcut id hvisited hgo a ha)
    · rw [hnone] at ha
      exact absurd ha (by simp)

omit [DecidableEq ν] in
/-- A traversal takes the arcs of reachable nodes that are not stop nodes, and all of them
unless it was cut. -/
theorem Explored.mem_taken_iff (h : G.Explored start t) (hdone : t.stack = [])
    (hcut : t.cut = false) {a : α} :
    a ∈ t.taken ↔ ∃ id, G.Reaches start id ∧ G.stop id = false ∧ a ∈ G.arcs id := by
  rw [h.taken]
  constructor
  · rintro ⟨id, hid, hgo, ha⟩
    exact ⟨id, h.visited id hid, hgo, ha⟩
  · rintro ⟨id, hid, hgo, ha⟩
    rcases h.complete hdone hcut hid with hvisited | hnone
    · exact ⟨id, hvisited, hgo, ha⟩
    · rw [hnone] at ha
      exact absurd ha (by simp)

/-! ### Depths -/

variable (G limit)

/-- A path from `start` to a node, by the nodes before it. -/
inductive Trail (start : ν) : List ν → ν → Prop
  | start : Trail start [] start
  | step {before : List ν} {id : ν} {a : α} : Trail start before id → G.stop id = false →
      a ∈ G.arcs id → Trail start (before ++ [id]) (G.head a)

/-- What waited at a depth was visited, or still waits there, or was dropped at the limit. -/
def Settled (t : Traversal ν α) (depth : ℕ) (id : ν) : Prop :=
  id ∈ t.visited ∨ (id, depth) ∈ t.stack ∨ limit ≤ depth ∧ (t.cut = true ∨ G.arcs id = [])

/-- The depths of a traversal from `start`. -/
structure Depths (start : ν) (t : Traversal ν α) : Prop where
  stack : ∀ top ∈ t.stack, ∃ before, G.Trail start before top.1 ∧ before.length = top.2
    ∧ before.Nodup ∧ ∀ x ∈ before, x ∈ t.visited
  closed : ∀ id ∈ t.visited, G.stop id = false → ∃ before, G.Trail start before id
    ∧ before.length < limit ∧ (before ++ [id]).Nodup
    ∧ ∀ a ∈ G.arcs id, G.Settled limit t (before.length + 1) (G.head a)
  start : G.Settled limit t 0 start

variable {G limit}

omit [DecidableEq ν] in
theorem depths_initial (start : ν) : G.Depths limit start (initial start) where
  stack := by
    intro top htop
    obtain rfl : top = (start, 0) := by simpa [initial] using htop
    exact ⟨[], .start, rfl, List.nodup_nil, fun x hx => absurd hx (by simp)⟩
  closed := fun _ h => absurd h (by simp [initial])
  start := .inr (.inl (by simp [initial]))

section Popped

variable {t' : Traversal ν α}

omit [DecidableEq ν] in
theorem Settled.popped (hstack : t.stack = (id, depth) :: rest)
    (hvisited : ∀ x ∈ t.visited, x ∈ t'.visited) (hrest : ∀ top ∈ rest, top ∈ t'.stack)
    (hcut : t.cut = true → t'.cut = true)
    (hid : id ∈ t'.visited ∨ limit ≤ depth ∧ (t'.cut = true ∨ G.arcs id = [])) {depth' : ℕ}
    (h : G.Settled limit t depth' id') :
    G.Settled limit t' depth' id' := by
  rcases h with hseen | hwaits | ⟨hdepth, hdropped⟩
  · exact .inl (hvisited id' hseen)
  · rw [hstack] at hwaits
    rcases List.mem_cons.mp hwaits with htop | hwaits
    · obtain ⟨rfl, rfl⟩ := Prod.mk.inj htop
      exact hid.imp id .inr
    · exact .inr (.inl (hrest _ hwaits))
  · exact .inr (.inr ⟨hdepth, hdropped.imp_left hcut⟩)

omit [DecidableEq ν] in
theorem Depths.popped (h : G.Depths limit start t) (hstack : t.stack = (id, depth) :: rest)
    (hrest : t'.stack = rest) (hvisited : ∀ x ∈ t.visited, x ∈ t'.visited)
    (hnew : ∀ x ∈ t'.visited, x ∈ t.visited ∨ G.stop x = true)
    (hcut : t.cut = true → t'.cut = true)
    (hid : id ∈ t'.visited ∨ limit ≤ depth ∧ (t'.cut = true ∨ G.arcs id = [])) :
    G.Depths limit start t' := by
  have hsettled : ∀ {depth' : ℕ} {id' : ν}, G.Settled limit t depth' id' →
      G.Settled limit t' depth' id' :=
    Settled.popped hstack hvisited (fun top htop => hrest ▸ htop) hcut hid
  refine ⟨fun top htop => ?_, fun x hx hgo => ?_, hsettled h.start⟩
  · rw [hrest] at htop
    obtain ⟨before, htrail, hlength, hnodup, hbefore⟩ :=
      h.stack top (hstack ▸ List.mem_cons_of_mem _ htop)
    exact ⟨before, htrail, hlength, hnodup, fun y hy => hvisited y (hbefore y hy)⟩
  · rcases hnew x hx with hold | hstop
    · obtain ⟨before, htrail, hlength, hnodup, harcs⟩ := h.closed x hold hgo
      exact ⟨before, htrail, hlength, hnodup, fun a ha => hsettled (harcs a ha)⟩
    · rw [hstop] at hgo
      exact absurd hgo (by simp)

end Popped

theorem Depths.step (h : G.Depths limit start t) :
    G.Depths limit start (G.step limit t) := by
  have hstep := G.step_cases limit t
  generalize G.step limit t = t' at hstep ⊢
  cases hstep with
  | done => exact h
  | drop id depth rest hstack hdepth =>
    -- a node at the limit is cut unless it has no arcs
    refine h.popped hstack rfl (fun _ hx => hx) (fun _ hx => .inl hx) (fun hcut => ?_)
      (.inr ⟨hdepth, ?_⟩)
    · show (t.cut || _) = true
      rw [hcut, Bool.true_or]
    · by_cases hnone : G.arcs id = []
      · exact .inr hnone
      · refine .inl ?_
        show (_ || !(G.arcs id).isEmpty) = true
        simp [hnone]
  | again id depth rest hstack _ hseen =>
    exact h.popped hstack rfl (fun _ hx => hx) (fun _ hx => .inl hx) (fun hcut => hcut) (.inl hseen)
  | stops id depth rest hstack _ _ hstop =>
    refine h.popped hstack rfl (fun _ hx => List.mem_cons_of_mem _ hx) (fun x hx => ?_) (fun h => h)
      (.inl List.mem_cons_self)
    rcases List.mem_cons.mp hx with rfl | hx
    · exact .inr hstop
    · exact .inl hx
  | expands id depth rest hstack hdepth hfresh hgo =>
    obtain ⟨before, htrail, hlength, hnodup, hbefore⟩ :=
      h.stack (id, depth) (hstack ▸ List.mem_cons_self)
    have hgrows : ∀ x ∈ t.visited, x ∈ id :: t.visited := fun x hx => List.mem_cons_of_mem _ hx
    -- the path to `id` has visited nodes only, and `id` is new
    have hsimple : (before ++ [id]).Nodup := by
      refine List.nodup_append.mpr ⟨hnodup, List.nodup_singleton _, ?_⟩
      rintro x hx y hy rfl
      rw [List.mem_singleton] at hy
      exact hfresh (hy ▸ hbefore x hx)
    generalize ht' : ({ t with
        taken := t.taken ++ G.arcs id
        visited := id :: t.visited
        stack := (G.arcs id).map (fun a => (G.head a, depth + 1)) ++ rest } :
          Traversal ν α) = t'
    have hvisited : t'.visited = id :: t.visited := by rw [← ht']
    have hwaiting : t'.stack = (G.arcs id).map (fun a => (G.head a, depth + 1)) ++ rest := by
      rw [← ht']
    have hsettled : ∀ {depth' : ℕ} {id' : ν}, G.Settled limit t depth' id' →
        G.Settled limit t' depth' id' := by
      intro depth' id' hid'
      refine hid'.popped hstack (fun x hx => hvisited ▸ hgrows x hx) (fun top htop => ?_)
        (fun hcut => by rw [← ht']; exact hcut) (.inl (hvisited ▸ List.mem_cons_self))
      rw [hwaiting]
      exact List.mem_append_right _ htop
    refine ⟨fun top htop => ?_, fun x hx hgo' => ?_, hsettled h.start⟩
    · rw [hwaiting] at htop
      rw [hvisited]
      rcases List.mem_append.mp htop with hnew | hold
      · obtain ⟨a, ha, rfl⟩ := List.mem_map.mp hnew
        refine ⟨before ++ [id], .step htrail hgo ha, by simp [hlength], hsimple, fun x hx => ?_⟩
        rcases List.mem_append.mp hx with hx | hx
        · exact hgrows x (hbefore x hx)
        · exact List.mem_cons.mpr (.inl (List.mem_singleton.mp hx))
      · obtain ⟨before', htrail', hlength', hnodup', hbefore'⟩ :=
          h.stack top (hstack ▸ List.mem_cons_of_mem _ hold)
        exact ⟨before', htrail', hlength', hnodup', fun x hx => hgrows x (hbefore' x hx)⟩
    · rw [hvisited] at hx
      rcases List.mem_cons.mp hx with rfl | hx
      · refine ⟨before, htrail, ?_, hsimple, fun a ha => .inr (.inl ?_)⟩
        · show before.length < limit
          rw [hlength]
          exact hdepth
        · rw [hlength, hwaiting]
          exact List.mem_append_left _ (List.mem_map_of_mem (f := fun a => (G.head a, depth + 1)) ha)
      · obtain ⟨before', htrail', hlength', hnodup', harcs⟩ := h.closed x hx hgo'
        exact ⟨before', htrail', hlength', hnodup', fun a ha => hsettled (harcs a ha)⟩

theorem depths_run (start : ν) (n : ℕ) : G.Depths limit start (G.run limit n (initial start)) :=
  G.run_invariant limit (fun _ h => h.step) n _ (depths_initial start)

omit [DecidableEq ν] in
/-- When nothing waits, a node that a path leads to was visited, or a node before it ends a
path without repetition that is one step short of the limit. -/
theorem Depths.expanded (h : G.Depths limit start t) (hlimit : 0 < limit) (hdone : t.stack = [])
    {before : List ν} (htrail : G.Trail start before id) :
    id ∈ t.visited ∨ (t.cut = true ∨ G.arcs id = []) ∧ ∃ far ∈ before, ∃ before',
      G.Trail start before' far ∧ before'.length + 1 = limit ∧ (before' ++ [far]).Nodup := by
  induction htrail with
  | start =>
    rcases h.start with hseen | hwaits | ⟨hdepth, -⟩
    · exact .inl hseen
    · rw [hdone] at hwaits
      exact absurd hwaits (by simp)
    · omega
  | @step before id a _ hgo ha ih =>
    rcases ih with hseen | ⟨hcut, far, hfar, hlast⟩
    · obtain ⟨before', htrail', hlength', hnodup', harcs⟩ := h.closed id hseen hgo
      rcases harcs a ha with hseen' | hwaits | ⟨hdepth, hdropped⟩
      · exact .inl hseen'
      · rw [hdone] at hwaits
        exact absurd hwaits (by simp)
      · exact .inr ⟨hdropped, id, by simp, before', htrail', by omega, hnodup'⟩
    · refine .inr ⟨.inl ?_, far, List.mem_append_left _ hfar, hlast⟩
      rcases hcut with hcut | hnone
      · exact hcut
      · rw [hnone] at ha
        exact absurd ha (by simp)

/-! ### What a traversal comes to -/

variable (G limit)

/-- Before its step `n`, the traversal from `start` is about to take `id` at `depth`. -/
def ComesAt (start : ν) (n : ℕ) (id : ν) (depth : ℕ) : Prop :=
  (G.run limit n (initial start)).stack.head? = some (id, depth)

/-- The traversal comes to `id` at `depth`. -/
def Comes (start id : ν) (depth : ℕ) : Prop := ∃ n, G.ComesAt limit start n id depth

theorem run_succ (n : ℕ) (t : Traversal ν α) :
    G.run limit (n + 1) t = G.step limit (G.run limit n t) := by
  induction n generalizing t with
  | zero => rfl
  | succ n ih => exact ih (G.step limit t)

variable {G limit}

theorem run_done (hle : N ≤ n) (hdone : (G.run limit N (initial start)).stack = []) :
    G.run limit n (initial start) = G.run limit N (initial start) := by
  induction n, hle using Nat.le_induction with
  | base => rfl
  | succ n _ ih => rw [run_succ, ih, step, hdone]

omit [DecidableEq ν] in
theorem head?_eq {depth depth' : ℕ} (hstack : t.stack = (id, depth) :: rest)
    (h : t.stack.head? = some (id', depth')) :
    id' = id ∧ depth' = depth := by
  rw [hstack, List.head?_cons, Option.some_inj, Prod.mk.injEq] at h
  exact ⟨h.1.symm, h.2.symm⟩

section

variable (hdone : (G.run limit N (initial start)).stack = [])
include hdone

theorem comes_of_waiting (h : (id, depth) ∈ (G.run limit n (initial start)).stack) :
    G.Comes limit start id depth := by
  by_cases hle : N ≤ n
  · rw [run_done hle hdone, hdone] at h
    exact absurd h List.not_mem_nil
  -- downwards from the end
  induction hk : N - n generalizing n with
  | zero => omega
  | succ k ih =>
    cases hstack : (G.run limit n (initial start)).stack with
    | nil =>
      rw [hstack] at h
      exact absurd h List.not_mem_nil
    | cons top rest =>
      rw [hstack] at h
      rcases List.mem_cons.mp h with rfl | hrest
      · exact ⟨n, by rw [ComesAt, hstack, List.head?_cons]⟩
      · have hnext : (id, depth) ∈ (G.run limit (n + 1) (initial start)).stack := by
          rw [run_succ]
          have hstep := G.step_cases limit (G.run limit n (initial start))
          generalize G.step limit (G.run limit n (initial start)) = t' at hstep ⊢
          cases hstep with
          | done hnil =>
            rw [hnil] at hstack
            exact absurd hstack (by simp)
          | drop id' depth' rest' hstack' | again id' depth' rest' hstack'
          | stops id' depth' rest' hstack' =>
            rw [hstack, List.cons.injEq] at hstack'
            exact hstack'.2 ▸ hrest
          | expands id' depth' rest' hstack' =>
            rw [hstack, List.cons.injEq] at hstack'
            exact List.mem_append_right _ (hstack'.2 ▸ hrest)
        by_cases hlast : N ≤ n + 1
        · rw [run_done hlast hdone, hdone] at hnext
          exact absurd hnext List.not_mem_nil
        · exact ih hnext hlast (by omega)

theorem comesAt_lt (h : G.ComesAt limit start n id depth) :
    n < N := by
  by_contra hle
  rw [ComesAt, run_done (Nat.le_of_not_lt hle) hdone, hdone] at h
  exact absurd h (by simp)

end

theorem cut_step (t : Traversal ν α) : (G.step limit t).cut = true ↔
    t.cut = true ∨ ∃ id depth, t.stack.head? = some (id, depth) ∧ limit ≤ depth ∧ G.arcs id ≠ [] := by
  have hstep := G.step_cases limit t
  generalize G.step limit t = t' at hstep ⊢
  cases hstep with
  | done hstack => simp [hstack]
  | drop id depth rest hstack hdepth =>
    rw [hstack]
    show (t.cut || !(G.arcs id).isEmpty) = true ↔ _
    simp only [Bool.or_eq_true, List.head?_cons, Option.some_inj, Prod.mk.injEq]
    refine or_congr_right ⟨fun harcs => ⟨id, depth, ⟨rfl, rfl⟩, hdepth, by simpa using harcs⟩, ?_⟩
    rintro ⟨_, _, ⟨rfl, rfl⟩, -, harcs⟩
    simpa using harcs
  | again id depth rest hstack hdepth | stops id depth rest hstack hdepth
  | expands id depth rest hstack hdepth =>
    refine ⟨.inl, fun h => h.resolve_right ?_⟩
    rintro ⟨id', depth', hhead, hle, -⟩
    obtain ⟨-, rfl⟩ := head?_eq hstack hhead
    omega

theorem visited_step (t : Traversal ν α) (x : ν) : x ∈ (G.step limit t).visited ↔
    x ∈ t.visited ∨ ∃ depth, t.stack.head? = some (x, depth) ∧ depth < limit := by
  have hstep := G.step_cases limit t
  generalize G.step limit t = t' at hstep ⊢
  cases hstep with
  | done hstack => simp [hstack]
  | drop id depth rest hstack hdepth =>
    refine ⟨.inl, fun h => h.resolve_right ?_⟩
    rintro ⟨depth', hhead, hlt⟩
    obtain ⟨-, rfl⟩ := head?_eq hstack hhead
    omega
  | again id depth rest hstack _ hseen =>
    refine ⟨.inl, fun h => h.elim (fun hx => hx) ?_⟩
    rintro ⟨depth', hhead, -⟩
    obtain ⟨rfl, -⟩ := head?_eq hstack hhead
    exact hseen
  | stops id depth rest hstack hdepth | expands id depth rest hstack hdepth =>
    rw [hstack]
    simp only [List.mem_cons, List.head?_cons, Option.some_inj, Prod.mk.injEq]
    constructor
    · rintro (rfl | hx)
      · exact .inr ⟨depth, ⟨rfl, rfl⟩, hdepth⟩
      · exact .inl hx
    · rintro (hx | ⟨_, ⟨rfl, rfl⟩, -⟩)
      · exact .inr hx
      · exact .inl rfl

theorem run_iff {Q : ν → ℕ → Prop}
    (hstep : ∀ t, P (G.step limit t) ↔ P t ∨ ∃ id depth, t.stack.head? = some (id, depth) ∧ Q id depth)
    (hinitial : ¬P (initial start)) (hdone : (G.run limit N (initial start)).stack = []) :
    P (G.run limit N (initial start)) ↔ ∃ id depth, G.Comes limit start id depth ∧ Q id depth := by
  have hrun : ∀ n, P (G.run limit n (initial start)) ↔
      ∃ m < n, ∃ id depth, G.ComesAt limit start m id depth ∧ Q id depth := by
    intro n
    induction n with
    | zero => exact ⟨fun h => absurd h hinitial, fun ⟨m, hm, _⟩ => absurd hm (by omega)⟩
    | succ n ih =>
      rw [run_succ, hstep, ih]
      constructor
      · rintro (⟨m, hm, h⟩ | h)
        · exact ⟨m, by omega, h⟩
        · exact ⟨n, by omega, h⟩
      · rintro ⟨m, hm, h⟩
        rcases Nat.lt_succ_iff_lt_or_eq.mp hm with hlt | rfl
        · exact .inl ⟨m, hlt, h⟩
        · exact .inr h
  rw [hrun]
  constructor
  · rintro ⟨m, -, id, depth, hcomes, hQ⟩
    exact ⟨id, depth, ⟨m, hcomes⟩, hQ⟩
  · rintro ⟨id, depth, ⟨m, hcomes⟩, hQ⟩
    exact ⟨m, comesAt_lt hdone hcomes, id, depth, hcomes, hQ⟩

theorem cut_iff (hdone : (G.run limit N (initial start)).stack = []) :
    (G.run limit N (initial start)).cut = true ↔
      ∃ id depth, G.Comes limit start id depth ∧ limit ≤ depth ∧ G.arcs id ≠ [] :=
  run_iff (P := fun t => t.cut = true) cut_step (by simp [initial]) hdone

theorem visited_iff (hdone : (G.run limit N (initial start)).stack = []) {x : ν} :
    x ∈ (G.run limit N (initial start)).visited ↔ ∃ depth < limit, G.Comes limit start x depth := by
  have hstep : ∀ t : Traversal ν α, x ∈ (G.step limit t).visited ↔ x ∈ t.visited
      ∨ ∃ id depth, t.stack.head? = some (id, depth) ∧ id = x ∧ depth < limit := by
    intro t
    rw [visited_step]
    refine or_congr_right ⟨fun ⟨depth, hhead, hlt⟩ => ⟨x, depth, hhead, rfl, hlt⟩, ?_⟩
    rintro ⟨_, depth, hhead, rfl, hlt⟩
    exact ⟨depth, hhead, hlt⟩
  rw [run_iff (P := fun t => x ∈ t.visited) hstep (by simp [initial]) hdone]
  constructor
  · rintro ⟨_, depth, hcomes, rfl, hlt⟩
    exact ⟨depth, hlt, hcomes⟩
  · rintro ⟨depth, hlt, hcomes⟩
    exact ⟨x, depth, hcomes, rfl, hlt⟩

theorem heads_waited (h : id ∈ (G.run limit n (initial start)).visited) (hgo : G.stop id = false)
    {a : α} (ha : a ∈ G.arcs id) :
    ∃ m depth, (G.head a, depth) ∈ (G.run limit m (initial start)).stack := by
  induction n with
  | zero => exact absurd h (by simp [run, initial])
  | succ n ih =>
    have hstep := G.step_cases limit (G.run limit n (initial start))
    have hsucc := G.run_succ limit n (initial start)
    rw [hsucc] at h
    generalize G.step limit (G.run limit n (initial start)) = t' at hstep hsucc h
    cases hstep with
    | done | drop | again => exact ih h
    | stops id' depth rest _ _ _ hstop =>
      rcases List.mem_cons.mp h with rfl | hold
      · rw [hstop] at hgo
        exact absurd hgo (by simp)
      · exact ih hold
    | expands id' depth rest =>
      rcases List.mem_cons.mp h with rfl | hold
      · refine ⟨n + 1, depth + 1, ?_⟩
        rw [hsucc]
        exact List.mem_append_left _ (List.mem_map_of_mem (f := fun a => (G.head a, depth + 1)) ha)
      · exact ih hold

theorem comes_le (h : G.Comes limit start id depth) : depth ≤ limit := by
  have hdepths : ∀ t : Traversal ν α, (∀ top ∈ t.stack, top.2 ≤ limit) →
      ∀ top ∈ (G.step limit t).stack, top.2 ≤ limit := by
    intro t ht
    have hstep := G.step_cases limit t
    generalize G.step limit t = t' at hstep ⊢
    cases hstep with
    | done => exact ht
    | drop _ _ rest hstack | again _ _ rest hstack | stops _ _ rest hstack =>
      exact fun top htop => ht top (hstack ▸ List.mem_cons_of_mem _ htop)
    | expands id depth rest hstack hlt =>
      intro top htop
      rcases List.mem_append.mp htop with hnew | hold
      · obtain ⟨a, -, rfl⟩ := List.mem_map.mp hnew
        exact hlt
      · exact ht top (hstack ▸ List.mem_cons_of_mem _ hold)
  obtain ⟨n, hhead⟩ := h
  refine G.run_invariant limit hdepths n (initial start) ?_ (id, depth) (List.mem_of_mem_head? hhead)
  intro top htop
  obtain rfl : top = (start, 0) := by simpa [initial] using htop
  exact Nat.zero_le _

theorem Comes.trail (h : G.Comes limit start id depth) :
    ∃ before, G.Trail start before id ∧ before.length = depth ∧ before.Nodup := by
  obtain ⟨n, hhead⟩ := h
  obtain ⟨before, htrail, hlength, hnodup, -⟩ :=
    (depths_run start n).stack (id, depth) (List.mem_of_mem_head? hhead)
  exact ⟨before, htrail, hlength, hnodup⟩

/-- **What is lost.**  A reachable node with arcs is left out exactly when the traversal comes at
the limit to a node with arcs, not a stop node, that it never comes to before the limit. -/
theorem lost_iff (hdone : (G.run limit N (initial start)).stack = []) :
    (∃ id, G.Reaches start id ∧ G.stop id = false ∧ G.arcs id ≠ []
        ∧ id ∉ (G.run limit N (initial start)).visited) ↔
      ∃ id depth, G.Comes limit start id depth ∧ limit ≤ depth ∧ G.arcs id ≠ [] ∧ G.stop id = false
        ∧ ∀ d < limit, ¬G.Comes limit start id d := by
  set visited := (G.run limit N (initial start)).visited with hvisited
  have hseen : ∀ {x depth}, G.Comes limit start x depth → x ∈ visited ∨ limit ≤ depth := by
    intro x depth hcomes
    rcases Nat.lt_or_ge depth limit with hlt | hge
    · exact .inl ((visited_iff hdone).mpr ⟨depth, hlt, hcomes⟩)
    · exact .inr hge
  constructor
  · rintro ⟨id, hreach, hgo, harcs, hlost⟩
    -- the first node of the path that was not visited was come to at the limit
    have hfirst : ∀ {x}, G.Reaches start x → x ∈ visited ∨ ∃ y depth, G.Comes limit start y depth
        ∧ limit ≤ depth ∧ y ∉ visited ∧ (y = x ∨ G.arcs y ≠ [] ∧ G.stop y = false) := by
      intro x hx
      induction hx with
      | start =>
        have hcomes : G.Comes limit start start 0 := ⟨0, rfl⟩
        by_cases hmem : start ∈ visited
        · exact .inl hmem
        · exact .inr ⟨start, 0, hcomes, (hseen hcomes).resolve_left hmem, hmem, .inl rfl⟩
      | @step x a _ hgo' ha ih =>
        rcases ih with hmem | ⟨y, depth, hcomes, hge, hnot, hy⟩
        · obtain ⟨m, depth, hwaits⟩ := heads_waited hmem hgo' ha
          have hcomes := comes_of_waiting hdone hwaits
          by_cases hmem' : G.head a ∈ visited
          · exact .inl hmem'
          · exact .inr ⟨G.head a, depth, hcomes, (hseen hcomes).resolve_left hmem', hmem', .inl rfl⟩
        · refine .inr ⟨y, depth, hcomes, hge, hnot, .inr ?_⟩
          rcases hy with rfl | hy
          · exact ⟨List.ne_nil_of_mem ha, hgo'⟩
          · exact hy
    -- it has arcs, or is the lost node itself, which has
    obtain ⟨y, depth, hcomes, hge, hnot, hy⟩ := (hfirst hreach).resolve_left hlost
    have hy' : G.arcs y ≠ [] ∧ G.stop y = false := by
      rcases hy with rfl | hy
      · exact ⟨harcs, hgo⟩
      · exact hy
    refine ⟨y, depth, hcomes, hge, hy'.1, hy'.2, fun d hd hcomes' => hnot ?_⟩
    exact (visited_iff hdone).mpr ⟨d, hd, hcomes'⟩
  · rintro ⟨id, depth, ⟨n, hcomes⟩, -, harcs, hgo, hnever⟩
    refine ⟨id, ?_, hgo, harcs, fun hmem => ?_⟩
    · exact (explored_run start n).stack (id, depth) (List.mem_of_mem_head? hcomes)
    · obtain ⟨d, hd, hcomes'⟩ := (visited_iff hdone).mp hmem
      exact hnever d hd hcomes'

end Arcs

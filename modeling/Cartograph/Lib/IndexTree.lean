/-
Trees of indices, read with a stack.

Nodes that refer to each other by index form a tree when each of them is reached once from the
root.  The walk takes an index from a stack, visits it and puts its children on the stack, over a
mark for leaving it.  It fails where an index comes a second time or lies too deep, and the visit
of a node may fail and keeps a state of its own.

* `step_cases` — what one step does;
* `run_drained` — the walk ends;
* `walk_tree` — a walk that ends without failing has read a tree, every node once.
-/
import Cartograph.Lib.Checked

namespace IndexTree

open Checked

/-- Trees side by side: the root of the first, its children, and the trees after it. -/
inductive Forest
  | nil
  | node (index : ℕ) (children siblings : Forest)

namespace Forest

def roots : Forest → List ℕ
  | nil => []
  | node i _ siblings => i :: siblings.roots

/-- The indices, each before those of its children. -/
def indices : Forest → List ℕ
  | nil => []
  | node i children siblings => i :: (children.indices ++ siblings.indices)

def depth : Forest → ℕ
  | nil => 0
  | node _ children siblings => max (children.depth + 1) siblings.depth

/-- The children are those that `next` names. -/
def Follows (next : ℕ → List ℕ) : Forest → Prop
  | nil => True
  | node i children siblings =>
    children.roots = next i ∧ children.Follows next ∧ siblings.Follows next

end Forest

/-- The state of a walk: what is to be entered or left, and at which depth. -/
structure Walk (σ : Type) where
  pending : List (ℕ × ℕ × Bool)
  active : List ℕ
  visited : List ℕ
  state : σ

section Walk

variable {ε σ : Type} (limit : ℕ) (tooDeep reused : ε)
  (visit : σ → ℕ → Except ε (List ℕ × σ))

def step (w : Walk σ) : Except ε (Walk σ) :=
  match w.pending with
  | [] => .ok w
  | (index, _, true) :: rest =>
    .ok { w with pending := rest, active := w.active.erase index }
  | (index, depth, false) :: rest => do
    ensure (depth ≤ limit) tooDeep
    ensure ((w.active.contains index || w.visited.contains index) = false) reused
    let r ← visit w.state index
    pure
      { pending := r.1.map (fun child => (child, depth + 1, false)) ++ (index, depth, true) :: rest
        active := index :: w.active
        visited := index :: w.visited
        state := r.2 }

def run : ℕ → Walk σ → Except ε (Walk σ)
  | 0, w => .ok w
  | n + 1, w => do
    let w ← step limit tooDeep reused visit w
    run n w

/-- A walk from one root. -/
def start (root : ℕ) (s : σ) : Walk σ := ⟨[(root, 1, false)], [], [], s⟩

/-- The visits of the nodes of a forest, one after the other. -/
def Visits : σ → Forest → σ → Prop
  | s, .nil, s' => s' = s
  | s, .node i children siblings, s' => ∃ s₁ s₂, visit s i = .ok (children.roots, s₁)
      ∧ Visits s₁ children s₂ ∧ Visits s₂ siblings s'

end Walk

section Walk

variable {ε σ : Type} {limit : ℕ} {tooDeep reused : ε} {visit : σ → ℕ → Except ε (List ℕ × σ)}

/-! ### One step -/

variable {w w' : Walk σ}

theorem step_cases (h : step limit tooDeep reused visit w = .ok w') :
    (w.pending = [] ∧ w' = w)
    ∨ (∃ i d rest, w.pending = (i, d, true) :: rest
      ∧ w' = { w with pending := rest, active := w.active.erase i })
    ∨ ∃ i d rest children s, w.pending = (i, d, false) :: rest ∧ d ≤ limit ∧ i ∉ w.visited
      ∧ visit w.state i = .ok (children, s)
      ∧ w' = { pending := children.map (fun child => (child, d + 1, false)) ++ (i, d, true) :: rest
               active := i :: w.active
               visited := i :: w.visited
               state := s } := by
  rw [step] at h
  split at h
  case h_1 hpending => exact .inl ⟨hpending, (Except.ok.inj h).symm⟩
  case h_2 i d rest hpending => exact .inr (.inl ⟨i, d, rest, hpending, (Except.ok.inj h).symm⟩)
  case h_3 i d rest hpending =>
    obtain ⟨⟨⟩, hdepth, h⟩ := bind_eq_ok.mp h
    obtain ⟨⟨⟩, hnew, h⟩ := bind_eq_ok.mp h
    obtain ⟨⟨children, s⟩, hvisit, h⟩ := bind_eq_ok.mp h
    have hfresh := (Bool.or_eq_false_iff.mp (ensure_eq_ok.mp hnew)).2
    refine .inr (.inr ⟨i, d, rest, children, s, hpending, ensure_eq_ok.mp hdepth, ?_, hvisit,
      (pure_eq_ok.mp h).symm⟩)
    rw [← List.contains_iff_mem, hfresh]
    exact Bool.false_ne_true

variable {rest : List (ℕ × ℕ × Bool)}

theorem step_enter {i d : ℕ} (hpending : w.pending = (i, d, false) :: rest)
    (h : step limit tooDeep reused visit w = .ok w') : d ≤ limit ∧ ∃ children s,
      visit w.state i = .ok (children, s)
      ∧ w'.pending = children.map (fun child => (child, d + 1, false)) ++ (i, d, true) :: rest
      ∧ w'.visited = i :: w.visited ∧ w'.state = s := by
  rcases step_cases h with ⟨hnil, -⟩ | ⟨i', d', rest', hleave, -⟩ |
    ⟨i', d', rest', children, s, henter, hdepth, -, hvisit, rfl⟩
  · rw [hnil] at hpending
    cases hpending
  · rw [hleave] at hpending
    cases hpending
  · rw [henter] at hpending
    cases hpending
    exact ⟨hdepth, children, s, hvisit, rfl, rfl, rfl⟩

theorem step_leave {i d : ℕ} (hpending : w.pending = (i, d, true) :: rest)
    (h : step limit tooDeep reused visit w = .ok w') :
    w'.pending = rest ∧ w'.visited = w.visited ∧ w'.state = w.state := by
  rcases step_cases h with ⟨hnil, -⟩ | ⟨i', d', rest', hleave, rfl⟩ |
    ⟨i', d', rest', children, s, henter, -⟩
  · rw [hnil] at hpending
    cases hpending
  · rw [hleave] at hpending
    cases hpending
    exact ⟨rfl, rfl, rfl⟩
  · rw [henter] at hpending
    cases hpending

/-! ### Runs -/

variable {n : ℕ}

theorem run_invariant {P : Walk σ → Prop}
    (hstep : ∀ w w', step limit tooDeep reused visit w = .ok w' → P w → P w')
    (h : run limit tooDeep reused visit n w = .ok w') (hw : P w) : P w' := by
  induction n generalizing w with
  | zero => exact Except.ok.inj h ▸ hw
  | succ n ih =>
    obtain ⟨w1, hfirst, hrest⟩ := bind_eq_ok.mp h
    exact ih hrest (hstep w w1 hfirst hw)

theorem run_of_drained {w : Walk σ} (h : w.pending = []) (n : ℕ) :
    run limit tooDeep reused visit n w = .ok w := by
  induction n with
  | zero => rfl
  | succ n ih =>
    have hstep : step limit tooDeep reused visit w = .ok w := by rw [step, h]
    rw [run, hstep]
    exact ih

theorem run_mono {visit' : σ → ℕ → Except ε (List ℕ × σ)}
    (h : ∀ s i r, visit s i = .ok r → visit' s i = .ok r)
    (hrun : run limit tooDeep reused visit n w = .ok w') :
    run limit tooDeep reused visit' n w = .ok w' := by
  induction n generalizing w with
  | zero => exact hrun
  | succ n ih =>
    obtain ⟨w1, hfirst, hrest⟩ := bind_eq_ok.mp hrun
    refine bind_eq_ok.mpr ⟨w1, ?_, ih hrest⟩
    rw [step] at hfirst ⊢
    split at hfirst
    case h_1 => exact hfirst
    case h_2 => exact hfirst
    case h_3 =>
      obtain ⟨⟨⟩, hdepth, hfirst⟩ := bind_eq_ok.mp hfirst
      obtain ⟨⟨⟩, hnew, hfirst⟩ := bind_eq_ok.mp hfirst
      obtain ⟨r, hvisit, hfirst⟩ := bind_eq_ok.mp hfirst
      exact bind_eq_ok.mpr ⟨(), hdepth, bind_eq_ok.mpr
        ⟨(), hnew, bind_eq_ok.mpr ⟨r, h _ _ _ hvisit, hfirst⟩⟩⟩

theorem run_nodup (h : run limit tooDeep reused visit n w = .ok w') (hw : w.visited.Nodup) :
    w'.visited.Nodup:= by
  refine run_invariant (P := fun w => w.visited.Nodup) (fun w w' hstep hw => ?_) h hw
  rcases step_cases hstep with ⟨-, rfl⟩ | ⟨i, d, rest, -, rfl⟩ |
    ⟨i, d, rest, children, s, -, -, hnew, -, rfl⟩
  · exact hw
  · exact hw
  · exact List.nodup_cons.mpr ⟨hnew, hw⟩

section Ends

variable {N k : ℕ} (hvisit : ∀ s i children s', visit s i = .ok (children, s') →
  i < N ∧ children.length ≤ k)

/-- What is left to do: each node not visited yet may put its children and its mark on the
stack. -/
def potential (N k : ℕ) (w : Walk σ) : ℕ := (k + 1) * (N - w.visited.length) + w.pending.length

include hvisit in
theorem step_potential (h : step limit tooDeep reused visit w = .ok w')
    (hw : w.visited.Nodup ∧ ∀ i ∈ w.visited, i < N) (hne : w.pending ≠ []) :
    potential N k w' < potential N k w := by
  rcases step_cases h with ⟨hnil, -⟩ | ⟨i, d, rest, hpending, rfl⟩ |
    ⟨i, d, rest, children, s, hpending, -, hnew, hok, rfl⟩
  · exact absurd hnil hne
  · simp only [potential, hpending, List.length_cons]
    omega
  · obtain ⟨hlt, hfew⟩ := hvisit _ _ _ _ hok
    -- one node is visited that was not
    have hroom : w.visited.length + 1 ≤ N := by
      have hnodup : (i :: w.visited).Nodup := List.nodup_cons.mpr ⟨hnew, hw.1⟩
      have hsub : (i :: w.visited) ⊆ List.range N := by
        intro j hj
        rcases List.mem_cons.mp hj with rfl | hj
        · exact List.mem_range.mpr hlt
        · exact List.mem_range.mpr (hw.2 j hj)
      have hle := (hnodup.subperm hsub).length_le
      rwa [List.length_cons, List.length_range] at hle
    obtain ⟨m, hm⟩ : ∃ m, N - w.visited.length = m + 1 := ⟨N - w.visited.length - 1, by omega⟩
    have hm' : N - (w.visited.length + 1) = m := by omega
    simp only [potential, hpending, List.length_append, List.length_map, List.length_cons, hm, hm',
      Nat.mul_succ]
    omega

include hvisit in
/-- **The walk ends** within the steps its potential allows. -/
theorem run_drained (h : run limit tooDeep reused visit n w = .ok w')
    (hw : w.visited.Nodup ∧ ∀ i ∈ w.visited, i < N) (hn : potential N k w ≤ n) :
    w'.pending = [] := by
  induction n generalizing w with
  | zero =>
    obtain rfl := Except.ok.inj h
    rw [potential] at hn
    exact List.eq_nil_of_length_eq_zero (by omega)
  | succ n ih =>
    obtain ⟨w1, hfirst, hrest⟩ := bind_eq_ok.mp h
    by_cases hne : w.pending = []
    · obtain rfl := Except.ok.inj ((run_of_drained hne (n + 1)).symm.trans h)
      exact hne
    · have hless := step_potential hvisit hfirst hw hne
      refine ih hrest ?_ (by omega)
      rcases step_cases hfirst with ⟨-, rfl⟩ | ⟨i, d, rest, -, rfl⟩ |
        ⟨i, d, rest, children, s, -, -, hnew, hok, rfl⟩
      · exact hw
      · exact hw
      · refine ⟨List.nodup_cons.mpr ⟨hnew, hw.1⟩, fun j hj => ?_⟩
        rcases List.mem_cons.mp hj with rfl | hj
        · exact (hvisit _ _ _ _ hok).1
        · exact hw.2 j hj

end Ends

/-! ### The tree -/

/-- One walk is the beginning of another. -/
def Reaches (limit : ℕ) (tooDeep reused : ε) (visit : σ → ℕ → Except ε (List ℕ × σ))
    (w w' : Walk σ) : Prop := ∃ n, run limit tooDeep reused visit n w = .ok w'

theorem Reaches.step_of_pending (h : Reaches limit tooDeep reused visit w w')
    (hdone : w'.pending = []) (hne : w.pending ≠ []) :
    ∃ w1, step limit tooDeep reused visit w = .ok w1
      ∧ Reaches limit tooDeep reused visit w1 w' := by
  obtain ⟨n, hn⟩ := h
  cases n with
  | zero =>
    obtain rfl := Except.ok.inj hn
    exact absurd hdone hne
  | succ n =>
    obtain ⟨w1, hfirst, hrest⟩ := bind_eq_ok.mp hn
    exact ⟨w1, hfirst, n, hrest⟩

theorem pending_ne_nil {w : Walk σ} {top : ℕ × ℕ × Bool} (h : w.pending = top :: rest) :
    w.pending ≠ []:= by
  rw [h]
  exact List.cons_ne_nil _ _

/-- Indices on the stack are the roots of the forest that is read next, to the depth that is
allowed. -/
theorem forest_of_reaches (room : ℕ) : ∀ (l : List ℕ) (d : ℕ), d + room = limit + 1 →
    ∀ {w w' : Walk σ} {rest : List (ℕ × ℕ × Bool)}, Reaches limit tooDeep reused visit w w' →
    w'.pending = [] → w.pending = l.map (fun i => (i, d, false)) ++ rest →
    ∃ f w1, f.roots = l ∧ f.depth ≤ room ∧ Visits visit w.state f w1.state
      ∧ w1.pending = rest ∧ w1.visited.Perm (f.indices ++ w.visited)
      ∧ Reaches limit tooDeep reused visit w1 w' := by
  induction room with
  | zero =>
    intro l d hd w w' rest hreach hdone hpending
    cases l with
    | nil => exact ⟨.nil, w, rfl, le_refl 0, rfl, hpending, .refl _, hreach⟩
    | cons i l =>
      -- the first of them lies too deep
      obtain ⟨w1, hstep, -⟩ := hreach.step_of_pending hdone (pending_ne_nil hpending)
      obtain ⟨hdepth, -⟩ := step_enter hpending hstep
      omega
  | succ room ihroom =>
    intro l d hd
    induction l with
    | nil =>
      intro w w' rest hreach hdone hpending
      exact ⟨.nil, w, rfl, Nat.zero_le _, rfl, hpending, .refl _, hreach⟩
    | cons i l ih =>
      intro w w' rest hreach hdone hpending
      obtain ⟨w1, hstep, hreach1⟩ := hreach.step_of_pending hdone (pending_ne_nil hpending)
      obtain ⟨-, children, s, hvisit, hpending1, hvisited1, rfl⟩ := step_enter hpending hstep
      -- the children are read first, then the mark that leaves the node
      obtain ⟨f, w2, hroots, hdepth, hvisits, hpending2, hvisited2, hreach2⟩ :=
        ihroom children (d + 1) (by omega) hreach1 hdone hpending1
      obtain ⟨w3, hleave, hreach3⟩ := hreach2.step_of_pending hdone
        (pending_ne_nil hpending2)
      obtain ⟨hpending3, hvisited3, hstate3⟩ := step_leave hpending2 hleave
      obtain ⟨g, w4, hroots', hdepth', hvisits', hpending4, hvisited4, hreach4⟩ :=
        ih hreach3 hdone hpending3
      refine ⟨.node i f g, w4, ?_, ?_, ⟨w1.state, w2.state, ?_, hvisits, ?_⟩, hpending4, ?_,
        hreach4⟩
      · rw [Forest.roots, hroots']
      · exact max_le (Nat.succ_le_succ hdepth) hdepth'
      · rw [hroots, hvisit]
      · rwa [← hstate3]
      · rw [hvisited3] at hvisited4
        rw [hvisited1] at hvisited2
        refine (hvisited4.trans (hvisited2.append_left g.indices)).trans ?_
        -- each index of the forest is counted once on either side
        refine List.perm_iff_count.mpr fun j => ?_
        simp only [Forest.indices, List.count_append, List.count_cons]
        omega

/-- **A walk has read a tree.** -/
theorem walk_tree {n root : ℕ} {s : σ} {w : Walk σ}
    (h : run limit tooDeep reused visit n (start root s) = .ok w) (hdone : w.pending = []) :
    ∃ f : Forest, f.roots = [root] ∧ f.depth ≤ limit ∧ Visits visit s f w.state
      ∧ w.visited.Perm f.indices := by
  obtain ⟨f, w1, hroots, hdepth, hvisits, hpending, hvisited, n', hrest⟩ :=
    forest_of_reaches limit [root] 1 (by omega) ⟨n, h⟩ hdone (List.append_nil _).symm
  obtain rfl := Except.ok.inj ((run_of_drained hpending n').symm.trans hrest)
  exact ⟨f, hroots, hdepth, hvisits, hvisited.trans (.of_eq (List.append_nil _))⟩

/-! ### What the visits say -/

theorem Visits.invariant {P : σ → Prop}
    (hkeep : ∀ s i children s', visit s i = .ok (children, s') → P s → P s') :
    ∀ {f : Forest} {s s' : σ}, Visits visit s f s' → P s → P s'
  | .nil, _, _, h, hs => h ▸ hs
  | .node _ _ _, _, _, ⟨_, _, hvisit, hchildren, hsiblings⟩, hs =>
    hsiblings.invariant hkeep (hchildren.invariant hkeep (hkeep _ _ _ _ hvisit hs))

theorem Visits.visited : ∀ {f : Forest} {s s' : σ}, Visits visit s f s' → ∀ i ∈ f.indices,
    ∃ s1 children s2, visit s1 i = .ok (children, s2)
  | .nil, _, _, _, _, hi => absurd hi List.not_mem_nil
  | .node _ _ _, _, _, ⟨_, _, hvisit, hchildren, hsiblings⟩, i, hi => by
    rcases List.mem_cons.mp hi with rfl | hi
    · exact ⟨_, _, _, hvisit⟩
    · rcases List.mem_append.mp hi with hi | hi
      · exact hchildren.visited i hi
      · exact hsiblings.visited i hi

theorem Visits.follows {next : ℕ → List ℕ}
    (hnext : ∀ s i children s', visit s i = .ok (children, s') → children = next i) :
    ∀ {f : Forest} {s s' : σ}, Visits visit s f s' → f.Follows next
  | .nil, _, _, _ => trivial
  | .node _ _ _, _, _, ⟨_, _, hvisit, hchildren, hsiblings⟩ =>
    ⟨hnext _ _ _ _ hvisit, hchildren.follows hnext, hsiblings.follows hnext⟩

theorem Visits.collected {α : Type} (added : σ → List α) (gain : ℕ → List α)
    (hgain : ∀ s i children s', visit s i = .ok (children, s') →
      (added s').Perm (gain i ++ added s)) :
    ∀ {f : Forest} {s s' : σ}, Visits visit s f s' →
      (added s').Perm (f.indices.flatMap gain ++ added s)
  | .nil, _, _, h => h ▸ .refl _
  | .node i children siblings, s, s', ⟨s1, s2, hvisit, hchildren, hsiblings⟩ => by
    have hfirst := hgain _ _ _ _ hvisit
    have hmiddle := hchildren.collected added gain hgain
    have hlast := hsiblings.collected added gain hgain
    refine (hlast.trans ((hmiddle.trans (hfirst.append_left _)).append_left _)).trans ?_
    rw [Forest.indices, List.flatMap_cons, List.flatMap_append, ← List.append_assoc,
      ← List.append_assoc]
    refine List.Perm.append_right _ ?_
    rw [List.append_assoc]
    refine List.perm_append_comm.trans ?_
    rw [← List.append_assoc]
    exact List.perm_append_comm.append_right _

end Walk

end IndexTree

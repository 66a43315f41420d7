/-
Depth-first search with a memo.

A choice is made for each of a list of tasks in turn; which choices there are depends on
the task and on what was chosen before, of which the search keeps a state.  A state that
was entered once is not entered again.

* `search` — the choices of the first way to the end, and the states entered;
* `Solves` — choices that lead to the end;
* `search_sound` — what is found solves;
* `search_complete` — something is found when there is a solution, provided that the state
  knows how many choices were made (`rank`).
-/
import Mathlib

namespace Search

variable {μ σ ι : Type} (moves : μ → σ → List ι) (apply : σ → ι → σ) (accept : σ → Bool)

/-- Try the choices in turn until one leads to the end. -/
def attempts (next : ι → List σ → Option (List ι) × List σ) :
    List ι → List σ → Option (List ι) × List σ
  | [], seen => (none, seen)
  | i :: rest, seen =>
    match next i seen with
    | (some chosen, seen') => (some (i :: chosen), seen')
    | (none, seen') => attempts next rest seen'

def search [DecidableEq σ] : List μ → σ → List σ → Option (List ι) × List σ
  | [], s, seen => (if accept s then some [] else none, seen)
  | task :: tasks, s, seen =>
    if s ∈ seen then (none, seen)
    else attempts (fun i seen => search tasks (apply s i) seen) (moves task s) (s :: seen)

/-- Choices for all the tasks, the last of which leads to a state that is accepted. -/
def Solves : List μ → σ → List ι → Prop
  | [], s, chosen => chosen = [] ∧ accept s = true
  | task :: tasks, s, chosen =>
    ∃ i rest, chosen = i :: rest ∧ i ∈ moves task s ∧ Solves tasks (apply s i) rest

variable {moves apply accept}

variable {seen seen' : List σ} {chosen : List ι} {s : σ}

variable {next : ι → List σ → Option (List ι) × List σ} {l : List ι} {tasks : List μ}

theorem attempts_some (h : attempts next l seen = (some chosen, seen')) :
    ∃ i rest seen1 seen2, i ∈ l ∧ chosen = i :: rest ∧ next i seen1 = (some rest, seen2) := by
  induction l generalizing seen with
  | nil => simp [attempts] at h
  | cons i l ih =>
    rw [attempts] at h
    rcases hnext : next i seen with ⟨_ | found, seen1⟩
    · rw [hnext] at h
      obtain ⟨j, rest, seen2, seen3, hj, hchosen, hfound⟩ := ih h
      exact ⟨j, rest, seen2, seen3, List.mem_cons_of_mem _ hj, hchosen, hfound⟩
    · rw [hnext] at h
      obtain ⟨hchosen, -⟩ := Prod.mk.inj h
      exact ⟨i, found, seen, seen1, List.mem_cons_self .., (Option.some.inj hchosen).symm, hnext⟩

theorem search_sound [DecidableEq σ]
    (h : search moves apply accept tasks s seen = (some chosen, seen')) :
    Solves moves apply accept tasks s chosen := by
  induction tasks generalizing s seen seen' chosen with
  | nil =>
    rw [search] at h
    split_ifs at h with haccept
    · obtain ⟨hchosen, -⟩ := Prod.mk.inj h
      exact ⟨(Option.some.inj hchosen).symm, haccept⟩
    · simp at h
  | cons task tasks ih =>
    rw [search] at h
    split_ifs at h with hseen
    · simp at h
    · obtain ⟨i, rest, seen1, seen2, hi, hchosen, hfound⟩ := attempts_some h
      exact ⟨i, rest, hchosen, hi, ih hfound⟩

/-! ### Completeness -/

section Complete

/-- From a state that is reached by `rank s` choices nothing leads to the end. -/
def Hopeless (moves : μ → σ → List ι) (apply : σ → ι → σ) (accept : σ → Bool) (rank : σ → ℕ)
    (all : List μ) (s : σ) : Prop :=
  ∀ chosen, ¬ Solves moves apply accept (all.drop (rank s)) s chosen

variable {rank : σ → ℕ} {all : List μ}

theorem attempts_none {P : σ → Prop} {d : ℕ} {Q : ι → Prop}
    (hnext : ∀ i ∈ l, ∀ seen seen', (∀ m ∈ seen, d ≤ rank m → P m) → next i seen = (none, seen') →
      ¬ Q i ∧ ∀ m ∈ seen', m ∈ seen ∨ P m) (hseen : ∀ m ∈ seen, d ≤ rank m → P m)
    (h : attempts next l seen = (none, seen')) :
    (∀ i ∈ l, ¬ Q i) ∧ ∀ m ∈ seen', m ∈ seen ∨ P m := by
  induction l generalizing seen with
  | nil =>
    rw [attempts] at h
    obtain ⟨-, rfl⟩ := Prod.mk.inj h
    exact ⟨fun i hi => absurd hi List.not_mem_nil, fun m hm => .inl hm⟩
  | cons i l ih =>
    rw [attempts] at h
    rcases hfirst : next i seen with ⟨_ | found, seen1⟩
    · rw [hfirst] at h
      obtain ⟨hbad, hadded⟩ := hnext i (List.mem_cons_self ..) seen seen1 hseen hfirst
      have hseen1 : ∀ m ∈ seen1, d ≤ rank m → P m := by
        intro m hm hrank
        rcases hadded m hm with hm | hm
        · exact hseen m hm hrank
        · exact hm
      obtain ⟨hrest, hadded'⟩ := ih (fun j hj => hnext j (List.mem_cons_of_mem _ hj)) hseen1 h
      refine ⟨List.forall_mem_cons.mpr ⟨hbad, hrest⟩, fun m hm => ?_⟩
      rcases hadded' m hm with hm | hm
      · exact hadded m hm
      · exact .inr hm
    · rw [hfirst] at h
      simp at h

section

variable (hrank : ∀ task s i, i ∈ moves task s → rank (apply s i) = rank s + 1)
include hrank

theorem search_none [DecidableEq σ]
    (htasks : tasks = all.drop (rank s))
    (hseen : ∀ m ∈ seen, rank s ≤ rank m → Hopeless moves apply accept rank all m)
    (h : search moves apply accept tasks s seen = (none, seen')) :
    Hopeless moves apply accept rank all s
      ∧ ∀ m ∈ seen', m ∈ seen ∨ Hopeless moves apply accept rank all m := by
  induction tasks generalizing s seen seen' with
  | nil =>
    rw [search] at h
    split_ifs at h with haccept
    · simp at h
    · obtain ⟨-, rfl⟩ := Prod.mk.inj h
      refine ⟨fun chosen hsolves => ?_, fun m hm => .inl hm⟩
      rw [← htasks] at hsolves
      exact haccept hsolves.2
  | cons task tasks ih =>
    rw [search] at h
    split_ifs at h with hmem
    · -- seen before, with no more choices made than here
      obtain ⟨-, rfl⟩ := Prod.mk.inj h
      exact ⟨hseen s hmem (Nat.le_refl _), fun m hm => .inl hm⟩
    · have hrest : tasks = all.drop (rank s + 1) := by
        rw [← List.tail_drop, ← htasks, List.tail_cons]
      -- states entered above this one have made fewer choices
      have hbelow : ∀ m ∈ s :: seen, rank s + 1 ≤ rank m →
          Hopeless moves apply accept rank all m := by
        refine List.forall_mem_cons.mpr ⟨fun hle => by omega, fun m hm hle => ?_⟩
        exact hseen m hm (by omega)
      obtain ⟨hbad, hadded⟩ := attempts_none
        (Q := fun i => ∃ rest, Solves moves apply accept tasks (apply s i) rest)
        (fun i hi seen1 seen2 hseen1 hnext => by
          have hstep := hrank task s i hi
          rw [← hstep] at hrest hseen1
          obtain ⟨hhopeless, hadded⟩ := ih hrest hseen1 hnext
          refine ⟨fun ⟨rest, hsolves⟩ => ?_, hadded⟩
          rw [hrest] at hsolves
          exact hhopeless rest hsolves) hbelow h
      -- a solution from here starts with one of the moves
      have hhere : Hopeless moves apply accept rank all s := by
        intro chosen hsolves
        rw [← htasks] at hsolves
        obtain ⟨i, rest, -, hi, hsolves⟩ := hsolves
        exact hbad i hi ⟨rest, hsolves⟩
      refine ⟨hhere, fun m hm => ?_⟩
      rcases hadded m hm with hm | hm
      · rcases List.mem_cons.mp hm with rfl | hm
        · exact .inr hhere
        · exact .inl hm
      · exact .inr hm

theorem search_complete [DecidableEq σ]
    (hs : rank s = 0)
    (h : Solves moves apply accept all s chosen) :
    ∃ found, (search moves apply accept all s []).1 = some found := by
  rcases hsearch : search moves apply accept all s [] with ⟨_ | found, seen⟩
  · have htasks : all = all.drop (rank s) := by rw [hs, List.drop_zero]
    have hnone := search_none hrank htasks (fun m hm => absurd hm List.not_mem_nil) hsearch
    rw [htasks] at h
    exact absurd h (hnone.1 chosen)
  · exact ⟨found, rfl⟩

end

end Complete

end Search

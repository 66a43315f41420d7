/-
Logs.

A log grows at its end.  `last p log` is the newest entry of a kind `p`:

* `last_concat` — what an entry added at the end changes;
* `last_eq_some` — it is an entry of the log, of that kind;
* `last_of_last` — the newest of a kind is the newest of every narrower kind it belongs to;
* `le_last` — where the keys of a kind never decrease, its newest entry has the greatest.
-/
import Mathlib

namespace Log

variable {α κ : Type} {p q : α → Bool} {log : List α} {a b : α}

/-- The newest entry of a log that satisfies `p`. -/
def last (p : α → Bool) (log : List α) : Option α := (log.filter p).getLast?

@[simp] theorem last_nil (p : α → Bool) : last p [] = none := rfl

theorem last_concat (p : α → Bool) (log : List α) (a : α) :
    last p (log ++ [a]) = if p a then some a else last p log := by
  unfold last
  rw [List.filter_append]
  by_cases ha : p a = true
  · rw [if_pos ha, List.filter_cons_of_pos ha]
    simp
  · rw [if_neg ha, List.filter_cons_of_neg ha]
    simp

theorem last_eq_some (h : last p log = some a) : a ∈ log ∧ p a = true := by
  have hmem : a ∈ log.filter p := List.mem_of_getLast? h
  exact List.mem_filter.mp hmem

theorem exists_last (ha : a ∈ log) (hp : p a = true) : ∃ b, last p log = some b := by
  have hmem : a ∈ log.filter p := List.mem_filter.mpr ⟨ha, hp⟩
  exact ⟨_, List.getLast?_eq_some_getLast (List.ne_nil_of_mem hmem)⟩

theorem last_of_last (h : last p log = some a) (hq : q a = true)
    (hqp : ∀ x, q x = true → p x = true) : last q log = some a := by
  induction log using List.reverseRecOn with
  | nil => exact absurd h (by simp)
  | append_singleton log b ih =>
    rw [last_concat] at h ⊢
    by_cases hb : p b = true
    · rw [if_pos hb] at h
      obtain rfl := Option.some_inj.mp h
      rw [if_pos hq]
    · -- an entry that is not of the wider kind is not of the narrower one
      rw [if_neg hb] at h
      rw [if_neg fun hqb => hb (hqp b hqb)]
      exact ih h

theorem le_last [LinearOrder κ] {key : α → κ}
    (hsorted : log.Pairwise fun a b => p a = true → p b = true → key a ≤ key b)
    (hb : last p log = some b) (ha : a ∈ log) (hp : p a = true) : key a ≤ key b := by
  obtain ⟨before, hlog⟩ := List.getLast?_eq_some_iff.mp hb
  have hpair : (log.filter p).Pairwise fun a b => key a ≤ key b := by
    rw [List.pairwise_filter]
    exact hsorted.imp fun h hp hq => h hp hq
  rw [hlog] at hpair
  have hmem : a ∈ before ++ [b] := by
    rw [← hlog]
    exact List.mem_filter.mpr ⟨ha, hp⟩
  rcases List.mem_append.mp hmem with hmem | hmem
  · exact (List.pairwise_append.mp hpair).2.2 a hmem b (List.mem_singleton_self b)
  · rw [List.mem_singleton.mp hmem]

end Log

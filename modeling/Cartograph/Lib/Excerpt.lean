/-
Excerpts of grouped items.

Of a list of groups the first ones are shown, each with its first members; the rest is counted.

* `parts_add_hidden`, `totals_add_hidden`, `shown_add_more` — the counts add up, level by level;
* `representatives_add` — what is shown and what is counted is everything;
* `representatives_le` — no more is shown than there is.
-/
import Mathlib

/-- A group that is shown: its size, its first members, and how many are left. -/
structure Excerpt.Part (κ α : Type) where
  key : κ
  total : ℕ
  shown : List α
  more : ℕ

structure Excerpt (κ α : Type) where
  parts : List (Excerpt.Part κ α)
  hiddenGroups : ℕ
  hiddenItems : ℕ

namespace Excerpt

variable {κ α : Type}

/-- All items of the groups. -/
def items (groups : List (κ × List α)) : List α := groups.flatMap Prod.snd

def part (maxShown : ℕ) (group : κ × List α) : Part κ α :=
  ⟨group.1, group.2.length, group.2.take maxShown, group.2.length - maxShown⟩

/-- At most `maxGroups` groups, and of each at most `maxShown` members. -/
def of (maxGroups maxShown : ℕ) (groups : List (κ × List α)) : Excerpt κ α where
  parts := (groups.take maxGroups).map (part maxShown)
  hiddenGroups := (groups.drop maxGroups).length
  hiddenItems := ((groups.drop maxGroups).map fun g => g.2.length).sum

/-- What is shown, group by group. -/
def representatives (x : Excerpt κ α) : List α := x.parts.flatMap Part.shown

variable (maxGroups maxShown : ℕ) (groups : List (κ × List α))

theorem parts_add_hidden :
    (of maxGroups maxShown groups).parts.length + (of maxGroups maxShown groups).hiddenGroups
      = groups.length := by
  show ((groups.take maxGroups).map (part maxShown)).length + (groups.drop maxGroups).length = _
  rw [List.length_map, ← List.length_append, List.take_append_drop]

theorem totals_add_hidden :
    ((of maxGroups maxShown groups).parts.map Part.total).sum
      + (of maxGroups maxShown groups).hiddenItems = (items groups).length := by
  have htotals : ((of maxGroups maxShown groups).parts.map Part.total)
      = (groups.take maxGroups).map fun g => g.2.length := List.map_map
  rw [htotals, of, ← List.sum_append, ← List.map_append, List.take_append_drop, items,
    List.length_flatMap]

theorem shown_add_more : ∀ p ∈ (of maxGroups maxShown groups).parts,
    p.shown.length + p.more = p.total ∧ p.shown.length ≤ maxShown := by
  intro p hp
  obtain ⟨g, -, rfl⟩ := List.mem_map.mp hp
  simp only [part, List.length_take]
  omega

/-- **Everything is accounted for**: what is shown, what is left of the groups that are shown, and
what is in the groups that are not. -/
theorem representatives_add :
    (of maxGroups maxShown groups).representatives.length
      + ((of maxGroups maxShown groups).parts.map Part.more).sum
      + (of maxGroups maxShown groups).hiddenItems = (items groups).length := by
  have hparts : ∀ parts : List (Part κ α), (∀ p ∈ parts, p.shown.length + p.more = p.total) →
      (parts.flatMap Part.shown).length + (parts.map Part.more).sum = (parts.map Part.total).sum := by
    intro parts h
    induction parts with
    | nil => rfl
    | cons p rest ih =>
      have hp := h p List.mem_cons_self
      have hrest := ih fun q hq => h q (List.mem_cons_of_mem _ hq)
      simp only [List.flatMap_cons, List.length_append, List.map_cons, List.sum_cons]
      omega
  rw [← totals_add_hidden maxGroups maxShown groups, ← hparts _ fun p hp =>
    (shown_add_more maxGroups maxShown groups p hp).1]
  rfl

theorem representatives_sublist :
    (of maxGroups maxShown groups).representatives.Sublist (items groups) := by
  have hshown : ∀ gs : List (κ × List α),
      ((gs.map (part maxShown)).flatMap Part.shown).Sublist (gs.flatMap Prod.snd) := by
    intro gs
    induction gs with
    | nil => exact List.Sublist.slnil
    | cons g rest ih => exact (List.take_sublist _ _).append ih
  exact (hshown _).trans ((List.take_sublist maxGroups groups).flatMap _)

theorem representatives_le :
    (of maxGroups maxShown groups).representatives.length ≤ (items groups).length :=
  (representatives_sublist maxGroups maxShown groups).length_le

end Excerpt

/-
Ordered sets.

A set that is iterated in the order of its elements is a table without values.  Sets with
the same elements are the same set (`ext_contains`), so how one was built does not matter.
-/
import Cartograph.Lib.Table

abbrev OrderedSet (κ : Type) [LinearOrder κ] := Table κ Unit

namespace OrderedSet

variable {κ : Type} [LinearOrder κ]

def contains (s : OrderedSet κ) (k : κ) : Bool := (s.find? k).isSome

def insert (s : OrderedSet κ) (k : κ) : OrderedSet κ := s.put k ()

/-- The elements, in order. -/
def elements (s : OrderedSet κ) : List κ := s.rows.map Prod.fst

/-- The set of the elements of a list. -/
def ofList (l : List κ) : OrderedSet κ := l.foldl insert Table.empty

@[simp] theorem contains_empty (k : κ) : contains (Table.empty : OrderedSet κ) k = false := rfl

variable {s : OrderedSet κ} {k : κ}

@[simp] theorem contains_insert {k' : κ} :
    contains (insert s k) k' = true ↔ k' = k ∨ contains s k' = true := by
  rw [contains, insert, Table.find?_put]
  by_cases h : k' = k
  · simp [h]
  · simp [h, contains]

theorem contains_foldl_insert {l : List κ} :
    contains (l.foldl insert s) k = true ↔ k ∈ l ∨ contains s k = true := by
  induction l generalizing s with
  | nil => simp
  | cons a rest ih =>
    rw [List.foldl_cons, ih, contains_insert, List.mem_cons]
    tauto

@[simp] theorem contains_ofList {l : List κ} : contains (ofList l) k = true ↔ k ∈ l := by
  rw [ofList, contains_foldl_insert, contains_empty]
  simp

theorem mem_elements : k ∈ elements s ↔ contains s k = true := by
  rw [elements, List.mem_map, contains, Option.isSome_iff_exists]
  constructor
  · rintro ⟨⟨k', u⟩, hr, rfl⟩
    exact ⟨u, Table.find?_eq_some_iff.mpr hr⟩
  · rintro ⟨u, hu⟩
    exact ⟨(k, u), Table.find?_eq_some_iff.mp hu, rfl⟩

theorem ext_contains {t : OrderedSet κ} (h : ∀ k, contains s k = true ↔ contains t k = true) :
    s = t := by
  refine Table.ext_find? fun k => ?_
  have hk := h k
  rw [contains, contains] at hk
  cases hs : s.find? k with
  | none =>
    cases ht : t.find? k with
    | none => rfl
    | some u =>
      rw [hs, ht] at hk
      exact absurd hk (by simp)
  | some u =>
    cases ht : t.find? k with
    | none =>
      rw [hs, ht] at hk
      exact absurd hk (by simp)
    | some v => rfl

theorem elements_injective {t : OrderedSet κ} (h : elements s = elements t) : s = t := by
  refine ext_contains fun k => ?_
  rw [← mem_elements, ← mem_elements, h]

end OrderedSet

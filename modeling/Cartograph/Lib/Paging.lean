/-
Pages of a sequence.

A page takes items from the front of a sequence while there is a place and there are
bytes left, with one more byte for each item; the next page goes on behind the last item
it took.

* `fits` — how many items a page takes, and `sum_fits`, `fits_pos`: it stays within its
  bytes, and takes the first item if that one fits alone;
* `filter_lt_getLast` — in a sequence with decreasing keys, the items below the key of the
  last item of a page are those behind it.
-/
import Mathlib

namespace Paging

variable {α : Type}

/-- The number of items that go onto a page. -/
def fits (size : α → ℕ) : ℕ → ℕ → List α → ℕ
  | _, _, [] => 0
  | 0, _, _ :: _ => 0
  | places + 1, bytes, a :: rest =>
    if bytes < size a + 1 then 0 else fits size places (bytes - (size a + 1)) rest + 1

variable {size : α → ℕ}

@[simp] theorem fits_nil (places bytes : ℕ) : fits size places bytes [] = 0 := by
  cases places <;> rfl

theorem fits_succ_cons (places bytes : ℕ) (a : α) (rest : List α) :
    fits size (places + 1) bytes (a :: rest)
      = if bytes < size a + 1 then 0 else fits size places (bytes - (size a + 1)) rest + 1 := rfl

theorem fits_le_length (places bytes : ℕ) (l : List α) : fits size places bytes l ≤ l.length := by
  induction l generalizing places bytes with
  | nil => rw [fits_nil]; exact Nat.zero_le _
  | cons a rest ih =>
    cases places with
    | zero => exact Nat.zero_le _
    | succ places =>
      rw [fits_succ_cons]
      split_ifs with hroom
      · exact Nat.zero_le _
      · exact Nat.succ_le_succ (ih places _)

theorem fits_le_places (places bytes : ℕ) (l : List α) : fits size places bytes l ≤ places := by
  induction l generalizing places bytes with
  | nil => rw [fits_nil]; exact Nat.zero_le _
  | cons a rest ih =>
    cases places with
    | zero => exact Nat.le_refl 0
    | succ places =>
      rw [fits_succ_cons]
      split_ifs with hroom
      · exact Nat.zero_le _
      · exact Nat.succ_le_succ (ih places _)

theorem sum_fits (places bytes : ℕ) (l : List α) :
    ((l.take (fits size places bytes l)).map fun a => 1 + size a).sum ≤ bytes := by
  induction l generalizing places bytes with
  | nil => rw [List.take_nil]; exact Nat.zero_le _
  | cons a rest ih =>
    cases places with
    | zero => exact Nat.zero_le _
    | succ places =>
      rw [fits_succ_cons]
      split_ifs with hroom
      · exact Nat.zero_le _
      · rw [List.take_succ_cons, List.map_cons, List.sum_cons]
        have hrest := ih places (bytes - (size a + 1))
        omega

variable {a : α} {key : α → ℕ}

theorem fits_pos {places bytes : ℕ} {rest : List α} (hplaces : 0 < places)
    (hbytes : size a + 1 ≤ bytes) : 0 < fits size places bytes (a :: rest) := by
  obtain ⟨places, rfl⟩ := Nat.exists_eq_succ_of_ne_zero (Nat.ne_of_gt hplaces)
  rw [fits_succ_cons, if_neg (by omega)]
  exact Nat.succ_pos _

variable {l₁ l₂ l : List α}

theorem filter_lt_of_pairwise (h : (l₁ ++ a :: l₂).Pairwise fun x y => key y < key x) :
    (l₁ ++ a :: l₂).filter (fun x => decide (key x < key a)) = l₂ := by
  obtain ⟨-, hright, hcross⟩ := List.pairwise_append.mp h
  obtain ⟨hbelow, -⟩ := List.pairwise_cons.mp hright
  have hfront : l₁.filter (fun x => decide (key x < key a)) = [] := by
    refine List.filter_eq_nil_iff.mpr fun x hx => ?_
    have habove := hcross x hx a (List.mem_cons_self ..)
    rw [decide_eq_true_iff]
    omega
  have hback : l₂.filter (fun x => decide (key x < key a)) = l₂ :=
    List.filter_eq_self.mpr fun x hx => decide_eq_true (hbelow x hx)
  rw [List.filter_append, hfront, List.nil_append, List.filter_cons,
    if_neg (by simp), hback]

theorem filter_lt_getLast (h : l.Pairwise fun x y => key y < key x) {n : ℕ}
    (ha : (l.take n).getLast? = some a) :
    l.filter (fun x => decide (key x < key a)) = l.drop n := by
  obtain ⟨front, hfront⟩ := List.getLast?_eq_some_iff.mp ha
  have hcut : l = front ++ a :: l.drop n := by
    conv_lhs => rw [← List.take_append_drop n l, hfront]
    rw [List.append_assoc, List.singleton_append]
  conv_lhs => rw [hcut]
  rw [hcut] at h
  exact filter_lt_of_pairwise h

/-! ### Newest first -/

theorem pairwise_descending (key : α → ℕ) (l : List α) :
    (l.mergeSort fun a b => decide (key b ≤ key a)).Pairwise fun a b => key b ≤ key a := by
  have hsorted : (l.mergeSort fun a b => decide (key b ≤ key a)).Pairwise
      fun a b => decide (key b ≤ key a) = true := by
    refine List.pairwise_mergeSort ?_ ?_ _
    · intro a b c hab hbc
      rw [decide_eq_true_iff] at hab hbc ⊢
      omega
    · intro a b
      rw [Bool.or_eq_true, decide_eq_true_iff, decide_eq_true_iff]
      omega
  exact hsorted.imp fun h => of_decide_eq_true h

theorem pairwise_descending_lt (h : (l.map key).Nodup) :
    (l.mergeSort fun a b => decide (key b ≤ key a)).Pairwise fun a b => key b < key a := by
  have hnodup : ((l.mergeSort fun a b => decide (key b ≤ key a)).map key).Nodup :=
    (((List.mergeSort_perm l _).map key).nodup_iff).mpr h
  have hdistinct := List.pairwise_map.mp hnodup
  exact (pairwise_descending key l).imp₂ (fun a b hle hne => by omega) hdistinct

theorem eq_of_descending (h1 : l₁.Pairwise fun a b => key b < key a)
    (h2 : l₂.Pairwise fun a b => key b < key a) (h : ∀ a, a ∈ l₁ ↔ a ∈ l₂) : l₁ = l₂ := by
  have hirrefl : Std.Irrefl fun a b : α => key b < key a := ⟨fun a => Nat.lt_irrefl _⟩
  have hantisymm : Std.Antisymm fun a b : α => key b < key a := ⟨fun a b hab hba => by omega⟩
  exact h1.eq_of_mem_iff h2 h

end Paging

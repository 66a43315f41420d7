/-
Grouping by a key, in the order of first occurrence.

`groups` goes through a list once.  For the first element with a key it holds a value, and it
lets every later one with that key change the value.

* `keys_groups` — the keys are those of the list, each at its first occurrence;
* `lookup_groups` — the value held for a key is a fold over the elements with that key.
-/
import Mathlib

namespace Grouped

variable {α β κ : Type} [DecidableEq κ]

section

variable (key : α → κ) (first : α → β) (merge : β → α → β)

/-- One more element. -/
def observe : List (κ × β) → α → List (κ × β)
  | [], a => [(key a, first a)]
  | (k, b) :: rest, a => if k = key a then (k, merge b a) :: rest else (k, b) :: observe rest a

def groups (l : List α) : List (κ × β) := l.foldl (observe key first merge) []

end

variable {key : α → κ} {first : α → β} {merge : β → α → β}

theorem keys_observe (entries : List (κ × β)) (a : α) :
    (observe key first merge entries a).map Prod.fst
      = if key a ∈ entries.map Prod.fst then entries.map Prod.fst
        else entries.map Prod.fst ++ [key a] := by
  induction entries with
  | nil => rfl
  | cons entry rest ih =>
    obtain ⟨k, b⟩ := entry
    rw [observe]
    by_cases hk : k = key a
    · simp [hk]
    · simp only [if_neg hk, List.map_cons, ih, List.mem_cons]
      by_cases hmem : key a ∈ rest.map Prod.fst
      · rw [if_pos hmem, if_pos (.inr hmem)]
      · have hnot : ¬(key a = k ∨ key a ∈ rest.map Prod.fst) := by
          rintro (heq | hin)
          · exact hk heq.symm
          · exact hmem hin
        rw [if_neg hmem, if_neg hnot, List.cons_append]

/-- What is held for `k`. -/
def held (k : κ) : List (κ × β) → Option β
  | [] => none
  | (k', b) :: rest => if k' = k then some b else held k rest

theorem held_observe (entries : List (κ × β)) (a : α) (k : κ) :
    held k (observe key first merge entries a)
      = if key a = k then some ((held k entries).elim (first a) fun b => merge b a)
        else held k entries := by
  induction entries with
  | nil => rfl
  | cons entry rest ih =>
    obtain ⟨k', b⟩ := entry
    rw [observe]
    by_cases hk' : k' = key a
    · subst hk'
      rw [if_pos rfl, held, held]
      by_cases hk : key a = k
      · simp [hk]
      · simp [hk]
    · rw [if_neg hk', held, held, ih]
      by_cases hk : k' = k
      · have hne : key a ≠ k := fun heq => hk' (hk.trans heq.symm)
        simp [hk, hne]
      · simp [hk]

theorem groups_append_singleton (l : List α) (a : α) : groups key first merge (l ++ [a])
    = observe key first merge (groups key first merge l) a := by
  rw [groups, List.foldl_append]
  rfl

/-- **The keys**, each at its first occurrence. -/
theorem keys_groups (l : List α) :
    (groups key first merge l).map Prod.fst = (l.map key).eraseDups := by
  induction l using List.reverseRecOn with
  | nil => rfl
  | append_singleton l a ih =>
    rw [groups_append_singleton, keys_observe, List.map_append, List.eraseDups_append, ih]
    have hlast : ([a].map key).removeAll (l.map key)
        = if key a ∈ l.map key then [] else [key a] := by
      rw [List.removeAll, List.map_singleton, List.filter_singleton]
      by_cases hmem : key a ∈ l.map key
      · rw [if_pos hmem, List.elem_eq_true_of_mem hmem]
        rfl
      · rw [if_neg hmem, Bool.eq_false_iff.mpr fun h => hmem (List.elem_iff.mp h)]
        rfl
    rw [hlast]
    by_cases hmem : key a ∈ l.map key
    · rw [if_pos (List.mem_eraseDups.mpr hmem), if_pos hmem, List.eraseDups_nil, List.append_nil]
    · rw [if_neg fun h => hmem (List.mem_eraseDups.mp h), if_neg hmem]
      rfl

theorem keys_nodup (l : List α) : ((groups key first merge l).map Prod.fst).Nodup := by
  induction l using List.reverseRecOn with
  | nil => exact List.nodup_nil
  | append_singleton l a ih =>
    rw [groups_append_singleton, keys_observe]
    split_ifs with hmem
    · exact ih
    · refine List.nodup_append.mpr ⟨ih, List.nodup_singleton _, ?_⟩
      rintro k hk k' hk' rfl
      exact hmem (List.mem_singleton.mp hk' ▸ hk)

/-- **The value of a key**: the elements with that key, one after the other. -/
theorem held_groups (l : List α) (k : κ) :
    held k (groups key first merge l) = (l.filter fun a => decide (key a = k)).head?.map fun a =>
      ((l.filter fun a => decide (key a = k)).tail).foldl merge (first a) := by
  induction l using List.reverseRecOn with
  | nil => rfl
  | append_singleton l a ih =>
    rw [groups_append_singleton, held_observe, ih, List.filter_append]
    by_cases hk : key a = k
    · cases hl : l.filter fun a => decide (key a = k) with
      | nil => simp [hk]
      | cons b rest => simp [hk, List.foldl_append]
    · simp [hk]

theorem mem_iff_held {entries : List (κ × β)} (hkeys : (entries.map Prod.fst).Nodup) {k : κ}
    {b : β} : (k, b) ∈ entries ↔ held k entries = some b := by
  induction entries with
  | nil => simp [held]
  | cons entry rest ih =>
    obtain ⟨k', b'⟩ := entry
    obtain ⟨hnew, hrest⟩ := List.nodup_cons.mp hkeys
    rw [List.mem_cons, held, ih hrest, Prod.mk.injEq]
    by_cases hk : k' = k
    · subst hk
      rw [if_pos rfl, Option.some_inj]
      constructor
      · rintro (⟨-, rfl⟩ | hheld)
        · rfl
        · exact absurd (List.mem_map_of_mem ((ih hrest).mpr hheld)) hnew
      · rintro rfl
        exact .inl ⟨rfl, rfl⟩
    · rw [if_neg hk]
      exact ⟨fun h => h.resolve_left fun hsame => hk hsame.1.symm, .inr⟩

theorem mem_groups {l : List α} {k : κ} {b : β} : (k, b) ∈ groups key first merge l ↔
    ∃ a rest, (l.filter fun a => decide (key a = k)) = a :: rest
      ∧ b = rest.foldl merge (first a) := by
  rw [mem_iff_held (keys_nodup l), held_groups]
  cases l.filter fun a => decide (key a = k) with
  | nil => simp
  | cons a rest => simp [eq_comm]

/-! ### Groups of elements -/

theorem observe_members_perm (entries : List (κ × List α)) (a : α) :
    ((observe key (fun a => [a]) (fun members a => members ++ [a]) entries a).flatMap Prod.snd).Perm
      (entries.flatMap Prod.snd ++ [a]) := by
  induction entries with
  | nil => exact .refl _
  | cons entry rest ih =>
    obtain ⟨k, members⟩ := entry
    rw [observe]
    split_ifs with hk
    · simp only [List.flatMap_cons, List.append_assoc]
      exact List.perm_append_comm.append_left members
    · simp only [List.flatMap_cons, List.append_assoc]
      exact ih.append_left members

/-- **Members.**  The groups hold every element, as often as the list does. -/
theorem members_perm (l : List α) :
    ((groups key (fun a => [a]) (fun members a => members ++ [a]) l).flatMap Prod.snd).Perm l := by
  induction l using List.reverseRecOn with
  | nil => exact .refl _
  | append_singleton l a ih =>
    rw [groups_append_singleton]
    exact (observe_members_perm _ _).trans (ih.append_right [a])

end Grouped

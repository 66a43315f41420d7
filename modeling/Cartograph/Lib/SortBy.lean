/-
Sorting by a key.

`sortBy key` is the stable sort of a list by a key, and `firstDuplicate key` the scan of
its neighbours for a key that occurs twice.  Neither depends on the order of the list:

* `map_sortBy_congr` — lists with the same keys are sorted to the same keys;
* `firstDuplicate_eq_none_iff` — on a sorted list, the scan finds nothing exactly when the
  keys increase strictly;
* `sortBy_congr` — what the elements of a list are mapped to comes out in one order, when
  the scan finds nothing;
* `distinct_nodup`, `distinct_covers` — of neighbours with one key the first stays;
* `sortBy_eq_of_perm`, `find?_eq_of_perm` — a list whose keys are distinct is sorted to one
  list, and one of its elements is found under a key, whatever order it comes in.
-/
import Mathlib

namespace SortBy

variable {α β γ : Type} [LinearOrder β]

/-- The stable sort by `key`. -/
def sortBy (key : α → β) (l : List α) : List α := l.insertionSort fun a b => key a ≤ key b

/-- The first of two neighbours with one key. -/
def firstDuplicate (key : α → β) : List α → Option α
  | a :: b :: rest => if key a = key b then some a else firstDuplicate key (b :: rest)
  | _ => none

theorem sortBy_perm (key : α → β) (l : List α) : (sortBy key l).Perm l :=
  List.perm_insertionSort _ _

theorem sortBy_pairwise (key : α → β) (l : List α) :
    (sortBy key l).Pairwise fun a b => key a ≤ key b := by
  have htotal : Std.Total fun a b => key a ≤ key b := ⟨fun a b => le_total (key a) (key b)⟩
  have htrans : IsTrans α fun a b => key a ≤ key b := ⟨fun a b c => le_trans⟩
  exact List.pairwise_insertionSort _ l

variable {key : α → β} {l l' : List α}

theorem map_sortBy_congr (h : (l.map key).Perm (l'.map key)) :
    (sortBy key l).map key = (sortBy key l').map key := by
  have hsorted : ∀ l, ((sortBy key l).map key).Pairwise (· ≤ ·) := fun l =>
    List.pairwise_map.mpr (sortBy_pairwise key l)
  refine List.Perm.eq_of_pairwise (fun _ _ _ _ => le_antisymm) (hsorted l) (hsorted l') ?_
  exact ((sortBy_perm key l).map key).trans (h.trans ((sortBy_perm key l').map key).symm)

theorem firstDuplicate_map (key : α → β) : ∀ l : List α,
    (firstDuplicate key l).map key = firstDuplicate id (l.map key)
  | [] => rfl
  | [_] => rfl
  | a :: b :: rest => by
    simp only [List.map_cons, firstDuplicate, id_eq]
    by_cases h : key a = key b
    · rw [if_pos h, if_pos h, Option.map_some]
    · rw [if_neg h, if_neg h]
      exact firstDuplicate_map key (b :: rest)

theorem firstDuplicate_eq_none_iff {key : α → β} : ∀ {l : List α},
    l.Pairwise (fun a b => key a ≤ key b) →
    (firstDuplicate key l = none ↔ l.Pairwise fun a b => key a < key b)
  | [], _ | [a], _ => by simp [firstDuplicate]
  | a :: b :: rest, h => by
    obtain ⟨ha, hrest⟩ := List.pairwise_cons.mp h
    have ih := firstDuplicate_eq_none_iff hrest
    rw [firstDuplicate]
    by_cases hab : key a = key b
    · rw [if_pos hab]
      refine ⟨fun h => absurd h (by simp), fun hlt => ?_⟩
      exact absurd hab (ne_of_lt ((List.pairwise_cons.mp hlt).1 b List.mem_cons_self))
    · rw [if_neg hab, ih, List.pairwise_cons (a := a)]
      refine ⟨fun hlt => ⟨fun c hc => ?_, hlt⟩, fun hlt => hlt.2⟩
      -- everything after `b` is at or above it, and `a` is below it
      have hlt' : key a < key b := lt_of_le_of_ne (ha b List.mem_cons_self) hab
      rcases List.mem_cons.mp hc with rfl | hc
      · exact hlt'
      · exact hlt'.trans ((List.pairwise_cons.mp hlt).1 c hc)

theorem sortBy_strict (h : firstDuplicate key (sortBy key l) = none) :
    (sortBy key l).Pairwise fun a b => key a < key b :=
  (firstDuplicate_eq_none_iff (sortBy_pairwise key l)).mp h

theorem firstDuplicate_congr (h : (l.map key).Perm (l'.map key)) :
    (firstDuplicate key (sortBy key l)).map key = (firstDuplicate key (sortBy key l')).map key := by
  rw [firstDuplicate_map, firstDuplicate_map, map_sortBy_congr h]

theorem sortBy_congr {f : α → γ} {g : γ → β} (hkey : ∀ a, key a = g (f a))
    (h : (l.map f).Perm (l'.map f)) (hnone : firstDuplicate key (sortBy key l) = none) :
    (sortBy key l).map f = (sortBy key l').map f := by
  have hkeys : (l.map key).Perm (l'.map key) := by
    rw [show key = g ∘ f from funext hkey, ← List.map_map, ← List.map_map]
    exact h.map g
  have hnone' : firstDuplicate key (sortBy key l') = none := by
    have hsame := firstDuplicate_congr hkeys
    rw [hnone, Option.map_none] at hsame
    exact Option.map_eq_none_iff.mp hsame.symm
  have hstrict : ∀ {l : List α}, firstDuplicate key (sortBy key l) = none →
      ((sortBy key l).map f).Pairwise fun a b => g a < g b := by
    intro l hl
    refine List.pairwise_map.mpr ((sortBy_strict hl).imp fun hab => ?_)
    rwa [hkey, hkey] at hab
  refine List.Perm.eq_of_pairwise (fun a b _ _ hab hba => absurd hba (lt_asymm hab))
    (hstrict hnone) (hstrict hnone') ?_
  exact ((sortBy_perm key l).map f).trans (h.trans ((sortBy_perm key l').map f).symm)

theorem sortBy_eq_of_perm (h : l.Perm l') (hkeys : (l.map key).Nodup) :
    sortBy key l = sortBy key l' := by
  have hsame : (sortBy key l).Perm (sortBy key l') :=
    (sortBy_perm key l).trans (h.trans (sortBy_perm key l').symm)
  refine List.Perm.eq_of_pairwise (fun a b ha hb hab hba => ?_) (sortBy_pairwise key l)
    (sortBy_pairwise key l') hsame
  have ha' : a ∈ l := (sortBy_perm key l).mem_iff.mp ha
  have hb' : b ∈ l := h.mem_iff.mpr ((sortBy_perm key l').mem_iff.mp hb)
  exact List.inj_on_of_nodup_map hkeys ha' hb' (le_antisymm hab hba)

theorem sortBy_eq_of_injective (hkey : Function.Injective key) (h : l.Perm l') :
    sortBy key l = sortBy key l' := by
  have hsame : (sortBy key l).Perm (sortBy key l') :=
    (sortBy_perm key l).trans (h.trans (sortBy_perm key l').symm)
  exact List.Perm.eq_of_pairwise (fun a b _ _ hab hba => hkey (le_antisymm hab hba))
    (sortBy_pairwise key l) (sortBy_pairwise key l') hsame

theorem key_le_of_find? {p : α → Bool} {a b : α} (hsorted : l.Pairwise fun a b => key a ≤ key b)
    (ha : l.find? p = some a) (hb : b ∈ l) (hp : p b = true) : key a ≤ key b := by
  obtain ⟨-, before, after, rfl, hbefore⟩ := List.find?_eq_some_iff_append.mp ha
  rcases List.mem_append.mp hb with hb | hb
  · exact absurd hp (by simpa using hbefore b hb)
  · rcases List.mem_cons.mp hb with rfl | hb
    · exact le_rfl
    · exact (List.pairwise_cons.mp (List.pairwise_append.mp hsorted).2.1).1 b hb

/-! ### Neighbours with one key -/

/-- Of neighbours with one key, the first. -/
def distinct (key : α → β) (l : List α) : List α := l.destutter fun a b => key a ≠ key b

theorem distinct_sublist (key : α → β) (l : List α) : (distinct key l).Sublist l :=
  List.destutter_sublist _ l

theorem distinct_nodup (h : l.Pairwise fun a b => key a ≤ key b) :
    ((distinct key l).map key).Nodup := by
  have hsorted := h.sublist (distinct_sublist key l)
  have hchain : (distinct key l).IsChain fun a b => key a ≠ key b := List.isChain_destutter _ l
  rw [List.Nodup, List.pairwise_map]
  generalize distinct key l = kept at hsorted hchain
  induction kept with
  | nil => exact .nil
  | cons a rest ih =>
    obtain ⟨ha, hrest⟩ := List.pairwise_cons.mp hsorted
    refine List.pairwise_cons.mpr ⟨fun c hc => ?_, ih hrest hchain.of_cons⟩
    cases rest with
    | nil => exact absurd hc List.not_mem_nil
    | cons b rest =>
      -- everything after `b` is at or above it, and `a` is below it
      have hab : key a < key b :=
        lt_of_le_of_ne (ha b List.mem_cons_self) (List.isChain_cons_cons.mp hchain).1
      rcases List.mem_cons.mp hc with rfl | hc
      · exact ne_of_lt hab
      · exact ne_of_lt (hab.trans_le ((List.pairwise_cons.mp hrest).1 c hc))

theorem distinct_strict (h : l.Pairwise fun a b => key a ≤ key b) :
    (distinct key l).Pairwise fun a b => key a < key b := by
  have hne : (distinct key l).Pairwise fun a b => key a ≠ key b :=
    List.pairwise_map.mp (distinct_nodup h)
  exact ((h.sublist (distinct_sublist key l)).and hne).imp fun hab => lt_of_le_of_ne hab.1 hab.2

theorem distinct_covers {a : α} (ha : a ∈ l) :
    ∃ b ∈ distinct key l, key b = key a := by
  have hfrom : ∀ (l : List α) (first : α), ∀ a ∈ first :: l,
      ∃ b ∈ l.destutter' (fun a b => key a ≠ key b) first, key b = key a := by
    intro l
    induction l with
    | nil =>
      intro first a ha
      rw [List.mem_singleton.mp ha]
      exact ⟨first, List.mem_destutter' _ _ first, rfl⟩
    | cons b rest ih =>
      intro first a ha
      by_cases hne : key first ≠ key b
      · rw [List.destutter'_cons_pos (R := fun a b => key a ≠ key b) _ hne]
        rcases List.mem_cons.mp ha with rfl | ha
        · exact ⟨a, List.mem_cons_self, rfl⟩
        · obtain ⟨c, hc, hkey⟩ := ih b a ha
          exact ⟨c, List.mem_cons_of_mem _ hc, hkey⟩
      · rw [List.destutter'_cons_neg (R := fun a b => key a ≠ key b) _ hne]
        rcases List.mem_cons.mp ha with rfl | ha
        · exact ih a a List.mem_cons_self
        · rcases List.mem_cons.mp ha with rfl | ha
          · obtain ⟨c, hc, hkey⟩ := ih first first List.mem_cons_self
            exact ⟨c, hc, hkey.trans (not_ne_iff.mp hne)⟩
          · exact ih first a (List.mem_cons_of_mem _ ha)
  cases l with
  | nil => exact absurd ha List.not_mem_nil
  | cons first rest => exact hfrom rest first a ha

end SortBy

theorem find?_eq_some_of_nodup {α κ : Type} [DecidableEq κ] {key : α → κ} {l : List α} {k : κ}
    {a : α} (hkeys : (l.map key).Nodup) :
    l.find? (fun a => key a == k) = some a ↔ a ∈ l ∧ key a = k := by
  constructor
  · intro h
    exact ⟨List.mem_of_find?_eq_some h, by simpa using List.find?_some h⟩
  · rintro ⟨hmem, rfl⟩
    cases hfind : l.find? (fun b => key b == key a) with
    | none =>
      have hnone := List.find?_eq_none.mp hfind a hmem
      exact absurd (beq_self_eq_true (key a)) hnone
    | some b =>
      have hb := List.mem_of_find?_eq_some hfind
      have hkey : key b = key a := by simpa using List.find?_some hfind
      rw [List.inj_on_of_nodup_map hkeys hb hmem hkey]

theorem find?_eq_of_perm {α κ : Type} [DecidableEq κ] {key : α → κ} {l l' : List α}
    (h : l.Perm l') (hkeys : (l.map key).Nodup) (k : κ) :
    l.find? (fun a => key a == k) = l'.find? (fun a => key a == k) := by
  have hkeys' : (l'.map key).Nodup := (h.map key).nodup_iff.mp hkeys
  ext a
  rw [find?_eq_some_of_nodup hkeys, find?_eq_some_of_nodup hkeys', h.mem_iff]

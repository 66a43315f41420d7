/-
Canonical values.

`canonicalize` sorts the members of every object.  Two values have the same canonical form
exactly when one is the other with the members of its objects, at any depth, in another
order:

* `Reordered` — such a change of order, as a closure of single ones;
* `canonicalize_eq_iff` — it is what canonical forms forget, and all they forget;
* `valueEq_self` — a value equals itself.
-/
import Cartograph.Lib.JsonText
import Cartograph.Properties

/-- The same value, with the members of objects in another order. -/
inductive Json.Reordered : Json → Json → Prop
  | refl (j : Json) : Reordered j j
  | trans {j j₁ j₂ : Json} : Reordered j j₁ → Reordered j₁ j₂ → Reordered j j₂
  | item (before after : List Json) {j j' : Json} : Reordered j j' →
      Reordered (.arr (before ++ j :: after)) (.arr (before ++ j' :: after))
  | member (before after : List (String × Json)) (name : String) {j j' : Json} : Reordered j j' →
      Reordered (.obj (before ++ (name, j) :: after)) (.obj (before ++ (name, j') :: after))
  | members {fields fields' : List (String × Json)} : fields.Perm fields' →
      Reordered (.obj fields) (.obj fields')

namespace Json

theorem Reordered.symm {j j' : Json} (h : Reordered j j') : Reordered j' j := by
  induction h with
  | refl j => exact .refl j
  | trans _ _ ih ih' => exact ih'.trans ih
  | item before after _ ih => exact .item before after ih
  | member before after name _ ih => exact .member before after name ih
  | members h => exact .members h.symm

theorem Reordered.items {l l' : List Json} (h : List.Forall₂ Reordered l l') (before : List Json) :
    Reordered (.arr (before ++ l)) (.arr (before ++ l')) := by
  induction h generalizing before with
  | nil => exact .refl _
  | @cons j j' rest rest' hj _ ih =>
    have hrest := ih (before ++ [j'])
    rw [List.append_assoc, List.append_assoc, List.singleton_append, List.singleton_append] at hrest
    exact (Reordered.item before rest hj).trans hrest

theorem Reordered.fields {l l' : List (String × Json)}
    (h : List.Forall₂ (fun f f' => f.1 = f'.1 ∧ Reordered f.2 f'.2) l l')
    (before : List (String × Json)) : Reordered (.obj (before ++ l)) (.obj (before ++ l')) := by
  induction h generalizing before with
  | nil => exact .refl _
  | @cons f f' rest rest' hf _ ih =>
    obtain ⟨k, j⟩ := f
    obtain ⟨k', j'⟩ := f'
    obtain ⟨rfl, hj⟩ := hf
    have hrest := ih (before ++ [(k, j')])
    rw [List.append_assoc, List.append_assoc, List.singleton_append, List.singleton_append] at hrest
    exact (Reordered.member before rest k hj).trans hrest

end Json

namespace GraphStore

open Json

/-! ### Sorting members -/

variable {l : List (String × Json)} {j j' : Json}

theorem sortMembers_perm (h : (l.map Prod.fst).Nodup) :
    (sortMembers l).Perm l := by
  have hsorted : (sortMembers l).Nodup := (Table.keys_nodup _).of_map
  exact (List.perm_ext_iff_of_nodup hsorted h.of_map).mpr fun f => mem_sortMembers h f

theorem sortMembers_congr {l' : List (String × Json)} (h : (l.map Prod.fst).Nodup)
    (hperm : l.Perm l') : sortMembers l = sortMembers l' := by
  have h' : (l'.map Prod.fst).Nodup := (hperm.map Prod.fst).nodup_iff.mp h
  have htable : l.foldl (fun (t : Table String Json) f => t.put f.1 f.2) Table.empty
      = l'.foldl (fun (t : Table String Json) f => t.put f.1 f.2) Table.empty := by
    refine Table.ext_find? fun k => Option.ext fun v => ?_
    rw [find?_foldl_put l _ h, find?_foldl_put l' _ h', hperm.mem_iff]
    simp
  rw [sortMembers, htable, sortMembers]

theorem sortMembers_eq {l' : List (String × Json)} (hperm : l.Perm l')
    (hsorted : (l'.map Prod.fst).Pairwise (· < ·)) : sortMembers l = l' := by
  have hkeys : (l.map Prod.fst).Nodup :=
    (hperm.map Prod.fst).nodup_iff.mpr (hsorted.imp fun h => ne_of_lt h)
  have hsorted' : l'.Pairwise fun a b => a.1 < b.1 := List.pairwise_map.mp hsorted
  exact List.Perm.eq_of_pairwise (fun a b _ _ hab hba => absurd hba (lt_asymm hab))
    (Table.sorted _) hsorted' ((sortMembers_perm hkeys).trans hperm)

/-! ### Canonical forms -/

theorem canonicalizeItems_eq (l : List Json) : canonicalizeItems l = l.map canonicalize := by
  induction l with
  | nil => rfl
  | cons j rest ih => rw [canonicalizeItems, ih, List.map_cons]

theorem canonicalizeMembers_eq (l : List (String × Json)) :
    canonicalizeMembers l = l.map fun f => (f.1, canonicalize f.2) := by
  induction l with
  | nil => rfl
  | cons f rest ih => rw [canonicalizeMembers, ih, List.map_cons]

theorem canonicalize_reordered (h : Reordered j j') (hj : j.Distinct) :
    j'.Distinct ∧ canonicalize j = canonicalize j' := by
  induction h with
  | refl j => exact ⟨hj, rfl⟩
  | trans _ _ ih ih' =>
    obtain ⟨hj1, heq⟩ := ih hj
    obtain ⟨hj2, heq'⟩ := ih' hj1
    exact ⟨hj2, heq.trans heq'⟩
  | @item before after j j' _ ih =>
    simp only [Distinct, itemsDistinct_iff, List.forall_mem_append, List.forall_mem_cons] at hj ⊢
    obtain ⟨hbefore, hitem, hafter⟩ := hj
    obtain ⟨hitem', heq⟩ := ih hitem
    refine ⟨⟨hbefore, hitem', hafter⟩, ?_⟩
    rw [canonicalize, canonicalize, canonicalizeItems_eq, canonicalizeItems_eq, List.map_append,
      List.map_append, List.map_cons, List.map_cons, heq]
  | @member before after name j j' _ ih =>
    simp only [Distinct, fieldsDistinct_iff, List.forall_mem_append, List.forall_mem_cons] at hj ⊢
    obtain ⟨hkeys, hbefore, hvalue, hafter⟩ := hj
    obtain ⟨hvalue', heq⟩ := ih hvalue
    refine ⟨⟨?_, hbefore, hvalue', hafter⟩, ?_⟩
    · simpa using hkeys
    · rw [canonicalize, canonicalize, canonicalizeMembers_eq, canonicalizeMembers_eq,
        List.map_append, List.map_append, List.map_cons, List.map_cons, heq]
  | @members fields fields' hperm =>
    obtain ⟨hkeys, hvalues⟩ := hj
    have hcanonical : ((canonicalizeMembers fields).map Prod.fst).Nodup := by
      rw [canonicalizeMembers_keys]
      exact hkeys
    refine ⟨⟨(hperm.map Prod.fst).nodup_iff.mp hkeys, ?_⟩, ?_⟩
    · rw [fieldsDistinct_iff] at hvalues ⊢
      exact fun f hf => hvalues f (hperm.mem_iff.mpr hf)
    · rw [canonicalize, canonicalize]
      refine congrArg Json.obj (sortMembers_congr hcanonical ?_)
      rw [canonicalizeMembers_eq, canonicalizeMembers_eq]
      exact hperm.map _

mutual

theorem reordered_canonicalize : ∀ j : Json, j.Distinct → Reordered j (canonicalize j)
  | .null, _ => .refl _
  | .bool _, _ => .refl _
  | .num _, _ => .refl _
  | .str _, _ => .refl _
  | .arr items, h => by
    rw [canonicalize]
    exact Reordered.items (reordered_items items h) []
  | .obj fields, h => by
    rw [canonicalize]
    have hkeys : ((canonicalizeMembers fields).map Prod.fst).Nodup := by
      rw [canonicalizeMembers_keys]
      exact h.1
    exact (Reordered.fields (reordered_members fields h.2) []).trans
      (.members (sortMembers_perm hkeys).symm)

theorem reordered_items : ∀ l : List Json, itemsDistinct l →
    List.Forall₂ Reordered l (canonicalizeItems l)
  | [], _ => .nil
  | j :: rest, h => .cons (reordered_canonicalize j h.1) (reordered_items rest h.2)

theorem reordered_members : ∀ l : List (String × Json), fieldsDistinct l →
    List.Forall₂ (fun f f' => f.1 = f'.1 ∧ Reordered f.2 f'.2) l (canonicalizeMembers l)
  | [], _ => .nil
  | (_, j) :: rest, h =>
    .cons ⟨rfl, reordered_canonicalize j h.1⟩ (reordered_members rest h.2)

end

theorem canonicalize_eq_iff (hj : j.Distinct) (hj' : j'.Distinct) :
    canonicalize j = canonicalize j' ↔ Reordered j j' := by
  refine ⟨fun h => ?_, fun h => (canonicalize_reordered h hj).2⟩
  refine (reordered_canonicalize j hj).trans ?_
  rw [h]
  exact (reordered_canonicalize j' hj').symm

theorem numeric_reordered (h : Reordered j j') (hj : j.Numeric) : j'.Numeric := by
  induction h with
  | refl j => exact hj
  | trans _ _ ih ih' => exact ih' (ih hj)
  | item _ _ _ ih | member _ _ _ _ ih =>
    simp only [Numeric, itemsNumeric_iff, fieldsNumeric_iff, List.forall_mem_append,
      List.forall_mem_cons] at hj ⊢
    exact ⟨hj.1, ih hj.2.1, hj.2.2⟩
  | @members fields fields' hperm =>
    rw [Numeric, fieldsNumeric_iff] at hj ⊢
    exact fun f hf => hj f (hperm.mem_iff.mpr hf)

theorem numeric_canonicalize (hj : j.Distinct) (hnumeric : j.Numeric) :
    (canonicalize j).Numeric :=
  numeric_reordered (reordered_canonicalize j hj) hnumeric

/-! ### Equality -/

theorem findMember_of_mem {k : String} {fields : List (String × Json)}
    (hnodup : (fields.map Prod.fst).Nodup) (h : (k, j) ∈ fields) :
    findMember k fields = some j := by
  induction fields with
  | nil => exact absurd h List.not_mem_nil
  | cons f rest ih =>
    obtain ⟨k', j'⟩ := f
    obtain ⟨hfresh, hrest⟩ := List.nodup_cons.mp hnodup
    rw [findMember]
    rcases List.mem_cons.mp h with heq | hmem
    · obtain ⟨rfl, rfl⟩ := Prod.mk.inj heq
      exact if_pos rfl
    · have hne : k' ≠ k := by
        intro heq
        exact hfresh (List.mem_map.mpr ⟨(k, j), hmem, heq.symm⟩)
      rw [if_neg hne]
      exact ih hrest hmem

mutual

theorem valueEq_self : ∀ {j : Json}, j.Distinct → valueEq j j = true
  | .null, _ => rfl
  | .bool b, _ => by simp [valueEq]
  | .num text, _ => by simp [valueEq, numEq]
  | .str s, _ => by simp [valueEq]
  | .arr items, h => by rw [valueEq, itemsEq_self h]
  | .obj fields, h => by
    rw [valueEq, beq_self_eq_true, Bool.true_and]
    exact membersEq_self (fun f hf => findMember_of_mem h.1 hf) h.2

theorem itemsEq_self : ∀ {l : List Json}, itemsDistinct l → itemsEq l l = true
  | [], _ => rfl
  | j :: rest, h => by rw [itemsEq, valueEq_self h.1, itemsEq_self h.2, Bool.and_true]

theorem membersEq_self : ∀ {l fields : List (String × Json)},
    (∀ f ∈ l, findMember f.1 fields = some f.2) → fieldsDistinct l →
    membersEq l fields = true
  | [], _, _, _ => rfl
  | (k, j) :: rest, fields, hfind, h => by
    obtain ⟨hj, hrest⟩ := List.forall_mem_cons.mp hfind
    rw [membersEq, hj, membersEq_self hrest h.2, Bool.and_true]
    exact valueEq_self h.1

end

end GraphStore

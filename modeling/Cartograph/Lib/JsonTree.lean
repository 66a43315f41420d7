/-
The values inside a JSON value.

`count` is how many there are, and `All P` says that `P` holds of each.  Both are kept by a
change of the order of members, as is the length of the text, so the canonical form of a value
has them when the value does.

* `count_canonicalize`, `size_canonicalize`, `All.canonicalize`;
* `Roomy`, `count_le_size` — a value whose arrays hold no tiny items takes four bytes for each
  value in it;
* `field`, `closed` — reading the members of an object by name.
-/
import Cartograph.Canonical

namespace Json

open GraphStore (canonicalize)

/-! ### Counting -/

mutual

/-- The number of values in a value, itself included. -/
def count : Json → ℕ
  | .null | .bool _ | .num _ | .str _ => 1
  | .arr items => 1 + countItems items
  | .obj fields => 1 + countFields fields

def countItems : List Json → ℕ
  | [] => 0
  | j :: rest => count j + countItems rest

def countFields : List (String × Json) → ℕ
  | [] => 0
  | (_, j) :: rest => count j + countFields rest

end

theorem countItems_eq (l : List Json) : countItems l = (l.map count).sum := by
  induction l with
  | nil => rfl
  | cons j rest ih => rw [countItems, ih, List.map_cons, List.sum_cons]

theorem countFields_eq (l : List (String × Json)) :
    countFields l = (l.map fun f => count f.2).sum := by
  induction l with
  | nil => rfl
  | cons f rest ih => rw [countFields, ih, List.map_cons, List.sum_cons]

theorem count_pos (j : Json) : 0 < count j := by
  cases j <;> simp [count]

variable {j j' : Json} {l : List (String × Json)}

theorem Reordered.count (h : Reordered j j') : j.count = j'.count := by
  induction h with
  | refl j => rfl
  | trans _ _ ih ih' => exact ih.trans ih'
  | item before after _ ih => simp [Json.count, countItems_eq, ih]
  | member before after name _ ih => simp [Json.count, countFields_eq, ih]
  | members h =>
    rw [Json.count, Json.count, countFields_eq, countFields_eq, (h.map _).sum_eq]

theorem size_arr (l : List Json) :
    size (.arr l) + min 1 l.length = 2 + (l.map fun j => 1 + size j).sum := by
  cases l with
  | nil => simp
  | cons j rest =>
    rw [size_arr_cons, List.map_cons, List.sum_cons, List.length_cons]
    omega

theorem size_obj (l : List (String × Json)) :
    size (.obj l) + min 1 l.length = 2 + (l.map fun f => 1 + fieldSize f).sum := by
  cases l with
  | nil => simp
  | cons f rest =>
    rw [size_obj_cons, List.map_cons, List.sum_cons, List.length_cons]
    omega

theorem Reordered.size (h : Reordered j j') : j.size = j'.size := by
  induction h with
  | refl j => rfl
  | trans _ _ ih ih' => exact ih.trans ih'
  | @item before after j j' _ ih =>
    have hl := size_arr (before ++ j :: after)
    have hr := size_arr (before ++ j' :: after)
    simp only [List.map_append, List.map_cons, List.sum_append, List.sum_cons, List.length_append,
      List.length_cons, ih] at hl hr
    omega
  | @member before after name j j' _ ih =>
    have hl := size_obj (before ++ (name, j) :: after)
    have hr := size_obj (before ++ (name, j') :: after)
    simp only [List.map_append, List.map_cons, List.sum_append, List.sum_cons, List.length_append,
      List.length_cons, fieldSize, ih] at hl hr
    omega
  | @members fields fields' h =>
    have hl := size_obj fields
    have hr := size_obj fields'
    rw [h.length_eq, (h.map _).sum_eq] at hl
    omega

theorem count_canonicalize (hj : j.Distinct) : (canonicalize j).count = j.count :=
  (GraphStore.reordered_canonicalize j hj).count.symm

theorem size_canonicalize (hj : j.Distinct) : (canonicalize j).size = j.size :=
  (GraphStore.reordered_canonicalize j hj).size.symm

/-! ### Every value -/

mutual

/-- `P` holds of the value and of all values in it. -/
def All (P : Json → Prop) : Json → Prop
  | .arr items => P (.arr items) ∧ AllItems P items
  | .obj fields => P (.obj fields) ∧ AllFields P fields
  | .null => P .null
  | .bool b => P (.bool b)
  | .num text => P (.num text)
  | .str s => P (.str s)

def AllItems (P : Json → Prop) : List Json → Prop
  | [] => True
  | j :: rest => All P j ∧ AllItems P rest

def AllFields (P : Json → Prop) : List (String × Json) → Prop
  | [] => True
  | (_, j) :: rest => All P j ∧ AllFields P rest

end

variable {P : Json → Prop}

theorem allItems_iff {l : List Json} : AllItems P l ↔ ∀ j ∈ l, j.All P := by
  induction l with
  | nil => simp [AllItems]
  | cons j rest ih => rw [AllItems, ih, List.forall_mem_cons]

theorem allFields_iff : AllFields P l ↔ ∀ f ∈ l, f.2.All P := by
  induction l with
  | nil => simp [AllFields]
  | cons f rest ih => rw [AllFields, ih, List.forall_mem_cons]

theorem all_arr {l : List Json} : (Json.arr l).All P ↔ P (.arr l) ∧ ∀ j ∈ l, j.All P := by
  rw [All, allItems_iff]

theorem all_obj :
    (Json.obj l).All P ↔ P (.obj l) ∧ ∀ f ∈ l, f.2.All P := by
  rw [All, allFields_iff]

theorem All.self (h : j.All P) : P j := by
  cases j with
  | arr _ => exact (all_arr.mp h).1
  | obj _ => exact (all_obj.mp h).1
  | _ => exact h

theorem Reordered.all (h : Reordered j j') (hP : ∀ {j j' : Json}, Reordered j j' → P j → P j')
    (hj : j.All P) : j'.All P := by
  induction h with
  | refl j => exact hj
  | trans _ _ ih ih' => exact ih' (ih hj)
  | @item before after j j' hstep ih =>
    obtain ⟨hself, hitems⟩ := all_arr.mp hj
    refine all_arr.mpr ⟨hP (.item before after hstep) hself, fun x hx => ?_⟩
    rcases List.mem_append.mp hx with hx | hx
    · exact hitems x (List.mem_append_left _ hx)
    · rcases List.mem_cons.mp hx with rfl | hx
      · exact ih (hitems j (by simp))
      · exact hitems x (by simp [hx])
  | @member before after name j j' hstep ih =>
    obtain ⟨hself, hfields⟩ := all_obj.mp hj
    refine all_obj.mpr ⟨hP (.member before after name hstep) hself, fun x hx => ?_⟩
    rcases List.mem_append.mp hx with hx | hx
    · exact hfields x (List.mem_append_left _ hx)
    · rcases List.mem_cons.mp hx with rfl | hx
      · exact ih (hfields (name, j) (by simp))
      · exact hfields x (by simp [hx])
  | members hperm =>
    obtain ⟨hself, hfields⟩ := all_obj.mp hj
    exact all_obj.mpr ⟨hP (.members hperm) hself, fun x hx => hfields x (hperm.mem_iff.mpr hx)⟩

/-! ### Room -/

/-- An item of an array that takes four bytes with its separator. -/
def wide : Json → Prop
  | .str s => 0 < s.utf8ByteSize
  | .obj fields => fields ≠ []
  | _ => False

/-- A value that takes four bytes for each value directly in it: the items of an array are wide,
and the names of members have two bytes. -/
def Roomy : Json → Prop
  | .num text => 0 < text.utf8ByteSize
  | .arr items => ∀ j ∈ items, wide j
  | .obj fields => ∀ f ∈ fields, 2 ≤ f.1.utf8ByteSize
  | _ => True

mutual

theorem count_le_size : ∀ j : Json, j.All Roomy →
    4 * count j ≤ size j + 3 ∧ (wide j → 4 * count j ≤ size j + 1)
  | .null, _ | .bool true, _ | .bool false, _ => by simp [count, wide]
  | .num text, h => by
    have htext : 0 < text.utf8ByteSize := h
    simp [count, wide]
    omega
  | .str s, _ => by
    have hs := (strSize_bounds s).1
    simp only [count, wide, size_str]
    omega
  | .arr items, h => by
    obtain ⟨hwide, hall⟩ := h
    have hitems := countItems_le items hall hwide
    have hsize := size_arr items
    have hshort : min 1 items.length ≤ 1 := Nat.min_le_left ..
    refine ⟨?_, fun hself => hself.elim⟩
    rw [count]
    omega
  | .obj fields, h => by
    obtain ⟨hnames, hall⟩ := h
    have hfields := countFields_le fields hall hnames
    have hsize := size_obj fields
    have hshort : min 1 fields.length ≤ 1 := Nat.min_le_left ..
    rw [count]
    refine ⟨by omega, fun hself => ?_⟩
    have hpos : 0 < fields.length := List.length_pos_iff.mpr hself
    omega

theorem countItems_le : ∀ l : List Json, AllItems Roomy l → (∀ j ∈ l, wide j) →
    4 * countItems l ≤ (l.map fun j => 1 + size j).sum
  | [], _, _ => by simp [countItems]
  | j :: rest, h, hwide => by
    have hj := (count_le_size j h.1).2 (hwide j List.mem_cons_self)
    have hrest := countItems_le rest h.2 fun x hx => hwide x (List.mem_cons_of_mem _ hx)
    rw [countItems, List.map_cons, List.sum_cons]
    omega

theorem countFields_le : ∀ l : List (String × Json), AllFields Roomy l →
    (∀ f ∈ l, 2 ≤ f.1.utf8ByteSize) →
    4 * countFields l + 3 * l.length ≤ (l.map fun f => 1 + fieldSize f).sum
  | [], _, _ => by simp [countFields]
  | (name, j) :: rest, h, hnames => by
    have hj := (count_le_size j h.1).1
    have hname : 2 ≤ name.utf8ByteSize := hnames (name, j) List.mem_cons_self
    have hquoted := (strSize_bounds name).1
    have hrest := countFields_le rest h.2 fun x hx => hnames x (List.mem_cons_of_mem _ hx)
    rw [countFields, List.map_cons, List.sum_cons, List.length_cons]
    show _ ≤ 1 + (strSize name + 1 + size j) + _
    omega

end

/-! ### Members by name -/

def field (j : Json) (name : String) : Option Json :=
  match j with
  | .obj fields => (fields.find? fun f => f.1 == name).map Prod.snd
  | _ => none

/-- An object with no other members than these. -/
def closed (names : List String) (j : Json) : Bool :=
  match j with
  | .obj fields => fields.all fun f => names.contains f.1
  | _ => false

@[simp] theorem canonicalize_null : canonicalize .null = .null := by
  rw [canonicalize]

@[simp] theorem canonicalize_bool (b : Bool) :
    canonicalize (.bool b) = .bool b := by
  rw [canonicalize]

@[simp] theorem canonicalize_num (text : String) :
    canonicalize (.num text) = .num text := by
  rw [canonicalize]

@[simp] theorem canonicalize_nat (n : ℕ) : canonicalize (nat n) = nat n :=
  canonicalize_num _

@[simp] theorem canonicalize_str (s : String) : canonicalize (.str s) = .str s := by
  rw [canonicalize]

@[simp] theorem canonicalize_arr (l : List Json) :
    canonicalize (.arr l) = .arr (l.map canonicalize) := by
  rw [canonicalize, GraphStore.canonicalizeItems_eq]

section

variable (h : (l.map Prod.fst).Nodup)
include h

theorem mem_canonicalize :
    ∃ l', canonicalize (.obj l) = .obj l'
      ∧ l'.Perm (l.map fun f => (f.1, canonicalize f.2)) := by
  refine ⟨_, by rw [canonicalize, GraphStore.canonicalizeMembers_eq], ?_⟩
  refine GraphStore.sortMembers_perm ?_
  rw [List.map_map]
  exact h

theorem find?_name {name : String} (hmem : (name, j) ∈ l) :
    l.find? (fun f => f.1 == name) = some (name, j) := by
  induction l with
  | nil => exact absurd hmem (by simp)
  | cons f rest ih =>
    obtain ⟨hfresh, hrest⟩ := List.nodup_cons.mp h
    by_cases hname : f.1 = name
    · rcases List.mem_cons.mp hmem with rfl | hlater
      · rw [List.find?_cons_of_pos (by simp)]
      · exact absurd (List.mem_map.mpr ⟨_, hlater, hname.symm⟩) hfresh
    · rw [List.find?_cons_of_neg (by simpa using hname)]
      rcases List.mem_cons.mp hmem with rfl | hlater
      · exact absurd rfl hname
      · exact ih hrest hlater

theorem field_canonicalize (name : String) :
    (canonicalize (.obj l)).field name
      = ((l.find? fun f => f.1 == name).map Prod.snd).map canonicalize := by
  obtain ⟨l', hl', hperm⟩ := mem_canonicalize h
  have hkeys : (l'.map Prod.fst).Nodup := by
    rw [(hperm.map Prod.fst).nodup_iff, List.map_map]
    exact h
  rw [hl', field]
  cases hfind : l.find? fun f => f.1 == name with
  | none =>
    have hnone : l'.find? (fun f => f.1 == name) = none := by
      rw [List.find?_eq_none] at hfind ⊢
      intro f hf
      obtain ⟨g, hg, rfl⟩ := List.mem_map.mp (hperm.mem_iff.mp hf)
      exact hfind g hg
    rw [hnone]
    rfl
  | some f =>
    obtain ⟨key, j⟩ := f
    have hmem : (key, canonicalize j) ∈ l' :=
      hperm.mem_iff.mpr (List.mem_map.mpr ⟨_, List.mem_of_find?_eq_some hfind, rfl⟩)
    have hname : key = name := by simpa using List.find?_some hfind
    rw [find?_name hkeys (hname ▸ hmem)]
    rfl

theorem closed_canonicalize {names : List String}
    (hall : ∀ name ∈ l.map Prod.fst, names.contains name = true) :
    (canonicalize (.obj l)).closed names = true := by
  obtain ⟨l', hl', hperm⟩ := mem_canonicalize h
  rw [hl', closed, List.all_eq_true]
  intro f hf
  obtain ⟨g, hg, rfl⟩ := List.mem_map.mp (hperm.mem_iff.mp hf)
  exact hall g.1 (List.mem_map.mpr ⟨g, hg, rfl⟩)

end

end Json

/-
Records as JSON.

A `Serde` writes the values of a type and reads them back, a `Fields` does so with members of an
object, and a `Variants` with the members of a tagged union.  The laws are fields of each, so that
a codec that loses something cannot be built; all are put together from scalars, lists and
members.  `Fits` holds of the values that the type of the reader has.

* `Serde.str`, `Serde.nat`, `Serde.unit`, `Serde.list`, `Fields.obj` — what a member can hold;
* `Fields.one`, `Fields.opt`, `Fields.omitted` — members that are there, or may be null or absent;
* `Fields.and`, `Variants.or`, `Fields.iso` — records and unions of them;
* `Serde.render_injective` — values with the same text are the same value.
-/
import Cartograph.Lib.JsonText

/-- A way to write values and to read them. -/
structure Serde (α : Type) where
  write : α → Json
  read : Json → Option α
  Fits : α → Prop
  read_write : ∀ a, Fits a → read (write a) = some a
  injective : Function.Injective write
  ne_null : ∀ a, write a ≠ .null
  numeric : ∀ a, (write a).Numeric
  distinct : ∀ a, (write a).Distinct

namespace Serde

variable {α β : Type}

/-! ### Scalars -/

def stringValue : Json → Option String
  | .str s => some s
  | _ => none

def str : Serde String where
  write := .str
  read := stringValue
  Fits _ := True
  read_write _ _ := rfl
  injective _ _ := Json.str.inj
  ne_null _ h := by cases h
  numeric _ := trivial
  distinct _ := trivial

def boolValue : Json → Option Bool
  | .bool b => some b
  | _ => none

def bool : Serde Bool where
  write := .bool
  read := boolValue
  Fits _ := True
  read_write _ _ := rfl
  injective _ _ := Json.bool.inj
  ne_null _ h := by cases h
  numeric _ := trivial
  distinct _ := trivial

/-- A number without sign, fraction or exponent. -/
def natValue : Json → Option ℕ
  | .num text =>
    if text.toList ≠ [] ∧ text.toList.all Char.isDigit = true then
      some (Nat.ofDigitChars 10 text.toList 0)
    else none
  | _ => none

theorem natValue_nat (n : ℕ) : natValue (.nat n) = some n := by
  obtain ⟨hne, hall, hvalue⟩ := Json.toString_digits n
  show natValue (.num (toString n)) = some n
  rw [natValue, if_pos ⟨hne, hall⟩, hvalue]

/-- The numbers below a bound. -/
def nat (bound : ℕ) : Serde ℕ where
  write := .nat
  read j := (natValue j).filter (· < bound)
  Fits n := n < bound
  read_write n h := by simp [natValue_nat, h]
  injective _ _ := Json.nat_injective
  ne_null _ h := by cases h
  numeric := Json.numeric_nat
  distinct _ := trivial

/-- An enumeration without data, by the names of its variants. -/
def unit (text : α → String) (variants : List α)
    (find : ∀ a, variants.find? (fun b => text b == text a) = some a) : Serde α where
  write a := .str (text a)
  read j := (stringValue j).bind fun name => variants.find? fun b => text b == name
  Fits _ := True
  read_write a _ := find a
  injective a b h := by
    have hfind := find a
    rw [Json.str.inj h, find b] at hfind
    exact (Option.some_inj.mp hfind).symm
  ne_null _ h := by cases h
  numeric _ := trivial
  distinct _ := trivial

/-! ### Lists and isomorphic types -/

def itemsValue (S : Serde α) : Json → Option (List α)
  | .arr items => items.mapM S.read
  | _ => none

theorem mapM_write (S : Serde α) {l : List α} (h : ∀ a ∈ l, S.Fits a) :
    (l.map S.write).mapM S.read = some l := by
  induction l with
  | nil => rfl
  | cons a rest ih =>
    obtain ⟨ha, hrest⟩ := List.forall_mem_cons.mp h
    rw [List.map_cons, List.mapM_cons, S.read_write a ha, ih hrest]
    rfl

def list (S : Serde α) : Serde (List α) where
  write l := .arr (l.map S.write)
  read := S.itemsValue
  Fits l := ∀ a ∈ l, S.Fits a
  read_write _ h := S.mapM_write h
  injective _ _ h := List.map_injective_iff.mpr S.injective (Json.arr.inj h)
  ne_null _ h := by cases h
  numeric l := Json.itemsNumeric_iff.mpr (List.forall_mem_map.mpr fun a _ => S.numeric a)
  distinct l := Json.itemsDistinct_iff.mpr (List.forall_mem_map.mpr fun a _ => S.distinct a)

/-- A type that is written as another. -/
def iso (S : Serde β) (out : α → β) (back : β → α) (back_out : ∀ a, back (out a) = a) :
    Serde α where
  write a := S.write (out a)
  read j := (S.read j).map back
  Fits a := S.Fits (out a)
  read_write a h := by rw [S.read_write _ h, Option.map_some, back_out]
  injective := S.injective.comp (Function.LeftInverse.injective back_out)
  ne_null a := S.ne_null (out a)
  numeric a := S.numeric (out a)
  distinct a := S.distinct (out a)

/-- The codec with this writer, which is its own. -/
def writing (S : Serde α) (write : α → Json) (same : S.write = write) : Serde α where
  write := write
  read := S.read
  Fits := S.Fits
  read_write a := same ▸ S.read_write a
  injective := same ▸ S.injective
  ne_null a := same ▸ S.ne_null a
  numeric a := same ▸ S.numeric a
  distinct a := same ▸ S.distinct a

theorem render_injective (S : Serde α) {a b : α} (h : (S.write a).render = (S.write b).render) :
    a = b :=
  S.injective (Json.render_injective (S.numeric a) (S.numeric b) h)

end Serde

/-! ### Members of an object -/

/-- The first member of a name. -/
def Json.member (name : String) (members : List (String × Json)) : Option Json :=
  (members.find? fun m => m.1 == name).map Prod.snd

/-- A way to write values as members, and to read them among other members. -/
structure Fields (α : Type) where
  names : List String
  write : α → List (String × Json)
  read : List (String × Json) → Option α
  Fits : α → Prop
  mem_names : ∀ a, ∀ m ∈ write a, m.1 ∈ names
  nodup : ∀ a, ((write a).map Prod.fst).Nodup
  read_write : ∀ a members, Fits a →
    (∀ name ∈ names, Json.member name members = Json.member name (write a)) → read members = some a
  injective : Function.Injective write
  numeric : ∀ a, ∀ m ∈ write a, m.2.Numeric
  distinct : ∀ a, ∀ m ∈ write a, m.2.Distinct

namespace Fields

open Json

variable {α β : Type}

theorem member_single (name : String) (j : Json) : member name [(name, j)] = some j := by
  simp [member]

variable {name : String} {l l' : List (String × Json)}

theorem member_append_left (h : ∀ m ∈ l', m.1 ≠ name) : member name (l ++ l') = member name l := by
  have hnone : l'.find? (fun m => m.1 == name) = none := by
    rw [List.find?_eq_none]
    intro m hm
    simpa using h m hm
  rw [member, List.find?_append, hnone, Option.or_none, member]

theorem member_append_right (h : ∀ m ∈ l, m.1 ≠ name) : member name (l ++ l') = member name l' := by
  have hnone : l.find? (fun m => m.1 == name) = none := by
    rw [List.find?_eq_none]
    intro m hm
    simpa using h m hm
  rw [member, List.find?_append, hnone, Option.none_or, member]

/-- A member that is always there. -/
def one (name : String) (S : Serde α) : Fields α where
  names := [name]
  write a := [(name, S.write a)]
  read members := (member name members).bind S.read
  Fits := S.Fits
  mem_names a m hm := by rw [List.mem_singleton.mp hm]; exact List.mem_singleton_self _
  nodup a := List.nodup_singleton _
  read_write a members hfits h := by
    rw [h name (List.mem_singleton_self _), member_single, Option.bind_some, S.read_write a hfits]
  injective a b h := by
    simp only [List.cons.injEq, Prod.mk.injEq, true_and, and_true] at h
    exact S.injective h
  numeric a m hm := by rw [List.mem_singleton.mp hm]; exact S.numeric a
  distinct a m hm := by rw [List.mem_singleton.mp hm]; exact S.distinct a

/-- A member that is null or holds a value. -/
def opt (name : String) (S : Serde α) : Fields (Option α) where
  names := [name]
  write o := [(name, Json.opt S.write o)]
  read members :=
    match member name members with
    | none | some .null => some none
    | some j => (S.read j).map some
  Fits o := ∀ a ∈ o, S.Fits a
  mem_names a m hm := by rw [List.mem_singleton.mp hm]; exact List.mem_singleton_self _
  nodup a := List.nodup_singleton _
  read_write o members hfits h := by
    rw [h name (List.mem_singleton_self _), member_single]
    cases o with
    | none => rfl
    | some a =>
      have hread := S.read_write a (hfits a rfl)
      have hnull := S.ne_null a
      simp only [Json.opt]
      generalize S.write a = j at hread hnull
      cases j with
      | null => exact absurd rfl hnull
      | bool b => simp [hread]
      | num text => simp [hread]
      | str s => simp [hread]
      | arr items => simp [hread]
      | obj fields => simp [hread]
  injective o o' h := by
    simp only [List.cons.injEq, Prod.mk.injEq, true_and, and_true] at h
    cases o with
    | none =>
      cases o' with
      | none => rfl
      | some b => exact absurd h.symm (S.ne_null b)
    | some a =>
      cases o' with
      | none => exact absurd h (S.ne_null a)
      | some b => rw [S.injective h]
  numeric o m hm := by
    rw [List.mem_singleton.mp hm]
    cases o with
    | none => exact trivial
    | some a => exact S.numeric a
  distinct o m hm := by
    rw [List.mem_singleton.mp hm]
    cases o with
    | none => exact trivial
    | some a => exact S.distinct a

/-- A member that is left out when there is no value. -/
def omitted (name : String) (S : Serde α) : Fields (Option α) where
  names := [name]
  write o := o.toList.map fun a => (name, S.write a)
  read members :=
    match member name members with
    | none => some none
    | some j => (S.read j).map some
  Fits o := ∀ a ∈ o, S.Fits a
  mem_names o m hm := by
    obtain ⟨a, -, rfl⟩ := List.mem_map.mp hm
    exact List.mem_singleton_self _
  nodup o := by
    cases o with
    | none => exact List.nodup_nil
    | some a => exact List.nodup_singleton _
  read_write o members hfits h := by
    rw [h name (List.mem_singleton_self _)]
    cases o with
    | none => rfl
    | some a => simp [member, S.read_write a (hfits a rfl)]
  injective o o' h := by
    cases o with
    | none =>
      cases o' with
      | none => rfl
      | some b => exact absurd h (by simp)
    | some a =>
      cases o' with
      | none => exact absurd h (by simp)
      | some b =>
        simp only [Option.toList_some, List.map_cons, List.map_nil, List.cons.injEq, Prod.mk.injEq,
          true_and, and_true] at h
        rw [S.injective h]
  numeric o m hm := by
    obtain ⟨a, -, rfl⟩ := List.mem_map.mp hm
    exact S.numeric a
  distinct o m hm := by
    obtain ⟨a, -, rfl⟩ := List.mem_map.mp hm
    exact S.distinct a

/-- Members of one record after those of another; their names are different. -/
def and (F : Fields α) (G : Fields β)
    (disjoint : ∀ name ∈ F.names, name ∉ G.names := by decide) : Fields (α × β) where
  names := F.names ++ G.names
  write p := F.write p.1 ++ G.write p.2
  read members := do return (← F.read members, ← G.read members)
  Fits p := F.Fits p.1 ∧ G.Fits p.2
  mem_names p m hm := by
    rcases List.mem_append.mp hm with hm | hm
    · exact List.mem_append_left _ (F.mem_names _ m hm)
    · exact List.mem_append_right _ (G.mem_names _ m hm)
  nodup p := by
    rw [List.map_append, List.nodup_append]
    refine ⟨F.nodup _, G.nodup _, fun name hname name' hname' heq => ?_⟩
    obtain ⟨m, hm, rfl⟩ := List.mem_map.mp hname
    obtain ⟨m', hm', rfl⟩ := List.mem_map.mp hname'
    exact disjoint _ (F.mem_names _ m hm) (heq ▸ G.mem_names _ m' hm')
  read_write p members hfits h := by
    have hF : F.read members = some p.1 := by
      refine F.read_write _ _ hfits.1 fun name hname => ?_
      rw [h name (List.mem_append_left _ hname)]
      refine member_append_left fun m hm heq => disjoint name hname ?_
      exact heq ▸ G.mem_names _ m hm
    have hG : G.read members = some p.2 := by
      refine G.read_write _ _ hfits.2 fun name hname => ?_
      rw [h name (List.mem_append_right _ hname)]
      refine member_append_right fun m hm heq => disjoint m.1 (F.mem_names _ m hm) ?_
      exact heq ▸ hname
    rw [hF, hG]
    rfl
  injective p p' h := by
    -- the first part is what has the names of the first record
    have hfilter : ∀ p : α × β,
        (F.write p.1 ++ G.write p.2).filter (fun m => decide (m.1 ∈ F.names)) = F.write p.1 := by
      intro p
      have hleft : (F.write p.1).filter (fun m => decide (m.1 ∈ F.names)) = F.write p.1 :=
        List.filter_eq_self.mpr fun m hm => decide_eq_true (F.mem_names _ m hm)
      have hright : (G.write p.2).filter (fun m => decide (m.1 ∈ F.names)) = [] :=
        List.filter_eq_nil_iff.mpr fun m hm hin =>
          disjoint m.1 (of_decide_eq_true hin) (G.mem_names _ m hm)
      rw [List.filter_append, hleft, hright, List.append_nil]
    have h : F.write p.1 ++ G.write p.2 = F.write p'.1 ++ G.write p'.2 := h
    have hF : F.write p.1 = F.write p'.1 := by rw [← hfilter p, h, hfilter p']
    rw [hF] at h
    exact Prod.ext (F.injective hF) (G.injective (List.append_cancel_left h))
  numeric p m hm := (List.mem_append.mp hm).elim (F.numeric _ m) (G.numeric _ m)
  distinct p m hm := (List.mem_append.mp hm).elim (F.distinct _ m) (G.distinct _ m)

def iso (F : Fields β) (out : α → β) (back : β → α) (back_out : ∀ a, back (out a) = a) :
    Fields α where
  names := F.names
  write a := F.write (out a)
  read members := (F.read members).map back
  Fits a := F.Fits (out a)
  mem_names a := F.mem_names (out a)
  nodup a := F.nodup (out a)
  read_write a members hfits h := by
    rw [F.read_write _ _ hfits h, Option.map_some, back_out]
  injective := F.injective.comp (Function.LeftInverse.injective back_out)
  numeric a := F.numeric (out a)
  distinct a := F.distinct (out a)

/-- A member with the one value `text` before those of a record. -/
def const (name text : String) (F : Fields α) (fresh : name ∉ F.names := by decide) :
    Fields α where
  names := name :: F.names
  write a := (name, .str text) :: F.write a
  read members :=
    if (member name members).bind Serde.stringValue = some text then F.read members else none
  Fits := F.Fits
  mem_names a m hm := by
    rcases List.mem_cons.mp hm with rfl | hm
    · exact List.mem_cons_self
    · exact List.mem_cons_of_mem _ (F.mem_names a m hm)
  nodup a := by
    refine List.nodup_cons.mpr ⟨fun hname => ?_, F.nodup a⟩
    obtain ⟨m, hm, rfl⟩ := List.mem_map.mp hname
    exact fresh (F.mem_names a m hm)
  read_write a members hfits h := by
    have hname : member name members = some (.str text) := by
      rw [h name List.mem_cons_self]
      simp [member]
    have htext : (member name members).bind Serde.stringValue = some text := by rw [hname]; rfl
    rw [if_pos htext]
    refine F.read_write a members hfits fun name' hname' => ?_
    have hne : name ≠ name' := fun heq => fresh (heq ▸ hname')
    rw [h name' (List.mem_cons_of_mem _ hname')]
    simp [member, hne]
  injective a b h := F.injective (List.cons.inj h).2
  numeric a m hm := by
    rcases List.mem_cons.mp hm with rfl | hm
    · exact trivial
    · exact F.numeric a m hm
  distinct a m hm := by
    rcases List.mem_cons.mp hm with rfl | hm
    · exact trivial
    · exact F.distinct a m hm

/-- No members. -/
def empty : Fields Unit where
  names := []
  write _ := []
  read _ := some ()
  Fits _ := True
  mem_names _ _ hm := absurd hm List.not_mem_nil
  nodup _ := List.nodup_nil
  read_write _ _ _ _ := rfl
  injective _ _ _ := rfl
  numeric _ _ hm := absurd hm List.not_mem_nil
  distinct _ _ hm := absurd hm List.not_mem_nil

/-- The object with these members. -/
def obj (F : Fields α) : Serde α where
  write a := .obj (F.write a)
  read j :=
    match j with
    | .obj members => F.read members
    | _ => none
  Fits := F.Fits
  read_write a h := F.read_write a _ h fun _ _ => rfl
  injective _ _ h := F.injective (Json.obj.inj h)
  ne_null _ h := by cases h
  numeric a := Json.fieldsNumeric_iff.mpr (F.numeric a)
  distinct a := ⟨F.nodup a, Json.fieldsDistinct_iff.mpr (F.distinct a)⟩

end Fields

/-! ### Tagged unions -/

/-- Members of which one says which variant it is. -/
structure Variants (tag : String) (α : Type) extends Fields α where
  texts : List String
  tagged : ∀ a, ∃ text ∈ texts, Json.member tag (write a) = some (.str text)
  other : ∀ members, (∀ text ∈ texts, Json.member tag members ≠ some (.str text)) →
    read members = none

namespace Variants

open Json

variable {tag : String} {α β : Type}

/-- One variant. -/
def one (tag text : String) (F : Fields α) (fresh : tag ∉ F.names := by decide) :
    Variants tag α where
  toFields := Fields.const tag text F fresh
  texts := [text]
  tagged a := ⟨text, List.mem_singleton_self _, by simp [Fields.const, member]⟩
  other members h := by
    have hne := h text (List.mem_singleton_self _)
    refine if_neg fun htag => ?_
    cases hmember : member tag members with
    | none =>
      rw [hmember] at htag
      exact absurd htag (by simp)
    | some j =>
      rw [hmember] at htag hne
      cases j with
      | str s => exact hne (by rw [Option.some_inj.mp htag])
      | null => exact absurd htag (by simp [Serde.stringValue])
      | bool b => exact absurd htag (by simp [Serde.stringValue])
      | num text => exact absurd htag (by simp [Serde.stringValue])
      | arr items => exact absurd htag (by simp [Serde.stringValue])
      | obj fields => exact absurd htag (by simp [Serde.stringValue])

theorem mem_names_tag (V : Variants tag α) (a : α) : tag ∈ V.names := by
  obtain ⟨text, -, htag⟩ := V.tagged a
  obtain ⟨m, hm, -⟩ := Option.map_eq_some_iff.mp htag
  have hname : m.1 = tag := by simpa using List.find?_some hm
  exact hname ▸ V.mem_names a m (List.mem_of_find?_eq_some hm)

/-- The variants of two unions with different texts. -/
def or (V : Variants tag α) (W : Variants tag β)
    (apart : ∀ text ∈ V.texts, text ∉ W.texts := by decide) : Variants tag (α ⊕ β) where
  names := V.names ++ W.names
  write := Sum.elim V.write W.write
  read members :=
    match V.read members with
    | some a => some (.inl a)
    | none => (W.read members).map .inr
  Fits := Sum.elim V.Fits W.Fits
  mem_names x m hm := by
    cases x with
    | inl a => exact List.mem_append_left _ (V.mem_names a m hm)
    | inr b => exact List.mem_append_right _ (W.mem_names b m hm)
  nodup x := by
    cases x with
    | inl a => exact V.nodup a
    | inr b => exact W.nodup b
  read_write x members hfits h := by
    cases x with
    | inl a =>
      have hread := V.read_write a members hfits fun name hname =>
        h name (List.mem_append_left _ hname)
      simp only [hread]
    | inr b =>
      have hread := W.read_write b members hfits fun name hname =>
        h name (List.mem_append_right _ hname)
      obtain ⟨text, htext, htag⟩ := W.tagged b
      have hnone : V.read members = none := by
        refine V.other members fun text' htext' hmember => ?_
        rw [h tag (List.mem_append_right _ (W.mem_names_tag b))] at hmember
        have hsame : text' = text := by
          have := hmember.symm.trans htag
          simpa using this
        exact apart text' htext' (hsame ▸ htext)
      simp only [hnone, hread, Option.map_some]
  injective x y h := by
    -- members of two variants differ in the tag
    have hapart : ∀ a b, V.write a ≠ W.write b := by
      intro a b hsame
      obtain ⟨text, htext, htag⟩ := V.tagged a
      obtain ⟨text', htext', htag'⟩ := W.tagged b
      rw [hsame, htag'] at htag
      have heq : text' = text := by simpa using htag
      exact apart text htext (heq ▸ htext')
    cases x with
    | inl a =>
      cases y with
      | inl a' => rw [V.injective h]
      | inr b => exact absurd h (hapart a b)
    | inr b =>
      cases y with
      | inl a => exact absurd h.symm (hapart a b)
      | inr b' => rw [W.injective h]
  numeric x m hm := by
    cases x with
    | inl a => exact V.numeric a m hm
    | inr b => exact W.numeric b m hm
  distinct x m hm := by
    cases x with
    | inl a => exact V.distinct a m hm
    | inr b => exact W.distinct b m hm
  texts := V.texts ++ W.texts
  tagged x := by
    cases x with
    | inl a =>
      obtain ⟨text, htext, htag⟩ := V.tagged a
      exact ⟨text, List.mem_append_left _ htext, htag⟩
    | inr b =>
      obtain ⟨text, htext, htag⟩ := W.tagged b
      exact ⟨text, List.mem_append_right _ htext, htag⟩
  other members h := by
    have hV := V.other members fun text htext => h text (List.mem_append_left _ htext)
    have hW := W.other members fun text htext => h text (List.mem_append_right _ htext)
    simp only [hV, hW, Option.map_none]

end Variants

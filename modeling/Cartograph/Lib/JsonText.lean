/-
Compact JSON texts are unambiguous.

A text is read from the left: the first character tells what kind of value follows, a
string ends at its first bare quote, and a number at the first character that cannot be
part of one.  What is left over is the same for two readings of one text.

* `Numeric` — a number is written with the characters of numbers;
* `escape_append_inj` — an escaped character is not the beginning of another;
* `render_injective` — values with the same text are the same value.
-/
import Cartograph.Lib.Json

namespace Json

/-! ### Numbers -/

/-- The characters of a number. -/
def numberChar (c : Char) : Bool :=
  c.isDigit || c == '-' || c == '+' || c == '.' || c == 'e' || c == 'E'

mutual

/-- Every number of the value is written as one. -/
def Numeric : Json → Prop
  | .num text => text.toList ≠ [] ∧ ∀ c ∈ text.toList, numberChar c = true
  | .arr items => itemsNumeric items
  | .obj fields => fieldsNumeric fields
  | .null | .bool _ | .str _ => True

def itemsNumeric : List Json → Prop
  | [] => True
  | j :: rest => Numeric j ∧ itemsNumeric rest

def fieldsNumeric : List (String × Json) → Prop
  | [] => True
  | (_, j) :: rest => Numeric j ∧ fieldsNumeric rest

end

/-- The text ends, or goes on with something that is not part of a number. -/
def Delimited (r : List Char) : Prop := ∀ c, r.head? = some c → numberChar c = false

variable {c : Char} {r r' : List Char} {j : Json}

theorem delimited_cons (h : numberChar c = false) :
    Delimited (c :: r) := by
  intro c' hc'
  rw [List.head?_cons, Option.some_inj] at hc'
  rwa [← hc']

variable {t : List Char} {j' : Json} {l : List (String × Json)}

theorem takeWhile_number (ht : ∀ c ∈ t, numberChar c = true) (hr : Delimited r) :
    (t ++ r).takeWhile numberChar = t := by
  rw [List.takeWhile_append_of_pos ht]
  cases r with
  | nil => simp
  | cons c rest => rw [List.takeWhile_cons_of_neg (by simp [hr c rfl]), List.append_nil]

theorem number_append_inj {t' : List Char} (ht : ∀ c ∈ t, numberChar c = true)
    (ht' : ∀ c ∈ t', numberChar c = true) (hr : Delimited r) (hr' : Delimited r')
    (h : t ++ r = t' ++ r') : t = t' ∧ r = r' := by
  have hsame : t = t' := by
    rw [← takeWhile_number ht hr, h, takeWhile_number ht' hr']
  subst hsame
  exact ⟨rfl, List.append_cancel_left h⟩

/-! ### Strings -/

/-- The characters that are escaped. -/
def special (c : Char) : Bool := c == '"' || c == '\\' || decide (c.toNat < 0x20)

def specials : List Char := '"' :: '\\' :: (List.range 0x20).map Char.ofNat

theorem mem_specials (h : special c = true) : c ∈ specials := by
  simp only [special, Bool.or_eq_true, beq_iff_eq, decide_eq_true_eq] at h
  rcases h with (rfl | rfl) | hlow
  · simp [specials]
  · simp [specials]
  · refine List.mem_cons_of_mem _ (List.mem_cons_of_mem _ (List.mem_map.mpr ⟨c.toNat, ?_, ?_⟩))
    · exact List.mem_range.mpr hlow
    · exact Char.ofNat_toNat c

theorem checked_escapes :
    (specials.all fun c => specials.all fun c' =>
      decide ((escape c).toList <+: (escape c').toList → c = c')) = true
    ∧ (specials.all fun c => (escape c).toList.head? == some '\\') = true
    ∧ specials.all special = true
    ∧ (['"', '\\', '\x08', '\t', '\n', '\x0c', '\r'].all fun c => decide (c ∈ specials)) = true := by
  decide +kernel

theorem escape_plain (h : special c = false) : (escape c).toList = [c] := by
  obtain ⟨-, -, hspecial, hshort⟩ := checked_escapes
  have hne : ∀ c' ∈ ['"', '\\', '\x08', '\t', '\n', '\x0c', '\r'], c ≠ c' := by
    rintro c' hc' rfl
    rw [List.all_eq_true.mp hspecial c (of_decide_eq_true (List.all_eq_true.mp hshort c hc'))] at h
    exact absurd h (by simp)
  have hlow : ¬ c.toNat < 0x20 := by
    intro hlow
    simp [special, hlow] at h
  rw [escape, if_neg (hne _ (by simp)), if_neg (hne _ (by simp)), if_neg (hne _ (by simp)),
    if_neg (hne _ (by simp)), if_neg (hne _ (by simp)), if_neg (hne _ (by simp)),
    if_neg (hne _ (by simp)), if_neg hlow]
  exact String.toList_singleton c

theorem escape_head {l : List Char} (h : special c = true) :
    ∃ rest, (escape c).toList ++ l = '\\' :: rest := by
  have hhead := beq_iff_eq.mp (List.all_eq_true.mp checked_escapes.2.1 c (mem_specials h))
  cases hc : (escape c).toList with
  | nil =>
    rw [hc] at hhead
    exact absurd hhead (by simp)
  | cons d rest =>
    rw [hc, List.head?_cons, Option.some_inj] at hhead
    exact ⟨rest ++ l, by rw [hhead, List.cons_append]⟩

theorem plain_ne (h : special c = false) : c ≠ '\\' ∧ c ≠ '"' := by
  constructor
  · rintro rfl
    exact absurd h (by decide)
  · rintro rfl
    exact absurd h (by decide)

theorem escape_append_inj {c' : Char} {l l' : List Char}
    (h : (escape c).toList ++ l = (escape c').toList ++ l') : c = c' ∧ l = l' := by
  cases hc : special c with
  | false =>
    rw [escape_plain hc, List.singleton_append] at h
    cases hc' : special c' with
    | false =>
      rw [escape_plain hc', List.singleton_append] at h
      exact List.cons.inj h
    | true =>
      obtain ⟨rest, hrest⟩ := escape_head (l := l') hc'
      rw [hrest] at h
      exact absurd (List.cons.inj h).1 (plain_ne hc).1
  | true =>
    cases hc' : special c' with
    | false =>
      obtain ⟨rest, hrest⟩ := escape_head (l := l) hc
      rw [hrest, escape_plain hc', List.singleton_append] at h
      exact absurd (List.cons.inj h).1.symm (plain_ne hc').1
    | true =>
      -- one of the two escapes begins the other
      have hbegins : ∀ {c c' : Char}, special c = true → special c' = true →
          (escape c).toList <+: (escape c').toList → c = c' := by
        intro c c' hc hc'
        have hall := List.all_eq_true.mp checked_escapes.1 c (mem_specials hc)
        exact of_decide_eq_true (List.all_eq_true.mp hall c' (mem_specials hc'))
      have hsame : c = c' := by
        rcases List.prefix_or_prefix_of_prefix (List.prefix_append _ l)
          (h ▸ List.prefix_append _ l') with hle | hle
        · exact hbegins hc hc' hle
        · exact (hbegins hc' hc hle).symm
      subst hsame
      exact ⟨rfl, List.append_cancel_left h⟩

theorem escape_ne_quote (c : Char) {l : List Char} : (escape c).toList ++ l ≠ '"' :: r := by
  cases hc : special c with
  | false =>
    rw [escape_plain hc, List.singleton_append]
    exact fun h => (plain_ne hc).2 (List.cons.inj h).1
  | true =>
    obtain ⟨rest, hrest⟩ := escape_head (l := l) hc
    rw [hrest]
    exact fun h => absurd (List.cons.inj h).1 (by decide)

/-- The characters of a list of pieces. -/
def chars (l : List String) : List Char := l.flatMap String.toList

@[simp] theorem chars_nil : chars [] = [] := rfl

@[simp] theorem chars_cons (s : String) (l : List String) : chars (s :: l) = s.toList ++ chars l := by
  simp [chars]

@[simp] theorem chars_append (l l' : List String) : chars (l ++ l') = chars l ++ chars l' := by
  simp [chars]

theorem toList_render (j : Json) : j.render.toList = chars j.chunks := by
  rw [render]
  induction j.chunks with
  | nil => rfl
  | cons s l ih => rw [List.foldr_cons, String.toList_append, ih, chars_cons]

theorem escaped_append_inj : ∀ {l l' : List Char} {r r' : List Char},
    chars (l.map escape) ++ '"' :: r = chars (l'.map escape) ++ '"' :: r' → l = l' ∧ r = r'
  | [], [], r, r', h => ⟨rfl, (List.cons.inj h).2⟩
  | [], c' :: l', r, r', h => by
    rw [List.map_cons, chars_cons, List.append_assoc] at h
    exact absurd h.symm (escape_ne_quote c')
  | c :: l, [], r, r', h => by
    rw [List.map_cons, chars_cons, List.append_assoc] at h
    exact absurd h (escape_ne_quote c)
  | c :: l, c' :: l', r, r', h => by
    rw [List.map_cons, List.map_cons, chars_cons, chars_cons, List.append_assoc,
      List.append_assoc] at h
    obtain ⟨rfl, hrest⟩ := escape_append_inj h
    obtain ⟨rfl, hr⟩ := escaped_append_inj hrest
    exact ⟨rfl, hr⟩

theorem chars_strChunks (s : String) :
    chars (strChunks s) = '"' :: (chars (s.toList.map escape) ++ ['"']) := by
  simp [strChunks]

theorem string_append_inj {s s' : String}
    (h : chars (strChunks s) ++ r = chars (strChunks s') ++ r') : s = s' ∧ r = r' := by
  rw [chars_strChunks, chars_strChunks, List.cons_append, List.cons_append, List.append_assoc,
    List.append_assoc] at h
  obtain ⟨hlist, hr⟩ := escaped_append_inj (List.cons.inj h).2
  exact ⟨String.toList_inj.mp hlist, hr⟩

/-! ### Values -/

/-- What kind of value a text is, by its first character. -/
inductive Kind
  | null | yes | no | number | string | array | object
  deriving DecidableEq

def kind : Json → Kind
  | .null => .null
  | .bool true => .yes
  | .bool false => .no
  | .num _ => .number
  | .str _ => .string
  | .arr _ => .array
  | .obj _ => .object

def firstKind (c : Char) : Option Kind :=
  if numberChar c then some .number
  else if c = 'n' then some .null
  else if c = 't' then some .yes
  else if c = 'f' then some .no
  else if c = '"' then some .string
  else if c = '[' then some .array
  else if c = '\x7b' then some .object
  else none

theorem chunks_head : ∀ {j : Json}, j.Numeric → ∀ r : List Char, ∃ c rest,
    chars j.chunks ++ r = c :: rest ∧ firstKind c = some j.kind
  | .null, _, r => ⟨'n', 'u' :: 'l' :: 'l' :: r, by simp [chunks], by decide⟩
  | .bool true, _, r => ⟨'t', 'r' :: 'u' :: 'e' :: r, by simp [chunks], by decide⟩
  | .bool false, _, r => ⟨'f', 'a' :: 'l' :: 's' :: 'e' :: r, by simp [chunks], by decide⟩
  | .num text, h, r => by
    obtain ⟨c, rest, htext⟩ := List.exists_cons_of_ne_nil h.1
    have hc : numberChar c = true := h.2 c (by simp [htext])
    exact ⟨c, rest ++ r, by simp [chunks, htext], by simp [firstKind, hc, kind]⟩
  | .str s, _, r => ⟨'"', _, by rw [chunks, chars_strChunks, List.cons_append], rfl⟩
  | .arr items, _, r => ⟨'[', chars (itemChunks true items) ++ ']' :: r, by simp [chunks], rfl⟩
  | .obj fields, _, r =>
    ⟨'\x7b', chars (fieldChunks true fields) ++ '\x7d' :: r, by simp [chunks], rfl⟩

theorem kind_eq_of_chunks (hj : j.Numeric) (hj' : j'.Numeric)
    (h : chars j.chunks ++ r = chars j'.chunks ++ r') : j.kind = j'.kind := by
  obtain ⟨c, rest, hc, hkind⟩ := chunks_head hj r
  obtain ⟨c', rest', hc', hkind'⟩ := chunks_head hj' r'
  rw [hc, hc'] at h
  rw [(List.cons.inj h).1, hkind'] at hkind
  exact (Option.some.inj hkind).symm

theorem chunks_ne (hj : j.Numeric) (hc : firstKind c = none) : chars j.chunks ++ r ≠ c :: r' := by
  intro h
  obtain ⟨c', rest, hc', hkind⟩ := chunks_head hj r
  rw [hc'] at h
  rw [(List.cons.inj h).1, hc] at hkind
  exact absurd hkind (by simp)

theorem chars_itemChunks_cons (first : Bool) (j : Json) (rest : List Json) (r : List Char) :
    chars (itemChunks first (j :: rest)) ++ ']' :: r
      = (if first then [] else [',']) ++ (chars j.chunks ++ (chars (itemChunks false rest) ++ ']' :: r)) := by
  cases first <;> simp [itemChunks]

theorem chars_fieldChunks_cons (first : Bool) (k : String) (j : Json)
    (rest : List (String × Json)) (r : List Char) :
    chars (fieldChunks first ((k, j) :: rest)) ++ '\x7d' :: r
      = (if first then [] else [',']) ++ (chars (strChunks k)
        ++ ':' :: (chars j.chunks ++ (chars (fieldChunks false rest) ++ '\x7d' :: r))) := by
  cases first <;> simp [fieldChunks]

theorem delimited_items (items : List Json) (r : List Char) :
    Delimited (chars (itemChunks false items) ++ ']' :: r) := by
  cases items with
  | nil => exact delimited_cons (by decide)
  | cons j rest =>
    rw [chars_itemChunks_cons]
    exact delimited_cons (by decide)

theorem delimited_fields (fields : List (String × Json)) (r : List Char) :
    Delimited (chars (fieldChunks false fields) ++ '\x7d' :: r) := by
  cases fields with
  | nil => exact delimited_cons (by decide)
  | cons f rest =>
    rw [chars_fieldChunks_cons]
    exact delimited_cons (by decide)

mutual

theorem chunks_append_inj : ∀ {j j' : Json} {r r' : List Char}, j.Numeric → j'.Numeric →
    Delimited r → Delimited r' → chars j.chunks ++ r = chars j'.chunks ++ r' → j = j' ∧ r = r'
  | .null, j', r, r', hj, hj', _, _, h => by
    have hkind := kind_eq_of_chunks hj hj' h
    cases j' with
    | null => exact ⟨rfl, List.append_cancel_left h⟩
    | bool b => cases b <;> exact absurd hkind (by decide)
    | _ => exact absurd hkind (by simp [kind])
  | .bool b, j', r, r', hj, hj', _, _, h => by
    have hkind := kind_eq_of_chunks hj hj' h
    cases j' with
    | bool b' =>
      obtain rfl : b = b' := by
        cases b <;> cases b' <;> first | rfl | exact absurd hkind (by decide)
      exact ⟨rfl, List.append_cancel_left h⟩
    | _ => cases b <;> exact absurd hkind (by simp [kind])
  | .num text, j', r, r', hj, hj', hr, hr', h => by
    have hkind := kind_eq_of_chunks hj hj' h
    cases j' with
    | num text' =>
      simp only [chunks, chars_cons, chars_nil, List.append_nil] at h
      obtain ⟨htext, hrest⟩ := number_append_inj hj.2 hj'.2 hr hr' h
      exact ⟨by rw [String.toList_inj.mp htext], hrest⟩
    | bool b => cases b <;> exact absurd hkind (by simp [kind])
    | _ => exact absurd hkind (by simp [kind])
  | .str s, j', r, r', hj, hj', _, _, h => by
    have hkind := kind_eq_of_chunks hj hj' h
    cases j' with
    | str s' =>
      rw [chunks, chunks] at h
      obtain ⟨rfl, hrest⟩ := string_append_inj h
      exact ⟨rfl, hrest⟩
    | bool b => cases b <;> exact absurd hkind (by simp [kind])
    | _ => exact absurd hkind (by simp [kind])
  | .arr items, j', r, r', hj, hj', _, _, h => by
    have hkind := kind_eq_of_chunks hj hj' h
    cases j' with
    | arr items' =>
      simp only [chunks, List.cons_append, chars_cons, chars_append, chars_nil, List.append_nil,
        List.append_assoc] at h
      obtain ⟨rfl, hrest⟩ := items_append_inj true hj hj' (List.append_cancel_left h)
      exact ⟨rfl, hrest⟩
    | bool b => cases b <;> exact absurd hkind (by simp [kind])
    | _ => exact absurd hkind (by simp [kind])
  | .obj fields, j', r, r', hj, hj', _, _, h => by
    have hkind := kind_eq_of_chunks hj hj' h
    cases j' with
    | obj fields' =>
      simp only [chunks, List.cons_append, chars_cons, chars_append, chars_nil, List.append_nil,
        List.append_assoc] at h
      obtain ⟨rfl, hrest⟩ := fields_append_inj true hj hj' (List.append_cancel_left h)
      exact ⟨rfl, hrest⟩
    | bool b => cases b <;> exact absurd hkind (by simp [kind])
    | _ => exact absurd hkind (by simp [kind])

theorem items_append_inj : ∀ (first : Bool) {l l' : List Json} {r r' : List Char},
    itemsNumeric l → itemsNumeric l' →
    chars (itemChunks first l) ++ ']' :: r = chars (itemChunks first l') ++ ']' :: r' →
    l = l' ∧ r = r'
  | _, [], [], r, r', _, _, h => ⟨rfl, (List.cons.inj h).2⟩
  | first, [], j' :: rest', r, r', _, hl', h => by
    rw [chars_itemChunks_cons] at h
    cases first with
    | true => exact absurd h.symm (chunks_ne hl'.1 (by decide))
    | false => exact absurd (List.cons.inj h).1 (by decide)
  | first, j :: rest, [], r, r', hl, _, h => by
    rw [chars_itemChunks_cons] at h
    cases first with
    | true => exact absurd h (chunks_ne hl.1 (by decide))
    | false => exact absurd (List.cons.inj h).1 (by decide)
  | first, j :: rest, j' :: rest', r, r', hl, hl', h => by
    rw [chars_itemChunks_cons, chars_itemChunks_cons] at h
    obtain ⟨rfl, hrest⟩ := chunks_append_inj hl.1 hl'.1 (delimited_items rest r)
      (delimited_items rest' r') (List.append_cancel_left h)
    obtain ⟨rfl, hr⟩ := items_append_inj false hl.2 hl'.2 hrest
    exact ⟨rfl, hr⟩

theorem fields_append_inj : ∀ (first : Bool) {l l' : List (String × Json)} {r r' : List Char},
    fieldsNumeric l → fieldsNumeric l' →
    chars (fieldChunks first l) ++ '\x7d' :: r = chars (fieldChunks first l') ++ '\x7d' :: r' →
    l = l' ∧ r = r'
  | _, [], [], r, r', _, _, h => ⟨rfl, (List.cons.inj h).2⟩
  | first, [], (k', j') :: rest', r, r', _, _, h | first, (k, j) :: rest, [], r, r', _, _, h => by
    rw [chars_fieldChunks_cons, chars_strChunks] at h
    cases first <;> exact absurd (List.cons.inj h).1 (by decide)
  | first, (k, j) :: rest, (k', j') :: rest', r, r', hl, hl', h => by
    rw [chars_fieldChunks_cons, chars_fieldChunks_cons] at h
    obtain ⟨rfl, hvalue⟩ := string_append_inj (List.append_cancel_left h)
    obtain ⟨rfl, hrest⟩ := chunks_append_inj hl.1 hl'.1 (delimited_fields rest r)
      (delimited_fields rest' r') (List.cons.inj hvalue).2
    obtain ⟨rfl, hr⟩ := fields_append_inj false hl.2 hl'.2 hrest
    exact ⟨rfl, hr⟩

end

theorem render_injective (hj : j.Numeric) (hj' : j'.Numeric) (h : j.render = j'.render) :
    j = j' := by
  have hchars : chars j.chunks ++ [] = chars j'.chunks ++ [] := by
    rw [List.append_nil, List.append_nil, ← toList_render, ← toList_render, h]
  have hend : Delimited [] := fun _ hc => absurd hc (by simp)
  exact (chunks_append_inj hj hj' hend hend hchars).1

/-! ### Numbers and names, part by part -/

theorem itemsDistinct_iff {l : List Json} : itemsDistinct l ↔ ∀ j ∈ l, j.Distinct := by
  induction l with
  | nil => simp [itemsDistinct]
  | cons j rest ih => rw [itemsDistinct, ih, List.forall_mem_cons]

theorem fieldsDistinct_iff :
    fieldsDistinct l ↔ ∀ f ∈ l, f.2.Distinct := by
  induction l with
  | nil => simp [fieldsDistinct]
  | cons f rest ih => rw [fieldsDistinct, ih, List.forall_mem_cons]

theorem itemsNumeric_iff {l : List Json} : itemsNumeric l ↔ ∀ j ∈ l, j.Numeric := by
  induction l with
  | nil => simp [itemsNumeric]
  | cons j rest ih => rw [itemsNumeric, ih, List.forall_mem_cons]

theorem fieldsNumeric_iff :
    fieldsNumeric l ↔ ∀ f ∈ l, f.2.Numeric := by
  induction l with
  | nil => simp [fieldsNumeric]
  | cons f rest ih => rw [fieldsNumeric, ih, List.forall_mem_cons]

theorem toString_digits (n : ℕ) : (toString n).toList ≠ []
    ∧ (toString n).toList.all Char.isDigit = true
    ∧ Nat.ofDigitChars 10 (toString n).toList 0 = n := by
  rw [Nat.toString_eq_ofList_toDigits, String.toList_ofList]
  refine ⟨Nat.toDigits_ne_nil, ?_, by simp⟩
  rw [List.all_eq_true]
  intro c hc
  exact Nat.isDigit_of_mem_toDigits (by omega) (by omega) hc

theorem numeric_nat (n : ℕ) : (nat n).Numeric := by
  obtain ⟨hne, hall, -⟩ := toString_digits n
  refine ⟨hne, fun c hc => ?_⟩
  have hdigit := List.all_eq_true.mp hall c hc
  simp [numberChar, hdigit]

theorem nat_injective {n m : ℕ} (h : nat n = nat m) : n = m := by
  have htext : toString n = toString m := Json.num.inj h
  obtain ⟨-, -, hn⟩ := toString_digits n
  obtain ⟨-, -, hm⟩ := toString_digits m
  rw [← hn, htext, hm]

end Json

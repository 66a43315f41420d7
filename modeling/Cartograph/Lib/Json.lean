/-
JSON values and their compact text.

A `Json` value keeps the members of an object in order.  `chunks` is the compact
writer, piece by piece as it goes out, `render` the whole text, and `size` the
number of bytes a byte-counting writer would see, which looks at strings byte by
byte:

* `size_eq` — `size` is the UTF-8 length of `render`;
* `size_arr_cons`, `size_obj_cons` — containers cost their brackets, their
  separators and their members, once each;
* `strSize_bounds` — escaping costs at most six bytes for one.

`depth` is the other measure a reader can bound.
-/
import Mathlib

/-- A JSON value; a number is the text it is written as. -/
inductive Json
  | null
  | bool (b : Bool)
  | num (text : String)
  | str (s : String)
  | arr (items : List Json)
  | obj (fields : List (String × Json))

namespace Json

/-- An unsigned integer. -/
def nat (n : ℕ) : Json := .num (toString n)

/-- An optional member, absent as `null`. -/
def opt {α : Type} (f : α → Json) : Option α → Json
  | some a => f a
  | none => .null

/-! ### The compact writer -/

def hexDigit (n : ℕ) : Char := if n < 10 then Char.ofNat (48 + n) else Char.ofNat (87 + n)

/-- One character inside a string: seven short escapes, `\u00xx` for the other
control characters, everything else as it is. -/
def escape (ch : Char) : String :=
  if ch = '"' then "\\\""
  else if ch = '\\' then "\\\\"
  else if ch = '\x08' then "\\b"
  else if ch = '\t' then "\\t"
  else if ch = '\n' then "\\n"
  else if ch = '\x0c' then "\\f"
  else if ch = '\r' then "\\r"
  else if ch.toNat < 0x20 then
    String.ofList ['\\', 'u', '0', '0', hexDigit (ch.toNat / 16), hexDigit (ch.toNat % 16)]
  else String.singleton ch

def strChunks (s : String) : List String := "\"" :: s.toList.map escape ++ ["\""]

mutual

/-- The pieces of the compact text, in the order they are written. -/
def chunks : Json → List String
  | .null => ["null"]
  | .bool true => ["true"]
  | .bool false => ["false"]
  | .num text => [text]
  | .str s => strChunks s
  | .arr items => "[" :: itemChunks true items ++ ["]"]
  | .obj fields => "\x7b" :: fieldChunks true fields ++ ["\x7d"]

def itemChunks : Bool → List Json → List String
  | _, [] => []
  | first, j :: rest => (if first then [] else [","]) ++ chunks j ++ itemChunks false rest

def fieldChunks : Bool → List (String × Json) → List String
  | _, [] => []
  | first, (k, v) :: rest =>
    (if first then [] else [","]) ++ strChunks k ++ [":"] ++ chunks v ++ fieldChunks false rest

end

/-- The compact text. -/
def render (j : Json) : String := j.chunks.foldr (· ++ ·) ""

/-- The bytes of a list of pieces. -/
def bytes (l : List String) : ℕ := (l.map String.utf8ByteSize).sum

@[simp] theorem bytes_nil : bytes [] = 0 := rfl

@[simp] theorem bytes_cons (s : String) (l : List String) :
    bytes (s :: l) = s.utf8ByteSize + bytes l := by
  simp [bytes]

@[simp] theorem bytes_append (l l' : List String) : bytes (l ++ l') = bytes l + bytes l' := by
  simp [bytes]

theorem bytes_eq_render (j : Json) : bytes j.chunks = j.render.utf8ByteSize := by
  rw [render]
  induction j.chunks with
  | nil => rfl
  | cons s l ih => rw [bytes_cons, List.foldr_cons, String.utf8ByteSize_append, ih]

/-! ### Strings byte by byte -/

/-- The UTF-8 bytes of a string. -/
def utf8 (s : String) : List UInt8 := s.toByteArray.data.toList

theorem utf8_eq (s : String) : utf8 s = s.toList.flatMap String.utf8EncodeChar := by
  rw [utf8, ← String.utf8Encode_toList, List.utf8Encode]
  simp

theorem length_utf8 (s : String) : (utf8 s).length = s.utf8ByteSize := rfl

/-- The bytes one byte of a string takes in the text. -/
def escapedSize (b : UInt8) : ℕ :=
  if b.toNat = 34 ∨ b.toNat = 92 ∨ b.toNat = 8 ∨ b.toNat = 9 ∨ b.toNat = 10 ∨ b.toNat = 12
    ∨ b.toNat = 13 then 2
  else if b.toNat < 0x20 then 6 else 1

/-- The bytes of a string with its quotes and escapes. -/
def strSize (s : String) : ℕ := 2 + ((utf8 s).map escapedSize).sum

theorem hexDigit_size : ∀ n < 16, (hexDigit n).utf8Size = 1 := by decide

variable {ch : Char} {n : ℕ} {l : List (String × Json)}

theorem utf8Size_of_toNat_le (h : ch.toNat ≤ 127) : ch.utf8Size = 1 := by
  rw [Char.utf8Size_eq_one_iff, UInt32.le_iff_toNat_le]
  exact h

theorem escapedSize_wide (h : 1 < ch.utf8Size) :
    ((String.utf8EncodeChar ch).map escapedSize).sum = ch.utf8Size := by
  have hhigh : ∀ (x y : UInt8), 128 ≤ y.toNat → escapedSize (x ||| y) = 1 := by
    intro x y hy
    have hle : y.toNat ≤ (x ||| y).toNat := by
      rw [UInt8.toNat_or]
      exact Nat.right_le_or
    rw [escapedSize, if_neg (by omega), if_neg (by omega)]
  have hle := Char.utf8Size_le_four ch
  obtain h2 | h3 | h4 : ch.utf8Size = 2 ∨ ch.utf8Size = 3 ∨ ch.utf8Size = 4 := by omega
  · rw [String.utf8EncodeChar_eq_cons_cons h2, h2]
    simp [hhigh]
  · rw [String.utf8EncodeChar_eq_cons_cons_cons h3, h3]
    simp [hhigh]
  · rw [String.utf8EncodeChar_eq_cons_cons_cons_cons h4, h4]
    simp [hhigh]

theorem escapedSize_narrow (h : ch.toNat ≤ 127) :
    ((String.utf8EncodeChar ch).map escapedSize).sum = escapedSize (UInt8.ofNat ch.toNat) := by
  rw [String.utf8EncodeChar_eq_singleton (utf8Size_of_toNat_le h)]
  rfl

theorem escape_size (ch : Char) :
    (escape ch).utf8ByteSize = ((String.utf8EncodeChar ch).map escapedSize).sum := by
  unfold escape
  split_ifs with h₁ h₂ h₃ h₄ h₅ h₆ h₇ h₈
  · subst h₁; decide
  · subst h₂; decide
  · subst h₃; decide
  · subst h₄; decide
  · subst h₅; decide
  · subst h₆; decide
  · subst h₇; decide
  · -- the other control characters take six bytes
    have hne : ∀ n : ℕ, n < 0x20 → ch ≠ Char.ofNat n → ch.toNat ≠ n := by
      rintro n hn hch rfl
      exact hch (Char.ofNat_toNat ch).symm
    have hhi := hexDigit_size (ch.toNat / 16) (by omega)
    have hlo := hexDigit_size (ch.toNat % 16) (by omega)
    have hu : Char.utf8Size 'u' = 1 ∧ Char.utf8Size '0' = 1 ∧ Char.utf8Size '\\' = 1 := by decide
    have hb : (UInt8.ofNat ch.toNat).toNat = ch.toNat := by
      rw [UInt8.toNat_ofNat']
      omega
    have h8 := hne 8 (by omega) h₃
    have h9 := hne 9 (by omega) h₄
    have h10 := hne 10 (by omega) h₅
    have h12 := hne 12 (by omega) h₆
    have h13 := hne 13 (by omega) h₇
    rw [escapedSize_narrow (by omega), escapedSize, hb, if_neg (by omega), if_pos h₈,
      String.utf8ByteSize_ofList]
    simp only [String.utf8Len, hhi, hlo, hu.1, hu.2.1, hu.2.2]
  · rw [String.utf8ByteSize_singleton]
    -- several bytes are copied, one byte is copied unless it is escaped
    by_cases hwide : 1 < ch.utf8Size
    · rw [escapedSize_wide hwide]
    · have hpos := Char.utf8Size_pos ch
      have hone : ch.utf8Size = 1 := by omega
      have hle : ch.toNat ≤ 127 := by
        have h := Char.utf8Size_eq_one_iff.mp hone
        rwa [UInt32.le_iff_toNat_le] at h
      have hb : (UInt8.ofNat ch.toNat).toNat = ch.toNat := by
        rw [UInt8.toNat_ofNat']
        omega
      have h34 : ch.toNat ≠ 34 := fun h => h₁ (by rw [← Char.ofNat_toNat ch, h])
      have h92 : ch.toNat ≠ 92 := fun h => h₂ (by rw [← Char.ofNat_toNat ch, h])
      rw [escapedSize_narrow hle, escapedSize, hb, if_neg (by omega), if_neg h₈, hone]

theorem strSize_eq (s : String) : strSize s = bytes (strChunks s) := by
  have hq : String.utf8ByteSize "\"" = 1 := by decide
  have hmap : bytes (s.toList.map escape) = ((utf8 s).map escapedSize).sum := by
    rw [utf8_eq]
    induction s.toList with
    | nil => rfl
    | cons ch l ih =>
      rw [List.map_cons, bytes_cons, escape_size, ih, List.flatMap_cons, List.map_append,
        List.sum_append]
  simp only [strSize, strChunks, List.cons_append, bytes_cons, bytes_append, bytes_nil, hq, hmap]
  omega

/-! ### Sizes -/

mutual

/-- The bytes of the compact text. -/
def size : Json → ℕ
  | .null => 4
  | .bool true => 4
  | .bool false => 5
  | .num text => text.utf8ByteSize
  | .str s => strSize s
  | .arr items => 2 + itemsSize items
  | .obj fields => 2 + fieldsSize fields

/-- The items with a comma before each but the first. -/
def itemsSize : List Json → ℕ
  | [] => 0
  | [j] => size j
  | j :: rest => size j + 1 + itemsSize rest

def fieldsSize : List (String × Json) → ℕ
  | [] => 0
  | [(k, v)] => strSize k + 1 + size v
  | (k, v) :: rest => strSize k + 1 + size v + 1 + fieldsSize rest

end

section

attribute [local simp] size itemsSize fieldsSize

@[simp] theorem size_null : size .null = 4 := by simp

@[simp] theorem size_true : size (.bool true) = 4 := by simp

@[simp] theorem size_false : size (.bool false) = 5 := by simp

@[simp] theorem size_num (t : String) : size (.num t) = t.utf8ByteSize := by simp

@[simp] theorem size_str (s : String) : size (.str s) = strSize s := by simp

@[simp] theorem size_arr_nil : size (.arr []) = 2 := by simp

@[simp] theorem size_obj_nil : size (.obj []) = 2 := by simp

end

/-- The bytes of one member: key, colon and value. -/
def fieldSize (f : String × Json) : ℕ := strSize f.1 + 1 + size f.2

theorem itemsSize_cons (j : Json) (rest : List Json) :
    itemsSize (j :: rest) = size j + (rest.map fun j => 1 + size j).sum := by
  induction rest generalizing j with
  | nil => simp [itemsSize]
  | cons j' rest ih =>
    rw [itemsSize, ih, List.map_cons, List.sum_cons]
    · omega
    · simp

@[simp] theorem size_arr_cons (j : Json) (rest : List Json) :
    size (.arr (j :: rest)) = 2 + size j + (rest.map fun j => 1 + size j).sum := by
  rw [size, itemsSize_cons]
  omega

theorem fieldsSize_cons (f : String × Json) (rest : List (String × Json)) :
    fieldsSize (f :: rest) = fieldSize f + (rest.map fun f => 1 + fieldSize f).sum := by
  induction rest generalizing f with
  | nil => simp [fieldsSize, fieldSize]
  | cons f' rest ih =>
    rw [fieldsSize, ih, List.map_cons, List.sum_cons]
    · simp only [fieldSize]
      omega
    · simp

@[simp] theorem size_obj_cons (f : String × Json) (rest : List (String × Json)) :
    size (.obj (f :: rest)) = 2 + fieldSize f + (rest.map fun f => 1 + fieldSize f).sum := by
  rw [size, fieldsSize_cons]
  omega

mutual

theorem size_eq_bytes : ∀ j : Json, size j = bytes j.chunks
  | .null | .bool true | .bool false => by simp [chunks]; decide
  | .num text => by simp [chunks]
  | .str s => by rw [size_str, strSize_eq, chunks]
  | .arr [] => by simp [chunks, itemChunks]; decide
  | .arr (j :: rest) => by
    have hopen : String.utf8ByteSize "[" = 1 := by decide
    have hclose : String.utf8ByteSize "]" = 1 := by decide
    rw [size_arr_cons, size_eq_bytes j, itemsSize_eq_bytes rest, chunks, itemChunks]
    simp only [if_true, bytes_append, bytes_cons, bytes_nil, hopen, hclose, List.cons_append,
      List.nil_append]
    omega
  | .obj [] => by simp [chunks, fieldChunks]; decide
  | .obj (f :: rest) => by
    have hopen : String.utf8ByteSize "\x7b" = 1 := by decide
    have hclose : String.utf8ByteSize "\x7d" = 1 := by decide
    have hcolon : String.utf8ByteSize ":" = 1 := by decide
    obtain ⟨k, v⟩ := f
    rw [size_obj_cons, fieldSize, strSize_eq, size_eq_bytes v, fieldsSize_eq_bytes rest, chunks,
      fieldChunks]
    simp only [if_true, bytes_append, bytes_cons, bytes_nil, hopen, hclose, hcolon,
      List.cons_append, List.nil_append]
    omega

theorem itemsSize_eq_bytes : ∀ l : List Json,
    (l.map fun j => 1 + size j).sum = bytes (itemChunks false l)
  | [] => by simp [itemChunks]
  | j :: rest => by
    have hcomma : String.utf8ByteSize "," = 1 := by decide
    rw [List.map_cons, List.sum_cons, size_eq_bytes j, itemsSize_eq_bytes rest, itemChunks]
    simp only [Bool.false_eq_true, if_false, bytes_append, bytes_cons, bytes_nil, hcomma]

theorem fieldsSize_eq_bytes : ∀ l : List (String × Json),
    (l.map fun f => 1 + fieldSize f).sum = bytes (fieldChunks false l)
  | [] => by simp [fieldChunks]
  | (k, v) :: rest => by
    have hcomma : String.utf8ByteSize "," = 1 := by decide
    have hcolon : String.utf8ByteSize ":" = 1 := by decide
    rw [List.map_cons, List.sum_cons, fieldSize, strSize_eq, size_eq_bytes v,
      fieldsSize_eq_bytes rest, fieldChunks]
    simp only [Bool.false_eq_true, if_false, bytes_append, bytes_cons, bytes_nil, hcomma, hcolon]
    omega

end

theorem size_eq (j : Json) : j.size = j.render.utf8ByteSize := by
  rw [size_eq_bytes, bytes_eq_render]

theorem size_arr_le (l : List Json) : size (.arr l) ≤ 2 + (l.map fun j => 1 + size j).sum := by
  cases l with
  | nil => simp
  | cons j rest =>
    rw [size_arr_cons, List.map_cons, List.sum_cons]
    omega

/-! ### Strings and numbers -/

theorem escapedSize_bounds (b : UInt8) : 1 ≤ escapedSize b ∧ escapedSize b ≤ 6 := by
  unfold escapedSize
  split_ifs <;> omega

theorem strSize_bounds (s : String) :
    2 + s.utf8ByteSize ≤ strSize s ∧ strSize s ≤ 2 + 6 * s.utf8ByteSize := by
  rw [strSize, ← length_utf8]
  induction utf8 s with
  | nil => simp
  | cons b l ih =>
    have hb := escapedSize_bounds b
    simp only [List.map_cons, List.sum_cons, List.length_cons]
    omega

/-- Bytes that need no escape. -/
def plain (b : UInt8) : Bool := decide (0x20 ≤ b.toNat) && b.toNat != 34 && b.toNat != 92

theorem strSize_plain {s : String} (h : (utf8 s).all plain = true) :
    strSize s = 2 + s.utf8ByteSize := by
  rw [strSize, ← length_utf8]
  revert h
  induction utf8 s with
  | nil => simp
  | cons b l ih =>
    intro h
    rw [List.all_cons, Bool.and_eq_true] at h
    have hl := ih h.2
    have hb : escapedSize b = 1 := by
      have hplain := h.1
      simp only [plain, Bool.and_eq_true, decide_eq_true_eq, bne_iff_ne] at hplain
      rw [escapedSize, if_neg (by omega), if_neg (by omega)]
    simp only [List.map_cons, List.sum_cons, List.length_cons, hb]
    omega

/-- ASCII characters that need no escape. -/
def printable (ch : Char) : Bool :=
  decide (0x20 ≤ ch.toNat) && decide (ch.toNat ≤ 127) && ch.toNat != 34 && ch.toNat != 92

theorem utf8_printable {l : List Char} (h : l.all printable = true) :
    (utf8 (String.ofList l)).length = l.length ∧ (utf8 (String.ofList l)).all plain = true := by
  rw [utf8_eq, String.toList_ofList]
  induction l with
  | nil => exact ⟨rfl, rfl⟩
  | cons ch l ih =>
    obtain ⟨hch, hl⟩ := (Bool.and_eq_true _ _).mp (List.all_cons ▸ h)
    obtain ⟨hlength, hplain⟩ := ih hl
    simp only [printable, Bool.and_eq_true, decide_eq_true_eq, bne_iff_ne] at hch
    obtain ⟨⟨⟨hlow, hhigh⟩, hquote⟩, hslash⟩ := hch
    have hbyte : (UInt8.ofNat ch.toNat).toNat = ch.toNat := by
      rw [UInt8.toNat_ofNat']
      omega
    rw [List.flatMap_cons, String.utf8EncodeChar_eq_singleton (utf8Size_of_toNat_le hhigh)]
    refine ⟨by rw [List.singleton_append, List.length_cons, hlength, List.length_cons], ?_⟩
    rw [List.singleton_append, List.all_cons, hplain, Bool.and_true]
    show plain (UInt8.ofNat ch.toNat) = true
    simp only [plain, hbyte, Bool.and_eq_true, decide_eq_true_eq, bne_iff_ne]
    exact ⟨⟨hlow, hquote⟩, hslash⟩

theorem utf8Len_toDigits (n : ℕ) :
    String.utf8Len (Nat.toDigits 10 n) = (Nat.toDigits 10 n).length := by
  have hdigit : ∀ d < 10, (Nat.digitChar d).utf8Size = 1 := by decide
  induction n using Nat.strong_induction_on with
  | _ n ih =>
    rw [Nat.toDigits_eq_if (by omega)]
    by_cases h : n < 10
    · rw [if_pos h]
      simp [String.utf8Len, hdigit n h]
    · rw [if_neg h, String.utf8Len_append, ih (n / 10) (by omega)]
      simp [String.utf8Len, hdigit (n % 10) (by omega)]

theorem size_nat_le_iff {k : ℕ} (hk : 0 < k) : size (nat n) ≤ k ↔ n < 10 ^ k := by
  rw [nat, size_num, Nat.toString_eq_ofList_toDigits, String.utf8ByteSize_ofList,
    utf8Len_toDigits]
  exact Nat.length_toDigits_le_iff (by omega) hk

theorem size_nat_pos (n : ℕ) : 0 < size (nat n) := by
  rw [nat, size_num, Nat.toString_eq_ofList_toDigits, String.utf8ByteSize_ofList,
    utf8Len_toDigits]
  exact Nat.length_toDigits_pos

theorem size_nat_le {k : ℕ} (hk : 0 < k) (h : n < 10 ^ k) : size (nat n) ≤ k :=
  (size_nat_le_iff hk).mpr h

/-! ### Bounds member by member -/

/-- What the keys of an object cost, each with its colon and separator. -/
def keysSize (keys : List String) : ℕ := (keys.map fun k => strSize k + 2).sum

theorem sum_fieldSize (l : List (String × Json)) :
    (l.map fun f => 1 + fieldSize f).sum
      = keysSize (l.map Prod.fst) + (l.map fun f => size f.2).sum := by
  induction l with
  | nil => rfl
  | cons f rest ih =>
    simp only [List.map_cons, List.sum_cons, keysSize] at ih ⊢
    rw [ih, fieldSize]
    omega

theorem size_obj_append_le (l l' : List (String × Json)) :
    size (.obj (l ++ l'))
      ≤ size (.obj l) + keysSize (l'.map Prod.fst) + (l'.map fun f => size f.2).sum := by
  have hrest := sum_fieldSize l'
  cases l with
  | nil =>
    cases l' with
    | nil => simp
    | cons f rest =>
      rw [List.map_cons, List.sum_cons] at hrest
      rw [List.nil_append, size_obj_cons, size_obj_nil]
      omega
  | cons f rest =>
    rw [List.cons_append, size_obj_cons, size_obj_cons, List.map_append, List.sum_append]
    omega

theorem size_obj_le (fields : List (String × Json)) :
    size (.obj fields)
      ≤ 2 + keysSize (fields.map Prod.fst) + (fields.map fun f => size f.2).sum := by
  have happend := size_obj_append_le [] fields
  rwa [List.nil_append, size_obj_nil] at happend

theorem size_opt_le {α : Type} {f : α → Json} {o : Option α} (hn : 4 ≤ n)
    (h : ∀ a ∈ o, size (f a) ≤ n) : size (opt f o) ≤ n := by
  cases o with
  | none => simpa [opt] using hn
  | some a => exact h a rfl

/-! ### Depth -/

mutual

/-- Levels below a value. -/
def height : Json → ℕ
  | .arr items => itemsHeight items
  | .obj fields => fieldsHeight fields
  | .null | .bool _ | .num _ | .str _ => 0

def itemsHeight : List Json → ℕ
  | [] => 0
  | j :: rest => max (1 + height j) (itemsHeight rest)

def fieldsHeight : List (String × Json) → ℕ
  | [] => 0
  | (_, j) :: rest => max (1 + height j) (fieldsHeight rest)

end

/-- Nesting depth: a scalar has depth one. -/
def depth (j : Json) : ℕ := 1 + j.height

theorem itemsHeight_le_iff {l : List Json} :
    itemsHeight l ≤ n ↔ ∀ j ∈ l, 1 + j.height ≤ n := by
  induction l with
  | nil => simp [itemsHeight]
  | cons j rest ih => rw [itemsHeight, max_le_iff, ih, List.forall_mem_cons]

theorem fieldsHeight_le_iff :
    fieldsHeight l ≤ n ↔ ∀ f ∈ l, 1 + f.2.height ≤ n := by
  induction l with
  | nil => simp [fieldsHeight]
  | cons f rest ih =>
    obtain ⟨k, j⟩ := f
    rw [fieldsHeight, max_le_iff, ih, List.forall_mem_cons]

theorem fieldsHeight_congr {l' : List (String × Json)} (h : ∀ f, f ∈ l ↔ f ∈ l') :
    fieldsHeight l = fieldsHeight l' := by
  refine le_antisymm ?_ ?_
  · exact fieldsHeight_le_iff.mpr fun f hf => fieldsHeight_le_iff.mp le_rfl f ((h f).mp hf)
  · exact fieldsHeight_le_iff.mpr fun f hf => fieldsHeight_le_iff.mp le_rfl f ((h f).mpr hf)

mutual

/-- No object has two members of one name. -/
def Distinct : Json → Prop
  | .arr items => itemsDistinct items
  | .obj fields => (fields.map Prod.fst).Nodup ∧ fieldsDistinct fields
  | .null | .bool _ | .num _ | .str _ => True

def itemsDistinct : List Json → Prop
  | [] => True
  | j :: rest => Distinct j ∧ itemsDistinct rest

def fieldsDistinct : List (String × Json) → Prop
  | [] => True
  | (_, j) :: rest => Distinct j ∧ fieldsDistinct rest

end

theorem fieldsDistinct_append {l' : List (String × Json)} :
    fieldsDistinct (l ++ l') ↔ fieldsDistinct l ∧ fieldsDistinct l' := by
  induction l with
  | nil => simp [fieldsDistinct]
  | cons f rest ih =>
    obtain ⟨k, j⟩ := f
    simp only [List.cons_append, fieldsDistinct, ih, and_assoc]

theorem fieldsHeight_append (l l' : List (String × Json)) :
    fieldsHeight (l ++ l') = max (fieldsHeight l) (fieldsHeight l') := by
  induction l with
  | nil => simp [fieldsHeight]
  | cons f rest ih =>
    obtain ⟨k, j⟩ := f
    rw [List.cons_append, fieldsHeight, ih, fieldsHeight, max_assoc]

end Json

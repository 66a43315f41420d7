/-
JSON as it is written.

A `Syntax` is a JSON text with its structure: the pieces of every string, and what stands
between the parts.  A `Located` part also has the text before and after it, so that a value that
was read can be found again in the text.

* `Piece.bytes_le` — an escape is longer than what it stands for;
* `Located.text_of_mem_elements`, `Located.text_of_get` — the parts of a part are in the same text.
-/
import Cartograph.Lib.Utf8

namespace JsonSyntax

open Utf8

/-! ### Strings -/

/-- The escapes of two characters. -/
inductive ShortEscape
  | quote | backslash | slash | backspace | formFeed | newline | carriageReturn | tab
  deriving DecidableEq

def ShortEscape.letter : ShortEscape → Char
  | .quote => '"' | .backslash => '\\' | .slash => '/' | .backspace => 'b' | .formFeed => 'f'
  | .newline => 'n' | .carriageReturn => 'r' | .tab => 't'

def ShortEscape.char : ShortEscape → Char
  | .quote => '"' | .backslash => '\\' | .slash => '/' | .backspace => '\x08'
  | .formFeed => '\x0c' | .newline => '\n' | .carriageReturn => '\r' | .tab => '\t'

/-- A character of a string as it is written: by itself, or as one of the escapes. -/
inductive Piece
  | plain (c : Char)
  | short (e : ShortEscape)
  | unicode (digits : Fin 4 → Char)
  | surrogates (high low : Fin 4 → Char)

def hexValue (c : Char) : ℕ :=
  if c.toNat ≤ 57 then c.toNat - 48 else if c.toNat ≤ 70 then c.toNat - 55 else c.toNat - 87

def codeUnit (digits : Fin 4 → Char) : ℕ :=
  (List.ofFn digits).foldl (fun n c => 16 * n + hexValue c) 0

namespace Piece

def text : Piece → List Char
  | .plain c => [c]
  | .short e => ['\\', e.letter]
  | .unicode digits => '\\' :: 'u' :: List.ofFn digits
  | .surrogates high low => '\\' :: 'u' :: List.ofFn high ++ '\\' :: 'u' :: List.ofFn low

/-- The character that a piece stands for. -/
def char : Piece → Char
  | .plain c => c
  | .short e => e.char
  | .unicode digits => Char.ofNat (codeUnit digits)
  | .surrogates high low =>
    Char.ofNat (0x10000 + (codeUnit high - 0xd800) * 0x400 + (codeUnit low - 0xdc00))

theorem bytes_le (p : Piece) : p.char.utf8Size ≤ bytes p.text
    ∧ (p.char.utf8Size = bytes p.text → p.text = [p.char]) := by
  have hchar : ∀ c : Char, c.utf8Size ≤ 4 := Char.utf8Size_le_four
  cases p with
  | plain c => exact ⟨by simp [char, text], fun _ => rfl⟩
  | short e => cases e <;> exact ⟨by decide, fun h => absurd h (by decide)⟩
  | unicode digits =>
    have hlong : 5 ≤ bytes (text (.unicode digits)) :=
      le_trans (by simp [text]) (length_le_bytes _)
    have := hchar (char (.unicode digits))
    exact ⟨by omega, fun h => by omega⟩
  | surrogates high low =>
    have hlong : 5 ≤ bytes (text (.surrogates high low)) :=
      le_trans (by simp [text]) (length_le_bytes _)
    have := hchar (char (.surrogates high low))
    exact ⟨by omega, fun h => by omega⟩

end Piece

/-- What a string stands for. -/
def chars (pieces : List Piece) : List Char := pieces.map Piece.char

/-- A string as it is written, without its quotes. -/
def written (pieces : List Piece) : List Char := pieces.flatMap Piece.text

theorem bytes_chars_le (pieces : List Piece) : bytes (chars pieces) ≤ bytes (written pieces)
    ∧ (bytes (chars pieces) = bytes (written pieces) → written pieces = chars pieces) := by
  induction pieces with
  | nil => exact ⟨le_rfl, fun _ => rfl⟩
  | cons p rest ih =>
    obtain ⟨hp, hpeq⟩ := p.bytes_le
    simp only [chars, written, List.map_cons, List.flatMap_cons, bytes_cons, bytes_append] at ih ⊢
    refine ⟨by omega, fun h => ?_⟩
    rw [hpeq (by omega), ih.2 (by omega)]
    rfl

theorem bytes_written_iff (pieces : List Piece) :
    bytes (chars pieces) = bytes (written pieces) ↔ written pieces = chars pieces :=
  ⟨(bytes_chars_le pieces).2, fun h => by rw [h]⟩

end JsonSyntax

/-! ### Values -/

/-- A JSON text.  The parts of a container are kept with what follows each of them. -/
inductive JsonSyntax
  | scalar (text : List Char)
  | str (pieces : List JsonSyntax.Piece)
  | arr (lead : List Char) (items : List (JsonSyntax × List Char))
  | obj (lead : List Char)
      (members : List (List JsonSyntax.Piece × List Char × JsonSyntax × List Char))

namespace JsonSyntax

mutual

def text : JsonSyntax → List Char
  | .scalar text => text
  | .str pieces => '"' :: written pieces ++ ['"']
  | .arr lead items => '[' :: lead ++ itemsText items ++ [']']
  | .obj lead members => '\x7b' :: lead ++ membersText members ++ ['\x7d']

def itemsText : List (JsonSyntax × List Char) → List Char
  | [] => []
  | (s, after) :: rest => text s ++ after ++ itemsText rest

def membersText : List (List Piece × List Char × JsonSyntax × List Char) → List Char
  | [] => []
  | (name, colon, s, after) :: rest =>
    '"' :: written name ++ '"' :: colon ++ text s ++ after ++ membersText rest

end

end JsonSyntax

/-! ### Parts in their text -/

/-- A part of a text. -/
structure Located where
  before : List Char
  part : JsonSyntax
  after : List Char

namespace Located

open JsonSyntax

/-- The whole text. -/
def text (l : Located) : List Char := l.before ++ l.part.text ++ l.after

def itemsAt (before after : List Char) : List (JsonSyntax × List Char) → List Located
  | [] => []
  | (s, sep) :: rest =>
    ⟨before, s, sep ++ itemsText rest ++ after⟩ :: itemsAt (before ++ s.text ++ sep) after rest

def membersAt (before after : List Char) :
    List (List Piece × List Char × JsonSyntax × List Char) → List (List Char × Located)
  | [] => []
  | (name, colon, s, sep) :: rest =>
    let lead := before ++ '"' :: written name ++ '"' :: colon
    (chars name, ⟨lead, s, sep ++ membersText rest ++ after⟩)
      :: membersAt (lead ++ s.text ++ sep) after rest

/-- The items of an array. -/
def elements (l : Located) : Option (List Located) :=
  match l.part with
  | .arr lead items => some (itemsAt (l.before ++ '[' :: lead) (']' :: l.after) items)
  | _ => none

/-- The member of an object under a name; the last one counts. -/
def get (l : Located) (name : String) : Option Located :=
  match l.part with
  | .obj lead members =>
    (((membersAt (l.before ++ '\x7b' :: lead) ('\x7d' :: l.after) members).filter
      fun m => m.1 == name.toList).getLast?).map Prod.snd
  | _ => none

/-- The pieces of a string. -/
def pieces (l : Located) : Option (List Piece) :=
  match l.part with
  | .str pieces => some pieces
  | _ => none

variable {before after : List Char} {l : Located}

theorem text_of_mem_itemsAt {items : List (JsonSyntax × List Char)}
    (h : l ∈ itemsAt before after items) :
    l.text = before ++ itemsText items ++ after := by
  induction items generalizing before with
  | nil => cases h
  | cons item rest ih =>
    obtain ⟨s, sep⟩ := item
    rw [itemsText]
    rcases List.mem_cons.mp h with rfl | h
    · simp [text]
    · rw [ih h]
      simp

theorem text_of_mem_membersAt {members : List (List Piece × List Char × JsonSyntax × List Char)}
    {m : List Char × Located} (h : m ∈ membersAt before after members) :
    m.2.text = before ++ membersText members ++ after := by
  induction members generalizing before with
  | nil => cases h
  | cons member rest ih =>
    obtain ⟨name, colon, s, sep⟩ := member
    rw [membersText]
    rcases List.mem_cons.mp h with rfl | h
    · simp [text]
    · rw [ih h]
      simp

theorem text_of_mem_elements {item : Located} {items : List Located} (h : l.elements = some items)
    (hitem : item ∈ items) : item.text = l.text := by
  obtain ⟨before, part, after⟩ := l
  cases part with
  | arr lead parts =>
    obtain rfl := Option.some_inj.mp h
    rw [text_of_mem_itemsAt hitem]
    simp [text, JsonSyntax.text]
  | scalar _ => cases h
  | str _ => cases h
  | obj _ _ => cases h

theorem text_of_get {m : Located} {name : String} (h : l.get name = some m) : m.text = l.text := by
  obtain ⟨before, part, after⟩ := l
  cases part with
  | obj lead members =>
    obtain ⟨found, hfound, rfl⟩ := Option.map_eq_some_iff.mp h
    have hmem := List.mem_of_mem_filter (List.mem_of_getLast? hfound)
    rw [text_of_mem_membersAt hmem]
    simp [text, JsonSyntax.text]
  | scalar _ => cases h
  | str _ => cases h
  | arr _ _ => cases h

theorem text_of_pieces {ps : List Piece} (h : l.pieces = some ps) :
    l.text = l.before ++ ['"'] ++ written ps ++ '"' :: l.after := by
  obtain ⟨before, part, after⟩ := l
  cases part with
  | str written =>
    obtain rfl := Option.some_inj.mp h
    simp [text, JsonSyntax.text]
  | scalar _ => cases h
  | arr _ _ => cases h
  | obj _ _ => cases h

end Located

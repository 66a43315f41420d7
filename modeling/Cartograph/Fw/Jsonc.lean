/-
JSON with comments (`crates/adapters-fw/src/tsconfig.rs`).

Two passes take the comments and then the trailing commas out of a text.  Both go over its bytes
and write every byte as a character of its own, so that a text in UTF-8 is read as one in Latin-1,
twice.

A document is written in lexemes: what stands in the strict JSON, and the comments and trailing
commas between.  Outside its strings it is ASCII, and a line comment ends at a line feed or with
the text.

* `stripComments_text`, `stripTrailingCommas_text` — what each pass does with a document;
* `sanitizeJsonc_text` — what is left are the lexemes of the strict JSON, each string misread.
-/
import Cartograph.Lib.Utf8
import Cartograph.Sources.Origin

namespace Fw

open Utf8 (encode)
open Sources (isWhitespace)

/-! ### The passes -/

/-- `b as char`. -/
def asChar (b : UInt8) : Char := Char.ofNat b.toNat

/-- The bytes of a string up to its closing quote, and those behind it.  A backslash takes the next
byte along. -/
def inString : List UInt8 → List UInt8 × List UInt8
  | [] => ([], [])
  | [b] => ([b], [])
  | b :: b' :: rest =>
    if asChar b = '\\' then (b :: b' :: (inString rest).1, (inString rest).2)
    else if asChar b = '"' then ([b], b' :: rest)
    else (b :: (inString (b' :: rest)).1, (inString (b' :: rest)).2)

/-- What follows a block comment, after its opening mark. -/
def afterBlock : List UInt8 → List UInt8
  | [] => []
  | [_] => []
  | a :: b :: rest => if asChar a = '*' ∧ asChar b = '/' then rest else afterBlock (b :: rest)

theorem suffix_inString (bytes : List UInt8) : (inString bytes).2 <:+ bytes := by
  induction bytes using inString.induct with
  | case1 => exact List.suffix_rfl
  | case2 b => exact List.nil_suffix
  | case3 b b' rest hslash ih =>
    rw [inString, if_pos hslash]
    exact ih.trans ((List.suffix_cons b' rest).trans (List.suffix_cons b _))
  | case4 b b' rest hslash hquote =>
    rw [inString, if_neg hslash, if_pos hquote]
    exact List.suffix_cons b _
  | case5 b b' rest hslash hquote ih =>
    rw [inString, if_neg hslash, if_neg hquote]
    exact ih.trans (List.suffix_cons b _)

theorem suffix_afterBlock (bytes : List UInt8) : afterBlock bytes <:+ bytes := by
  induction bytes using afterBlock.induct with
  | case1 => exact List.suffix_rfl
  | case2 b => exact List.nil_suffix
  | case3 a b rest hend =>
    rw [afterBlock, if_pos hend]
    exact (List.suffix_cons b rest).trans (List.suffix_cons a _)
  | case4 a b rest hend ih =>
    rw [afterBlock, if_neg hend]
    exact ih.trans (List.suffix_cons a _)

/-- `strip_comments`. -/
def stripComments : List UInt8 → List Char
  | [] => []
  | b :: rest =>
    if asChar b = '"' then
      '"' :: ((inString rest).1.map asChar ++ stripComments (inString rest).2)
    else if asChar b = '/' ∧ rest.head?.map asChar = some '/' then
      stripComments (rest.dropWhile fun b => asChar b != '\n')
    else if asChar b = '/' ∧ rest.head?.map asChar = some '*' then
      stripComments (afterBlock (rest.drop 1))
    else asChar b :: stripComments rest
  termination_by bytes => bytes.length
  decreasing_by
    · exact Nat.lt_succ_of_le (suffix_inString rest).length_le
    · exact Nat.lt_succ_of_le (List.dropWhile_suffix _).length_le
    · exact Nat.lt_succ_of_le ((suffix_afterBlock _).trans (List.drop_suffix 1 rest)).length_le
    · exact Nat.lt_succ_self _

/-- A closing bracket is the next byte that is no white space. -/
def closesNext (bytes : List UInt8) : Bool :=
  match (bytes.dropWhile fun b => isWhitespace (asChar b)).head? with
  | some b => asChar b == '\x7d' || asChar b == ']'
  | none => false

/-- `strip_trailing_commas`. -/
def stripTrailingCommas : List UInt8 → List Char
  | [] => []
  | b :: rest =>
    if asChar b = '"' then
      '"' :: ((inString rest).1.map asChar ++ stripTrailingCommas (inString rest).2)
    else if asChar b = ',' ∧ closesNext rest = true then stripTrailingCommas rest
    else asChar b :: stripTrailingCommas rest
  termination_by bytes => bytes.length
  decreasing_by
    · exact Nat.lt_succ_of_le (suffix_inString rest).length_le
    · exact Nat.lt_succ_self _
    · exact Nat.lt_succ_self _

/-- `sanitize_jsonc`. -/
def sanitizeJsonc (text : List Char) : List Char :=
  stripTrailingCommas (encode (stripComments (encode text)))

/-! ### Latin-1 -/

/-- A text in UTF-8 that is read as Latin-1. -/
def latin (t : List Char) : List Char := (encode t).map asChar

theorem toNat_asChar (b : UInt8) : (asChar b).toNat = b.toNat := by
  have hb := b.toNat_lt
  have hvalid : b.toNat.isValidChar := .inl (by omega)
  rw [asChar, Char.ofNat, dif_pos hvalid]
  rfl

variable {c : Char} {body : List Char} {d : List Lexeme}

theorem asChar_ascii (h : c.toNat < 128) : asChar (UInt8.ofNat c.toNat) = c := by
  rw [← Char.toNat_inj, toNat_asChar]
  exact UInt8.toNat_ofNat_of_lt' (h.trans (by decide))

theorem asChar_high {b : UInt8} (h : 128 ≤ b.toNat) (hc : c.toNat < 128) :
    asChar b ≠ c := by
  rintro rfl
  rw [toNat_asChar] at hc
  omega

theorem latin_append (s t : List Char) : latin (s ++ t) = latin s ++ latin t := by
  rw [latin, Utf8.encode_append, List.map_append, latin, latin]

theorem latin_cons (h : c.toNat < 128) (t : List Char) : latin (c :: t) = c :: latin t := by
  rw [latin, Utf8.encode_ascii h, List.map_cons, asChar_ascii h, latin]

theorem high_of_latin (h : ¬c.toNat < 128) : ∀ d ∈ latin [c], ¬d.toNat < 128 := by
  intro d hd
  obtain ⟨b, hb, rfl⟩ := List.mem_map.mp hd
  rw [Utf8.encode_cons, Utf8.encode_nil, List.append_nil] at hb
  have hhigh := Utf8.high_of_wide h b hb
  rw [toNat_asChar]
  omega

/-! ### Documents -/

/-- A part of a document: a character outside strings, a string, a comment, or a comma that is not
in the strict JSON. -/
inductive Lexeme
  | mark (c : Char)
  | str (body : List Char)
  | line (body : List Char)
  | block (body : List Char)
  | trailing

namespace Lexeme

def text : Lexeme → List Char
  | mark c => [c]
  | str body => '"' :: (body ++ ['"'])
  | line body => '/' :: '/' :: body
  | block body => '/' :: '*' :: (body ++ ['*', '/'])
  | trailing => [',']

def isComment : Lexeme → Bool
  | line _ | block _ => true
  | _ => false

/-- A comment or a trailing comma. -/
def isExtra : Lexeme → Bool
  | line _ | block _ | trailing => true
  | _ => false

end Lexeme

def docText (d : List Lexeme) : List Char := d.flatMap Lexeme.text

/-- The strict JSON of a document. -/
def strict (d : List Lexeme) : List Lexeme := d.filter fun l => !l.isExtra

/-- The next part, after white space and comments, is a closing bracket. -/
def closes : List Lexeme → Bool
  | [] => false
  | .mark c :: d => if isWhitespace c then closes d else c == '\x7d' || c == ']'
  | .line _ :: d => closes d
  | .block _ :: d => closes d
  | .str _ :: _ => false
  | .trailing :: _ => false

/-- The inside of a string: no quote ends it, and a backslash takes an ASCII character along. -/
inductive Body : List Char → Prop
  | nil : Body []
  | plain {c : Char} {t : List Char} : c ≠ '"' → c ≠ '\\' → Body t → Body (c :: t)
  | escape {c : Char} {t : List Char} : c.toNat < 128 → Body t → Body ('\\' :: c :: t)

/-- A part where it stands.  A comma is a trailing one where a bracket closes next. -/
def Lexeme.Valid (l : Lexeme) (d : List Lexeme) : Prop :=
  match l with
  | mark c => c.toNat < 128 ∧ c ≠ '"' ∧ c ≠ '/' ∧ (c = ',' → closes d = false)
  | str body => Body body
  | line body => '\n' ∉ body ∧ (d = [] ∨ d.head? = some (.mark '\n'))
  | block body => ¬['*', '/'] <:+: body ++ ['*']
  | trailing => closes d = true

def DocValid : List Lexeme → Prop
  | [] => True
  | l :: d => l.Valid d ∧ DocValid d

/-! ### Strings -/

/-- A part whose string is read as Latin-1. -/
def Lexeme.latin : Lexeme → Lexeme
  | str body => str (Fw.latin body)
  | l => l

variable {t : List Char}

theorem latin_ascii (h : ∀ c ∈ t, c.toNat < 128) : latin t = t := by
  induction t with
  | nil => rfl
  | cons c t ih =>
    obtain ⟨hc, ht⟩ := List.forall_mem_cons.mp h
    rw [latin_cons hc, ih ht]

theorem latin_singleton_append (c : Char) (t : List Char) : latin (c :: t) = latin [c] ++ latin t := by
  rw [← latin_append]
  rfl

theorem body_append {s t : List Char} (hs : ∀ c ∈ s, c ≠ '"' ∧ c ≠ '\\') (ht : Body t) :
    Body (s ++ t) := by
  induction s with
  | nil => exact ht
  | cons c s ih =>
    obtain ⟨hc, hs⟩ := List.forall_mem_cons.mp hs
    exact .plain hc.1 hc.2 (ih hs)

theorem body_latin (h : Body body) : Body (latin body) := by
  induction h with
  | nil => exact .nil
  | @plain c t hquote hslash _ ih =>
    rw [latin_singleton_append]
    refine body_append ?_ ih
    intro d hd
    by_cases hc : c.toNat < 128
    · rw [latin_ascii (List.forall_mem_singleton.mpr hc), List.mem_singleton] at hd
      rw [hd]
      exact ⟨hquote, hslash⟩
    · have hwide := high_of_latin hc d hd
      constructor
      · rintro rfl
        exact hwide (by decide)
      · rintro rfl
        exact hwide (by decide)
  | @escape c t hc _ ih =>
    rw [latin_cons (by decide), latin_cons hc]
    exact .escape hc ih

section InString

variable {b : UInt8} {rest l : List UInt8}

theorem inString_plain (hslash : asChar b ≠ '\\') (hquote : asChar b ≠ '"') :
    inString (b :: rest) = (b :: (inString rest).1, (inString rest).2) := by
  cases rest with
  | nil => rfl
  | cons b' rest => rw [inString, if_neg hslash, if_neg hquote]

theorem inString_quote (h : asChar b = '"') : inString (b :: rest) = ([b], rest) := by
  cases rest with
  | nil => rfl
  | cons b' rest =>
    have hslash : asChar b ≠ '\\' := by
      rw [h]
      decide
    rw [inString, if_neg hslash, if_pos h]

theorem inString_high {bs : List UInt8} (h : ∀ b ∈ bs, 128 ≤ b.toNat) :
    inString (bs ++ l) = (bs ++ (inString l).1, (inString l).2) := by
  induction bs with
  | nil => rfl
  | cons b bs ih =>
    obtain ⟨hb, hbs⟩ := List.forall_mem_cons.mp h
    rw [List.cons_append, inString_plain (asChar_high hb (by decide)) (asChar_high hb (by decide)),
      ih hbs]
    rfl

/-- A part of a string up to which it does not end. -/
def Inside (s : List Char) : Prop :=
  ∀ t, inString (encode (s ++ t)) = (encode s ++ (inString (encode t)).1, (inString (encode t)).2)

theorem Inside.append {s s' : List Char} (h : Inside s) (h' : Inside s') : Inside (s ++ s') := by
  intro t
  rw [List.append_assoc, h, h', Utf8.encode_append, List.append_assoc]

theorem inside_char (hquote : c ≠ '"') (hslash : c ≠ '\\') : Inside [c] := by
  intro t
  by_cases hc : c.toNat < 128
  · rw [List.singleton_append, Utf8.encode_ascii hc, Utf8.encode_ascii hc, inString_plain]
    · rfl
    · rwa [asChar_ascii hc]
    · rwa [asChar_ascii hc]
  · rw [Utf8.encode_append]
    refine inString_high ?_
    rw [Utf8.encode_cons, Utf8.encode_nil, List.append_nil]
    exact Utf8.high_of_wide hc

theorem inside_escape (h : c.toNat < 128) : Inside ['\\', c] := by
  intro t
  have hslash : asChar (UInt8.ofNat '\\'.toNat) = '\\' := asChar_ascii (by decide)
  rw [List.cons_append, List.singleton_append, Utf8.encode_ascii (by decide), Utf8.encode_ascii h,
    inString, if_pos hslash, Utf8.encode_ascii (by decide), Utf8.encode_ascii h]
  rfl

theorem inside_body (h : Body body) : Inside body := by
  induction h with
  | nil => exact fun t => rfl
  | plain hquote hslash _ ih => exact (inside_char hquote hslash).append ih
  | escape hc _ ih => exact (inside_escape hc).append ih

theorem text_str_append (body t : List Char) :
    (Lexeme.str body).text ++ t = '"' :: (body ++ '"' :: t) := by
  rw [Lexeme.text, List.cons_append, List.append_assoc]
  rfl

theorem inString_body (h : Body body) (t : List Char) :
    (inString (encode (body ++ '"' :: t))).1.map asChar = latin body ++ ['"']
      ∧ (inString (encode (body ++ '"' :: t))).2 = encode t := by
  have hquote : asChar (UInt8.ofNat '"'.toNat) = '"' := asChar_ascii (by decide)
  rw [inside_body h, Utf8.encode_ascii (by decide), inString_quote hquote, List.map_append,
    List.map_singleton, hquote]
  exact ⟨rfl, rfl⟩

end InString

/-! ### Comments -/

theorem stripComments_char (hc : c.toNat < 128) (hquote : c ≠ '"') (hslash : c ≠ '/')
    (t : List Char) : stripComments (encode (c :: t)) = c :: stripComments (encode t) := by
  rw [Utf8.encode_ascii hc, stripComments, asChar_ascii hc, if_neg hquote,
    if_neg fun h => hslash h.1, if_neg fun h => hslash h.1]

theorem stripComments_str (h : Body body) (t : List Char) :
    stripComments (encode ((Lexeme.str body).text ++ t))
      = (Lexeme.str body).latin.text ++ stripComments (encode t) := by
  obtain ⟨hread, hrest⟩ := inString_body h t
  rw [text_str_append, Utf8.encode_ascii (by decide), stripComments,
    if_pos (asChar_ascii (by decide)), hread, hrest]
  rfl

theorem dropWhile_line (h : '\n' ∉ body) (ht : t = [] ∨ ∃ t', t = '\n' :: t') :
    (encode (body ++ t)).dropWhile (fun b => asChar b != '\n') = encode t := by
  have hbody : ∀ b ∈ encode body, (asChar b != '\n') = true := by
    intro b hb
    obtain ⟨c, hc, hb⟩ := List.mem_flatMap.mp hb
    rw [bne_iff_ne]
    by_cases hascii : c.toNat < 128
    · have hbyte : b ∈ encode [c] := by
        rw [Utf8.encode_cons, Utf8.encode_nil, List.append_nil]
        exact hb
      rw [Utf8.encode_ascii hascii, Utf8.encode_nil, List.mem_singleton] at hbyte
      rw [hbyte, asChar_ascii hascii]
      rintro rfl
      exact h hc
    · exact asChar_high (Utf8.high_of_wide hascii b hb) (by decide)
  rw [Utf8.encode_append, List.dropWhile_append_of_pos hbody]
  obtain rfl | ⟨t', rfl⟩ := ht
  · rfl
  · rw [Utf8.encode_ascii (by decide)]
    refine List.dropWhile_cons_of_neg ?_
    rw [asChar_ascii (by decide)]
    decide

theorem stripComments_line (h : '\n' ∉ body) (ht : t = [] ∨ ∃ t', t = '\n' :: t') :
    stripComments (encode ((Lexeme.line body).text ++ t)) = stripComments (encode t) := by
  have hslash : asChar (UInt8.ofNat '/'.toNat) = '/' := asChar_ascii (by decide)
  have hquote : ¬asChar (UInt8.ofNat '/'.toNat) = '"' := by
    rw [hslash]
    decide
  rw [Lexeme.text, List.cons_append, List.cons_append, Utf8.encode_ascii (by decide),
    Utf8.encode_ascii (by decide), stripComments, if_neg hquote,
    if_pos ⟨hslash, congrArg some hslash⟩, List.dropWhile_cons_of_pos, dropWhile_line h ht]
  rw [hslash]
  decide

theorem afterBlock_high {bs l : List UInt8} (h : ∀ b ∈ bs, 128 ≤ b.toNat) :
    afterBlock (bs ++ l) = afterBlock l := by
  induction bs with
  | nil => rfl
  | cons b bs ih =>
    obtain ⟨hb, hbs⟩ := List.forall_mem_cons.mp h
    rw [← ih hbs, List.cons_append]
    cases bs ++ l with
    | nil => rfl
    | cons b' rest =>
      rw [afterBlock, if_neg]
      exact fun h => asChar_high hb (by decide) h.1

theorem afterBlock_body (h : ¬['*', '/'] <:+: body ++ ['*']) (t : List Char) :
    afterBlock (encode (body ++ '*' :: '/' :: t)) = encode t := by
  induction body with
  | nil =>
    rw [List.nil_append, Utf8.encode_ascii (by decide), Utf8.encode_ascii (by decide), afterBlock,
      if_pos ⟨asChar_ascii (by decide), asChar_ascii (by decide)⟩]
  | cons c body ih =>
    have hrest := ih fun hin => h (hin.trans (List.suffix_cons c _).isInfix)
    by_cases hc : c.toNat < 128
    · rw [List.cons_append, Utf8.encode_ascii hc]
      -- an end mark that begins here would be in the body
      have hnext : ∀ {b : UInt8} {l : List UInt8}, encode (body ++ '*' :: '/' :: t) = b :: l →
          ¬(c = '*' ∧ asChar b = '/') := by
        rintro b l hencode ⟨rfl, hb⟩
        cases body with
        | nil =>
          rw [List.nil_append, Utf8.encode_ascii (by decide)] at hencode
          rw [← (List.cons.inj hencode).1, asChar_ascii (by decide)] at hb
          exact absurd hb (by decide)
        | cons d body =>
          by_cases hd : d.toNat < 128
          · rw [List.cons_append, Utf8.encode_ascii hd] at hencode
            rw [← (List.cons.inj hencode).1, asChar_ascii hd] at hb
            rw [hb] at h
            exact h ⟨[], body ++ ['*'], rfl⟩
          · rw [List.cons_append, Utf8.encode_cons] at hencode
            have hpos := d.utf8Size_pos
            have hlength := String.length_utf8EncodeChar d
            cases hchar : String.utf8EncodeChar d with
            | nil =>
              rw [hchar, List.length_nil] at hlength
              omega
            | cons b' bs =>
              have hhigh := Utf8.high_of_wide hd
              rw [hchar] at hencode hhigh
              rw [← (List.cons.inj hencode).1] at hb
              exact asChar_high (hhigh b' List.mem_cons_self) (by decide) hb
      cases hencode : encode (body ++ '*' :: '/' :: t) with
      | nil =>
        rw [hencode] at hrest
        exact hrest
      | cons b l =>
        have hstep : ¬(asChar (UInt8.ofNat c.toNat) = '*' ∧ asChar b = '/') := by
          rw [asChar_ascii hc]
          exact hnext hencode
        rw [afterBlock, if_neg hstep, ← hencode, hrest]
    · rw [List.cons_append, Utf8.encode_cons, afterBlock_high (Utf8.high_of_wide hc), hrest]

theorem stripComments_block (h : ¬['*', '/'] <:+: body ++ ['*']) (t : List Char) :
    stripComments (encode ((Lexeme.block body).text ++ t)) = stripComments (encode t) := by
  have hslash : asChar (UInt8.ofNat '/'.toNat) = '/' := asChar_ascii (by decide)
  have hstar : asChar (UInt8.ofNat '*'.toNat) = '*' := asChar_ascii (by decide)
  have hquote : ¬asChar (UInt8.ofNat '/'.toNat) = '"' := by
    rw [hslash]
    decide
  have hline : ¬(asChar (UInt8.ofNat '/'.toNat) = '/'
      ∧ some (asChar (UInt8.ofNat '*'.toNat)) = some '/') := by
    rw [hstar]
    decide
  have htext : (Lexeme.block body).text ++ t = '/' :: '*' :: (body ++ '*' :: '/' :: t) := by
    rw [Lexeme.text, List.cons_append, List.cons_append, List.append_assoc]
    rfl
  rw [htext, Utf8.encode_ascii (by decide), Utf8.encode_ascii (by decide), stripComments,
    if_neg hquote, List.head?_cons, Option.map_some, if_neg hline,
    if_pos ⟨hslash, congrArg some hstar⟩, List.drop_one, List.tail_cons, afterBlock_body h]

theorem docText_cons (l : Lexeme) (d : List Lexeme) : docText (l :: d) = l.text ++ docText d :=
  List.flatMap_cons

theorem stripComments_text (h : DocValid d) :
    stripComments (encode (docText d))
      = docText ((d.filter fun l => !l.isComment).map Lexeme.latin) := by
  induction d with
  | nil => rw [docText, List.flatMap_nil, Utf8.encode_nil, stripComments]; rfl
  | cons l d ih =>
    obtain ⟨hl, hd⟩ := h
    rw [docText_cons]
    cases l with
    | mark c =>
      obtain ⟨hc, hquote, hslash, -⟩ := hl
      exact (stripComments_char hc hquote hslash _).trans (congrArg (List.cons c) (ih hd))
    | str body =>
      rw [stripComments_str hl, ih hd]
      rfl
    | line body =>
      obtain ⟨hbody, hends⟩ := hl
      have ht : docText d = [] ∨ ∃ t', docText d = '\n' :: t' := by
        obtain rfl | hends := hends
        · exact .inl rfl
        · obtain ⟨d', rfl⟩ := List.head?_eq_some_iff.mp hends
          exact .inr ⟨docText d', rfl⟩
      rw [stripComments_line hbody ht, ih hd]
      rfl
    | block body =>
      rw [stripComments_block hl, ih hd]
      rfl
    | trailing =>
      exact (stripComments_char (by decide) (by decide) (by decide) _).trans
        (congrArg (List.cons ',') (ih hd))

/-! ### Trailing commas -/

theorem closesNext_char (hc : c.toNat < 128) (t : List Char) :
    closesNext (encode (c :: t))
      = if isWhitespace c then closesNext (encode t) else c == '\x7d' || c == ']' := by
  have hbyte : asChar (UInt8.ofNat c.toNat) = c := asChar_ascii hc
  rw [Utf8.encode_ascii hc, closesNext, closesNext]
  by_cases hspace : isWhitespace c = true
  · rw [if_pos hspace, List.dropWhile_cons_of_pos]
    rwa [hbyte]
  · rw [if_neg hspace, List.dropWhile_cons_of_neg]
    · rw [List.head?_cons]
      dsimp only
      rw [hbyte]
    · rwa [hbyte]

theorem closesNext_text (h : DocValid d) (hd : ∀ l ∈ d, l.isComment = false) :
    closesNext (encode (docText d)) = closes d := by
  induction d with
  | nil => rfl
  | cons l d ih =>
    obtain ⟨hl, hvalid⟩ := h
    obtain ⟨hcomment, hrest⟩ := List.forall_mem_cons.mp hd
    rw [docText_cons]
    cases l with
    | mark c =>
      show closesNext (encode (c :: docText d)) = _
      rw [closesNext_char hl.1, ih hvalid hrest]
      rfl
    | str body | trailing => exact closesNext_char (by decide) _
    | line body | block body => cases hcomment

theorem stripTrailingCommas_char (hc : c.toNat < 128) (hquote : c ≠ '"')
    (hcomma : c = ',' → closesNext (encode t) = false) :
    stripTrailingCommas (encode (c :: t)) = c :: stripTrailingCommas (encode t) := by
  have hkeep : ¬(c = ',' ∧ closesNext (encode t) = true) := by
    rintro ⟨hc, hcloses⟩
    rw [hcomma hc] at hcloses
    cases hcloses
  rw [Utf8.encode_ascii hc, stripTrailingCommas, asChar_ascii hc, if_neg hquote, if_neg hkeep]

theorem stripTrailingCommas_str (h : Body body) (t : List Char) :
    stripTrailingCommas (encode ((Lexeme.str body).text ++ t))
      = (Lexeme.str body).latin.text ++ stripTrailingCommas (encode t) := by
  obtain ⟨hread, hrest⟩ := inString_body h t
  rw [text_str_append, Utf8.encode_ascii (by decide), stripTrailingCommas,
    if_pos (asChar_ascii (by decide)), hread, hrest]
  rfl

theorem stripTrailingCommas_text (h : DocValid d) (hd : ∀ l ∈ d, l.isComment = false) :
    stripTrailingCommas (encode (docText d)) = docText ((strict d).map Lexeme.latin) := by
  induction d with
  | nil =>
    rw [docText, List.flatMap_nil, Utf8.encode_nil, stripTrailingCommas]
    rfl
  | cons l d ih =>
    obtain ⟨hl, hvalid⟩ := h
    obtain ⟨hcomment, hrest⟩ := List.forall_mem_cons.mp hd
    have hcloses := closesNext_text hvalid hrest
    rw [docText_cons]
    cases l with
    | mark c =>
      obtain ⟨hc, hquote, -, hcomma⟩ := hl
      rw [← hcloses] at hcomma
      exact (stripTrailingCommas_char hc hquote hcomma).trans (congrArg (List.cons c) (ih hvalid hrest))
    | str body =>
      rw [stripTrailingCommas_str hl, ih hvalid hrest]
      rfl
    | line body => cases hcomment
    | block body => cases hcomment
    | trailing =>
      have hl : closes d = true := hl
      have hcomma : asChar (UInt8.ofNat ','.toNat) = ',' := asChar_ascii (by decide)
      have hquote : ¬asChar (UInt8.ofNat ','.toNat) = '"' := by
        rw [hcomma]
        decide
      show stripTrailingCommas (encode (',' :: docText d)) = _
      rw [Utf8.encode_ascii (by decide), stripTrailingCommas, if_neg hquote,
        if_pos ⟨hcomma, hcloses.trans hl⟩, ih hvalid hrest]
      rfl

/-! ### Both passes -/

theorem closes_filter (d : List Lexeme) : closes (d.filter fun l => !l.isComment) = closes d := by
  induction d with
  | nil => rfl
  | cons l d ih =>
    cases l with
    | mark c =>
      show (if isWhitespace c then closes (d.filter fun l => !l.isComment) else _) = closes (.mark c :: d)
      rw [ih]
      rfl
    | str body => rfl
    | line body => exact ih
    | block body => exact ih
    | trailing => rfl

theorem closes_latin (d : List Lexeme) : closes (d.map Lexeme.latin) = closes d := by
  induction d with
  | nil => rfl
  | cons l d ih =>
    cases l with
    | mark c =>
      show (if isWhitespace c then closes (d.map Lexeme.latin) else _) = closes (.mark c :: d)
      rw [ih]
      rfl
    | str body => rfl
    | line body => exact ih
    | block body => exact ih
    | trailing => rfl

theorem docValid_pass (h : DocValid d) :
    DocValid ((d.filter fun l => !l.isComment).map Lexeme.latin) := by
  induction d with
  | nil => trivial
  | cons l d ih =>
    obtain ⟨hl, hd⟩ := h
    have hcloses : closes ((d.filter fun l => !l.isComment).map Lexeme.latin) = closes d := by
      rw [closes_latin, closes_filter]
    cases l with
    | mark c =>
      obtain ⟨hc, hquote, hslash, hcomma⟩ := hl
      rw [← hcloses] at hcomma
      exact ⟨⟨hc, hquote, hslash, hcomma⟩, ih hd⟩
    | str body => exact ⟨body_latin hl, ih hd⟩
    | line body => exact ih hd
    | block body => exact ih hd
    | trailing => exact ⟨hcloses.trans hl, ih hd⟩

theorem isComment_latin (l : Lexeme) : l.latin.isComment = l.isComment := by
  cases l
  all_goals rfl

theorem isExtra_latin (l : Lexeme) : l.latin.isExtra = l.isExtra := by
  cases l
  all_goals rfl

/-- A part that is misread by both passes. -/
def Lexeme.misread (l : Lexeme) : Lexeme := l.latin.latin

theorem sanitizeJsonc_text (h : DocValid d) :
    sanitizeJsonc (docText d) = docText ((strict d).map Lexeme.misread) := by
  have hcomments : ∀ l ∈ (d.filter fun l => !l.isComment).map Lexeme.latin, l.isComment = false := by
    intro l hl
    obtain ⟨l', hl', rfl⟩ := List.mem_map.mp hl
    rw [isComment_latin]
    have hkept := (List.mem_filter.mp hl').2
    rwa [Bool.not_eq_true'] at hkept
  have hstrict : strict ((d.filter fun l => !l.isComment).map Lexeme.latin)
      = (strict d).map Lexeme.latin := by
    have hextra : ∀ l : Lexeme, ((!l.isExtra) && !l.isComment) = !l.isExtra := by
      intro l
      cases l
      all_goals rfl
    rw [strict, List.filter_map, List.filter_filter, strict]
    congr 1
    refine List.filter_congr ?_
    intro l _
    rw [Function.comp_apply, isExtra_latin, hextra]
  rw [sanitizeJsonc, stripComments_text h, stripTrailingCommas_text (docValid_pass h) hcomments,
    hstrict, List.map_map]
  rfl

end Fw

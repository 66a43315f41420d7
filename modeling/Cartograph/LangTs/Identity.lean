/-
String identities of a TypeScript source (`crates/adapters-lang-ts/src/lib.rs`).

The syntax tree splits a string literal into fragments and escape sequences.  Of a string,
`classify_identity` and `literal_string` take the first fragment; of a template, its text between
the backticks.  What a literal stands for is a list of UTF-16 code units.

* `stringText_eq_iff` — the first fragment is the whole value;
* `templateText_eq_iff` — the text of a template is its value;
* `identity_value_iff` — when a literal identity is the value of its literal.
-/
import Mathlib

namespace LangTs

/-! ### Code units -/

/-- The UTF-16 code units of a code point. -/
def codeUnits (n : ℕ) : List ℕ :=
  if n < 0x10000 then [n] else [0xD800 + (n - 0x10000) / 0x400, 0xDC00 + (n - 0x10000) % 0x400]

/-- The JavaScript string of a text. -/
def units (text : List Char) : List ℕ := text.flatMap fun c => codeUnits c.toNat

@[simp] theorem units_nil : units [] = [] := rfl

@[simp] theorem units_cons (c : Char) (text : List Char) :
    units (c :: text) = codeUnits c.toNat ++ units text := rfl

@[simp] theorem units_append (a b : List Char) : units (a ++ b) = units a ++ units b := by
  rw [units, List.flatMap_append, ← units, ← units]

theorem codeUnits_length (n : ℕ) : 1 ≤ (codeUnits n).length ∧ (codeUnits n).length ≤ 2 := by
  rw [codeUnits]
  split_ifs
  · exact ⟨le_rfl, by simp⟩
  · exact ⟨by simp, le_rfl⟩

theorem length_le_units (text : List Char) : text.length ≤ (units text).length := by
  induction text with
  | nil => exact le_rfl
  | cons c text ih =>
    rw [units_cons, List.length_append, List.length_cons]
    have hone := (codeUnits_length c.toNat).1
    omega

theorem units_eq_nil {text : List Char} : units text = [] ↔ text = [] := by
  refine ⟨fun h => ?_, fun h => by rw [h, units_nil]⟩
  have hle := length_le_units text
  rw [h, List.length_nil] at hle
  exact List.length_eq_zero_iff.mp (by omega)

/-! ### Escape sequences -/

def HexDigit : Type := { c : Char // c.isDigit = true ∨ ('a' ≤ c ∧ c ≤ 'f') ∨ ('A' ≤ c ∧ c ≤ 'F') }

def OctalDigit : Type := { c : Char // '0' ≤ c ∧ c ≤ '7' }

/-- The value of a digit in any base up to 16. -/
def digitValue (c : Char) : ℕ :=
  if c.isDigit then c.toNat - '0'.toNat
  else if c ≤ 'F' then c.toNat - 'A'.toNat + 10
  else c.toNat - 'a'.toNat + 10

def number (base : ℕ) (digits : List Char) : ℕ :=
  digits.foldl (fun n c => n * base + digitValue c) 0

/-- The ends of a line. -/
def LINE_ENDS : List (List Char) :=
  [['\n'], ['\r'], ['\r', '\n'], ['\u2028'], ['\u2029']]

/-- What follows the backslash of an escape sequence. -/
inductive Escape
  /-- A single character that no other form begins with. -/
  | single (c : Char) (other : c ∉ ['x', 'u', '\n', '\r', '\u2028', '\u2029'])
      (notOctal : ¬('0' ≤ c ∧ c ≤ '7'))
  | octal (first : OctalDigit) (rest : List OctalDigit) (short : rest.length ≤ 2)
  | hex (a b : HexDigit)
  | unicode (a b c d : HexDigit)
  | codePoint (first : HexDigit) (rest : List HexDigit)
  /-- A backslash at the end of a line. -/
  | continuation (lineEnd : List Char) (known : lineEnd ∈ LINE_ENDS)

/-- The text after the backslash. -/
def Escape.tail : Escape → List Char
  | .single c _ _ => [c]
  | .octal first rest _ => first.1 :: rest.map Subtype.val
  | .hex a b => ['x', a.1, b.1]
  | .unicode a b c d => ['u', a.1, b.1, c.1, d.1]
  | .codePoint first rest => 'u' :: '{' :: first.1 :: rest.map Subtype.val ++ ['}']
  | .continuation lineEnd _ => lineEnd

def Escape.text (e : Escape) : List Char := '\\' :: e.tail

/-- The code point of a single-character escape. -/
def singleValue (c : Char) : ℕ :=
  match c with
  | 'b' => 8
  | 't' => 9
  | 'n' => 10
  | 'v' => 11
  | 'f' => 12
  | 'r' => 13
  | c => c.toNat

/-- An octal escape takes a third digit only up to `\377`. -/
def octalUnits (first : Char) (rest : List Char) : List ℕ :=
  let used := if first ≤ '3' then rest.take 2 else rest.take 1
  number 8 (first :: used) :: (rest.drop used.length).map Char.toNat

/-- The code units an escape sequence stands for. -/
def Escape.value : Escape → List ℕ
  | .single c _ _ => codeUnits (singleValue c)
  | .octal first rest _ => octalUnits first.1 (rest.map Subtype.val)
  | .hex a b => [number 16 [a.1, b.1]]
  | .unicode a b c d => [number 16 [a.1, b.1, c.1, d.1]]
  | .codePoint first rest => codeUnits (number 16 (first.1 :: rest.map Subtype.val))
  | .continuation _ _ => []

def Escape.isContinuation : Escape → Bool
  | .continuation _ _ => true
  | _ => false

theorem octalUnits_length (first : Char) (rest : List Char) :
    1 ≤ (octalUnits first rest).length ∧ (octalUnits first rest).length ≤ 1 + rest.length := by
  simp only [octalUnits, List.length_cons, List.length_map, List.length_drop]
  omega

variable {e : Escape} {parts : List TemplatePart}

theorem Escape.value_eq_nil : e.value = [] ↔ e.isContinuation = true := by
  have hpos : ∀ n, codeUnits n ≠ [] := fun n h => by
    have hone := (codeUnits_length n).1
    rw [h] at hone
    exact absurd hone (by decide)
  cases e with
  | single c _ _ | codePoint first rest => simp [Escape.value, Escape.isContinuation, hpos]
  | octal first rest _ =>
    have hone := (octalUnits_length first.1 (rest.map Subtype.val)).1
    have hne : octalUnits first.1 (rest.map Subtype.val) ≠ [] := fun h => by
      rw [h] at hone
      exact absurd hone (by decide)
    simp [Escape.value, Escape.isContinuation, hne]
  | hex a b | unicode a b c d | continuation lineEnd _ => simp [Escape.value, Escape.isContinuation]

theorem Escape.value_length_lt (e : Escape) : e.value.length < (units e.text).length := by
  have htext : 1 + e.tail.length ≤ (units e.text).length := by
    have hle := length_le_units e.text
    rw [Escape.text, List.length_cons] at hle
    rw [Escape.text]
    omega
  cases e with
  | single c _ _ =>
    -- both are one character, after a backslash
    have hvalue : (codeUnits (singleValue c)).length ≤ (codeUnits c.toNat).length := by
      unfold singleValue
      split <;> exact le_rfl
    simp only [Escape.value, Escape.text, Escape.tail, units_cons, units_nil, List.append_nil,
      List.length_append]
    have hone := (codeUnits_length '\\'.toNat).1
    omega
  | octal first rest _ =>
    have hle := (octalUnits_length first.1 (rest.map Subtype.val)).2
    simp only [Escape.tail, List.length_cons] at htext
    simp only [Escape.value]
    omega
  | hex a b | unicode a b c d =>
    simp only [Escape.tail, List.length_cons, List.length_nil] at htext
    simp only [Escape.value, List.length_cons, List.length_nil]
    omega
  | codePoint first rest =>
    have htwo := (codeUnits_length (number 16 (first.1 :: rest.map Subtype.val))).2
    simp only [Escape.tail, List.length_cons, List.length_append] at htext
    simp only [Escape.value]
    omega
  | continuation lineEnd _ =>
    simp only [Escape.value, List.length_nil]
    omega

/-! ### Literals -/

/-- A child of a string node between the quotes. -/
inductive StringPart
  | fragment (text : List Char) (nonempty : text ≠ []) (plain : '\\' ∉ text)
  | escape (e : Escape)

def BACKTICK : Char := Char.ofNat 96

/-- A child of a template node between the backticks. -/
inductive TemplatePart
  | fragment (text : List Char) (nonempty : text ≠ []) (plain : '\\' ∉ text ∧ BACKTICK ∉ text)
  | escape (e : Escape)
  /-- `${…}`. -/
  | substitution (text : List Char)

/-- A string or template expression. -/
inductive Literal
  | string (parts : List StringPart)
  | template (parts : List TemplatePart)

def StringPart.fragment? : StringPart → Option (List Char)
  | .fragment text _ _ => some text
  | .escape _ => none

def TemplatePart.text : TemplatePart → List Char
  | .fragment text _ _ => text
  | .escape e => e.text
  | .substitution text => '$' :: '{' :: text ++ ['}']

def TemplatePart.isSubstitution : TemplatePart → Bool
  | .substitution _ => true
  | _ => false

/-- The source text of a template. -/
def templateSource (parts : List TemplatePart) : List Char :=
  BACKTICK :: parts.flatMap TemplatePart.text ++ [BACKTICK]

/-! ### What the extractor reads -/

/-- A channel identity. -/
inductive IdentityExpr
  | literal (value : List Char)
  | envRef (key : List Char)
  | computed (text : List Char)
  deriving DecidableEq

/-- `trim_matches`. -/
def trimMatches (c : Char) (text : List Char) : List Char :=
  (text.dropWhile (· == c)).rdropWhile (· == c)

/-- The text of the first fragment of a string. -/
def stringText (parts : List StringPart) : List Char :=
  (parts.findSome? StringPart.fragment?).getD []

/-- The text of a template between the backticks. -/
def templateText (parts : List TemplatePart) : List Char :=
  trimMatches BACKTICK (templateSource parts)

/-- An expression, as far as its identity depends on it. -/
inductive Expr
  | literal (l : Literal)
  | identifier (name : List Char)
  | member (text : List Char)
  /-- The text of the object, the index when it is a string, and the whole text. -/
  | subscript (object : List Char) (index : Option (List StringPart)) (text : List Char)
  | other (text : List Char)

def ENV_PREFIX : List Char := "process.env.".toList

/-- `classify_identity`. -/
def classifyIdentity (constStrings : List Char → Option (List Char)) : Expr → IdentityExpr
  | .literal (.string parts) => .literal (stringText parts)
  | .literal (.template parts) =>
    if parts.any TemplatePart.isSubstitution then .computed (templateSource parts)
    else .literal (templateText parts)
  | .identifier name =>
    match constStrings name with
    | some value => .literal value
    | none => .computed name
  | .member text =>
    match text.dropPrefix? ENV_PREFIX with
    | some key =>
      if key ≠ [] ∧ '.' ∉ key then .envRef key else .computed text
    | none => .computed text
  | .subscript object index text =>
    match index with
    | some parts =>
      if object = "process.env".toList ∧ stringText parts ≠ [] then .envRef (stringText parts)
      else .computed text
    | none => .computed text
  | .other text => .computed text

/-- `literal_string`. -/
def literalString : Expr → Option (List Char)
  | .literal (.string parts) => some (stringText parts)
  | .literal (.template parts) =>
    if parts.any TemplatePart.isSubstitution then none else some (templateText parts)
  | _ => none

/-! ### What a literal stands for -/

def StringPart.value : StringPart → List ℕ
  | .fragment text _ _ => units text
  | .escape e => e.value

/-- In a template, the end of a line is a line feed. -/
def lineFeeds : List Char → List Char
  | '\r' :: '\n' :: rest => '\n' :: lineFeeds rest
  | '\r' :: rest => '\n' :: lineFeeds rest
  | c :: rest => c :: lineFeeds rest
  | [] => []

/-- The value of a part; a substitution is evaluated when the program runs. -/
def TemplatePart.value : TemplatePart → List ℕ
  | .fragment text _ _ => units (lineFeeds text)
  | .escape e => e.value
  | .substitution _ => []

/-- The JavaScript value of a literal, if it has one before the program runs. -/
def Literal.value : Literal → Option (List ℕ)
  | .string parts => some (parts.flatMap StringPart.value)
  | .template parts =>
    if parts.any TemplatePart.isSubstitution then none
    else some (parts.flatMap TemplatePart.value)

/-! ### Strings -/

/-- The escape sequences of a string are line continuations, and its fragments are one. -/
def WholeFragment (parts : List StringPart) : Prop :=
  (∀ e, .escape e ∈ parts → e.isContinuation = true)
    ∧ (parts.filterMap StringPart.fragment?).length ≤ 1

variable {text : List Char}

theorem fragment?_eq_some {part : StringPart} (h : part.fragment? = some text) :
    part.value = units text ∧ text ≠ [] := by
  cases part with
  | fragment text' hne hplain =>
    obtain rfl : text' = text := by simpa [StringPart.fragment?] using h
    exact ⟨rfl, hne⟩
  | escape e => cases h

theorem value_eq_nil_iff {parts : List StringPart} : parts.flatMap StringPart.value = [] ↔
    (∀ e, .escape e ∈ parts → e.isContinuation = true)
      ∧ parts.filterMap StringPart.fragment? = [] := by
  rw [List.flatMap_eq_nil_iff, List.filterMap_eq_nil_iff]
  constructor
  · intro h
    refine ⟨fun e he => Escape.value_eq_nil.mp (h _ he), fun part hpart => ?_⟩
    cases hfragment : part.fragment? with
    | none => rfl
    | some text =>
      obtain ⟨hvalue, hne⟩ := fragment?_eq_some hfragment
      exact absurd (units_eq_nil.mp (hvalue ▸ h part hpart)) hne
  · rintro ⟨hescapes, hfragments⟩ part hpart
    cases part with
    | fragment text hne hplain => exact absurd (hfragments _ hpart) (by simp [StringPart.fragment?])
    | escape e => exact Escape.value_eq_nil.mpr (hescapes e hpart)

/-- **Strings.** -/
theorem stringText_eq_iff (parts : List StringPart) :
    parts.flatMap StringPart.value = units (stringText parts) ↔ WholeFragment parts := by
  rw [stringText, WholeFragment]
  cases hfirst : parts.findSome? StringPart.fragment? with
  | none =>
    have hnone : parts.filterMap StringPart.fragment? = [] :=
      List.filterMap_eq_nil_iff.mpr (List.findSome?_eq_none_iff.mp hfirst)
    rw [Option.getD_none, units_nil, value_eq_nil_iff, hnone]
    simp
  | some text =>
    obtain ⟨before, part, after, rfl, hpart, hbefore⟩ := List.findSome?_eq_some_iff.mp hfirst
    obtain ⟨hvalue, hne⟩ := fragment?_eq_some hpart
    have hsplit : ((before ++ part :: after).flatMap StringPart.value = units text) ↔
        before.flatMap StringPart.value = [] ∧ after.flatMap StringPart.value = [] := by
      rw [List.flatMap_append, List.flatMap_cons, hvalue]
      constructor
      · intro h
        -- the fragment leaves no room for anything else
        have hlength := congrArg List.length h
        simp only [List.length_append] at hlength
        exact ⟨List.length_eq_zero_iff.mp (by omega), List.length_eq_zero_iff.mp (by omega)⟩
      · rintro ⟨hb, ha⟩
        rw [hb, ha, List.nil_append, List.append_nil]
    have hnone : before.filterMap StringPart.fragment? = [] :=
      List.filterMap_eq_nil_iff.mpr hbefore
    rw [Option.getD_some, hsplit, value_eq_nil_iff, value_eq_nil_iff, List.filterMap_append, hnone,
      List.filterMap_cons_some hpart]
    have hescape : ∀ e, part ≠ .escape e := fun e he => by
      rw [he] at hpart
      cases hpart
    constructor
    · rintro ⟨⟨hb, -⟩, ha, hafter⟩
      refine ⟨fun e he => ?_, by simp [hafter]⟩
      rcases List.mem_append.mp he with he | he
      · exact hb e he
      · rcases List.mem_cons.mp he with he | he
        · exact absurd he.symm (hescape e)
        · exact ha e he
    · rintro ⟨hescapes, hone⟩
      refine ⟨⟨fun e he => hescapes e (List.mem_append_left _ he), rfl⟩,
        fun e he => hescapes e (List.mem_append_right _ (List.mem_cons_of_mem _ he)), ?_⟩
      exact List.length_eq_zero_iff.mp (by simpa using hone)

/-! ### Templates -/

/-- A template without an escape sequence and without a carriage return. -/
def PlainTemplate (parts : List TemplatePart) : Prop :=
  (∀ e, .escape e ∉ parts) ∧ '\r' ∉ parts.flatMap TemplatePart.text

theorem lineFeeds_eq_self (h : '\r' ∉ text) : lineFeeds text = text := by
  induction text with
  | nil => rfl
  | cons c rest ih =>
    obtain ⟨hc, hrest⟩ := not_or.mp (fun hmem => h (List.mem_cons.mpr hmem))
    rw [lineFeeds]
    · rw [ih hrest]
    · exact fun _ hcr => absurd hcr.symm hc
    · exact fun hcr => absurd hcr.symm hc

theorem cr_notMem_lineFeeds (text : List Char) : '\r' ∉ lineFeeds text := by
  fun_induction lineFeeds text with
  | case1 rest ih => simpa using ih
  | case2 rest _ ih => simpa using ih
  | case3 c rest hcr hc ih =>
    rw [List.mem_cons, not_or]
    exact ⟨fun h => hc h.symm, ih⟩
  | case4 => exact List.not_mem_nil

theorem units_lineFeeds_length (text : List Char) :
    (units (lineFeeds text)).length ≤ (units text).length := by
  fun_induction lineFeeds text with
  | case1 rest ih =>
    simp only [units_cons, List.length_append] at ih ⊢
    have hn : (codeUnits '\n'.toNat).length = 1 := rfl
    omega
  | case2 rest _ ih =>
    simp only [units_cons, List.length_append]
    have hn : (codeUnits '\n'.toNat).length = 1 := rfl
    have hr : (codeUnits '\r'.toNat).length = 1 := rfl
    omega
  | case3 c rest _ _ ih =>
    simp only [units_cons, List.length_append]
    omega
  | case4 => exact le_rfl

theorem cr_mem_units : 13 ∈ units text ↔ '\r' ∈ text := by
  rw [units, List.mem_flatMap]
  constructor
  · rintro ⟨c, hc, h⟩
    rw [codeUnits] at h
    split_ifs at h with hlt
    · rw [List.mem_singleton] at h
      have hcr : c = '\r' := Char.ext (UInt32.toNat_inj.mp (by simpa using h.symm))
      exact hcr ▸ hc
    · simp only [List.mem_cons, List.not_mem_nil, or_false] at h
      omega
  · exact fun h => ⟨'\r', h, by decide⟩

theorem digit_ne_backtick (d : HexDigit) : d.1 ≠ BACKTICK := by
  obtain ⟨c, hc⟩ := d
  rintro rfl
  revert hc
  decide

theorem octal_ne_backtick (d : OctalDigit) : d.1 ≠ BACKTICK := by
  obtain ⟨c, hc⟩ := d
  rintro rfl
  revert hc
  decide

theorem Escape.backtick_of_mem (h : BACKTICK ∈ e.text) :
    e.text = ['\\', BACKTICK] ∧ e.value = [96] := by
  rw [Escape.text, List.mem_cons] at h
  replace h := h.resolve_left (by decide)
  cases e with
  | single c other notOctal =>
    obtain rfl : BACKTICK = c := List.mem_singleton.mp h
    exact ⟨rfl, rfl⟩
  | octal first rest short =>
    rcases List.mem_cons.mp h with h | h
    · exact absurd h.symm (octal_ne_backtick first)
    · obtain ⟨d, -, hd⟩ := List.mem_map.mp h
      exact absurd hd (octal_ne_backtick d)
  | hex a b =>
    simp only [Escape.tail, List.mem_cons, List.not_mem_nil, or_false] at h
    rcases h with h | h | h
    · exact absurd h (by decide)
    · exact absurd h.symm (digit_ne_backtick a)
    · exact absurd h.symm (digit_ne_backtick b)
  | unicode a b c d =>
    simp only [Escape.tail, List.mem_cons, List.not_mem_nil, or_false] at h
    rcases h with h | h | h | h | h
    · exact absurd h (by decide)
    · exact absurd h.symm (digit_ne_backtick a)
    · exact absurd h.symm (digit_ne_backtick b)
    · exact absurd h.symm (digit_ne_backtick c)
    · exact absurd h.symm (digit_ne_backtick d)
  | codePoint first rest =>
    simp only [Escape.tail, List.cons_append, List.mem_cons, List.mem_append, List.not_mem_nil,
      or_false] at h
    rcases h with h | h | h | h | h
    · exact absurd h (by decide)
    · exact absurd h (by decide)
    · exact absurd h.symm (digit_ne_backtick first)
    · obtain ⟨d, -, hd⟩ := List.mem_map.mp h
      exact absurd hd (digit_ne_backtick d)
    · exact absurd h (by decide)
  | continuation lineEnd known =>
    have hfree : ∀ lineEnd ∈ LINE_ENDS, BACKTICK ∉ lineEnd := by decide
    exact absurd h (hfree lineEnd known)

section

variable (h : parts.any TemplatePart.isSubstitution = false)
include h

theorem templateText_cases :
    templateText parts = parts.flatMap TemplatePart.text
      ∨ ∃ before e, parts = before ++ [.escape e] ∧ e.value = [96]
        ∧ templateText parts = before.flatMap TemplatePart.text ++ ['\\'] := by
  have hpart : ∀ part ∈ parts, part.text ≠ [] ∧ part.text.head? ≠ some BACKTICK := by
    intro part hmem
    cases part with
    | fragment text hne hplain =>
      exact ⟨hne, fun hhead => hplain.2 (List.mem_of_mem_head? hhead)⟩
    | escape e =>
      refine ⟨List.cons_ne_nil _ _, ?_⟩
      show some '\\' ≠ some BACKTICK
      decide
    | substitution text => exact absurd rfl (List.any_eq_false.mp h _ hmem)
  -- the opening backtick is the only one in front
  have hfront : templateText parts
      = (parts.flatMap TemplatePart.text).rdropWhile (· == BACKTICK) := by
    rw [templateText, trimMatches, templateSource, List.cons_append,
      List.dropWhile_cons_of_pos (by decide)]
    cases parts with
    | nil => rfl
    | cons part rest =>
      obtain ⟨hne, hhead⟩ := hpart part List.mem_cons_self
      rw [List.flatMap_cons]
      cases htext : part.text with
      | nil => exact absurd htext hne
      | cons c text =>
        have hc : c ≠ BACKTICK := fun hc => hhead (by rw [htext, hc]; rfl)
        rw [List.cons_append, List.cons_append, List.dropWhile_cons_of_neg (by simpa using hc),
          ← List.cons_append, List.rdropWhile_concat_pos _ _ _ (by decide)]
  rw [hfront]
  rcases List.eq_nil_or_concat' parts with rfl | ⟨before, part, rfl⟩
  · exact .inl rfl
  · rw [List.flatMap_append, List.flatMap_singleton]
    obtain ⟨hne, -⟩ := hpart part (by simp)
    by_cases hback : BACKTICK ∈ part.text
    · cases part with
      | fragment text hne hplain => exact absurd hback hplain.2
      | substitution text => exact absurd rfl (List.any_eq_false.mp h (.substitution text) (by simp))
      | escape e =>
        obtain ⟨htext, hvalue⟩ := Escape.backtick_of_mem hback
        refine .inr ⟨before, e, rfl, hvalue, ?_⟩
        rw [TemplatePart.text, htext, List.append_cons,
          List.rdropWhile_concat_pos _ _ _ (by decide), List.rdropWhile_concat_neg _ _ _ (by decide)]
    · refine .inl ?_
      obtain ⟨text, c, hlast⟩ := (List.eq_nil_or_concat' part.text).resolve_left hne
      rw [hlast, ← List.append_assoc, List.rdropWhile_concat_neg]
      have hc : c ∈ part.text := by simp [hlast]
      simpa using fun hcb : c = BACKTICK => hback (hcb ▸ hc)

theorem value_length_le :
    (parts.flatMap TemplatePart.value).length
      ≤ (units (parts.flatMap TemplatePart.text)).length := by
  induction parts with
  | nil => exact le_rfl
  | cons part rest ih =>
    rw [List.any_cons, Bool.or_eq_false_iff] at h
    have hrest := ih h.2
    simp only [List.flatMap_cons, units_append, List.length_append]
    cases part with
    | fragment text hne hplain =>
      have hle := units_lineFeeds_length text
      simp only [TemplatePart.value, TemplatePart.text]
      omega
    | escape e =>
      have hlt := e.value_length_lt
      simp only [TemplatePart.value, TemplatePart.text]
      omega
    | substitution text => cases h.1

theorem value_length_lt (he : .escape e ∈ parts)
    :
    (parts.flatMap TemplatePart.value).length
      < (units (parts.flatMap TemplatePart.text)).length := by
  obtain ⟨before, after, rfl⟩ := List.append_of_mem he
  rw [List.any_append, List.any_cons, Bool.or_eq_false_iff, Bool.or_eq_false_iff] at h
  have hbefore := value_length_le h.1
  have hafter := value_length_le h.2.2
  have hlt := e.value_length_lt
  simp only [List.flatMap_append, List.flatMap_cons, units_append, List.length_append,
    TemplatePart.value, TemplatePart.text]
  omega

/-- **Templates.** -/
theorem templateText_eq_iff :
    parts.flatMap TemplatePart.value = units (templateText parts) ↔ PlainTemplate parts := by
  constructor
  · intro heq
    have hescape : ∀ e, .escape e ∉ parts := by
      intro e he
      rcases templateText_cases h with htext | ⟨before, e', rfl, hvalue, htext⟩
      · have hlt := value_length_lt h he
        rw [heq, htext] at hlt
        exact absurd hlt (lt_irrefl _)
      · -- the value ends with the backtick, the text with the backslash before it
        rw [htext, List.flatMap_append, List.flatMap_singleton, TemplatePart.value, hvalue,
          units_append] at heq
        have hlast := congrArg List.getLast? heq
        simp [codeUnits] at hlast
    refine ⟨hescape, fun hcr => ?_⟩
    have htext : templateText parts = parts.flatMap TemplatePart.text := by
      rcases templateText_cases h with htext | ⟨before, e', rfl, -, -⟩
      · exact htext
      · exact absurd (by simp) (hescape e')
    rw [htext] at heq
    have hmem := cr_mem_units.mpr hcr
    rw [← heq] at hmem
    obtain ⟨part, hpart, hunit⟩ := List.mem_flatMap.mp hmem
    cases part with
    | fragment text hne hplain => exact cr_notMem_lineFeeds text (cr_mem_units.mp hunit)
    | escape e => exact hescape e hpart
    | substitution text => exact absurd rfl (List.any_eq_false.mp h _ hpart)
  · rintro ⟨hescape, hcr⟩
    have htext : templateText parts = parts.flatMap TemplatePart.text := by
      rcases templateText_cases h with htext | ⟨before, e', rfl, -, -⟩
      · exact htext
      · exact absurd (by simp) (hescape e')
    rw [htext, units, List.flatMap_assoc]
    refine List.flatMap_congr fun part hpart => ?_
    cases part with
    | fragment text hne hplain =>
      have hplainText : '\r' ∉ text := fun hmem => hcr (List.mem_flatMap.mpr ⟨_, hpart, hmem⟩)
      rw [TemplatePart.value, lineFeeds_eq_self hplainText]
      rfl
    | escape e => exact absurd hpart (hescape e)
    | substitution text => exact absurd rfl (List.any_eq_false.mp h _ hpart)

end

/-! ### Identities -/

/-- What the extractor reads of a literal is the whole of it. -/
def Literal.Faithful : Literal → Prop
  | .string parts => WholeFragment parts
  | .template parts => parts.any TemplatePart.isSubstitution = true ∨ PlainTemplate parts

/-- **Literal identities.**  The identity of a literal, and its text as `literal_string` reads it,
are its JavaScript value exactly when the literal is a string of at most one fragment whose escape
sequences are line continuations, or a template that has a substitution or has neither an escape
sequence nor a carriage return. -/
theorem identity_value_iff (constStrings : List Char → Option (List Char)) (l : Literal) :
    ((∀ v, classifyIdentity constStrings (.literal l) = .literal v → l.value = some (units v))
        ∧ ∀ v, literalString (.literal l) = some v → l.value = some (units v)) ↔ l.Faithful := by
  cases l with
  | string parts =>
    simp only [classifyIdentity, literalString, Literal.value, Literal.Faithful,
      IdentityExpr.literal.injEq, Option.some.injEq, forall_eq', and_self]
    exact stringText_eq_iff parts
  | template parts =>
    by_cases h : parts.any TemplatePart.isSubstitution = true
    · simp [classifyIdentity, literalString, Literal.Faithful, h]
    · have hnone := Bool.eq_false_iff.mpr h
      simp only [classifyIdentity, literalString, Literal.value, Literal.Faithful, hnone,
        Bool.false_eq_true, if_false, false_or, IdentityExpr.literal.injEq, Option.some.injEq,
        forall_eq', and_self]
      exact templateText_eq_iff hnone

/-- `'a\nb'` is taken for `a`. -/
theorem escaped_identity_cut : ¬∀ (constStrings : List Char → Option (List Char)) (l : Literal)
    (v : List Char), classifyIdentity constStrings (.literal l) = .literal v →
      l.value = some (units v) := by
  intro hall
  have hcut := hall (fun _ => none) (.string [.fragment ['a'] (by decide) (by decide),
    .escape (.single 'n' (by decide) (by decide)), .fragment ['b'] (by decide) (by decide)]) ['a'] rfl
  revert hcut
  decide

end LangTs

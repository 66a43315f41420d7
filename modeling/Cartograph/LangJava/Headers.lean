/-
Headers of Java and Kotlin sources (`crates/adapters-lang-java/src/jvm.rs`).

A header is a shebang line, white space, comments and annotations, and then a package clause or
what else the source begins with.  A `Source` is written in these parts, so that its package is
known, and can be anything that either language lets stand there.  A comment ends where the
language says so: in Kotlin after the comments inside it, and a line with any line end.

* `headerFrom_blanks`, `headerFrom_annotation`, `headerFrom_clause` — what the scan does with one
  part;
* `package_header_closed` — no wrong package where every part is sound;
* `slash_comment_default` — a comment that begins with a slash hides the package.
-/
import Cartograph.LangJava.PackageHeader

namespace LangJava

open Sources (isWhitespace)

/-! ### Parts of a header -/

/-- How a line ends. -/
inductive Ending
  | lf | crlf | cr | eof
  deriving DecidableEq

def Ending.text : Ending → List Char
  | lf => ['\n']
  | crlf => ['\r', '\n']
  | cr => ['\r']
  | eof => []

/-- White space, or a comment. -/
inductive Blank
  | space (c : Char)
  | line (body : List Char) (ending : Ending)
  | block (body : List Char)

def Blank.text : Blank → List Char
  | space c => [c]
  | line body ending => '/' :: '/' :: (body ++ ending.text)
  | block body => '/' :: '*' :: (body ++ ['*', '/'])

def blanksText (blanks : List Blank) : List Char := blanks.flatMap Blank.text

/-- A token among the arguments of an annotation; brackets are characters. -/
inductive Token
  | char (c : Char)
  | literal (quote : Char) (content : List Char)
  | raw (content : List Char)
  | blank (b : Blank)

def Token.text : Token → List Char
  | char c => [c]
  | literal quote content => quote :: (content ++ [quote])
  | raw content => '"' :: '"' :: '"' :: (content ++ ['"', '"', '"'])
  | blank b => b.text

def tokensText (tokens : List Token) : List Char := tokens.flatMap Token.text

/-- White space, a comment, or an annotation: its name with the target, and its arguments. -/
inductive Item
  | blank (b : Blank)
  | annotation (name : List Char) (args : Option (List Blank × List Token))

def Item.text : Item → List Char
  | blank b => b.text
  | annotation name none => '@' :: name
  | annotation name (some (gap, group)) => '@' :: (name ++ (blanksText gap ++ tokensText group))

def itemsText (items : List Item) : List Char := items.flatMap Item.text

/-- A part of a package name; an identifier may be quoted by backticks. -/
inductive NamePart
  | plain (identifier : List Char)
  | quoted (identifier : List Char)
  | dot
  | blank (b : Blank)

def NamePart.text : NamePart → List Char
  | plain identifier => identifier
  | quoted identifier => '\x60' :: (identifier ++ ['\x60'])
  | dot => ['.']
  | blank b => b.text

/-- What a part says. -/
def NamePart.says : NamePart → List Char
  | plain identifier => identifier
  | quoted identifier => identifier
  | dot => ['.']
  | blank _ => []

/-- What a source begins with after its comments and annotations. -/
inductive Tail
  | clause (gap : List Blank) (name : List NamePart) (rest : List Char)
  | other (rest : List Char)

def Tail.text : Tail → List Char
  | clause gap name rest =>
    "package".toList ++ (blanksText gap ++ (name.flatMap NamePart.text ++ rest))
  | other rest => rest

structure Source where
  shebang : Option (List Char × Ending)
  items : List Item
  tail : Tail

/-- The text after the shebang line. -/
def Source.body (s : Source) : List Char := itemsText s.items ++ s.tail.text

def Source.text (s : Source) : List Char :=
  match s.shebang with
  | none => s.body
  | some (line, ending) => '#' :: '!' :: (line ++ ending.text ++ s.body)

/-- The package that is declared. -/
def Source.declared (s : Source) : Option (List Char) :=
  match s.tail with
  | .clause _ name _ => some (name.flatMap NamePart.says)
  | .other _ => none

/-- A result that fails closed: the package or unknown, and no package where there is none. -/
def Allowed (declared : Option (List Char)) (header : Header) : Prop :=
  match declared with
  | some p => header = .package p ∨ header = .unknown
  | none => header = .default ∨ header = .unknown

/-! ### Sound parts -/

/-- A line ends with a line feed, or with the text. -/
def Ending.Sound (ending : Ending) (rest : List Char) : Prop :=
  ending = .lf ∨ ending = .crlf ∨ ending = .eof ∧ rest = []

/-- A comment ends at its first line feed, or at the first end mark after its beginning. -/
def Blank.Sound (b : Blank) (rest : List Char) : Prop :=
  match b with
  | .space c => isAsciiSpace c = true
  | .line body ending => '\n' ∉ body ∧ ending.Sound rest
  | .block body => ¬['*', '/'] <:+: '/' :: '*' :: (body ++ ['*'])

def BlanksSound : List Blank → List Char → Prop
  | [], _ => True
  | b :: blanks, rest => b.Sound (blanksText blanks ++ rest) ∧ BlanksSound blanks rest

def isOpening (c : Char) : Bool := c == '(' || c == '[' || c == '{'

def isClosing (c : Char) : Bool := c == ')' || c == ']' || c == '}'

/-- A literal has no quote of its kind, unless escaped. -/
def unquoted (quote : Char) : List Char → Bool
  | [] => true
  | [c] => c != quote && c != '\\'
  | c :: d :: rest =>
    if c = '\\' then unquoted quote rest else c != quote && unquoted quote (d :: rest)

def Token.Sound (token : Token) (rest : List Char) : Prop :=
  match token with
  | .char c => c ≠ '"' ∧ c ≠ '\'' ∧ (c = '/' → rest.head? ≠ some '/' ∧ rest.head? ≠ some '*')
  | .literal quote content => (quote = '"' ∨ quote = '\'') ∧ unquoted quote content = true
      ∧ (quote = '"' → content = [] → rest.head? ≠ some '"')
  | .raw content => ¬['"', '"', '"'] <:+: content ++ ['"', '"']
  | .blank (.space c) => isAsciiSpace c = true
  | .blank (.line body ending) => '\n' ∉ body ∧ (ending = .lf ∨ ending = .crlf)
  | .blank (.block body) => ¬['*', '/'] <:+: body ++ ['*']

/-- The tokens close their brackets with the last one, from some depth on. -/
def Closes : ℕ → List Token → Prop
  | _, [] => False
  | depth, .char c :: tokens =>
    if isOpening c then Closes (depth + 1) tokens
    else if isClosing c then depth = 1 ∧ tokens = [] ∨ 2 ≤ depth ∧ Closes (depth - 1) tokens
    else Closes depth tokens
  | depth, _ :: tokens => Closes depth tokens

def TokensSound : List Token → List Char → Prop
  | [], _ => True
  | token :: tokens, rest => token.Sound (tokensText tokens ++ rest) ∧ TokensSound tokens rest

section Sound

variable (u : Unicode)

/-- A name that is read to its end, or at which the scan gives up: after white space in it, there
is no word, and no comment or annotation. -/
def NameSound (name : List Char) : Prop :=
  (∀ c ∈ name, isAnnotationChar u c = true)
    ∨ ∃ y, ((name.dropWhile (isAnnotationChar u)).dropWhile isAsciiSpace).head? = some y
      ∧ y ≠ '(' ∧ y ≠ '['
      ∧ (((name.dropWhile (isAnnotationChar u)).head? = some y ∧ isAsciiSpace y = false)
        ∨ name.takeWhile (isAnnotationChar u) = []
        ∨ isWordChar u y = false ∧ y ≠ '/' ∧ y ≠ '@')

/-- After a name without arguments there is no bracket, and the name has ended. -/
def EndsName (rest : List Char) : Prop :=
  (∀ c ∈ rest.head?, isAnnotationChar u c = false)
    ∧ (rest.dropWhile isAsciiSpace).head? ≠ some '(' ∧ (rest.dropWhile isAsciiSpace).head? ≠ some '['

def Item.Sound (item : Item) (rest : List Char) : Prop :=
  match item with
  | .blank b => b.Sound rest
  | Item.annotation name none => NameSound u name ∧ EndsName u rest
  | Item.annotation name (some (gap, group)) =>
    NameSound u name ∧ (∀ c ∈ (blanksText gap ++ tokensText group).head?, isAnnotationChar u c = false)
      ∧ BlanksSound gap (tokensText group ++ rest)
      ∧ (∃ c tokens, group = .char c :: tokens ∧ (c = '(' ∨ c = '['))
      ∧ Closes 0 group ∧ TokensSound group rest

def ItemsSound : List Item → List Char → Prop
  | [], _ => True
  | item :: items, rest => item.Sound u (itemsText items ++ rest) ∧ ItemsSound items rest

def Blank.isSpace : Blank → Bool
  | space _ => true
  | _ => false

/-- A part of a name that the scan reads as it is: identifiers of letters, digits and underscores,
dots, blanks and tabs. -/
def NamePart.Read (part : NamePart) : Prop :=
  match part with
  | .plain identifier => ∀ c ∈ identifier, isWordChar u c = true
  | .quoted identifier => ∀ c ∈ identifier, isWordChar u c = true
  | .dot => True
  | .blank (.space c) => c = ' ' ∨ c = '\t'
  | .blank _ => False

def Tail.Sound (tail : Tail) : Prop :=
  match tail with
  | .clause gap name rest =>
    (∀ c ∈ (blanksText gap ++ (name.flatMap NamePart.text ++ rest)).head?, isWordChar u c = false)
      ∧ (∀ b ∈ gap, ∀ c, b = .space c → isAsciiSpace c = true)
      ∧ ((∃ b ∈ gap, b.isSpace = false)
        ∨ (∀ c ∈ ((name.flatMap NamePart.text ++ rest).dropWhile isWhitespace).head?,
            isClauseChar u c = false)
        ∨ (∃ c ∈ (name.flatMap NamePart.text).head?, isWhitespace c = false)
          ∧ (∀ part ∈ name, part.Read u)
          ∧ ∀ c ∈ (rest.dropWhile fun c => ['\x60', ' ', '\t'].contains c).head?,
              isClauseChar u c = false)
  | .other rest =>
    (∀ c ∈ rest.head?, isAsciiSpace c = false ∧ c ≠ '@')
      ∧ startsWith Char.toNat "//".toList rest = false
      ∧ startsWith Char.toNat "/*".toList rest = false
      ∧ (rest.takeWhile (isWordChar u) ≠ "package".toList
        ∨ ∃ c more, rest.drop "package".length = c :: more ∧ isWhitespace c = false
          ∧ isClauseChar u c = false)

structure Source.Sound (s : Source) : Prop where
  shebang : match s.shebang with
    | none => startsWith Char.toNat "#!".toList s.body = false
    | some (line, ending) => '\n' ∉ line ∧ ending.Sound s.body
  items : ItemsSound u s.items s.tail.text
  tail : s.tail.Sound u

end Sound

/-! ### Comments and white space -/

variable {l body content t : List Char} {quote y : Char}

theorem startsWith_iff {needle : List Char} :
    startsWith Char.toNat needle l = true ↔ needle <+: l := by
  have hinj : Function.Injective Char.toNat := fun _ _ h => Char.toNat_inj.mp h
  rw [startsWith, List.isPrefixOf_iff_prefix, List.prefix_map_iff_of_injective hinj]

variable {s rest name : List Char} {c : Char} {depth : ℕ} {p : Char → Bool} {gap : List Blank}

theorem seek_first (needle : List Char) (hne : needle ≠ []) (h : ¬needle <:+: s ++ needle.dropLast)
    (rest : List Char) :
    seek Char.toNat needle (s ++ (needle ++ rest)) = some (needle ++ rest) := by
  induction s with
  | nil =>
    cases needle with
    | nil => exact absurd rfl hne
    | cons n needle =>
      rw [List.nil_append, List.cons_append, seek, ← startsWith]
      exact if_pos (startsWith_iff.mpr (List.prefix_append (n :: needle) rest))
  | cons a s ih =>
    have hlength := @List.length_dropLast _ needle
    have hpos := List.length_pos_iff.mpr hne
    have hstarts : ¬startsWith Char.toNat needle (a :: (s ++ (needle ++ rest))) = true := by
      rw [startsWith_iff]
      intro hprefix
      -- a needle that begins earlier lies before the last character
      have hshort : a :: s ++ needle.dropLast <+: a :: (s ++ (needle ++ rest)) := by
        rw [List.cons_append, List.cons_prefix_cons, List.prefix_append_right_inj]
        exact ⟨rfl, (List.dropLast_prefix needle).trans (List.prefix_append needle rest)⟩
      refine h (List.prefix_of_prefix_length_le hprefix hshort ?_).isInfix
      rw [List.length_append, List.length_cons]
      omega
    rw [List.cons_append, seek, ← startsWith, if_neg hstarts]
    exact ih fun hin => h (hin.trans (List.suffix_cons a _).isInfix)

theorem seek_lineFeed (h : '\n' ∉ body) (rest : List Char) :
    seek Char.toNat "\n".toList (body ++ '\n' :: rest) = some ('\n' :: rest) := by
  refine seek_first ['\n'] (List.cons_ne_nil _ _) ?_ rest
  intro hin
  exact h ((List.append_nil body ▸ hin).subset List.mem_cons_self)

/-! ### Arguments -/

theorem toNat_ne {d : Char} (h : c ≠ d) : c.toNat ≠ d.toNat := fun heq => h (Char.toNat_inj.mp heq)

theorem literalEnd_unquoted (hquote : quote ≠ '\\') (h : unquoted quote content = true)
    (rest : List Char) :
    literalEnd Char.toNat quote.toNat (content ++ quote :: rest) = some rest := by
  have hends : literalEnd Char.toNat quote.toNat (quote :: rest) = some rest := by
    cases rest with
    | nil => exact if_pos rfl
    | cons c rest => rw [literalEnd, if_pos rfl]
  induction content using unquoted.induct with
  | case1 => exact hends
  | case2 c =>
    rw [unquoted, Bool.and_eq_true, bne_iff_ne, bne_iff_ne] at h
    rw [List.cons_append, List.nil_append, literalEnd, if_neg (toNat_ne h.1), if_neg (toNat_ne h.2),
      hends]
  | case3 d content ih =>
    rw [unquoted, if_pos rfl] at h
    rw [List.cons_append, List.cons_append, literalEnd, if_neg (toNat_ne hquote.symm), if_pos rfl]
    exact ih h
  | case4 c d content hslash ih =>
    rw [unquoted, if_neg hslash, Bool.and_eq_true, bne_iff_ne] at h
    rw [List.cons_append, List.cons_append, literalEnd, if_neg (toNat_ne h.1),
      if_neg (toNat_ne hslash)]
    exact ih h.2

theorem groupStep_plain (depth : ℕ) (hopening : isOpening c = false)
    (hclosing : isClosing c = false) (hdouble : c ≠ '"') (hsingle : c ≠ '\'')
    (hslash : c = '/' → rest.head? ≠ some '/' ∧ rest.head? ≠ some '*') :
    groupStep Char.toNat depth c rest = some (rest, depth) := by
  have hmark : ∀ d, rest.head? ≠ some d ∨ c ≠ '/' →
      startsWith Char.toNat ['/', d] (c :: rest) = false := by
    intro d h
    rw [Bool.eq_false_iff, Ne, startsWith_iff, List.cons_prefix_cons]
    rintro ⟨rfl, t, rfl⟩
    exact h.elim (fun h => h rfl) fun h => h rfl
  have hopening : ¬(c.toNat = '('.toNat ∨ c.toNat = '['.toNat ∨ c.toNat = '{'.toNat) := by
    simpa only [isOpening, Bool.or_eq_false_iff, beq_eq_false_iff_ne, Char.toNat_inj, not_or,
      and_assoc] using hopening
  have hclosing : ¬(c.toNat = ')'.toNat ∨ c.toNat = ']'.toNat ∨ c.toNat = '}'.toNat) := by
    simpa only [isClosing, Bool.or_eq_false_iff, beq_eq_false_iff_ne, Char.toNat_inj, not_or,
      and_assoc] using hclosing
  have hquote : ¬(c.toNat = '"'.toNat ∨ c.toNat = '\''.toNat) :=
    not_or.mpr ⟨toNat_ne hdouble, toNat_ne hsingle⟩
  have hline : startsWith Char.toNat "//".toList (c :: rest) = false := by
    by_cases hc : c = '/'
    · exact hmark '/' (.inl (hslash hc).1)
    · exact hmark '/' (.inr hc)
  have hblock : startsWith Char.toNat "/*".toList (c :: rest) = false := by
    by_cases hc : c = '/'
    · exact hmark '*' (.inl (hslash hc).2)
    · exact hmark '*' (.inr hc)
  have hraw : startsWith Char.toNat "\"\"\"".toList (c :: rest) = false :=
    startsWith_of_ne Char.toNat (toNat_ne hdouble.symm)
  rw [groupStep, hraw, if_neg Bool.false_ne_true, if_neg hopening, if_neg hclosing, if_neg hquote,
    hline, if_neg Bool.false_ne_true, hblock, if_neg Bool.false_ne_true]

theorem groupStep_opening (depth : ℕ) (h : isOpening c = true) (rest : List Char) :
    groupStep Char.toNat depth c rest = some (rest, depth + 1) := by
  have hopening : c.toNat = '('.toNat ∨ c.toNat = '['.toNat ∨ c.toNat = '{'.toNat := by
    simpa only [isOpening, Bool.or_eq_true, beq_iff_eq, Char.toNat_inj, or_assoc] using h
  have hdouble : c ≠ '"' := by
    rintro rfl
    exact absurd h (by decide)
  have hraw : startsWith Char.toNat "\"\"\"".toList (c :: rest) = false :=
    startsWith_of_ne Char.toNat (toNat_ne hdouble.symm)
  rw [groupStep, hraw, if_neg Bool.false_ne_true, if_pos hopening]

theorem groupStep_closing (hdepth : 0 < depth) (h : isClosing c = true) (rest : List Char) :
    groupStep Char.toNat depth c rest = some (rest, depth - 1) := by
  have hclosing : c.toNat = ')'.toNat ∨ c.toNat = ']'.toNat ∨ c.toNat = '}'.toNat := by
    simpa only [isClosing, Bool.or_eq_true, beq_iff_eq, Char.toNat_inj, or_assoc] using h
  have hopening : ¬(c.toNat = '('.toNat ∨ c.toNat = '['.toNat ∨ c.toNat = '{'.toNat) := by
    obtain hc | hc | hc := hclosing
    all_goals rw [hc]; decide
  have hdouble : c ≠ '"' := by
    rintro rfl
    exact absurd h (by decide)
  have hraw : startsWith Char.toNat "\"\"\"".toList (c :: rest) = false :=
    startsWith_of_ne Char.toNat (toNat_ne hdouble.symm)
  rw [groupStep, hraw, if_neg Bool.false_ne_true, if_neg hopening, if_pos hclosing,
    if_neg hdepth.ne']

theorem groupStep_literal (depth : ℕ) (h : (Token.literal quote content).Sound rest) :
    groupStep Char.toNat depth quote (content ++ quote :: rest) = some (rest, depth) := by
  obtain ⟨hquote, hcontent, hempty⟩ := h
  -- an empty literal with a quote behind it would begin a raw one
  have hraw : startsWith Char.toNat "\"\"\"".toList (quote :: (content ++ quote :: rest)) = false := by
    rw [Bool.eq_false_iff, Ne, startsWith_iff]
    intro hprefix
    obtain ⟨rfl, hprefix⟩ := List.cons_prefix_cons.mp hprefix
    cases content with
    | nil =>
      obtain ⟨-, hprefix⟩ := List.cons_prefix_cons.mp hprefix
      obtain ⟨more, rfl⟩ := hprefix
      exact hempty rfl rfl rfl
    | cons c content =>
      obtain ⟨rfl, -⟩ := List.cons_prefix_cons.mp hprefix
      cases content with
      | nil => exact absurd hcontent (by decide)
      | cons d content =>
        rw [unquoted, if_neg (by decide), Bool.and_eq_true, bne_iff_ne] at hcontent
        exact hcontent.1 rfl
  have hslash : quote ≠ '\\' := by
    rintro rfl
    exact absurd hquote (by decide)
  have hliteral : quote.toNat = '"'.toNat ∨ quote.toNat = '\''.toNat := by
    obtain rfl | rfl := hquote
    · exact .inl rfl
    · exact .inr rfl
  have hopening : ¬(quote.toNat = '('.toNat ∨ quote.toNat = '['.toNat ∨ quote.toNat = '{'.toNat) := by
    obtain rfl | rfl := hquote
    all_goals decide
  have hclosing : ¬(quote.toNat = ')'.toNat ∨ quote.toNat = ']'.toNat ∨ quote.toNat = '}'.toNat) := by
    obtain rfl | rfl := hquote
    all_goals decide
  rw [groupStep, hraw, if_neg Bool.false_ne_true, if_neg hopening, if_neg hclosing, if_pos hliteral,
    literalEnd_unquoted hslash hcontent]
  rfl

theorem balancedEndFrom_of_step {found : List Char}
    (h : groupStep Char.toNat depth c rest = some (found, depth)) :
    balancedEndFrom Char.toNat depth (c :: rest) = balancedEndFrom Char.toNat depth found := by
  rw [balancedEndFrom_cons, h]
  exact if_neg fun h => absurd h.1 (Nat.ne_of_gt h.2)

theorem balancedEndFrom_space (depth : ℕ) (h : isAsciiSpace c = true) (rest : List Char) :
    balancedEndFrom Char.toNat depth (c :: rest) = balancedEndFrom Char.toNat depth rest := by
  have hne : ∀ d : Char, isAsciiSpace d = false → c ≠ d := by
    rintro d hd rfl
    exact absurd h (Bool.eq_false_iff.mp hd)
  refine balancedEndFrom_of_step (groupStep_plain depth ?_ ?_ (hne _ rfl) (hne _ rfl) ?_)
  · simp only [isOpening, Bool.or_eq_false_iff, beq_eq_false_iff_ne]
    exact ⟨⟨hne _ rfl, hne _ rfl⟩, hne _ rfl⟩
  · simp only [isClosing, Bool.or_eq_false_iff, beq_eq_false_iff_ne]
    exact ⟨⟨hne _ rfl, hne _ rfl⟩, hne _ rfl⟩
  · exact fun hc => absurd hc (hne _ rfl)

theorem balancedEndFrom_token (depth : ℕ) {token : Token} (h : token.Sound rest)
    (hbracket : ∀ c, token = .char c → isOpening c = false ∧ isClosing c = false) :
    balancedEndFrom Char.toNat depth (token.text ++ rest)
      = balancedEndFrom Char.toNat depth rest := by
  cases token with
  | char c =>
    obtain ⟨hopening, hclosing⟩ := hbracket c rfl
    obtain ⟨hdouble, hsingle, hslash⟩ := h
    exact balancedEndFrom_of_step (groupStep_plain depth hopening hclosing hdouble hsingle hslash)
  | literal quote content =>
    rw [Token.text, List.cons_append, List.append_assoc]
    exact balancedEndFrom_of_step (groupStep_literal depth h)
  | raw content =>
    have hfound := seek_first ['"', '"', '"'] (List.cons_ne_nil _ _) h rest
    rw [← List.append_assoc] at hfound
    refine balancedEndFrom_of_step (c := '"') ?_
    show (seek Char.toNat ['"', '"', '"'] (content ++ ['"', '"', '"'] ++ rest)).map
      (fun found => (found.drop 3, depth)) = some (rest, depth)
    rw [hfound]
    rfl
  | blank b =>
    cases b with
    | space c => exact balancedEndFrom_space depth h rest
    | line body ending =>
      obtain ⟨hbody, hending⟩ := h
      -- the scan goes on at the line feed
      have hline : ∀ body, '\n' ∉ body →
          balancedEndFrom Char.toNat depth ('/' :: '/' :: (body ++ '\n' :: rest))
            = balancedEndFrom Char.toNat depth rest := by
        intro body hbody
        have hbody' : '\n' ∉ '/' :: body := by
          rw [List.mem_cons, not_or]
          exact ⟨by decide, hbody⟩
        have hstep : groupStep Char.toNat depth '/' ('/' :: (body ++ '\n' :: rest))
            = some ('\n' :: rest, depth) := by
          show (seek Char.toNat "\n".toList ('/' :: body ++ '\n' :: rest)).map
            (fun found => (found, depth)) = _
          rw [seek_lineFeed hbody']
          rfl
        rw [balancedEndFrom_of_step hstep]
        exact balancedEndFrom_space depth rfl rest
      obtain rfl | rfl := hending
      · show balancedEndFrom Char.toNat depth ('/' :: '/' :: (body ++ ['\n'] ++ rest)) = _
        rw [List.append_assoc]
        exact hline body hbody
      · have hbody' : '\n' ∉ body ++ ['\r'] := by
          rw [List.mem_append, not_or]
          exact ⟨hbody, by decide⟩
        show balancedEndFrom Char.toNat depth ('/' :: '/' :: (body ++ ['\r', '\n'] ++ rest)) = _
        have htext : body ++ ['\r', '\n'] ++ rest = body ++ ['\r'] ++ '\n' :: rest := by
          rw [List.append_assoc, List.append_assoc]
          rfl
        rw [htext]
        exact hline _ hbody'
    | block body =>
      have hfound := seek_first ['*', '/'] (List.cons_ne_nil _ _) h rest
      rw [← List.append_assoc] at hfound
      refine balancedEndFrom_of_step (c := '/') ?_
      show (seek Char.toNat ['*', '/'] (body ++ ['*', '/'] ++ rest)).map
        (fun found => (found.drop 2, depth)) = some (rest, depth)
      rw [hfound]
      rfl

theorem balancedEndFrom_tokens {tokens : List Token} (hcloses : Closes depth tokens)
    (h : TokensSound tokens rest) :
    balancedEndFrom Char.toNat depth (tokensText tokens ++ rest) = some rest := by
  induction tokens generalizing depth with
  | nil => exact hcloses.elim
  | cons token tokens ih =>
    obtain ⟨htoken, hrest⟩ := h
    rw [tokensText, List.flatMap_cons, List.append_assoc]
    have hskip : (∀ c, token = .char c → isOpening c = false ∧ isClosing c = false) →
        Closes depth tokens →
        balancedEndFrom Char.toNat depth (token.text ++ (tokensText tokens ++ rest)) = some rest := by
      intro hbracket hcloses
      rw [balancedEndFrom_token depth htoken hbracket]
      exact ih hcloses hrest
    cases token with
    | char c =>
      rw [Closes] at hcloses
      by_cases hopening : isOpening c = true
      · rw [if_pos hopening] at hcloses
        show balancedEndFrom Char.toNat depth (c :: (tokensText tokens ++ rest)) = _
        rw [balancedEndFrom_cons, groupStep_opening depth hopening]
        dsimp only
        rw [if_neg fun h => absurd h.1 (Nat.succ_ne_zero depth)]
        exact ih hcloses hrest
      · rw [if_neg hopening] at hcloses
        by_cases hclosing : isClosing c = true
        · rw [if_pos hclosing] at hcloses
          have hpos : 0 < depth := by omega
          show balancedEndFrom Char.toNat depth (c :: (tokensText tokens ++ rest)) = _
          rw [balancedEndFrom_cons, groupStep_closing hpos hclosing]
          dsimp only
          obtain ⟨rfl, rfl⟩ | ⟨hdepth, hcloses⟩ := hcloses
          · rfl
          · rw [if_neg (by omega)]
            exact ih hcloses hrest
        · rw [if_neg hclosing] at hcloses
          refine hskip ?_ hcloses
          rintro d ⟨⟩
          exact ⟨Bool.eq_false_iff.mpr hopening, Bool.eq_false_iff.mpr hclosing⟩
    | literal quote content | raw content | blank b => exact hskip (fun c h => by cases h) hcloses

section Header

variable (u : Unicode)

theorem headerFrom_congr (h : scanItem u s = scanItem u t) :
    headerFrom u s = headerFrom u t := by
  rw [headerFrom_eq, headerFrom_eq, h]

theorem headerFrom_space (h : isAsciiSpace c = true) (rest : List Char) :
    headerFrom u (c :: rest) = headerFrom u rest := by
  refine headerFrom_congr u ?_
  rw [scanItem, scanItem, List.dropWhile_cons_of_pos h]

theorem headerFrom_of_scanItem (h : scanItem u s = some (.inr t)) :
    headerFrom u s = headerFrom u t := by
  rw [headerFrom_eq, h]

theorem headerFrom_ending {ending : Ending} (h : ending.Sound rest) (hbody : '\n' ∉ body) :
    headerFrom u ((seek Char.toNat "\n".toList (body ++ (ending.text ++ rest))).getD [])
      = headerFrom u rest := by
  obtain rfl | rfl | ⟨rfl, rfl⟩ := h
  · show headerFrom u ((seek Char.toNat "\n".toList (body ++ '\n' :: rest)).getD []) = _
    rw [seek_lineFeed hbody]
    exact headerFrom_space u rfl rest
  · have hbody' : '\n' ∉ body ++ ['\r'] := by
      rw [List.mem_append, not_or]
      exact ⟨hbody, by decide⟩
    have hfound := seek_lineFeed hbody' rest
    rw [List.append_assoc] at hfound
    show headerFrom u ((seek Char.toNat "\n".toList (body ++ '\r' :: '\n' :: rest)).getD []) = _
    rw [show body ++ '\r' :: '\n' :: rest = body ++ (['\r'] ++ '\n' :: rest) from rfl, hfound]
    exact headerFrom_space u rfl rest
  · have hnone : seek Char.toNat "\n".toList (body ++ (Ending.eof.text ++ [])) = none := by
      show seek Char.toNat "\n".toList (body ++ []) = none
      rw [List.append_nil]
      cases hseek : seek Char.toNat "\n".toList body with
      | none => rfl
      | some found =>
        have hmem := (startsWith_iff.mp (startsWith_of_seek hseek)).subset List.mem_cons_self
        exact absurd ((suffix_seek Char.toNat hseek).subset hmem) hbody
    rw [hnone]
    rfl

theorem headerFrom_blank {b : Blank} (h : b.Sound rest) :
    headerFrom u (b.text ++ rest) = headerFrom u rest := by
  cases b with
  | space c => exact headerFrom_space u h rest
  | line body ending =>
    obtain ⟨hbody, hending⟩ := h
    have hbody' : '\n' ∉ '/' :: '/' :: body := by
      rw [List.mem_cons, List.mem_cons, not_or, not_or]
      exact ⟨by decide, by decide, hbody⟩
    rw [← headerFrom_ending u hending hbody']
    refine headerFrom_of_scanItem u ?_
    show scanItem u ('/' :: '/' :: (body ++ ending.text ++ rest)) = _
    rw [scanItem, List.append_assoc]
    rfl
  | block body =>
    have hfound : seek Char.toNat "*/".toList ('/' :: '*' :: (body ++ (['*', '/'] ++ rest)))
        = some (['*', '/'] ++ rest) :=
      seek_first ['*', '/'] (s := '/' :: '*' :: body) (List.cons_ne_nil _ _) h rest
    refine headerFrom_of_scanItem u ?_
    show scanItem u ('/' :: '*' :: (body ++ ['*', '/'] ++ rest)) = _
    have hdrop (t : List Char) : ('/' :: t).dropWhile isAsciiSpace = '/' :: t := rfl
    have hline (t : List Char) : startsWith Char.toNat "//".toList ('/' :: '*' :: t) = false := rfl
    have hblock (t : List Char) : startsWith Char.toNat "/*".toList ('/' :: '*' :: t) = true := rfl
    simp only [scanItem, List.append_assoc, hdrop, hline, hblock, hfound]
    rfl

theorem headerFrom_blanks {blanks : List Blank} (h : BlanksSound blanks rest) :
    headerFrom u (blanksText blanks ++ rest) = headerFrom u rest := by
  induction blanks with
  | nil => rfl
  | cons b blanks ih =>
    rw [← ih h.2, ← headerFrom_blank u h.1, blanksText, blanksText, List.flatMap_cons,
      List.append_assoc]

/-! ### Annotations -/

theorem takeWhile_stops (h : ∀ c ∈ name, p c = true) (hrest : ∀ c ∈ rest.head?, p c = false) :
    (name ++ rest).takeWhile p = name ∧ (name ++ rest).dropWhile p = rest := by
  rw [List.takeWhile_append_of_pos h, List.dropWhile_append_of_pos h]
  cases rest with
  | nil => exact ⟨List.append_nil name, rfl⟩
  | cons c rest =>
    have hc : ¬p c = true := Bool.eq_false_iff.mp (hrest c rfl)
    rw [List.takeWhile_cons_of_neg hc, List.dropWhile_cons_of_neg hc]
    exact ⟨List.append_nil name, rfl⟩

theorem isAlphanumeric_of_ascii (hc : c.toNat < 128) (h : c.isAlphanum = false) :
    u.isAlphanumeric c = false := by rw [u.ascii c hc, h]

theorem headerFrom_mark (hspace : isAsciiSpace y = false) (hword : isWordChar u y = false)
    (hslash : y ≠ '/') (hat : y ≠ '@') :
    headerFrom u (y :: rest) = some .unknown := by
  have hclause : clause u (y :: rest) = .unknown := by
    rw [clause, List.takeWhile_cons_of_neg (Bool.eq_false_iff.mp hword)]
    rfl
  rw [headerFrom_eq, scanItem, List.dropWhile_cons_of_neg (Bool.eq_false_iff.mp hspace)]
  dsimp only
  rw [show "//".toList = ['/', '/'] from rfl, show "/*".toList = ['/', '*'] from rfl,
    startsWith_of_ne Char.toNat (toNat_ne hslash.symm), if_neg Bool.false_ne_true,
    startsWith_of_ne Char.toNat (toNat_ne hslash.symm), if_neg Bool.false_ne_true, if_neg hat,
    hclause]

theorem headerFrom_dropWhile (text : List Char) :
    headerFrom u (text.dropWhile isAsciiSpace) = headerFrom u text := by
  refine headerFrom_congr u ?_
  rw [scanItem, scanItem, List.dropWhile_idempotent]

theorem dropWhile_head (h : l.dropWhile p = c :: rest) : p c = false := by
  have hhead := List.head?_dropWhile_not p l
  rw [h] at hhead
  exact hhead

theorem scanItem_annotation (tail : List Char) :
    scanItem u ('@' :: tail) = scanAnnotation u tail := rfl

theorem headerFrom_bare {tail after probe : List Char}
    (hafter : tail.dropWhile (isAnnotationChar u) = after)
    (hprobe : after.dropWhile isAsciiSpace = probe)
    (hparen : probe.head? ≠ some '(') (hbracket : probe.head? ≠ some '[') :
    headerFrom u ('@' :: tail) =
      if tail.takeWhile (isAnnotationChar u) = [] ∨ probe.length = after.length ∧ probe ≠ [] then
        some .unknown
      else headerFrom u after := by
  have hscan := scanAnnotation_eq u tail
  dsimp only at hscan
  rw [hafter, hprobe, if_neg (not_or.mpr ⟨hparen, hbracket⟩)] at hscan
  rw [headerFrom_eq, scanItem_annotation, hscan]
  by_cases hstop : tail.takeWhile (isAnnotationChar u) = []
      ∨ probe.length = after.length ∧ probe ≠ []
  · rw [if_pos hstop, if_pos hstop]
  · rw [if_neg hstop, if_neg hstop]

theorem headerFrom_unread
    (hy : ((name.dropWhile (isAnnotationChar u)).dropWhile isAsciiSpace).head? = some y)
    (hparen : y ≠ '(') (hbracket : y ≠ '[')
    (hname : (name.dropWhile (isAnnotationChar u)).head? = some y ∧ isAsciiSpace y = false
      ∨ name.takeWhile (isAnnotationChar u) = []
      ∨ isWordChar u y = false ∧ y ≠ '/' ∧ y ≠ '@')
    (rest : List Char) : headerFrom u ('@' :: (name ++ rest)) = some .unknown := by
  obtain ⟨more, hprobe⟩ := List.head?_eq_some_iff.mp hy
  have hspace : isAsciiSpace y = false := dropWhile_head hprobe
  have hstopped : name.dropWhile (isAnnotationChar u) ≠ [] := by
    intro hnil
    rw [hnil] at hprobe
    cases hprobe
  have hafter : (name ++ rest).dropWhile (isAnnotationChar u)
      = name.dropWhile (isAnnotationChar u) ++ rest := by
    rw [List.dropWhile_append, if_neg (by rwa [List.isEmpty_iff])]
  have hrest : (name.dropWhile (isAnnotationChar u) ++ rest).dropWhile isAsciiSpace
      = y :: (more ++ rest) := by
    rw [List.dropWhile_append, hprobe]
    rfl
  rw [headerFrom_bare u hafter hrest (fun h => hparen (Option.some.inj h))
    fun h => hbracket (Option.some.inj h)]
  obtain ⟨hhead, -⟩ | hname | ⟨hword, hslash, hat⟩ := hname
  · -- nothing between the name and what is not understood
    obtain ⟨more', hhead⟩ := List.head?_eq_some_iff.mp hhead
    rw [hhead, List.cons_append, List.dropWhile_cons_of_neg (Bool.eq_false_iff.mp hspace)] at hrest
    have hlength : (y :: (more ++ rest)).length
        = (name.dropWhile (isAnnotationChar u) ++ rest).length := by
      rw [hhead, List.cons_append, hrest]
    rw [if_pos (.inr ⟨hlength, List.cons_ne_nil _ _⟩)]
  · have hnone : (name ++ rest).takeWhile (isAnnotationChar u) = [] := by
      rw [List.takeWhile_append, hname, if_neg]
      intro hlength
      have hnil : name = [] := List.length_eq_zero_iff.mp hlength.symm
      rw [hnil] at hstopped
      exact hstopped rfl
    rw [if_pos (.inl hnone)]
  · split
    · rfl
    · rw [← headerFrom_dropWhile, hrest]
      exact headerFrom_mark u hspace hword hslash hat

theorem isAsciiSpace_of_sound (h : BlanksSound gap rest) :
    ∀ b ∈ gap, ∀ c, b = .space c → isAsciiSpace c = true := by
  induction gap with
  | nil => exact fun b hb => absurd hb List.not_mem_nil
  | cons b gap ih =>
    rw [List.forall_mem_cons]
    refine ⟨?_, ih h.2⟩
    rintro c rfl
    exact h.1

theorem dropWhile_gap (hslash : p '/' = false) (h : ∀ b ∈ gap, ∀ c, b = .space c → p c = true)
    (rest : List Char) :
    (∀ b ∈ gap, b.isSpace = true) ∧ (blanksText gap ++ rest).dropWhile p = rest.dropWhile p
      ∨ ((blanksText gap ++ rest).dropWhile p).head? = some '/' := by
  have hstop : ∀ rest, (('/' :: rest).dropWhile p).head? = some '/' := by
    intro rest
    rw [List.dropWhile_cons_of_neg (Bool.eq_false_iff.mp hslash), List.head?_cons]
  induction gap with
  | nil => exact .inl ⟨fun b hb => absurd hb List.not_mem_nil, rfl⟩
  | cons b gap ih =>
    obtain ⟨hb, hgap⟩ := List.forall_mem_cons.mp h
    rw [blanksText, List.flatMap_cons, List.append_assoc]
    cases b with
    | space c =>
      have hdrop : ([c] ++ (blanksText gap ++ rest)).dropWhile p
          = (blanksText gap ++ rest).dropWhile p := List.dropWhile_cons_of_pos (hb c rfl)
      rw [List.forall_mem_cons]
      show (_ ∧ ([c] ++ (blanksText gap ++ rest)).dropWhile p = _)
        ∨ (([c] ++ (blanksText gap ++ rest)).dropWhile p).head? = _
      rw [hdrop]
      obtain ⟨hspaces, hrest⟩ | hcomment := ih hgap
      · exact .inl ⟨⟨rfl, hspaces⟩, hrest⟩
      · exact .inr hcomment
    | line body ending | block body => exact .inr (hstop _)

theorem headerFrom_args {group : List Token} (hname : ∀ c ∈ name, isAnnotationChar u c = true)
    (h : ( Item.annotation name (some (gap, group))).Sound u rest) :
    headerFrom u ('@' :: (name ++ (blanksText gap ++ tokensText group ++ rest))) = some .unknown
      ∨ headerFrom u ('@' :: (name ++ (blanksText gap ++ tokensText group ++ rest)))
        = headerFrom u rest := by
  obtain ⟨-, hends, hgap, ⟨c, tokens, hgroup, hc⟩, hcloses, htokens⟩ := h
  have hends : ∀ c ∈ (blanksText gap ++ tokensText group ++ rest).head?,
      isAnnotationChar u c = false := by
    have hne : blanksText gap ++ tokensText group ≠ [] := by
      rw [hgroup]
      exact List.append_ne_nil_of_right_ne_nil _ (List.cons_ne_nil c (tokensText tokens))
    rwa [List.head?_append_of_ne_nil _ hne]
  have htext : tokensText group ++ rest = c :: (tokensText tokens ++ rest) := by
    rw [hgroup]
    rfl
  have hspace : isAsciiSpace c = false := by
    obtain rfl | rfl := hc
    all_goals rfl
  have hopen : (tokensText group ++ rest).dropWhile isAsciiSpace = tokensText group ++ rest := by
    rw [htext]
    exact List.dropWhile_cons_of_neg (Bool.eq_false_iff.mp hspace)
  obtain ⟨-, hafter⟩ := takeWhile_stops hname hends
  rw [List.append_assoc] at hafter ⊢
  obtain ⟨-, hprobe⟩ | hcomment :=
    dropWhile_gap (p := isAsciiSpace) rfl (isAsciiSpace_of_sound hgap) (tokensText group ++ rest)
  · -- the group is read
    rw [hopen] at hprobe
    have hhead : (tokensText group ++ rest).head? = some '('
        ∨ (tokensText group ++ rest).head? = some '[' := by
      rw [htext, List.head?_cons, Option.some_inj, Option.some_inj]
      exact hc
    have hscan := scanAnnotation_eq u (name ++ (blanksText gap ++ (tokensText group ++ rest)))
    dsimp only at hscan
    rw [hafter, hprobe, if_pos hhead, balancedEnd, balancedEndFrom_tokens hcloses htokens] at hscan
    exact .inr (headerFrom_of_scanItem u hscan)
  · -- a comment hides the group
    have hparen : ((blanksText gap ++ (tokensText group ++ rest)).dropWhile isAsciiSpace).head?
        ≠ some '(' := by
      rw [hcomment]
      decide
    have hbracket : ((blanksText gap ++ (tokensText group ++ rest)).dropWhile isAsciiSpace).head?
        ≠ some '[' := by
      rw [hcomment]
      decide
    have hword : isWordChar u c = false := by
      rw [isWordChar]
      obtain rfl | rfl := hc
      · rw [isAlphanumeric_of_ascii u (by decide) (by decide)]
        rfl
      · rw [isAlphanumeric_of_ascii u (by decide) (by decide)]
        rfl
    have hmark : c ≠ '/' ∧ c ≠ '@' := by
      obtain rfl | rfl := hc
      all_goals decide
    rw [headerFrom_bare u hafter rfl hparen hbracket, headerFrom_blanks u hgap, htext,
      headerFrom_mark u hspace hword hmark.1 hmark.2, ite_self]
    exact .inl rfl

theorem headerFrom_annotation {item : Item} (h : item.Sound u rest) :
    headerFrom u (item.text ++ rest) = some .unknown
      ∨ headerFrom u (item.text ++ rest) = headerFrom u rest := by
  have hunread : ∀ {name : List Char}, NameSound u name → (∀ c ∈ name, isAnnotationChar u c = true)
      ∨ ∀ rest, headerFrom u ('@' :: (name ++ rest)) = some .unknown := by
    rintro name (hname | ⟨y, hy, hparen, hbracket, hname⟩)
    · exact .inl hname
    · exact .inr (headerFrom_unread u hy hparen hbracket hname)
  cases item with
  | blank b => exact .inr (headerFrom_blank u h)
  | annotation name args =>
    cases args with
    | none =>
      obtain hname | hunknown := hunread h.1
      · obtain ⟨-, hends, hparen, hbracket⟩ := h
        have hafter := (takeWhile_stops hname hends).2
        show headerFrom u ('@' :: (name ++ rest)) = some .unknown
          ∨ headerFrom u ('@' :: (name ++ rest)) = headerFrom u rest
        rw [headerFrom_bare u hafter rfl hparen hbracket]
        split
        · exact .inl rfl
        · exact .inr rfl
      · exact .inl (hunknown rest)
    | some args =>
      obtain ⟨gap, group⟩ := args
      have htext : ( Item.annotation name (some (gap, group))).text ++ rest
          = '@' :: (name ++ (blanksText gap ++ tokensText group ++ rest)) := by
        rw [Item.text, List.cons_append, List.append_assoc]
      rw [htext]
      obtain hname | hunknown := hunread h.1
      · exact headerFrom_args u hname h
      · exact .inl (hunknown _)

theorem headerFrom_items {items : List Item} (h : ItemsSound u items rest) :
    headerFrom u (itemsText items ++ rest) = some .unknown
      ∨ headerFrom u (itemsText items ++ rest) = headerFrom u rest := by
  induction items with
  | nil => exact .inr rfl
  | cons item items ih =>
    rw [itemsText, List.flatMap_cons, List.append_assoc]
    obtain hunknown | heq := headerFrom_annotation u h.1
    · exact .inl hunknown
    · have hrest := ih h.2
      rw [← heq] at hrest
      exact hrest

/-! ### The package clause -/

theorem isWordChar_package : ∀ c ∈ "package".toList, isWordChar u c = true := by
  have hletters : "package".toList.all (fun c => c.toNat < 128 && c.isAlphanum) = true := rfl
  intro c hc
  have hletter := List.all_eq_true.mp hletters c hc
  rw [Bool.and_eq_true, decide_eq_true_eq] at hletter
  rw [isWordChar, u.ascii c hletter.1, hletter.2, Bool.true_or]

theorem not_isWordChar (hc : c.toNat < 128) (h : c.isAlphanum = false) (hne : c ≠ '_') :
    isWordChar u c = false := by
  rw [isWordChar, isAlphanumeric_of_ascii u hc h, Bool.false_or, beq_eq_false_iff_ne]
  exact hne

theorem isClauseChar_of_isWordChar (h : isWordChar u c = true) :
    isClauseChar u c = true := by
  rw [isWordChar, Bool.or_eq_true, beq_iff_eq] at h
  rw [isClauseChar, Bool.or_eq_true]
  obtain hc | rfl := h
  · exact .inl hc
  · exact .inr rfl

/-- The name after a package keyword. -/
def clauseName (rest : List Char) : List Char :=
  ((rest.dropWhile isWhitespace).takeWhile (isClauseChar u)).filter
    fun c => !(['\x60', ' ', '\t'].contains c)

theorem headerFrom_package (h : ∀ c ∈ rest.head?, isWordChar u c = false) :
    headerFrom u ("package".toList ++ rest)
      = some (if (clauseName u rest).isEmpty then .unknown else .package (clauseName u rest)) := by
  have hword := (takeWhile_stops (isWordChar_package u) h).1
  have hscan : scanItem u ("package".toList ++ rest)
      = some (.inl (clause u ("package".toList ++ rest))) := rfl
  rw [headerFrom_eq, hscan, clause, hword, if_pos rfl]
  rfl

theorem headerFrom_nameless (h : ∀ c ∈ rest.head?, isWordChar u c = false)
    (hname : ∀ c ∈ (rest.dropWhile isWhitespace).head?, isClauseChar u c = false) :
    headerFrom u ("package".toList ++ rest) = some .unknown := by
  have hnone : (rest.dropWhile isWhitespace).takeWhile (isClauseChar u) = [] :=
    (takeWhile_stops (fun c (hc : c ∈ []) => absurd hc List.not_mem_nil) hname).1
  rw [headerFrom_package u h, clauseName, hnone]
  rfl

theorem isWhitespace_of_isAsciiSpace (h : isAsciiSpace c = true) :
    isWhitespace c = true := by
  simp only [isAsciiSpace, Bool.or_eq_true, beq_iff_eq] at h
  obtain (((rfl | rfl) | rfl) | hc) | rfl := h
  · rfl
  · rfl
  · rfl
  · rw [isWhitespace, hc]
    rfl
  · rfl

theorem NamePart.filter_text {part : NamePart} (h : part.Read u) :
    (∀ c ∈ part.text, isClauseChar u c = true)
      ∧ part.text.filter (fun c => !(['\x60', ' ', '\t'].contains c)) = part.says := by
  have hkept : ∀ identifier : List Char, (∀ c ∈ identifier, isWordChar u c = true) →
      identifier.filter (fun c => !(['\x60', ' ', '\t'].contains c)) = identifier := by
    intro identifier hword
    rw [List.filter_eq_self]
    intro c hc
    rw [Bool.not_eq_true', Bool.eq_false_iff, Ne, List.contains_iff_mem]
    intro hmem
    have hnot : isWordChar u c = false := by
      simp only [List.mem_cons, List.not_mem_nil, or_false] at hmem
      obtain rfl | rfl | rfl := hmem
      all_goals exact not_isWordChar u (by decide) (by decide) (by decide)
    exact absurd (hword c hc) (Bool.eq_false_iff.mp hnot)
  have hmark : ∀ c : Char, ['.', '_', '\x60', ' ', '\t'].contains c = true →
      isClauseChar u c = true := by
    intro c hc
    rw [isClauseChar, hc, Bool.or_true]
  cases part with
  | plain identifier =>
    exact ⟨fun c hc => isClauseChar_of_isWordChar u (h c hc), hkept identifier h⟩
  | quoted identifier =>
    constructor
    · intro c hc
      rw [text, List.mem_cons, List.mem_append, List.mem_singleton] at hc
      obtain rfl | hc | rfl := hc
      · exact hmark _ rfl
      · exact isClauseChar_of_isWordChar u (h c hc)
      · exact hmark _ rfl
    · rw [text, List.filter_cons_of_neg (by decide), List.filter_append, hkept identifier h]
      exact List.append_nil identifier
  | dot =>
    refine ⟨?_, rfl⟩
    intro c hc
    rw [List.mem_singleton.mp hc]
    exact hmark _ rfl
  | blank b =>
    cases b with
    | space c =>
      obtain rfl | rfl := h
      all_goals
        refine ⟨?_, rfl⟩
        intro d hd
        rw [List.mem_singleton.mp hd]
        exact hmark _ rfl
    | line body ending => exact h.elim
    | block body => exact h.elim

theorem filter_parts {name : List NamePart} (h : ∀ part ∈ name, part.Read u) :
    (∀ c ∈ name.flatMap NamePart.text, isClauseChar u c = true)
      ∧ (name.flatMap NamePart.text).filter (fun c => !(['\x60', ' ', '\t'].contains c))
        = name.flatMap NamePart.says := by
  constructor
  · intro c hc
    obtain ⟨part, hpart, hc⟩ := List.mem_flatMap.mp hc
    exact (NamePart.filter_text u (h part hpart)).1 c hc
  · induction name with
    | nil => rfl
    | cons part name ih =>
      obtain ⟨hpart, hname⟩ := List.forall_mem_cons.mp h
      rw [List.flatMap_cons, List.flatMap_cons, List.filter_append,
        (NamePart.filter_text u hpart).2, ih hname]

theorem filter_rest (h : ∀ c ∈ (rest.dropWhile fun c => ['\x60', ' ', '\t'].contains c).head?,
      isClauseChar u c = false) :
    (rest.takeWhile (isClauseChar u)).filter (fun c => !(['\x60', ' ', '\t'].contains c)) = [] := by
  have hleft : ∀ c ∈ rest.takeWhile fun c => ['\x60', ' ', '\t'].contains c,
      ['\x60', ' ', '\t'].contains c = true := fun c hc => List.mem_takeWhile_imp hc
  have htake : ∀ c ∈ rest.takeWhile fun c => ['\x60', ' ', '\t'].contains c,
      isClauseChar u c = true := by
    intro c hc
    have hmem := List.contains_iff_mem.mp (hleft c hc)
    simp only [List.mem_cons, List.not_mem_nil, or_false] at hmem
    rw [isClauseChar]
    obtain rfl | rfl | rfl := hmem
    all_goals exact Bool.or_true _
  have hstop := (takeWhile_stops htake h).1
  rw [List.takeWhile_append_dropWhile] at hstop
  rw [hstop, List.filter_eq_nil_iff]
  intro c hc
  rw [hleft c hc]
  exact Bool.false_ne_true

theorem headerFrom_clause {name : List NamePart} (h : (Tail.clause gap name rest).Sound u) :
    headerFrom u (Tail.clause gap name rest).text = some (.package (name.flatMap NamePart.says))
      ∨ headerFrom u (Tail.clause gap name rest).text = some .unknown := by
  obtain ⟨hends, hgap, hname⟩ := h
  have hspaces : ∀ b ∈ gap, ∀ c, b = .space c → isWhitespace c = true :=
    fun b hb c hc => isWhitespace_of_isAsciiSpace (hgap b hb c hc)
  have htext : (Tail.clause gap name rest).text
      = "package".toList ++ (blanksText gap ++ (name.flatMap NamePart.text ++ rest)) := rfl
  rw [htext]
  obtain ⟨hspace, hdrop⟩ | hcomment := dropWhile_gap (p := isWhitespace) rfl hspaces
    (name.flatMap NamePart.text ++ rest)
  · obtain ⟨b, hb, hcomment⟩ | hnone | ⟨⟨c, hc, hfirst⟩, hread, hrest⟩ := hname
    · rw [hspace b hb] at hcomment
      cases hcomment
    · refine .inr (headerFrom_nameless u hends ?_)
      rw [hdrop]
      exact hnone
    · -- the name is all that is read
      obtain ⟨htext, hword⟩ := filter_parts u hread
      obtain ⟨more, hmore⟩ := List.head?_eq_some_iff.mp hc
      have htake := filter_rest u hrest
      have hclause : clauseName u (blanksText gap ++ (name.flatMap NamePart.text ++ rest))
          = name.flatMap NamePart.says := by
        rw [clauseName, hdrop, hmore, List.cons_append,
          List.dropWhile_cons_of_neg (Bool.eq_false_iff.mp hfirst), ← List.cons_append, ← hmore,
          List.takeWhile_append_of_pos htext, List.filter_append, hword, htake, List.append_nil]
      rw [headerFrom_package u hends, hclause]
      split
      · exact .inr rfl
      · exact .inl rfl
  · refine .inr (headerFrom_nameless u hends ?_)
    rw [hcomment]
    intro c hc
    rw [← Option.some.inj hc, isClauseChar, isAlphanumeric_of_ascii u (by decide) (by decide)]
    rfl

theorem headerFrom_other (h : (Tail.other rest).Sound u) :
    headerFrom u rest = some .default ∨ headerFrom u rest = some .unknown := by
  obtain ⟨hhead, hline, hblock, hword⟩ := h
  cases rest with
  | nil =>
    refine .inl ?_
    rw [headerFrom_eq]
    rfl
  | cons c tail =>
    obtain ⟨hspace, hat⟩ := hhead c rfl
    have hscan : scanItem u (c :: tail) = some (.inl (clause u (c :: tail))) := by
      rw [scanItem, List.dropWhile_cons_of_neg (Bool.eq_false_iff.mp hspace)]
      dsimp only
      rw [hline, if_neg Bool.false_ne_true, hblock, if_neg Bool.false_ne_true, if_neg hat]
    rw [headerFrom_eq, hscan]
    show some (clause u (c :: tail)) = _ ∨ some (clause u (c :: tail)) = _
    by_cases hpackage : (c :: tail).takeWhile (isWordChar u) = "package".toList
    · obtain hne | ⟨d, more, hdrop, hdspace, hdclause⟩ := hword
      · exact absurd hpackage hne
      · -- no name follows
        refine .inr ?_
        rw [clause, if_pos hpackage, hdrop,
          List.dropWhile_cons_of_neg (Bool.eq_false_iff.mp hdspace),
          List.takeWhile_cons_of_neg (Bool.eq_false_iff.mp hdclause)]
        rfl
    · rw [clause, if_neg hpackage]
      split
      · exact .inr rfl
      · exact .inl rfl

theorem headerFrom_tail {s : Source} (h : s.tail.Sound u) :
    ∃ header, headerFrom u s.tail.text = some header ∧ Allowed s.declared header := by
  rw [Source.declared]
  cases htail : s.tail with
  | clause gap name rest =>
    rw [htail] at h
    obtain hpackage | hunknown := headerFrom_clause u h
    · exact ⟨_, hpackage, .inl rfl⟩
    · exact ⟨_, hunknown, .inr rfl⟩
  | other rest =>
    rw [htail] at h
    obtain hdefault | hunknown := headerFrom_other u h
    · exact ⟨_, hdefault, .inl rfl⟩
    · exact ⟨_, hunknown, .inr rfl⟩

theorem allowed_unknown (declared : Option (List Char)) : Allowed declared .unknown := by
  cases declared with
  | none => exact .inr rfl
  | some p => exact .inr rfl

theorem packageHeader_body {s : Source} (h : s.Sound u) :
    packageHeader u s.text = headerFrom u s.body := by
  have hshebang := h.shebang
  rw [packageHeader, Source.text]
  cases hline : s.shebang with
  | none =>
    rw [hline] at hshebang
    dsimp only at hshebang ⊢
    rw [hshebang, if_neg Bool.false_ne_true]
  | some shebang =>
    obtain ⟨line, ending⟩ := shebang
    rw [hline] at hshebang
    obtain ⟨hbody, hending⟩ := hshebang
    have hbody' : '\n' ∉ '#' :: '!' :: line := by
      rw [List.mem_cons, List.mem_cons, not_or, not_or]
      exact ⟨by decide, by decide, hbody⟩
    rw [← headerFrom_ending u hending hbody']
    dsimp only
    rw [List.append_assoc]
    rfl

end Header

/-! ### Sources in ASCII -/

/-- The table, as far as it is known. -/
def asciiTable : Unicode where
  isAlphanumeric := Char.isAlphanum
  ascii _ _ := rfl
  notSpace := by
    intro c hspace
    -- no white space among the digits and letters
    have hcode : c.toNat < 48 ∨ 122 < c.toNat := by
      simp only [isWhitespace, Bool.or_eq_true, Bool.and_eq_true, decide_eq_true_eq,
        beq_iff_eq] at hspace
      omega
    simp only [Char.isAlphanum, Char.isAlpha, Char.isUpper, Char.isLower, Char.isDigit,
      Bool.or_eq_false_iff, Bool.and_eq_false_iff, decide_eq_false_iff_not, UInt32.le_iff_toNat_le]
    have hA : 'A'.val.toNat = 65 := rfl
    have hz : 'z'.val.toNat = 122 := rfl
    have ha : 'a'.val.toNat = 97 := rfl
    have hZ : 'Z'.val.toNat = 90 := rfl
    have h0 : '0'.val.toNat = 48 := rfl
    have h9 : '9'.val.toNat = 57 := rfl
    have hc : c.val.toNat = c.toNat := rfl
    omega

/-- A shebang line, a license, and a file annotation whose argument holds a bracket. -/
def script : Source where
  shebang := some ("/usr/bin/env kotlin".toList, .lf)
  items := [.blank (.block " license ".toList), .blank (.space '\n'),
    Item.annotation "file:JvmName".toList (some ([], [.char '(', .blank (.space '\n'),
      .literal '"' "a)".toList, .blank (.line " util".toList .lf), .char ')'])),
    .blank (.space '\n')]
  tail := .clause [.space ' '] [.plain "com".toList, .dot, .plain "demo".toList]
    "\n\nclass X\n".toList

theorem script_sound : script.Sound asciiTable where
  shebang := ⟨by decide, .inl rfl⟩
  items := by
    have hgroup : TokensSound [.char '(', .blank (.space '\n'), .literal '"' "a)".toList,
        .blank (.line " util".toList .lf), .char ')'] ('\n' :: script.tail.text) :=
      ⟨⟨by decide, by decide, by decide⟩, rfl, ⟨.inl rfl, rfl, by decide⟩,
        ⟨by decide, .inl rfl⟩, ⟨by decide, by decide, by decide⟩, trivial⟩
    have hlicense : (Blank.block " license ".toList).Sound [] :=
      (by decide : ¬['*', '/'] <:+: '/' :: '*' :: (" license ".toList ++ ['*']))
    refine ⟨hlicense, rfl, ⟨.inl ?_, ?_, trivial, ⟨_, _, rfl, .inl rfl⟩, .inl ⟨rfl, rfl⟩, hgroup⟩,
      rfl, trivial⟩
    · exact List.all_eq_true.mp rfl
    · rintro c ⟨⟩
      rfl
  tail := by
    refine ⟨?_, ?_, .inr (.inr ⟨⟨'c', rfl, rfl⟩, ?_, ?_⟩)⟩
    · rintro c ⟨⟩
      rfl
    · rintro b hb c rfl
      cases List.mem_singleton.mp hb
      rfl
    · rw [List.forall_mem_cons, List.forall_mem_cons, List.forall_mem_cons]
      exact ⟨List.all_eq_true.mp rfl, trivial, List.all_eq_true.mp rfl,
        fun part h => absurd h List.not_mem_nil⟩
    · rintro c ⟨⟩
      rfl

/-- The comment is taken to end where it begins. -/
def slashComment : Source where
  shebang := none
  items := [.blank (.block "/ license ".toList), .blank (.space '\n')]
  tail := .clause [.space ' '] [.plain "a".toList] ";".toList

end LangJava

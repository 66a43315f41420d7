/-
Redaction of recognised secrets (`crates/core-redact/src/lib.rs`).

Five patterns are searched in a fixed order, and each replaces its matches before the next
one runs.  The expressions are those of the source, part by part; `(?i)` is written out by
the characters it adds, and `\s` is Unicode white space.

The main result is `redactText_clean`: a redacted text has no recognised secret, so that
redacting it again changes nothing and counts nothing.  A placeholder ends in `]` and has a
`[` before its fixed text, and no pattern but the first takes a bracket; so what a later
search could find stands before a `[`, inside the placeholder, or after a `]`.

* before the `[` the text is the one that was searched, up to the case of the word
  `Bearer`, so that a match would have been found there;
* the fixed text lacks a character that each pattern needs;
* after the `]` comes a character that the match refused, and no pattern begins with it.
-/
import Cartograph.Lib.Regex
import Cartograph.Investigation.Admission

namespace Redaction

open Regex
open Investigation (isWhitespace)

/-- The class of word characters behind `\b`: on ASCII it is `[0-9A-Za-z_]`, and white space is
never in it. -/
structure Words where
  word : Char → Bool
  ascii : ∀ c : Char, c.toNat < 128 → word c = (c.isAlphanum || c == '_')
  space : ∀ c : Char, isWhitespace c = true → word c = false

/-! ### Expressions -/

/-- What `(?i)` takes for a character of the expression: Unicode folds `ſ` to `s` and the
Kelvin sign to `k`. -/
def folds (c d : Char) : Bool :=
  c.toLower == d.toLower || (c.toLower == 's' && d == '\u017f') || (c.toLower == 'k' && d == '\u212a')

def exactly (c d : Char) : Bool := c == d

/-- The letters and the space, in either case. -/
def labelChar (c : Char) : Bool := c.isAlpha || c == '\u017f' || c == '\u212a' || c == ' '

/-- One line of a private-key block, for `BEGIN` or `END`. -/
def keyLine (edge : String) : Regex :=
  .seq (literal folds edge) (.seq (.many true labelChar) (literal folds "PRIVATE KEY-----"))

def privateKey : Regex :=
  .seq (keyLine "-----BEGIN ") (.seq (.many false fun _ => true) (keyLine "-----END "))

def bearerChar (c : Char) : Bool :=
  c.isAlphanum || c == '\u017f' || c == '\u212a' || c == '.' || c == '_' || c == '~' || c == '+' || c == '/'
    || c == '=' || c == '-'

def bearerToken : Regex :=
  .seq .boundary (.seq (literal folds "Bearer")
    (.seq (.set isWhitespace) (.seq (.many true isWhitespace) (atLeast 8 bearerChar))))

def tokenChar (c : Char) : Bool := c.isAlphanum || c == '_' || c == '-'

def providerToken : Regex :=
  .seq .boundary (.seq
    (.alt (literal exactly "github_pat_")
      (.alt (.seq (literal exactly "gh") (.seq (.set fun c => "pousr".toList.contains c)
        (literal exactly "_")))
        (literal exactly "sk-")))
    (atLeast 8 tokenChar))

def accessKeyChar (c : Char) : Bool := c.isDigit || c.isUpper

def awsAccessKey : Regex :=
  .seq .boundary (.seq (literal exactly "AKIA") (times 16 accessKeyChar .boundary))

def joiner (c : Char) : Bool := c == '_' || c == '-'

/-- `SENSITIVE_NAME_PATTERN`. -/
def sensitiveName : Regex :=
  .alt (.seq (literal folds "api") (.seq (atMostOne joiner) (literal folds "key")))
    (.alt (.seq (literal folds "access") (.seq (atMostOne joiner) (literal folds "token")))
      (.alt (.seq (literal folds "auth") (.seq (atMostOne joiner) (literal folds "token")))
        (.alt (literal folds "password") (literal folds "secret"))))

def assigns (c : Char) : Bool := c == ':' || c == '='

def quotes (c : Char) : Bool := c == '"' || c == '\''

def assignment : Regex :=
  .seq (.many true isWhitespace) (.seq (.set assigns) (.seq (.many true isWhitespace) (atMostOne quotes)))

def valueChar (c : Char) : Bool :=
  !(isWhitespace c || quotes c || c == ',' || c == ';' || c == '\x7d' || c == ']' || c == '[')

def credentialAssignment : Regex :=
  .seq .boundary (.seq (.group sensitiveName) (.seq .boundary (.seq (.group assignment)
    (.group (atLeast 4 valueChar)))))

/-! ### Patterns -/

inductive SecretKind
  | privateKey | bearerToken | providerToken | awsAccessKey | credentialAssignment
  deriving DecidableEq

/-- A part of a replacement: fixed text, or the text of a numbered group. -/
inductive Part
  | text (s : String)
  | group (n : ℕ)

structure Pattern where
  regex : Regex
  replacement : List Part
  kind : SecretKind

/-- The replacement of a match; groups count from one. -/
def expand (parts : List Part) (m : Match) : List Char :=
  parts.flatMap fun part =>
    match part with
    | .text s => s.toList
    | .group n => m.groups.getD (n - 1) []

def patterns : List Pattern :=
  [⟨privateKey, [.text "[REDACTED PRIVATE KEY]"], .privateKey⟩,
   ⟨bearerToken, [.text "Bearer [REDACTED]"], .bearerToken⟩,
   ⟨providerToken, [.text "[REDACTED TOKEN]"], .providerToken⟩,
   ⟨awsAccessKey, [.text "[REDACTED AWS ACCESS KEY]"], .awsAccessKey⟩,
   ⟨credentialAssignment, [.group 1, .group 2, .text "[REDACTED]"], .credentialAssignment⟩]

def recognizedSecrets (w : Words) (input : String) : List SecretKind :=
  patterns.filterMap fun pattern =>
    if pattern.regex.isMatch w.word input.toList then some pattern.kind else none

/-- One round of the loop: the text so far and the number of replacements. -/
def redactWith (w : Words) (state : List Char × ℕ) (pattern : Pattern) : List Char × ℕ :=
  (pattern.regex.replaceAll w.word (expand pattern.replacement) state.1,
    state.2 + (pattern.regex.findIter w.word state.1).length)

def redactText (w : Words) (input : String) : String × ℕ :=
  let output := patterns.foldl (redactWith w) (input.toList, 0)
  (String.ofList output.1, output.2)

/-! ### Characters -/

variable {c : Char}

theorem isAlpha_iff :
    c.isAlpha = true ↔ 65 ≤ c.toNat ∧ c.toNat ≤ 90 ∨ 97 ≤ c.toNat ∧ c.toNat ≤ 122 := by
  simp [Char.isAlpha, Char.isUpper, Char.isLower, UInt32.le_iff_toNat_le, ← Char.toNat_val]

theorem toLower_cases (c : Char) : c.toLower = c ∨ c.isAlpha = true ∧ c.toLower.isAlpha = true := by
  rw [Char.toLower]
  split_ifs with h
  · have hupper : 65 ≤ c.toNat ∧ c.toNat ≤ 90 := by
      simpa [UInt32.le_iff_toNat_le, ← Char.toNat_val] using h
    refine .inr ⟨isAlpha_iff.mpr (.inl hupper), isAlpha_iff.mpr (.inr ?_)⟩
    have hval : (c.val + ('a'.val - 'A'.val)).toNat = c.toNat + 32 := by
      rw [UInt32.toNat_add, Char.toNat_val]
      show (c.toNat + 32) % 2 ^ 32 = c.toNat + 32
      omega
    show 97 ≤ (c.val + ('a'.val - 'A'.val)).toNat ∧ (c.val + ('a'.val - 'A'.val)).toNat ≤ 122
    omega
  · exact .inl rfl

theorem isAlphanum_toNat (h : c.isAlphanum = true) : 48 ≤ c.toNat ∧ c.toNat ≤ 122 := by
  rw [Char.isAlphanum, Bool.or_eq_true, isAlpha_iff] at h
  rcases h with h | h
  · omega
  · have hdigit : 48 ≤ c.toNat ∧ c.toNat ≤ 57 := by
      simpa [Char.isDigit, UInt32.le_iff_toNat_le, ← Char.toNat_val] using h
    omega

theorem isAlphanum_of_isAlpha (h : c.isAlpha = true) : c.isAlphanum = true := by
  rw [Char.isAlphanum, h, Bool.true_or]

theorem isWhitespace_of_isAlphanum (h : c.isAlphanum = true) : isWhitespace c = false := by
  have hrange := isAlphanum_toNat h
  simp only [isWhitespace, Bool.or_eq_false_iff, Bool.and_eq_false_iff, decide_eq_false_iff_not,
    beq_eq_false_iff_ne]
  omega

theorem word_of_isAlphanum (w : Words) (h : c.isAlphanum = true) : w.word c = true := by
  have hrange := isAlphanum_toNat h
  rw [w.ascii c (by omega), h, Bool.true_or]

/-- Word characters of ASCII text. -/
def Words.plain : Words where
  word c := c.isAlphanum || c == '_'
  ascii _ _ := rfl
  space c hc := by
    refine Bool.or_eq_false_iff.mpr ⟨?_, ?_⟩
    · by_contra h
      rw [isWhitespace_of_isAlphanum (Bool.not_eq_false _ ▸ h)] at hc
      exact absurd hc (by simp)
    · refine beq_eq_false_iff_ne.mpr ?_
      rintro rfl
      exact absurd hc (by decide)

variable {d : Char} {next : Option Char} {p : Char → Bool} {s : List Char} {g : List (List Char)}

theorem folds_cases (hc : c.toLower.isAlpha = true) (h : folds c d = true) :
    d.isAlpha = true ∨ c.toLower = 's' ∧ d = '\u017f' ∨ c.toLower = 'k' ∧ d = '\u212a' := by
  simp only [folds, Bool.or_eq_true, Bool.and_eq_true, beq_iff_eq] at h
  rcases h with (h | h) | h
  · refine .inl ?_
    rcases toLower_cases d with hd | hd
    · rwa [h, hd] at hc
    · exact hd.1
  · exact .inr (.inl h)
  · exact .inr (.inr h)

theorem eq_dash_of_folds (h : folds '-' c = true) : (c == '-') = true := by
  have hdash : '-'.toLower = '-' := rfl
  have hlower : '-' = c.toLower := by simpa [folds, hdash] using h
  rcases toLower_cases c with hc | hc
  · exact beq_iff_eq.mpr (hc.symm.trans hlower.symm)
  · rw [← hlower] at hc
    exact absurd hc.2 (by decide)

/-! ### What each pattern takes -/

theorem keyLine_blind (edge : String) : (keyLine edge).Blind Eq := by
  refine ⟨blind_literal ?_, ?_, blind_literal ?_⟩
  · rintro c - d e rfl
    rfl
  · rintro c d rfl
    rfl
  · rintro c - d e rfl
    rfl

theorem keyLine_needs (edge : String) : (keyLine edge).Needs fun c => c == '-' :=
  .inr (.inr (needs_literal (c := '-') (by simp) fun _ => eq_dash_of_folds))

theorem keyLine_ends (edge : String) : (keyLine edge).Ends fun c => c == '-' :=
  .inr (.inr (ends_literal (c := '-') (by simp) fun _ => eq_dash_of_folds))

/-! ### Private keys

A private key is found where an opening line is followed by a closing one, whatever stands
between them. -/

def opening : Regex := keyLine "-----BEGIN "

def closing : Regex := keyLine "-----END "

variable {edge : String} {next' : Option Char} {name : List Char} {q n : Char → Bool}
  {text : List Char}

section PrivateKey

variable {word : Char → Bool} {a b : List Char}

/-- An opening line, and a closing line after it. -/
def Block (word : Char → Bool) (text : List Char) : Prop :=
  ∃ a b, text = a ++ b ∧ opening.Occurs word none a none ∧ closing.Occurs word none b none

theorem keyLine_left (h : (keyLine edge).Occurs word none a none) (b : List Char) :
    (keyLine edge).Occurs word none (a ++ b) none :=
  (h.of_blind (keyLine_blind edge)).of_left

theorem keyLine_right (h : (keyLine edge).Occurs word none b none) (a : List Char) :
    (keyLine edge).Occurs word none (a ++ b) none :=
  (h.of_blind (keyLine_blind edge)).of_right

theorem occurs_privateKey {prev : Option Char} :
    privateKey.Occurs word prev text next ↔ Block word text := by
  constructor
  · rintro ⟨u, s, g, v, rfl, s1, s2, g1, g2, rfl, -, h1, t1, t2, g3, g4, rfl, -, -, h2⟩
    have hopen : opening.Occurs word none (u ++ s1) none := by
      refine keyLine_right ?_ u
      obtain ⟨g, h1⟩ := h1.blind (keyLine_blind _) (List.forall₂_eq_eq_eq ▸ rfl)
      exact ⟨[], s1, g, [], (List.append_nil _).symm, h1⟩
    have hclose : closing.Occurs word none (t1 ++ (t2 ++ v)) none := by
      refine keyLine_right (keyLine_left ?_ v) t1
      obtain ⟨g, h2⟩ := h2.blind (keyLine_blind _) (List.forall₂_eq_eq_eq ▸ rfl)
      exact ⟨[], t2, g, [], (List.append_nil _).symm, h2⟩
    exact ⟨u ++ s1, t1 ++ (t2 ++ v), by simp only [List.append_assoc], hopen, hclose⟩
  · rintro ⟨a, b, rfl, ⟨u, s, g, v, rfl, h1⟩, u', s', g', v', rfl, h2⟩
    obtain ⟨g1, h1⟩ := h1.blind (keyLine_blind _) (List.forall₂_eq_eq_eq ▸ rfl)
    obtain ⟨g2, h2⟩ := h2.blind (keyLine_blind _) (List.forall₂_eq_eq_eq ▸ rfl)
    refine ⟨u, s ++ ((v ++ u') ++ s'), g1 ++ ([] ++ g2), v', by simp only [List.append_assoc], ?_⟩
    exact ⟨s, (v ++ u') ++ s', g1, [] ++ g2, rfl, rfl, h1, v ++ u', s', [], g2, rfl, rfl,
      ⟨fun _ _ => rfl, rfl⟩, h2⟩

theorem Block.left (h : Block word a) (b : List Char) : Block word (a ++ b) := by
  obtain ⟨x, y, rfl, hx, hy⟩ := h
  exact ⟨x, y ++ b, List.append_assoc .., hx, keyLine_left hy b⟩

theorem Block.right (h : Block word b) (a : List Char) : Block word (a ++ b) := by
  obtain ⟨x, y, rfl, hx, hy⟩ := h
  exact ⟨a ++ x, y, (List.append_assoc ..).symm, keyLine_right hx a, hy⟩

/-- Across a character that no line has, a block has both its lines on one side or one on each. -/
theorem Block.split {x : Char} (hopen : opening.avoids x = true) (hclose : closing.avoids x = true)
    (h : Block word (a ++ x :: b)) :
    Block word a ∨ opening.Occurs word none a none ∧ closing.Occurs word none b none
      ∨ Block word b := by
  have open_split {a b : List Char} (h : opening.Occurs word none (a ++ x :: b) none) :
      opening.Occurs word none a none ∨ opening.Occurs word none b none :=
    (h.split hopen (keyLine_needs _)).imp (·.of_blind (keyLine_blind _)) (·.of_blind (keyLine_blind _))
  have close_split {a b : List Char} (h : closing.Occurs word none (a ++ x :: b) none) :
      closing.Occurs word none a none ∨ closing.Occurs word none b none :=
    (h.split hclose (keyLine_needs _)).imp (·.of_blind (keyLine_blind _)) (·.of_blind (keyLine_blind _))
  obtain ⟨y, z, hcut, hy, hz⟩ := h
  rcases List.append_eq_append_iff.mp hcut with ⟨t, rfl, ht⟩ | ⟨t, rfl, rfl⟩
  · cases t with
    | nil =>
      obtain rfl : x :: b = z := ht
      rw [List.append_nil] at hy
      rcases close_split (a := []) hz with hz | hz
      · obtain ⟨c, hc, -⟩ := hz.needs (keyLine_needs _)
        exact absurd hc List.not_mem_nil
      · exact .inr (.inl ⟨hy, hz⟩)
    | cons d t =>
      obtain ⟨rfl, rfl⟩ := List.cons.inj ht
      rcases open_split hy with hy | hy
      · exact .inr (.inl ⟨hy, keyLine_right hz t⟩)
      · exact .inr (.inr ⟨t, z, rfl, hy, hz⟩)
  · rcases close_split hz with hz | hz
    · exact .inl ⟨y, t, rfl, hy, hz⟩
    · exact .inr (.inl ⟨keyLine_left hy t, hz⟩)

theorem privateKey_settled : privateKey.Settled :=
  ⟨⟨(keyLine_blind _).settled, .inl trivial⟩, .inl (keyLine_blind _).settled⟩

theorem privateKey_ends : privateKey.Ends fun c => c == '-' := .inr (.inr (keyLine_ends _))

theorem opening_bracket : opening.avoids '[' = true ∧ opening.avoids ']' = true := by decide

theorem closing_bracket : closing.avoids '[' = true ∧ closing.avoids ']' = true := by decide

theorem privateKey_shortened (hb : ∀ c ∈ b, (c == '-') = false) (h : Block word (a ++ b)) :
    Block word a := by
  have hocc : privateKey.Occurs word none (a ++ b) none := occurs_privateKey.mpr h
  have hocc : privateKey.Occurs word none a none := hocc.of_ends privateKey_settled privateKey_ends hb
  exact occurs_privateKey.mp hocc

section Marked

variable {inner : List Char} (hinner : inner.all (fun c => !(c == '-')) = true)

include hinner

theorem closing_marked (h : closing.Occurs word none (a ++ '[' :: (inner ++ ']' :: b)) none) :
    closing.Occurs word none a none ∨ closing.Occurs word none b none := by
  rcases h.split closing_bracket.1 (keyLine_needs _) with h | h
  · exact .inl (h.of_blind (keyLine_blind _))
  · rcases h.split closing_bracket.2 (keyLine_needs _) with h | h
    · exact absurd h (not_occurs_of_all (keyLine_needs _) hinner)
    · exact .inr (h.of_blind (keyLine_blind _))

theorem block_marked (h : Block word (a ++ '[' :: (inner ++ ']' :: b))) :
    Block word a ∨ opening.Occurs word none a none ∧ closing.Occurs word none b none
      ∨ Block word b := by
  have hnone : ¬opening.Occurs word none inner none := not_occurs_of_all (keyLine_needs _) hinner
  have hclose {b : List Char} (h : closing.Occurs word none (inner ++ ']' :: b) none) :
      closing.Occurs word none b none := by
    rcases h.split closing_bracket.2 (keyLine_needs _) with h | h
    · exact absurd h (not_occurs_of_all (keyLine_needs _) hinner)
    · exact h.of_blind (keyLine_blind _)
  rcases h.split opening_bracket.1 closing_bracket.1 with h | h | h
  · exact .inl h
  · exact .inr (.inl ⟨h.1, hclose h.2⟩)
  · rcases h.split opening_bracket.2 closing_bracket.2 with h | h | h
    · obtain ⟨x, y, rfl, hx, -⟩ := h
      exact absurd (keyLine_left hx y) hnone
    · exact absurd h.1 hnone
    · exact .inr (.inr h)

/-- Replacing the matches of another pattern makes no block, as long as the text it leaves
before a mark was there already, up to characters that end no line. -/
theorem not_block_marked {r : Regex} {f : Match → List Char} (hr : r.Needs p)
    (hf : ∀ m prev next, r.Takes word prev m.taken m.groups next → ∃ kept added back,
      f m = (kept ++ added) ++ '[' :: (inner ++ [']']) ∧ m.taken = kept ++ back
        ∧ ∀ c ∈ added, (c == '-') = false) (h : ¬Block word text) :
    ¬Block word (r.replaceAll word f text) := by
  let motive (_ : Option Char) (text out : List Char) : Prop :=
    (closing.Occurs word none out none → closing.Occurs word none text none)
      ∧ (Block word out → Block word text)
  suffices hrun : motive none text (r.replaceAll word f text) from fun hout => h (hrun.2 hout)
  refine replaceAll_induct (motive := motive) hr (fun _ _ _ => ⟨id, id⟩) ?_ text
  intro prev text gap m out hfound ih
  obtain ⟨kept, added, back, hfm, htaken, hadded⟩ := hf m _ _ hfound.takes
  have hshape : gap ++ (f m ++ out) = ((gap ++ kept) ++ added) ++ '[' :: (inner ++ ']' :: out) := by
    rw [hfm]
    simp only [List.append_assoc, List.cons_append, List.nil_append]
  have htext : text = (gap ++ kept) ++ (back ++ m.rest) := by
    rw [hfound.cut, htaken]
    simp only [List.append_assoc]
  have hline {edge : String} (h : (keyLine edge).Occurs word none ((gap ++ kept) ++ added) none) :
      (keyLine edge).Occurs word none (gap ++ kept) none :=
    h.of_ends (keyLine_blind edge).settled (keyLine_ends edge) hadded
  have hblock (h : Block word ((gap ++ kept) ++ added)) : Block word (gap ++ kept) :=
    privateKey_shortened hadded h
  have hclosing (h : closing.Occurs word none out none) :
      closing.Occurs word none (back ++ m.rest) none :=
    keyLine_right (ih.1 h) back
  show (_ → _) ∧ (_ → _)
  rw [hshape, htext]
  constructor
  · intro h
    rcases closing_marked hinner h with h | h
    · exact keyLine_left (hline h) _
    · exact keyLine_right (hclosing h) _
  · intro h
    rcases block_marked hinner h with h | h | h
    · exact (hblock h).left _
    · exact ⟨gap ++ kept, back ++ m.rest, rfl, hline h.1, hclosing h.2⟩
    · exact ((ih.2 h).right back).right _

end Marked

theorem not_block_replaced {f : Match → List Char} {inner : List Char}
    (hinner : inner.all (fun c => !(c == '-')) = true) (hf : ∀ m, f m = '[' :: (inner ++ [']']))
    (text : List Char) : ¬Block word (privateKey.replaceAll word f text) := by
  have hneeds : privateKey.Needs fun c => c == '-' := .inl (keyLine_needs _)
  refine replaceAll_induct (motive := fun _ _ out => ¬Block word out) hneeds ?_ ?_ text
  · intro prev text hnone hblock
    exact hnone (occurs_privateKey.mpr hblock)
  · intro prev text gap m out hfound ih hblock
    rw [hf, List.cons_append, List.append_assoc, List.singleton_append] at hblock
    rcases block_marked hinner hblock with h | ⟨h, -⟩ | h
    · have hgap := hfound.within [] rfl
        ((List.append_nil gap).symm ▸ occurs_privateKey.mpr h)
      obtain ⟨c, hc, -⟩ := hgap.needs hneeds
      exact absurd hc List.not_mem_nil
    · obtain ⟨u, s, g, v, rfl, h⟩ := h
      obtain ⟨s1, s2, g1, g2, htaken, -, h1, t1, t2, g3, g4, rfl, -, -, h2⟩ := hfound.takes
      obtain ⟨g', h⟩ := h.blind (keyLine_blind _) (List.forall₂_eq_eq_eq ▸ rfl)
      obtain ⟨g'', h2⟩ := h2.blind (keyLine_blind _) (List.forall₂_eq_eq_eq ▸ rfl)
      have hlen := hfound.leftmost u (s ++ ((v ++ (s1 ++ t1)) ++ t2)) (g' ++ ([] ++ g'')) m.rest
        (by rw [hfound.cut, htaken]; simp only [List.append_assoc])
        ⟨s, _, g', _, rfl, rfl, h, v ++ (s1 ++ t1), t2, [], g'', rfl, rfl, ⟨fun _ _ => rfl, rfl⟩, h2⟩
      obtain ⟨c, hc, -⟩ := h.needs (keyLine_needs _)
      have hpos : 0 < s.length := List.length_pos_of_mem hc
      rw [List.length_append, List.length_append] at hlen
      omega
    · exact ih h

end PrivateKey

/-! ### Tokens -/

section Tokens

variable {w : Words} {r k : Regex} {f : Match → List Char} {inner : List Char}

theorem bearerToken_starts : bearerToken.Starts Char.isAlpha := by
  refine .inl ⟨rfl, .inr (.inr ?_)⟩
  intro c hc
  rcases folds_cases (by decide) hc with h | ⟨h, -⟩ | ⟨h, -⟩
  · exact h
  · exact absurd h (by decide)
  · exact absurd h (by decide)

theorem bearerToken_settled : bearerToken.Settled := by
  simp [bearerToken, literal, atLeast, times, Settled, Needs]

theorem providerToken_starts : providerToken.Starts Char.isAlpha := by
  refine .inl ⟨rfl, .inr ⟨.inr ?_, .inr (.inr ?_), .inr ?_⟩⟩
  all_goals
    rintro c hc
    rw [← show _ = c from beq_iff_eq.mp hc]
    decide

theorem providerToken_settled : providerToken.Settled := by
  simp [providerToken, literal, atLeast, times, Settled, Needs]

theorem awsAccessKey_starts : awsAccessKey.Starts Char.isAlpha := by
  refine .inl ⟨rfl, .inr (.inr ?_)⟩
  rintro c hc
  rw [← show _ = c from beq_iff_eq.mp hc]
  decide

/-- The first letters of a sensitive name. -/
def initial (c : Char) : Bool := c.isAlpha || c == '\u017f'

theorem folds_initial (hc : c.toLower.isAlpha = true) (hk : c.toLower ≠ 'k')
    (h : folds c d = true) : initial d = true := by
  rw [initial, Bool.or_eq_true]
  rcases folds_cases hc h with h | ⟨-, h⟩ | ⟨h, -⟩
  · exact .inl h
  · exact .inr (beq_iff_eq.mpr h)
  · exact absurd h hk

theorem credentialAssignment_starts : credentialAssignment.Starts initial := by
  refine .inl ⟨rfl, .inr ⟨.inr (.inr ?_), .inr (.inr ?_), .inr (.inr ?_), .inr ?_, .inr ?_⟩⟩
  all_goals
    intro c hc
    exact folds_initial (by decide) (by decide) hc

theorem credentialAssignment_settled : credentialAssignment.Settled := by
  simp [credentialAssignment, sensitiveName, assignment, atMostOne, literal, atLeast, times, Settled,
    Needs]

theorem isAlpha_bearerChar (h : c.isAlpha = true) : bearerChar c = true := by
  simp [bearerChar, isAlphanum_of_isAlpha h]

theorem isAlpha_tokenChar (h : c.isAlpha = true) : tokenChar c = true := by
  simp [tokenChar, isAlphanum_of_isAlpha h]

theorem initial_valueChar (h : initial c = true) : valueChar c = true := by
  have hspace : isWhitespace c = false := by
    rcases (Bool.or_eq_true _ _).mp h with h | h
    · exact isWhitespace_of_isAlphanum (isAlphanum_of_isAlpha h)
    · rw [beq_iff_eq.mp h]
      decide
  simp only [valueChar, quotes, hspace, Bool.not_eq_true', Bool.or_eq_false_iff, beq_eq_false_iff_ne]
  refine ⟨⟨⟨⟨⟨⟨trivial, ?_, ?_⟩, ?_⟩, ?_⟩, ?_⟩, ?_⟩, ?_⟩
  all_goals
    rintro rfl
    exact absurd h (by decide)

variable {prev : Option Char} {gap : List Char} {m : Match}

theorem bearerToken_rest (h : Found w.word bearerToken prev text gap m) (hc : m.rest.head? = some c) :
    c.isAlpha = false := by
  have htail : bearerToken.Tail bearerChar := rfl
  exact h.refused htail (fun _ => isAlpha_bearerChar) hc

theorem providerToken_rest (h : Found w.word providerToken prev text gap m)
    (hc : m.rest.head? = some c) : c.isAlpha = false := by
  have htail : providerToken.Tail tokenChar := rfl
  exact h.refused htail (fun _ => isAlpha_tokenChar) hc

theorem credentialAssignment_rest (h : Found w.word credentialAssignment prev text gap m)
    (hc : m.rest.head? = some c) : initial c = false := by
  have htail : credentialAssignment.Tail valueChar := rfl
  exact h.refused htail (fun _ => initial_valueChar) hc

theorem accessKeyChar_isAlphanum (h : accessKeyChar c = true) : c.isAlphanum = true := by
  rcases (Bool.or_eq_true _ _).mp h with h | h
  · rw [Char.isAlphanum, h, Bool.or_true]
  · rw [Char.isAlphanum, Char.isAlpha, h, Bool.true_or, Bool.true_or]

theorem awsAccessKey_edge (h : awsAccessKey.Takes w.word prev s g next) :
    wordAt w.word (after prev s) = true ∧ wordAt w.word next = false := by
  obtain ⟨s1, s2, g1, g2, rfl, -, -, s3, s4, g3, g4, rfl, -, -, h4⟩ := h
  obtain ⟨t1, t2, rfl, hlen, hall, hb, rfl, -⟩ := takes_times h4
  have ht1 : t1 ≠ [] := List.ne_nil_of_length_pos (by omega)
  have hword : ∀ c ∈ t1, w.word c = true :=
    fun c hc => word_of_isAlphanum w (accessKeyChar_isAlphanum (hall c hc))
  rw [wordAt_after ht1 hword] at hb
  rw [List.append_nil, ← List.append_assoc, after_append]
  exact ⟨wordAt_after ht1 hword, Bool.eq_false_iff.mpr fun h => hb h.symm⟩

/-- Where the text does not end inside a word, what follows it is of no concern to an access
key. -/
theorem awsAccessKey_next (hedge : wordAt w.word (after prev text) = false)
    (h : awsAccessKey.Occurs w.word prev text next) :
    awsAccessKey.Occurs w.word prev text next' := by
  obtain ⟨u, s, g, v, rfl, h⟩ := h
  cases v with
  | nil =>
    rw [List.append_nil, after_append] at hedge
    rw [(awsAccessKey_edge h).1] at hedge
    exact absurd hedge (by simp)
  | cons c v => exact ⟨u, s, g, c :: v, rfl, h⟩

theorem awsAccessKey_rest (h : Found w.word awsAccessKey prev text gap m)
    (hc : m.rest.head? = some c) : c.isAlpha = false := by
  have hedge := (awsAccessKey_edge h.takes).2
  rw [hc] at hedge
  refine Bool.eq_false_iff.mpr fun hα => ?_
  rw [wordAt, Option.any_some, word_of_isAlphanum w (isAlphanum_of_isAlpha hα)] at hedge
  exact absurd hedge (by simp)

theorem awsAccessKey_gap (h : Found w.word awsAccessKey prev text gap m) :
    wordAt w.word (after prev gap) = false := by
  obtain ⟨c, s, htaken, hα⟩ := h.takes.starts awsAccessKey_starts
  obtain ⟨s1, s2, g1, g2, hs, -, ⟨hb, rfl, -⟩, -⟩ := h.takes
  rw [List.nil_append, htaken] at hs
  subst hs
  refine Bool.eq_false_iff.mpr fun hword => hb ?_
  rw [hword]
  exact (word_of_isAlphanum w (isAlphanum_of_isAlpha hα)).symm

/-! The placeholder of a bearer token repeats the word `Bearer`, in the case of the fixed text. -/

/-- Equal up to the case of a letter. -/
def Recased (c d : Char) : Prop :=
  c = d ∨ c.isAlpha = true ∧ d.isAlpha = true ∧ c.toLower = d.toLower

def bearerBody : Regex :=
  .seq (literal folds "Bearer")
    (.seq (.set isWhitespace) (.seq (.many true isWhitespace) (atLeast 8 bearerChar)))

theorem bearerBody_starts : bearerBody.Starts Char.isAlpha := by
  rcases bearerToken_starts with ⟨-, h⟩ | h
  · exact h
  · exact h.elim

theorem bearerBody_blind : bearerBody.Blind Recased := by
  have hspace : ∀ c d, Recased c d → isWhitespace c = isWhitespace d := by
    rintro c d (rfl | ⟨hc, hd, -⟩)
    · rfl
    · rw [isWhitespace_of_isAlphanum (isAlphanum_of_isAlpha hc),
        isWhitespace_of_isAlphanum (isAlphanum_of_isAlpha hd)]
  have hbearer : ∀ c d, Recased c d → bearerChar c = bearerChar d := by
    rintro c d (rfl | ⟨hc, hd, -⟩)
    · rfl
    · rw [isAlpha_bearerChar hc, isAlpha_bearerChar hd]
  refine ⟨blind_literal ?_, hspace, hspace, blind_atLeast hbearer 8⟩
  rintro c - d e (rfl | ⟨hd, he, h⟩)
  · rfl
  · have hplain {c : Char} (hc : c.isAlpha = true) : c ≠ '\u017f' ∧ c ≠ '\u212a' := by
      constructor
      · rintro rfl
        exact absurd hc (by decide)
      · rintro rfl
        exact absurd hc (by decide)
    rw [folds, folds, h, beq_eq_false_iff_ne.mpr (hplain hd).1, beq_eq_false_iff_ne.mpr (hplain hd).2,
      beq_eq_false_iff_ne.mpr (hplain he).1, beq_eq_false_iff_ne.mpr (hplain he).2]

theorem bearerToken_recased {s' : List Char} (h : bearerToken.Takes w.word prev s g next)
    (hs : List.Forall₂ Recased s' s) :
    ∃ g', bearerToken.Takes w.word prev s' g' next' := by
  obtain ⟨s1, s2, g1, g2, rfl, -, ⟨hb, rfl, -⟩, h⟩ := h
  obtain ⟨g', h'⟩ : ∃ g', bearerBody.Takes w.word (after prev []) s' g' next' :=
    h.blind bearerBody_blind hs
  refine ⟨[] ++ g', [], s', [], g', rfl, rfl, ⟨?_, rfl, rfl⟩, h'⟩
  -- both begin with a letter
  obtain ⟨c, t, rfl, hc⟩ := h.starts bearerBody_starts
  obtain ⟨d, t', rfl, hd⟩ := h'.starts bearerBody_starts
  have hword : w.word c = w.word d := by
    rw [word_of_isAlphanum w (isAlphanum_of_isAlpha hc), word_of_isAlphanum w (isAlphanum_of_isAlpha hd)]
  intro heq
  exact hb (heq.trans hword.symm)

theorem bearerToken_length (h : bearerToken.Takes w.word prev s g next) : 8 ≤ s.length := by
  obtain ⟨s1, s2, g1, g2, rfl, -, -, t1, t2, g3, g4, rfl, -, -, t3, t4, g5, g6, rfl, -, -, t5, t6,
    g7, g8, rfl, -, -, h⟩ := h
  obtain ⟨v1, v2, rfl, hlen, -⟩ := takes_times h
  simp only [List.length_append]
  omega

theorem bearerToken_ends : bearerToken.Ends bearerChar :=
  .inr (.inr (.inr (.inr (ends_atLeast (fun _ => id) 7))))

theorem recased_of_folds {l : List Char} (h : List.Forall₂ (fun c d => folds c d = true) l s)
    (hl : (l.all fun c => decide (c.isAlpha = true ∧ c.toLower.isAlpha = true ∧ c.toLower ≠ 's'
      ∧ c.toLower ≠ 'k')) = true) :
    List.Forall₂ Recased s l := by
  induction h with
  | nil => exact .nil
  | @cons c d l s h _ ih =>
    rw [List.all_cons, Bool.and_eq_true, decide_eq_true_eq] at hl
    obtain ⟨⟨hc, hlower, hs, hk⟩, hl⟩ := hl
    refine .cons (.inr ⟨?_, hc, ?_⟩) (ih hl)
    · rcases folds_cases hlower h with h | ⟨h, -⟩ | ⟨h, -⟩
      · exact h
      · exact absurd h hs
      · exact absurd h hk
    · simp only [folds, Bool.or_eq_true, Bool.and_eq_true, beq_iff_eq, hs, hk, false_and, or_false] at h
      exact h.symm

theorem bearerToken_front (h : Found w.word bearerToken prev text gap m) :
    ∃ front back, m.taken = front ++ back ∧ List.Forall₂ Recased front "Bearer".toList := by
  obtain ⟨s1, s2, g1, g2, hs, -, ⟨-, rfl, -⟩, front, back, g3, g4, rfl, -, hfront, -⟩ := h.takes
  exact ⟨front, back, hs, recased_of_folds (takes_literal.mp hfront).1 (by decide)⟩

/-- With the word of the placeholder after it, the text before a bearer token still has no
bearer token: the word in its place would have made one too. -/
theorem bearerToken_gap (h : Found w.word bearerToken prev text gap m) :
    ¬bearerToken.Occurs w.word prev (gap ++ "Bearer ".toList) next := by
  intro hocc
  have hcut : gap ++ "Bearer ".toList = (gap ++ "Bearer".toList) ++ [' '] := by
    rw [List.append_assoc]
    rfl
  rw [hcut] at hocc
  have hocc : bearerToken.Occurs w.word prev (gap ++ "Bearer".toList) none :=
    hocc.of_ends bearerToken_settled bearerToken_ends (List.forall_mem_singleton.mpr (by decide))
  obtain ⟨u, s, g, v, hcut, htakes⟩ := hocc
  have hlong := bearerToken_length htakes
  have hlen := congrArg List.length hcut
  have hsix : "Bearer".toList.length = 6 := rfl
  simp only [List.length_append, hsix] at hlen
  have hshort : u.length < gap.length := by omega
  obtain ⟨front, back, htaken, hfront⟩ := bearerToken_front h
  obtain ⟨x, rfl⟩ : u <+: gap :=
    List.prefix_of_prefix_length_le (hcut ▸ List.prefix_append u (s ++ v)) (List.prefix_append ..)
      (Nat.le_of_lt hshort)
  rw [List.append_assoc, List.append_right_inj] at hcut
  have hsame : List.Forall₂ Recased (x ++ front) (s ++ v) := by
    rw [← hcut]
    exact List.rel_append (List.forall₂_same.mpr fun c _ => .inl rfl) hfront
  obtain ⟨g', htakes'⟩ := bearerToken_recased htakes (List.forall₂_take_append _ s v hsame)
  have hleft := h.leftmost u ((x ++ front).take s.length) g'
    ((x ++ front).drop s.length ++ (back ++ m.rest)) ?_ htakes'
  · omega
  · rw [h.cut, htaken, ← List.append_assoc (List.take ..), List.take_append_drop]
    simp only [List.append_assoc]

/-! ### Assignments -/

theorem assignment_takes (h : assignment.Takes w.word prev s g next) :
    ∃ a d b, s = a ++ d :: b ∧ (∀ c ∈ a, isWhitespace c = true) ∧ assigns d = true
      ∧ ∀ c ∈ b, isWhitespace c = true ∨ quotes c = true := by
  obtain ⟨a, s2, g1, g2, rfl, -, ⟨ha, -⟩, t1, t2, g3, g4, rfl, -, ⟨d, hd, rfl, -⟩, b, e, g5, g6, rfl,
    -, ⟨hb, -⟩, he⟩ := h
  refine ⟨a, d, b ++ e, rfl, ha, hd, ?_⟩
  intro c hc
  rcases List.mem_append.mp hc with hc | hc
  · exact .inl (hb c hc)
  · rcases he with ⟨q, hq, rfl, -⟩ | ⟨rfl, -⟩
    · rw [List.mem_singleton.mp hc]
      exact .inr hq
    · exact absurd hc List.not_mem_nil

theorem credentialAssignment_takes (h : credentialAssignment.Takes w.word prev s g next) :
    ∃ name a d b value, s = name ++ ((a ++ d :: b) ++ value) ∧ g = [name, a ++ d :: b, value]
      ∧ (∀ c ∈ name, assigns c = false) ∧ (∀ c ∈ a, isWhitespace c = true) ∧ assigns d = true
      ∧ (∀ c ∈ b, isWhitespace c = true ∨ quotes c = true)
      ∧ value ≠ [] ∧ ∀ c ∈ value, valueChar c = true := by
  obtain ⟨s1, s2, g1, g2, rfl, rfl, ⟨-, rfl, rfl⟩, name, s3, g3, g4, rfl, rfl, ⟨g5, rfl, hname⟩, s4,
    s5, g6, g7, rfl, rfl, ⟨-, rfl, rfl⟩, sign, value, g8, g9, rfl, rfl, ⟨g10, rfl, hsign⟩, g11, rfl,
    hvalue⟩ := h
  obtain rfl := hname.groupless (by decide)
  obtain rfl := hsign.groupless (by decide)
  obtain rfl := hvalue.groupless (by decide)
  obtain ⟨a, d, b, rfl, ha, hd, hb⟩ := assignment_takes hsign
  refine ⟨name, a, d, b, value, rfl, rfl, ?_, ha, hd, hb, ?_, ?_⟩
  · intro c hc
    refine Bool.eq_false_iff.mpr fun hassigns => ?_
    rcases (Bool.or_eq_true _ _).mp hassigns with h | h
    · rw [beq_iff_eq.mp h] at hc
      exact hname.avoids (by decide) hc
    · rw [beq_iff_eq.mp h] at hc
      exact hname.avoids (by decide) hc
  · obtain ⟨v1, v2, rfl, hlen, -⟩ := takes_times hvalue
    intro hnil
    have := congrArg List.length hnil
    rw [List.length_append, List.length_nil] at this
    omega
  · obtain ⟨v1, v2, rfl, -, hall, hall', -⟩ := takes_times hvalue
    intro c hc
    exact (List.mem_append.mp hc).elim (hall c) (hall' c)

theorem isWhitespace_assigns (h : isWhitespace c = true) : assigns c = false := by
  rw [assigns, Bool.or_eq_false_iff, beq_eq_false_iff_ne, beq_eq_false_iff_ne]
  constructor
  · rintro rfl
    exact absurd h (by decide)
  · rintro rfl
    exact absurd h (by decide)

theorem not_valueChar (h : isWhitespace c = true ∨ quotes c = true) : valueChar c = false := by
  rcases h with h | h
  · simp [valueChar, h]
  · simp [valueChar, h]

theorem not_occurs_sign {a b : List Char} (hname : ∀ c ∈ name, assigns c = false)
    (ha : ∀ c ∈ a, isWhitespace c = true) (hb : ∀ c ∈ b, isWhitespace c = true ∨ quotes c = true) :
    ¬credentialAssignment.Occurs w.word prev (name ++ (a ++ d :: b)) next := by
  rintro ⟨u, s, g, v, hcut, htakes⟩
  obtain ⟨name', a', d', b', value, rfl, -, -, -, hd', -, hne, hvalue⟩ :=
    credentialAssignment_takes htakes
  obtain ⟨z, value, rfl⟩ := List.exists_cons_of_ne_nil hne
  have hcut' : (name ++ a) ++ d :: b = (u ++ (name' ++ a')) ++ d' :: (b' ++ (z :: value ++ v)) := by
    simpa only [List.append_assoc, List.cons_append] using hcut
  -- the sign of the name is the first one, so that the value would stand behind it
  have hmem : z ∈ b := by
    rcases List.append_eq_append_iff.mp hcut' with ⟨x, hx, hrest⟩ | ⟨x, hx, hrest⟩
    · cases x with
      | nil =>
        obtain ⟨-, rfl⟩ := List.cons.inj hrest
        exact List.mem_append_right _ (List.mem_cons_self ..)
      | cons e x =>
        obtain ⟨-, rfl⟩ := List.cons.inj hrest
        exact List.mem_append_right _ (List.mem_cons_of_mem _
          (List.mem_append_right _ (List.mem_cons_self ..)))
    · cases x with
      | nil =>
        obtain ⟨-, rfl⟩ := List.cons.inj hrest
        exact List.mem_append_right _ (List.mem_cons_self ..)
      | cons e x =>
        obtain ⟨rfl, -⟩ := List.cons.inj hrest
        have hd : d' ∈ name ++ a := hx ▸ List.mem_append_right _ (List.mem_cons_self ..)
        have hfree : assigns d' = false :=
          (List.mem_append.mp hd).elim (hname d') fun h => isWhitespace_assigns (ha d' h)
        rw [hfree] at hd'
        exact absurd hd' (by simp)
  have hz := not_valueChar (hb z hmem)
  rw [hvalue z (List.mem_cons_self ..)] at hz
  exact absurd hz (by simp)

theorem credentialAssignment_kept (h : Found w.word credentialAssignment prev text gap m) :
    ∃ name a d b value, m.taken = (name ++ (a ++ d :: b)) ++ value
      ∧ m.groups = [name, a ++ d :: b, value] ∧ (∀ c ∈ name, assigns c = false)
      ∧ (∀ c ∈ a, isWhitespace c = true) ∧ assigns d = true
      ∧ ∀ c ∈ b, isWhitespace c = true ∨ quotes c = true := by
  obtain ⟨name, a, d, b, value, htaken, hgroups, hname, ha, hd, hb, -, -⟩ :=
    credentialAssignment_takes h.takes
  exact ⟨name, a, d, b, value, htaken.trans (List.append_assoc ..).symm, hgroups, hname, ha, hd, hb⟩

theorem not_wordAt_sign {a b : List Char} (ha : ∀ c ∈ a, isWhitespace c = true)
    (hd : assigns d = true) (hb : ∀ c ∈ b, isWhitespace c = true ∨ quotes c = true) :
    wordAt w.word (after prev (a ++ d :: b)) = false := by
  have hmark {c : Char} (hc : c.toNat < 128) (h : (c.isAlphanum || c == '_') = false) :
      w.word c = false := by rw [w.ascii c hc, h]
  refine wordAt_after (by simp) fun c hc => ?_
  rcases List.mem_append.mp hc with hc | hc
  · exact w.space c (ha c hc)
  · rcases List.mem_cons.mp hc with rfl | hc
    · rcases (Bool.or_eq_true _ _).mp hd with h | h
      · rw [beq_iff_eq.mp h]
        exact hmark (by decide) (by decide)
      · rw [beq_iff_eq.mp h]
        exact hmark (by decide) (by decide)
    · rcases hb c hc with h | h
      · exact w.space c h
      · rcases (Bool.or_eq_true _ _).mp h with h | h
        · rw [beq_iff_eq.mp h]
          exact hmark (by decide) (by decide)
        · rw [beq_iff_eq.mp h]
          exact hmark (by decide) (by decide)

/-! ### Rounds

One lemma for each round: the patterns that did not occur before it still do not, and the
pattern of the round no longer does. -/

theorem bearerToken_marks : bearerToken.avoids '[' = true ∧ bearerToken.avoids ']' = true := by decide

theorem providerToken_marks : providerToken.avoids '[' = true ∧ providerToken.avoids ']' = true := by
  decide

theorem awsAccessKey_marks : awsAccessKey.avoids '[' = true ∧ awsAccessKey.avoids ']' = true := by
  decide

theorem credentialAssignment_marks :
    credentialAssignment.avoids '[' = true ∧ credentialAssignment.avoids ']' = true := by decide

theorem bearerToken_needs : bearerToken.Needs (folds 'B') := .inr (.inl (.inl fun _ => id))

theorem providerToken_needs : providerToken.Needs fun c => c == '_' || c == '-' := by
  have hunderscore : ∀ d, exactly '_' d = true → (d == '_' || d == '-') = true := by
    intro d hd
    rw [← show '_' = d from beq_iff_eq.mp hd]
    decide
  refine .inr (.inl ⟨needs_literal (c := '_') (by decide) hunderscore,
    .inr (.inr (needs_literal (c := '_') (by decide) hunderscore)),
    needs_literal (c := '-') (by decide) ?_⟩)
  intro d hd
  rw [← show '-' = d from beq_iff_eq.mp hd]
  decide

theorem awsAccessKey_needs : awsAccessKey.Needs (exactly 'I') :=
  .inr (.inl (needs_literal (c := 'I') (by decide) fun _ => id))

theorem credentialAssignment_needs : credentialAssignment.Needs assigns :=
  .inr (.inr (.inr (.inl (.inr (.inl fun _ => id)))))

theorem not_occurs_replaced (inner : List Char) (own : Prop) (hown : own → k = r) (hr : r.Needs p)
    (hf : ∀ m, f m = '[' :: (inner ++ [']'])) (hk : k.Starts q) (hsettled : k.Settled)
    (hmarks : k.avoids '[' = true ∧ k.avoids ']' = true) (hneeds : k.Needs n)
    (hinner : inner.all (fun c => !n c) = true)
    (hrest : ∀ prev text gap m, Found w.word r prev text gap m →
      ∀ c, m.rest.head? = some c → q c = false) (hclear : own ∨ ¬k.Occurs w.word none text none) :
    ¬k.Occurs w.word none (r.replaceAll w.word f text) none := by
  refine not_occurs_marked (fun _ => []) inner own hown hr hf hk hmarks.1 hmarks.2
    (not_occurs_of_all hneeds hinner) hrest ?_ ?_ text hclear
  · intro prev text gap m h hhead c hc
    exact hhead c (h.head [] rfl hc)
  · intro prev text gap m h hclear hocc
    rcases hclear with hk' | hclear
    · have hnil := h.within [] rfl (hown hk' ▸ hocc.of_settled hsettled)
      obtain ⟨c, hc, -⟩ := hnil.needs hr
      exact absurd hc List.not_mem_nil
    · exact h.clear [] rfl hclear (hocc.of_settled hsettled)

theorem not_block_placeholder (inner : List Char) (hr : r.Needs p)
    (hf : ∀ m, f m = '[' :: (inner ++ [']'])) (hinner : inner.all (fun c => !(c == '-')) = true)
    (h : ¬Block w.word text) : ¬Block w.word (r.replaceAll w.word f text) :=
  not_block_marked hinner hr
    (fun m _ _ _ => ⟨[], [], m.taken, hf m, rfl, fun _ hc => absurd hc List.not_mem_nil⟩) h

theorem privateKey_round (text : List Char) :
    ¬Block w.word (privateKey.replaceAll w.word (expand [.text "[REDACTED PRIVATE KEY]"]) text) := by
  have hinner : "REDACTED PRIVATE KEY".toList.all (fun c => !(c == '-')) = true := by decide
  exact not_block_replaced hinner (fun _ => rfl) text

theorem bearerToken_round (hkey : ¬Block w.word text) :
    let out := bearerToken.replaceAll w.word (expand [.text "Bearer [REDACTED]"]) text
    ¬Block w.word out ∧ ¬bearerToken.Occurs w.word none out none := by
  constructor
  · have hinner : "REDACTED".toList.all (fun c => !(c == '-')) = true := by decide
    refine not_block_marked hinner bearerToken_needs ?_ hkey
    intro m _ _ _
    have hadded : ("Bearer ".toList.all fun c => !(c == '-')) = true := by decide
    refine ⟨[], "Bearer ".toList, m.taken, rfl, rfl, fun c hc => ?_⟩
    have hother := List.all_eq_true.mp hadded c hc
    rwa [Bool.not_eq_true'] at hother
  refine not_occurs_marked (fun _ => "Bearer ".toList) "REDACTED".toList True (fun _ => rfl)
    bearerToken_needs (fun _ => rfl) bearerToken_starts bearerToken_marks.1 bearerToken_marks.2
    (not_occurs_of_all bearerToken_needs (by decide)) (fun _ _ _ _ h _ => bearerToken_rest h) ?_ ?_
    text (.inl trivial)
  · intro prev text gap m h hhead c hc
    cases gap with
    | nil =>
      -- the match begins with a letter, at the head of the text
      obtain ⟨d, s, hs, hd⟩ := h.takes.starts bearerToken_starts
      have htext : text.head? = some d := by
        rw [h.cut, hs]
        rfl
      rw [hhead d htext] at hd
      exact absurd hd (by simp)
    | cons d gap => exact hhead c (h.head [] rfl hc)
  · intro prev text gap m h _
    exact bearerToken_gap h

theorem providerToken_round (hkey : ¬Block w.word text)
    (hbearer : ¬bearerToken.Occurs w.word none text none) :
    let out := providerToken.replaceAll w.word (expand [.text "[REDACTED TOKEN]"]) text
    ¬Block w.word out ∧ ¬bearerToken.Occurs w.word none out none
      ∧ ¬providerToken.Occurs w.word none out none := by
  refine ⟨?_, ?_, ?_⟩
  · exact not_block_placeholder "REDACTED TOKEN".toList providerToken_needs (fun _ => rfl) (by decide)
      hkey
  · exact not_occurs_replaced "REDACTED TOKEN".toList False False.elim providerToken_needs
      (fun _ => rfl) bearerToken_starts bearerToken_settled bearerToken_marks bearerToken_needs
      (by decide) (fun _ _ _ _ h _ => providerToken_rest h) (.inr hbearer)
  · exact not_occurs_replaced "REDACTED TOKEN".toList True (fun _ => rfl) providerToken_needs
      (fun _ => rfl) providerToken_starts providerToken_settled providerToken_marks
      providerToken_needs (by decide) (fun _ _ _ _ h _ => providerToken_rest h) (.inl trivial)

theorem awsAccessKey_round (hkey : ¬Block w.word text)
    (hbearer : ¬bearerToken.Occurs w.word none text none)
    (htoken : ¬providerToken.Occurs w.word none text none) :
    let out := awsAccessKey.replaceAll w.word (expand [.text "[REDACTED AWS ACCESS KEY]"]) text
    ¬Block w.word out ∧ ¬bearerToken.Occurs w.word none out none
      ∧ ¬providerToken.Occurs w.word none out none ∧ ¬awsAccessKey.Occurs w.word none out none := by
  refine ⟨?_, ?_, ?_, ?_⟩
  · exact not_block_placeholder "REDACTED AWS ACCESS KEY".toList awsAccessKey_needs (fun _ => rfl)
      (by decide) hkey
  · exact not_occurs_replaced "REDACTED AWS ACCESS KEY".toList False False.elim awsAccessKey_needs
      (fun _ => rfl) bearerToken_starts bearerToken_settled bearerToken_marks bearerToken_needs
      (by decide) (fun _ _ _ _ h _ => awsAccessKey_rest h) (.inr hbearer)
  · exact not_occurs_replaced "REDACTED AWS ACCESS KEY".toList False False.elim awsAccessKey_needs
      (fun _ => rfl) providerToken_starts providerToken_settled providerToken_marks
      providerToken_needs (by decide) (fun _ _ _ _ h _ => awsAccessKey_rest h) (.inr htoken)
  refine not_occurs_marked (fun _ => []) "REDACTED AWS ACCESS KEY".toList True (fun _ => rfl)
    awsAccessKey_needs (fun _ => rfl) awsAccessKey_starts awsAccessKey_marks.1 awsAccessKey_marks.2
    (not_occurs_of_all awsAccessKey_needs (by decide)) (fun _ _ _ _ h _ => awsAccessKey_rest h) ?_ ?_
    text (.inl trivial)
  · intro prev text gap m h hhead c hc
    exact hhead c (h.head [] rfl hc)
  · intro prev text gap m h _ hocc
    have hedge : wordAt w.word (after prev (gap ++ [])) = false := by
      rw [List.append_nil]
      exact awsAccessKey_gap h
    have hnil := h.within [] rfl (awsAccessKey_next hedge hocc)
    obtain ⟨c, hc, -⟩ := hnil.needs awsAccessKey_needs
    exact absurd hc List.not_mem_nil

/-- What the last round keeps of a match. -/
def keptSign (m : Match) : List Char := m.groups.getD 0 [] ++ m.groups.getD 1 []

theorem expand_keptSign (m : Match) :
    expand [.group 1, .group 2, .text "[REDACTED]"] m
      = keptSign m ++ '[' :: ("REDACTED".toList ++ [']']) := by
  show m.groups.getD 0 [] ++ (m.groups.getD 1 [] ++ ("[REDACTED]".toList ++ [])) = _
  rw [keptSign, List.append_assoc, List.append_nil]
  rfl

theorem keptSign_eq {sign value : List Char} (h : m.groups = [name, sign, value]) :
    keptSign m = name ++ sign := by
  rw [keptSign, h]
  rfl

theorem not_occurs_assigned (own : Prop) (hown : own → k = credentialAssignment)
    (hq : ∀ c, q c = true → initial c = true) (hk : k.Starts q)
    (hmarks : k.avoids '[' = true ∧ k.avoids ']' = true) (hneeds : k.Needs n)
    (hinner : "REDACTED".toList.all (fun c => !n c) = true)
    (hnext : ∀ (prev : Option Char) (text : List Char) (next next' : Option Char),
      wordAt w.word (after prev text) = false →
        k.Occurs w.word prev text next → k.Occurs w.word prev text next')
    (hclear : own ∨ ¬k.Occurs w.word none text none) :
    ¬k.Occurs w.word none (credentialAssignment.replaceAll w.word
      (expand [.group 1, .group 2, .text "[REDACTED]"]) text) none := by
  refine not_occurs_marked keptSign "REDACTED".toList own hown credentialAssignment_needs
    expand_keptSign hk hmarks.1 hmarks.2 (not_occurs_of_all hneeds hinner) ?_ ?_ ?_ text hclear
  · intro prev text gap m h c hc
    have hinitial := credentialAssignment_rest h hc
    refine Bool.eq_false_iff.mpr fun hqc => ?_
    rw [hq c hqc] at hinitial
    exact absurd hinitial (by simp)
  · intro prev text gap m h hhead c hc
    obtain ⟨name, a, d, b, value, htaken, hgroups, -⟩ := credentialAssignment_kept h
    rw [keptSign_eq hgroups] at hc
    exact hhead c (h.head _ htaken hc)
  · intro prev text gap m h hclear hocc
    obtain ⟨name, a, d, b, value, htaken, hgroups, hname, ha, hd, hb⟩ := credentialAssignment_kept h
    rw [keptSign_eq hgroups] at hocc
    have hedge : wordAt w.word (after prev (gap ++ (name ++ (a ++ d :: b)))) = false := by
      rw [after_append, after_append]
      exact not_wordAt_sign ha hd hb
    have hocc := hnext _ _ _ (value ++ m.rest).head? hedge hocc
    rcases hclear with hk' | hclear
    · exact not_occurs_sign hname ha hb (h.within _ htaken (hown hk' ▸ hocc))
    · exact h.clear _ htaken hclear hocc

theorem credentialAssignment_round (hkey : ¬Block w.word text)
    (hbearer : ¬bearerToken.Occurs w.word none text none)
    (htoken : ¬providerToken.Occurs w.word none text none)
    (haccess : ¬awsAccessKey.Occurs w.word none text none) :
    let out := credentialAssignment.replaceAll w.word
      (expand [.group 1, .group 2, .text "[REDACTED]"]) text
    ¬Block w.word out ∧ ¬bearerToken.Occurs w.word none out none
      ∧ ¬providerToken.Occurs w.word none out none ∧ ¬awsAccessKey.Occurs w.word none out none
      ∧ ¬credentialAssignment.Occurs w.word none out none := by
  have hletter : ∀ c, c.isAlpha = true → initial c = true := by
    intro c hc
    rw [initial, hc, Bool.true_or]
  refine ⟨?_, ?_, ?_, ?_, ?_⟩
  · have hinner : "REDACTED".toList.all (fun c => !(c == '-')) = true := by decide
    refine not_block_marked hinner credentialAssignment_needs ?_ hkey
    intro m _ _ h
    obtain ⟨name, a, d, b, value, htaken, hgroups, -⟩ := credentialAssignment_takes h
    refine ⟨keptSign m, [], value, ?_, ?_, fun _ hc => absurd hc List.not_mem_nil⟩
    · rw [List.append_nil]
      exact expand_keptSign m
    · rw [keptSign_eq hgroups]
      exact htaken.trans (List.append_assoc ..).symm
  · exact not_occurs_assigned False False.elim hletter bearerToken_starts bearerToken_marks
      bearerToken_needs (by decide) (fun _ _ _ _ _ h => h.of_settled bearerToken_settled)
      (.inr hbearer)
  · exact not_occurs_assigned False False.elim hletter providerToken_starts providerToken_marks
      providerToken_needs (by decide) (fun _ _ _ _ _ h => h.of_settled providerToken_settled)
      (.inr htoken)
  · exact not_occurs_assigned False False.elim hletter awsAccessKey_starts awsAccessKey_marks
      awsAccessKey_needs (by decide) (fun _ _ _ _ hedge h => awsAccessKey_next hedge h)
      (.inr haccess)
  · exact not_occurs_assigned True (fun _ => rfl) (fun _ => id) credentialAssignment_starts
      credentialAssignment_marks credentialAssignment_needs (by decide)
      (fun _ _ _ _ _ h => h.of_settled credentialAssignment_settled) (.inl trivial)

end Tokens

/-! ### Redaction leaves no secret -/

variable (w : Words)

/-- None of the patterns occurs. -/
def Clean (text : List Char) : Prop :=
  ∀ pattern ∈ patterns, ¬pattern.regex.Occurs w.word none text none

theorem clean_redacted (state : List Char × ℕ) :
    Clean w (patterns.foldl (redactWith w) state).1 := by
  have key₁ := privateKey_round (w := w) state.1
  obtain ⟨key₂, bearer₂⟩ := bearerToken_round key₁
  obtain ⟨key₃, bearer₃, token₃⟩ := providerToken_round key₂ bearer₂
  obtain ⟨key₄, bearer₄, token₄, access₄⟩ := awsAccessKey_round key₃ bearer₃ token₃
  obtain ⟨key₅, bearer₅, token₅, access₅, assigned₅⟩ :=
    credentialAssignment_round key₄ bearer₄ token₄ access₄
  simp only [Clean, patterns, List.forall_mem_cons]
  exact ⟨fun h => key₅ (occurs_privateKey.mp h), bearer₅, token₅, access₅, assigned₅, by simp⟩

theorem isMatch_of_clean (h : Clean w text) {pattern : Pattern} (hpattern : pattern ∈ patterns) :
    pattern.regex.isMatch w.word text = false:= by
  rw [isMatch, find_eq_none.mpr (h pattern hpattern)]
  rfl

theorem foldl_of_clean (h : Clean w text) (count : ℕ) :
    ∀ rounds : List Pattern, rounds ⊆ patterns →
      rounds.foldl (redactWith w) (text, count) = (text, count) := by
  intro rounds
  induction rounds with
  | nil => exact fun _ => rfl
  | cons pattern rounds ih =>
    intro hrounds
    obtain ⟨hpattern, hrounds⟩ := List.cons_subset.mp hrounds
    have hpieces := pieces_of_not_occurs (h pattern hpattern)
    rw [List.foldl_cons, redactWith, replaceAll, findIter, hpieces]
    exact ih hrounds

/-- A redacted text has no recognised secret, and redacting it again changes and counts
nothing. -/
theorem redactText_clean (input : String) :
    recognizedSecrets w (redactText w input).1 = []
      ∧ redactText w (redactText w input).1 = ((redactText w input).1, 0) := by
  have hclean : Clean w (redactText w input).1.toList := by
    show Clean w (String.ofList _).toList
    rw [String.toList_ofList]
    exact clean_redacted w (input.toList, 0)
  refine ⟨?_, ?_⟩
  · refine List.filterMap_eq_nil_iff.mpr fun pattern hpattern => ?_
    rw [isMatch_of_clean w hclean hpattern]
    rfl
  · show (String.ofList (patterns.foldl (redactWith w) (_, 0)).1, _) = _
    rw [foldl_of_clean w hclean 0 patterns (fun _ => id), String.ofList_toList]

/-- Characters each of the patterns needs, except for bearer tokens. -/
def loud (c : Char) : Bool := c == '-' || c == '_' || assigns c || exactly 'K' c

/-- An ASCII text without these characters, and without a bearer token, stays as it is,
whatever the class of word characters is elsewhere. -/
theorem redactText_of_quiet {input : String}
    (hquiet : input.toList.all (fun c => decide (c.toNat < 128) && !loud c) = true)
    (hbearer : bearerToken.isMatch Words.plain.word input.toList = false) :
    redactText w input = (input, 0) := by
  have hchar : ∀ c ∈ input.toList, c.toNat < 128 ∧ loud c = false := by
    simpa using List.all_eq_true.mp hquiet
  have hnone {r : Regex} {q : Char → Bool} (hq : r.Needs q) (hloud : ∀ c, q c = true → loud c = true) :
      ¬r.Occurs w.word none input.toList none := by
    intro hocc
    obtain ⟨c, hc, hqc⟩ := hocc.needs hq
    have hfalse := (hchar c hc).2
    rw [hloud c hqc] at hfalse
    exact absurd hfalse (by simp)
  have hclean : Clean w input.toList := by
    simp only [Clean, patterns, List.forall_mem_cons]
    refine ⟨?_, ?_, ?_, ?_, ?_, by simp⟩
    · exact hnone (.inl (keyLine_needs _)) fun c hc => by simp [loud, beq_iff_eq.mp hc]
    · intro hocc
      have hword : ∀ c ∈ input.toList, w.word c = Words.plain.word c := by
        intro c hc
        rw [w.ascii c (hchar c hc).1, Words.plain.ascii c (hchar c hc).1]
      rw [isMatch, Option.isSome_eq_false_iff, Option.isNone_iff_eq_none, find_eq_none] at hbearer
      exact hbearer (hocc.congr hword)
    · refine hnone providerToken_needs fun c hc => ?_
      rcases (Bool.or_eq_true _ _).mp hc with h | h
      · simp [loud, beq_iff_eq.mp h]
      · simp [loud, beq_iff_eq.mp h]
    · have hneeds : awsAccessKey.Needs (exactly 'K') :=
        .inr (.inl (needs_literal (c := 'K') (by decide) fun _ => id))
      exact hnone hneeds fun c hc => by rw [loud, hc, Bool.or_true]
    · exact hnone credentialAssignment_needs fun c hc => by simp [loud, hc]
  show (String.ofList (patterns.foldl (redactWith w) (_, 0)).1, _) = _
  rw [foldl_of_clean w hclean 0 patterns (fun _ => id), String.ofList_toList]

end Redaction

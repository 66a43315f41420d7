/-
The package clause of a JVM source (`crates/adapters-lang-java/src/jvm.rs`).

The header is scanned item by item: white space, comments and annotations are skipped, and the
first word ends it.  The arguments of an annotation are skipped byte by byte, all else by
characters; a slice of the text that would cut a character panics.

`char::is_alphanumeric` is a table of Unicode (`Unicode`); of it only ASCII is known, and that
white space is not in it.

* `balancedEnd_encode` — the scan of the bytes is that of the characters;
* `packageHeader_total` — every text has a result.
-/
import Cartograph.Lib.Utf8
import Cartograph.Sources.Origin

namespace LangJava

open Sources (isWhitespace)
open Utf8 (encode)

/-- `char::is_alphanumeric`. -/
structure Unicode where
  isAlphanumeric : Char → Bool
  ascii : ∀ c, c.toNat < 128 → isAlphanumeric c = c.isAlphanum
  notSpace : ∀ c, isWhitespace c = true → isAlphanumeric c = false

/-- `u8::is_ascii_whitespace`. -/
def isAsciiSpace (c : Char) : Bool :=
  c == ' ' || c == '\t' || c == '\n' || c.toNat == 0x0c || c == '\r'

/-! ### Bracket groups -/

variable {needle : List Char}

section Group

-- bytes or characters: all that is looked at is ASCII
variable {α : Type} (code : α → ℕ)

/-- The rest from the first occurrence of a text that is not empty. -/
def seek (needle : List Char) : List α → Option (List α)
  | [] => none
  | a :: rest =>
    if (needle.map Char.toNat).isPrefixOf ((a :: rest).map code) then some (a :: rest)
    else seek needle rest

/-- What follows a literal after its opening quote. -/
def literalEnd (quote : ℕ) : List α → Option (List α)
  | [] => none
  | [a] => if code a = quote then some [] else none
  | a :: b :: rest =>
    if code a = quote then some (b :: rest)
    else if code a = '\\'.toNat then literalEnd quote rest
    else literalEnd quote (b :: rest)

variable {needle : List Char} {l found : List α}

theorem suffix_seek (h : seek code needle l = some found) :
    found <:+ l := by
  induction l with
  | nil => cases h
  | cons a rest ih =>
    rw [seek] at h
    split at h
    · rw [← Option.some.inj h]
    · exact (ih h).trans (List.suffix_cons a rest)

theorem suffix_literalEnd {quote : ℕ} (h : literalEnd code quote l = some found) :
    found <:+ l := by
  induction l using literalEnd.induct code quote with
  | case1 => cases h
  | case2 a ha =>
    rw [literalEnd, if_pos ha] at h
    rw [← Option.some.inj h]
    exact List.nil_suffix
  | case3 a ha =>
    rw [literalEnd, if_neg ha] at h
    cases h
  | case4 a b rest ha =>
    rw [literalEnd, if_pos ha] at h
    rw [← Option.some.inj h]
    exact List.suffix_cons a _
  | case5 a b rest ha hb ih =>
    rw [literalEnd, if_neg ha, if_pos hb] at h
    exact (ih h).trans ((List.suffix_cons b rest).trans (List.suffix_cons a _))
  | case6 a b rest ha hb ih =>
    rw [literalEnd, if_neg ha, if_neg hb] at h
    exact (ih h).trans (List.suffix_cons a _)

def startsWith (needle : List Char) (l : List α) : Bool :=
  (needle.map Char.toNat).isPrefixOf (l.map code)

theorem startsWith_cons (n : Char) (needle : List Char) (a : α) (l : List α) :
    startsWith code (n :: needle) (a :: l) = (n.toNat == code a && startsWith code needle l) := by
  rw [startsWith, List.map_cons, List.map_cons, List.isPrefixOf_cons_cons]
  rfl

theorem startsWith_of_ne {n : Char} {a : α} {l : List α} (h : n.toNat ≠ code a) :
    startsWith code (n :: needle) (a :: l) = false:= by
  rw [startsWith_cons, beq_eq_false_iff_ne.mpr h, Bool.false_and]

theorem length_le_of_startsWith {l : List α} (h : startsWith code needle l = true) :
    needle.length ≤ l.length := by
  have hle := (List.isPrefixOf_iff_prefix.mp h).length_le
  rwa [List.length_map, List.length_map] at hle

theorem seek_of_ne {n : Char} {a : α} {l : List α} (h : n.toNat ≠ code a) :
    seek code (n :: needle) (a :: l) = seek code (n :: needle) l := by
  rw [seek, ← startsWith, startsWith_of_ne code h, if_neg Bool.false_ne_true]

/-- One step inside a group at some depth: the rest and the depth there; `none` if it never
closes. -/
def groupStep (depth : ℕ) (a : α) (rest : List α) : Option (List α × ℕ) :=
  if startsWith code "\"\"\"".toList (a :: rest) then
    (seek code "\"\"\"".toList (rest.drop 2)).map fun found => (found.drop 3, depth)
  else if code a = '('.toNat ∨ code a = '['.toNat ∨ code a = '{'.toNat then some (rest, depth + 1)
  else if code a = ')'.toNat ∨ code a = ']'.toNat ∨ code a = '}'.toNat then
    if depth = 0 then none else some (rest, depth - 1)
  else if code a = '"'.toNat ∨ code a = '\''.toNat then
    (literalEnd code (code a) rest).map fun found => (found, depth)
  else if startsWith code "//".toList (a :: rest) then
    (seek code "\n".toList rest).map fun found => (found, depth)
  else if startsWith code "/*".toList (a :: rest) then
    (seek code "*/".toList (rest.drop 1)).map fun found => (found.drop 2, depth)
  else some (rest, depth)

theorem suffix_groupStep {depth depth' : ℕ} {a : α} {rest found : List α}
    (h : groupStep code depth a rest = some (found, depth')) : found <:+ rest := by
  have hseek : ∀ (needle : List Char) (k m : ℕ),
      (seek code needle (rest.drop k)).map (fun f => (f.drop m, depth)) = some (found, depth') →
        found <:+ rest := by
    intro needle k m h
    obtain ⟨f, hf, heq⟩ := Option.map_eq_some_iff.mp h
    rw [← (Prod.mk.inj heq).1]
    exact (List.drop_suffix m f).trans ((suffix_seek code hf).trans (List.drop_suffix k rest))
  rw [groupStep] at h
  split at h
  · exact hseek _ 2 3 h
  split at h
  · cases h
    exact List.suffix_rfl
  split at h
  · split at h
    · cases h
    · cases h
      exact List.suffix_rfl
  split at h
  · obtain ⟨f, hf, heq⟩ := Option.map_eq_some_iff.mp h
    rw [← (Prod.mk.inj heq).1]
    exact suffix_literalEnd code hf
  split at h
  · exact hseek _ 0 0 h
  split at h
  · exact hseek _ 1 2 h
  · cases h
    exact List.suffix_rfl

/-- `balanced_end`, inside a group at some depth: what follows the bracket that closes it. -/
def balancedEndFrom (depth : ℕ) : List α → Option (List α)
  | [] => none
  | a :: rest =>
    match _hstep : groupStep code depth a rest with
    | none => none
    | some (found, depth') =>
      if depth' = 0 ∧ 0 < depth then some found else balancedEndFrom depth' found
  termination_by l => l.length
  decreasing_by
    have hlength := (suffix_groupStep code _hstep).length_le
    simp only [List.length_cons]
    omega

/-- `balanced_end`. -/
def balancedEnd (l : List α) : Option (List α) := balancedEndFrom code 0 l

theorem balancedEndFrom_cons (depth : ℕ) (a : α) (rest : List α) :
    balancedEndFrom code depth (a :: rest) =
      match groupStep code depth a rest with
      | none => none
      | some (found, depth') =>
        if depth' = 0 ∧ 0 < depth then some found else balancedEndFrom code depth' found := by
  rw [balancedEndFrom]
  split
  · rename_i hstep
    rw [hstep]
  · rename_i hstep
    rw [hstep]

theorem suffix_balancedEndFrom (depth : ℕ) (h : balancedEndFrom code depth l = some found) :
    found <:+ l ∧ found.length < l.length:= by
  induction hn : l.length using Nat.strong_induction_on generalizing depth l with
  | _ n ih =>
  subst hn
  cases l with
  | nil =>
    rw [balancedEndFrom] at h
    cases h
  | cons a rest =>
    rw [balancedEndFrom_cons] at h
    cases hstep : groupStep code depth a rest with
    | none =>
      rw [hstep] at h
      cases h
    | some p =>
      obtain ⟨next, depth'⟩ := p
      have hnext := suffix_groupStep code hstep
      have hlength := hnext.length_le
      rw [hstep] at h
      dsimp only at h
      rw [List.length_cons]
      split at h
      · rw [← Option.some.inj h]
        exact ⟨hnext.trans (List.suffix_cons a rest), by omega⟩
      · obtain ⟨hsuffix, hlt⟩ := ih next.length (by rw [List.length_cons]; omega) depth' h rfl
        exact ⟨hsuffix.trans (hnext.trans (List.suffix_cons a rest)), by omega⟩

end Group

/-! ### Bytes and characters -/

/-- A text of ASCII characters. -/
def Ascii (t : List Char) : Prop := ∀ c ∈ t, c.toNat < 128

instance (t : List Char) : Decidable (Ascii t) := List.decidableBAll _ t

variable {c n : Char} {quote : ℕ} {t : List Char}

theorem toNat_ofNat (h : c.toNat < 128) : (UInt8.ofNat c.toNat).toNat = c.toNat :=
  UInt8.toNat_ofNat_of_lt' (h.trans (by decide))

theorem exists_encode_cons (c : Char) (t : List Char) :
    ∃ b bs, encode (c :: t) = b :: (bs ++ encode t) ∧ (¬c.toNat < 128 → 128 ≤ b.toNat)
      ∧ ∀ b' ∈ bs, 128 ≤ b'.toNat := by
  by_cases hc : c.toNat < 128
  · exact ⟨_, [], Utf8.encode_ascii hc t, fun h => absurd hc h, fun b' h => absurd h List.not_mem_nil⟩
  · have hhigh := Utf8.high_of_wide hc
    cases hchar : String.utf8EncodeChar c with
    | nil =>
      have hlength := String.length_utf8EncodeChar c
      rw [hchar] at hlength
      exact absurd hlength.symm (Nat.ne_of_gt c.utf8Size_pos)
    | cons b bs =>
      rw [hchar] at hhigh
      refine ⟨b, bs, ?_, fun _ => hhigh b List.mem_cons_self,
        fun b' h => hhigh b' (List.mem_cons_of_mem _ h)⟩
      rw [Utf8.encode_cons, hchar, List.cons_append]

theorem startsWith_encode (hneedle : Ascii needle) (t : List Char) :
    startsWith UInt8.toNat needle (encode t) = startsWith Char.toNat needle t := by
  induction needle generalizing t with
  | nil => rfl
  | cons n needle ih =>
    obtain ⟨hn, hrest⟩ := List.forall_mem_cons.mp hneedle
    cases t with
    | nil => rfl
    | cons c t =>
      by_cases hc : c.toNat < 128
      · rw [Utf8.encode_ascii hc, startsWith_cons, startsWith_cons, toNat_ofNat hc, ih hrest]
      · rw [startsWith_of_ne Char.toNat (by omega)]
        obtain ⟨b, bs, hencode, hb, -⟩ := exists_encode_cons c t
        have hb := hb hc
        rw [hencode]
        exact startsWith_of_ne UInt8.toNat (by omega)

section Wide

variable {bs l : List UInt8} (hhigh : ∀ b ∈ bs, 128 ≤ b.toNat)
include hhigh

theorem seek_append (hn : n.toNat < 128) :
    seek UInt8.toNat (n :: needle) (bs ++ l) = seek UInt8.toNat (n :: needle) l := by
  induction bs with
  | nil => rfl
  | cons b bs ih =>
    obtain ⟨hb, hrest⟩ := List.forall_mem_cons.mp hhigh
    rw [List.cons_append, seek, ← startsWith, startsWith_of_ne UInt8.toNat (by omega),
      if_neg Bool.false_ne_true]
    exact ih hrest

theorem literalEnd_append (hquote : quote < 128) :
    literalEnd UInt8.toNat quote (bs ++ l) = literalEnd UInt8.toNat quote l := by
  induction bs with
  | nil => rfl
  | cons b bs ih =>
    obtain ⟨hb, hrest⟩ := List.forall_mem_cons.mp hhigh
    rw [← ih hrest, List.cons_append]
    have hslash : b.toNat ≠ '\\'.toNat := by
      have : '\\'.toNat < 128 := by decide
      omega
    have hquote : b.toNat ≠ quote := by omega
    cases bs ++ l with
    | nil => exact if_neg hquote
    | cons b' more => rw [literalEnd, if_neg hquote, if_neg hslash]

end Wide

theorem seek_encode (hneedle : Ascii (n :: needle)) (t : List Char) :
    seek UInt8.toNat (n :: needle) (encode t) = (seek Char.toNat (n :: needle) t).map encode := by
  induction t with
  | nil => rfl
  | cons c t ih =>
    have hstarts := startsWith_encode hneedle (c :: t)
    rw [seek, ← startsWith]
    by_cases hc : c.toNat < 128
    · rw [Utf8.encode_ascii hc] at hstarts ⊢
      rw [seek, ← startsWith, hstarts, ih]
      split
      · rw [Option.map_some, Utf8.encode_ascii hc]
      · rfl
    · have hn : n.toNat < 128 := hneedle n List.mem_cons_self
      rw [startsWith_of_ne Char.toNat (by omega), if_neg Bool.false_ne_true, Utf8.encode_cons,
        seek_append (Utf8.high_of_wide hc) hn, ih]

theorem literalEnd_encode (hquote : quote < 128) (t : List Char) :
    literalEnd UInt8.toNat quote (encode t) = (literalEnd Char.toNat quote t).map encode := by
  have hstep : ∀ (c : Char) (t : List Char), c.toNat ≠ quote → c.toNat ≠ '\\'.toNat →
      literalEnd UInt8.toNat quote (encode (c :: t)) = literalEnd UInt8.toNat quote (encode t) := by
    intro c t hne hslash
    by_cases hc : c.toNat < 128
    · rw [Utf8.encode_ascii hc]
      cases hrest : encode t with
      | nil =>
        refine if_neg ?_
        rwa [toNat_ofNat hc]
      | cons b bytes => rw [literalEnd, toNat_ofNat hc, if_neg hne, if_neg hslash]
    · rw [Utf8.encode_cons, literalEnd_append (Utf8.high_of_wide hc) hquote]
  have hend : ∀ (c : Char) (t : List Char), c.toNat = quote →
      literalEnd UInt8.toNat quote (encode (c :: t)) = some (encode t) := by
    intro c t heq
    have hc : c.toNat < 128 := heq ▸ hquote
    rw [Utf8.encode_ascii hc]
    cases hrest : encode t with
    | nil =>
      refine if_pos ?_
      rwa [toNat_ofNat hc]
    | cons b bytes => rw [literalEnd, toNat_ofNat hc, if_pos heq]
  induction t using literalEnd.induct Char.toNat quote with
  | case1 => rfl
  | case2 c hc =>
    rw [hend c [] hc, literalEnd, if_pos hc]
    rfl
  | case3 c hc =>
    rw [literalEnd, if_neg hc]
    by_cases hslash : c.toNat = '\\'.toNat
    · rw [Utf8.encode_ascii (by rw [hslash]; decide)]
      refine if_neg ?_
      rwa [toNat_ofNat (by rw [hslash]; decide)]
    · rw [hstep c [] hc hslash]
      rfl
  | case4 c d t hc =>
    rw [hend c (d :: t) hc, literalEnd, if_pos hc]
    rfl
  | case5 c d t hc hslash ih =>
    -- of an escaped character beyond ASCII, one byte is skipped with the backslash
    have hascii : c.toNat < 128 := by rw [hslash]; decide
    obtain ⟨b, bs, hencode, -, hhigh⟩ := exists_encode_cons d t
    rw [literalEnd, if_neg hc, if_pos hslash, ← ih, Utf8.encode_ascii hascii, hencode, literalEnd,
      toNat_ofNat hascii, if_neg hc, if_pos hslash]
    exact literalEnd_append hhigh hquote
  | case6 c d t hc hslash ih =>
    rw [hstep c (d :: t) hc hslash, ih, literalEnd, if_neg hc, if_neg hslash]

theorem startsWith_of_seek {found : List Char} (h : seek Char.toNat needle t = some found) :
    startsWith Char.toNat needle found = true := by
  induction t with
  | nil => cases h
  | cons c t ih =>
    rw [seek] at h
    split at h
    · rename_i hstarts
      rw [← Option.some.inj h]
      exact hstarts
    · exact ih h

theorem encode_drop (hneedle : Ascii needle) (h : startsWith Char.toNat needle t = true) :
    (encode t).drop needle.length = encode (t.drop needle.length) := by
  induction needle generalizing t with
  | nil => rfl
  | cons n needle ih =>
    obtain ⟨hn, hrest⟩ := List.forall_mem_cons.mp hneedle
    cases t with
    | nil => cases h
    | cons c t =>
      rw [startsWith_cons, Bool.and_eq_true, beq_iff_eq] at h
      rw [Utf8.encode_ascii (h.1 ▸ hn), List.length_cons, List.drop_succ_cons, List.drop_succ_cons]
      exact ih hrest h.2

theorem groupStep_high {α : Type} (code : α → ℕ) (depth : ℕ) {a : α} (h : 128 ≤ code a)
    (rest : List α) : groupStep code depth a rest = some (rest, depth) := by
  have hne : ∀ n : Char, n.toNat < 128 → code a ≠ n.toNat := by
    intro n hn
    omega
  have hstarts : ∀ (n : Char) (needle : List Char), n.toNat < 128 →
      startsWith code (n :: needle) (a :: rest) = false :=
    fun n needle hn => startsWith_of_ne code (hne n hn).symm
  have hquotes : startsWith code "\"\"\"".toList (a :: rest) = false := hstarts _ _ (by decide)
  have hline : startsWith code "//".toList (a :: rest) = false := hstarts _ _ (by decide)
  have hblock : startsWith code "/*".toList (a :: rest) = false := hstarts _ _ (by decide)
  rw [groupStep, hquotes, hline, hblock, if_neg Bool.false_ne_true, if_neg, if_neg, if_neg,
    if_neg Bool.false_ne_true, if_neg Bool.false_ne_true]
  · rintro (h | h)
    · exact hne '"' (by decide) h
    · exact hne '\'' (by decide) h
  · rintro (h | h | h)
    · exact hne ')' (by decide) h
    · exact hne ']' (by decide) h
    · exact hne '}' (by decide) h
  · rintro (h | h | h)
    · exact hne '(' (by decide) h
    · exact hne '[' (by decide) h
    · exact hne '{' (by decide) h

theorem groupStep_encode (depth : ℕ) (hc : c.toNat < 128) (t : List Char) :
    groupStep UInt8.toNat depth (UInt8.ofNat c.toNat) (encode t)
      = (groupStep Char.toNat depth c t).map fun p => (encode p.1, p.2) := by
  have hstarts : ∀ needle : List Char, Ascii needle →
      startsWith UInt8.toNat needle (UInt8.ofNat c.toNat :: encode t)
        = startsWith Char.toNat needle (c :: t) := by
    intro needle hneedle
    rw [← Utf8.encode_ascii hc, startsWith_encode hneedle]
  -- the text after a needle that was found
  have hfound : ∀ (n : Char) (needle : List Char) (t : List Char), Ascii (n :: needle) →
      (seek UInt8.toNat (n :: needle) (encode t)).map
          (fun found => (found.drop (n :: needle).length, depth))
        = ((seek Char.toNat (n :: needle) t).map
            fun found => (found.drop (n :: needle).length, depth)).map
              fun p => (encode p.1, p.2) := by
    intro n needle t hneedle
    rw [seek_encode hneedle]
    cases hseek : seek Char.toNat (n :: needle) t with
    | none => rfl
    | some found =>
      rw [Option.map_some, Option.map_some, Option.map_some, Option.map_some,
        encode_drop hneedle (startsWith_of_seek hseek)]
  have hquotes : Ascii "\"\"\"".toList := by decide
  have hline : Ascii "//".toList := by decide
  have hblock : Ascii "/*".toList := by decide
  rw [groupStep, groupStep, hstarts _ hquotes, hstarts _ hline, hstarts _ hblock, toNat_ofNat hc]
  split
  · rename_i h
    have htail : startsWith Char.toNat "\"\"".toList t = true := by
      have h : startsWith Char.toNat ('"' :: "\"\"".toList) (c :: t) = true := h
      rw [startsWith_cons, Bool.and_eq_true] at h
      exact h.2
    have hdrop : (encode t).drop 2 = encode (t.drop 2) :=
      encode_drop (by decide) htail
    rw [hdrop]
    exact hfound '"' "\"\"".toList (t.drop 2) (by decide)
  split
  · rfl
  split
  · split
    · rfl
    · rfl
  split
  · rw [literalEnd_encode hc, Option.map_map, Option.map_map]
    rfl
  split
  · rw [show "\n".toList = ['\n'] from rfl, seek_encode (by decide), Option.map_map,
      Option.map_map]
    rfl
  split
  · rename_i h
    have htail : startsWith Char.toNat "*".toList t = true := by
      have h : startsWith Char.toNat ('/' :: "*".toList) (c :: t) = true := h
      rw [startsWith_cons, Bool.and_eq_true] at h
      exact h.2
    have hdrop : (encode t).drop 1 = encode (t.drop 1) :=
      encode_drop (by decide) htail
    rw [hdrop]
    exact hfound '*' "/".toList (t.drop 1) (by decide)
  · rfl

theorem balancedEndFrom_append (depth : ℕ) {bs l : List UInt8} (hhigh : ∀ b ∈ bs, 128 ≤ b.toNat) :
    balancedEndFrom UInt8.toNat depth (bs ++ l) = balancedEndFrom UInt8.toNat depth l := by
  induction bs with
  | nil => rfl
  | cons b bs ih =>
    obtain ⟨hb, hrest⟩ := List.forall_mem_cons.mp hhigh
    rw [List.cons_append, balancedEndFrom_cons, groupStep_high UInt8.toNat depth hb]
    exact (if_neg fun h => absurd h.1 (Nat.ne_of_gt h.2)).trans (ih hrest)

theorem balancedEndFrom_encode (depth : ℕ) (t : List Char) :
    balancedEndFrom UInt8.toNat depth (encode t)
      = (balancedEndFrom Char.toNat depth t).map encode := by
  induction hn : t.length using Nat.strong_induction_on generalizing depth t with
  | _ n ih =>
  subst hn
  cases t with
  | nil => rw [Utf8.encode_nil, balancedEndFrom, balancedEndFrom, Option.map_none]
  | cons c t =>
    by_cases hc : c.toNat < 128
    · rw [Utf8.encode_ascii hc, balancedEndFrom_cons, balancedEndFrom_cons, groupStep_encode depth hc]
      cases hstep : groupStep Char.toNat depth c t with
      | none => rfl
      | some p =>
        obtain ⟨found, depth'⟩ := p
        have hlength := (suffix_groupStep Char.toNat hstep).length_le
        rw [Option.map_some]
        dsimp only
        split
        · rfl
        · exact ih found.length (by rw [List.length_cons]; omega) depth' found rfl
    · obtain ⟨b, bs, hencode, hb, hhigh⟩ := exists_encode_cons c t
      have hwide : 128 ≤ c.toNat := by omega
      rw [hencode, balancedEndFrom_cons, balancedEndFrom_cons, groupStep_high _ depth (hb hc),
        groupStep_high _ depth hwide]
      dsimp only
      have hdepth : ¬(depth = 0 ∧ 0 < depth) := fun h => absurd h.1 (Nat.ne_of_gt h.2)
      rw [if_neg hdepth, if_neg hdepth, balancedEndFrom_append depth hhigh]
      exact ih t.length (Nat.lt_succ_self _) depth t rfl

theorem balancedEnd_encode (t : List Char) :
    balancedEnd UInt8.toNat (encode t) = (balancedEnd Char.toNat t).map encode :=
  balancedEndFrom_encode 0 t

/-! ### The header -/

/-- What a header declares. -/
inductive Header
  | package (name : List Char)
  | default
  | unknown
  deriving DecidableEq

/-- `&text[n..]`: none where it would cut a character. -/
def sliceAt : List Char → ℕ → Option (List Char)
  | text, 0 => some text
  | [], _ + 1 => none
  | c :: text, n + 1 => if c.utf8Size ≤ n + 1 then sliceAt text (n + 1 - c.utf8Size) else none

section Scan

variable (u : Unicode)

/-- What the name of an annotation is made of, with its target. -/
def isAnnotationChar (c : Char) : Bool :=
  u.isAlphanumeric c || ['_', '$', '.', ':', '\x60'].contains c

def isWordChar (c : Char) : Bool := u.isAlphanumeric c || c == '_'

def isClauseChar (c : Char) : Bool :=
  u.isAlphanumeric c || ['.', '_', '\x60', ' ', '\t'].contains c

/-- The first word of a declaration, or the package clause. -/
def clause (rest : List Char) : Header :=
  let word := rest.takeWhile (isWordChar u)
  if word = "package".toList then
    let name := (((rest.drop "package".length).dropWhile isWhitespace).takeWhile
      (isClauseChar u)).filter fun c => !(['\x60', ' ', '\t'].contains c)
    if name.isEmpty then .unknown else .package name
  else if word.isEmpty then .unknown else .default

/-- An annotation, after its `@`. -/
def scanAnnotation (tail : List Char) : Option (Header ⊕ List Char) :=
  let name := tail.takeWhile (isAnnotationChar u)
  let after := tail.dropWhile (isAnnotationChar u)
  let probe := after.dropWhile isAsciiSpace
  if probe.head? = some '(' ∨ probe.head? = some '[' then
    match balancedEnd UInt8.toNat (encode probe) with
    | none => some (.inl .unknown)
    | some rest => (sliceAt probe ((encode probe).length - rest.length)).map .inr
  else if name = [] ∨ probe.length = after.length ∧ probe ≠ [] then some (.inl .unknown)
  else some (.inr after)

/-- One round of the loop: a result, or where the next one begins. -/
def scanItem (text : List Char) : Option (Header ⊕ List Char) :=
  match text.dropWhile isAsciiSpace with
  | [] => some (.inl .default)
  | c :: tail =>
    if startsWith Char.toNat "//".toList (c :: tail) then
      some (.inr ((seek Char.toNat "\n".toList (c :: tail)).getD []))
    else if startsWith Char.toNat "/*".toList (c :: tail) then
      match seek Char.toNat "*/".toList (c :: tail) with
      | none => some (.inl .unknown)
      | some found => some (.inr (found.drop 2))
    else if c = '@' then scanAnnotation u tail
    else some (.inl (clause u (c :: tail)))

end Scan

theorem sliceAt_append (s t : List Char) : sliceAt (s ++ t) (Utf8.bytes s) = some t := by
  induction s with
  | nil =>
    cases t with
    | nil => rfl
    | cons c t => rfl
  | cons c s ih =>
    have hpos := c.utf8Size_pos
    obtain ⟨n, hn⟩ := Nat.exists_eq_succ_of_ne_zero (by omega : c.utf8Size + Utf8.bytes s ≠ 0)
    have hrest : n.succ - c.utf8Size = Utf8.bytes s := by omega
    have hle : c.utf8Size ≤ n.succ := by omega
    rw [List.cons_append, Utf8.bytes_cons, hn, sliceAt, if_pos hle, hrest, ih]

theorem slice_balancedEnd (probe : List Char) :
    (match balancedEnd UInt8.toNat (encode probe) with
      | none => some (.inl .unknown)
      | some rest => (sliceAt probe ((encode probe).length - rest.length)).map .inr)
      = some (match balancedEnd Char.toNat probe with
        | none => (.inl .unknown : Header ⊕ List Char)
        | some rest => .inr rest) := by
  rw [balancedEnd_encode]
  cases hend : balancedEnd Char.toNat probe with
  | none => rfl
  | some rest =>
    obtain ⟨⟨s, rfl⟩, -⟩ := suffix_balancedEndFrom Char.toNat 0 hend
    have hlength : (encode (s ++ rest)).length - (encode rest).length = Utf8.bytes s := by
      rw [Utf8.encode_append, List.length_append, Utf8.length_encode s]
      omega
    show (sliceAt (s ++ rest) _).map Sum.inr = _
    rw [hlength, sliceAt_append]
    rfl

section Loop

variable (u : Unicode)

theorem scanAnnotation_eq (tail : List Char) :
    scanAnnotation u tail =
      let name := tail.takeWhile (isAnnotationChar u)
      let after := tail.dropWhile (isAnnotationChar u)
      let probe := after.dropWhile isAsciiSpace
      if probe.head? = some '(' ∨ probe.head? = some '[' then
        some (match balancedEnd Char.toNat probe with
          | none => .inl .unknown
          | some rest => .inr rest)
      else if name = [] ∨ probe.length = after.length ∧ probe ≠ [] then some (.inl .unknown)
      else some (.inr after) := by
  rw [ scanAnnotation]
  dsimp only
  split
  · exact slice_balancedEnd _
  · rfl

theorem scanAnnotation_total (tail : List Char) : ∃ r, scanAnnotation u tail = some r := by
  rw [scanAnnotation_eq]
  dsimp only
  split
  · exact ⟨_, rfl⟩
  split
  · exact ⟨_, rfl⟩
  · exact ⟨_, rfl⟩

theorem suffix_scanAnnotation {tail rest : List Char}
    (h : scanAnnotation u tail = some (.inr rest)) : rest <:+ tail := by
  rw [scanAnnotation_eq] at h
  dsimp only at h
  split at h
  · split at h
    · cases h
    · rename_i hend
      cases h
      exact (suffix_balancedEndFrom Char.toNat 0 hend).1.trans
        ((List.dropWhile_suffix _).trans (List.dropWhile_suffix _))
  split at h
  · cases h
  · cases h
    exact List.dropWhile_suffix _

theorem scanItem_total (text : List Char) : ∃ r, scanItem u text = some r := by
  rw [scanItem]
  split
  · exact ⟨_, rfl⟩
  split
  · exact ⟨_, rfl⟩
  split
  · split
    · exact ⟨_, rfl⟩
    · exact ⟨_, rfl⟩
  split
  · exact scanAnnotation_total u _
  · exact ⟨_, rfl⟩

theorem length_scanItem {text rest : List Char} (h : scanItem u text = some (.inr rest)) :
    rest.length < text.length := by
  have hdrop := (List.dropWhile_suffix isAsciiSpace (l := text)).length_le
  rw [scanItem] at h
  cases hrest : text.dropWhile isAsciiSpace with
  | nil =>
    rw [hrest] at h
    cases h
  | cons c tail =>
    rw [hrest] at h hdrop
    rw [List.length_cons] at hdrop
    dsimp only at h
    split at h
    · rename_i hline
      have hc : c = '/' := by
        have hline : startsWith Char.toNat ('/' :: "/".toList) (c :: tail) = true := hline
        rw [startsWith_cons, Bool.and_eq_true, beq_iff_eq] at hline
        exact (Char.toNat_inj.mp hline.1).symm
      have hslash : seek Char.toNat "\n".toList ('/' :: tail) = seek Char.toNat "\n".toList tail :=
        seek_of_ne Char.toNat (by decide)
      rw [hc, hslash] at h
      cases hseek : seek Char.toNat "\n".toList tail with
      | none =>
        rw [hseek] at h
        cases h
        exact lt_of_lt_of_le (Nat.succ_pos _) hdrop
      | some found =>
        rw [hseek] at h
        cases h
        have hle := (suffix_seek Char.toNat hseek).length_le
        rw [Option.getD_some]
        omega
    split at h
    · split at h
      · cases h
      · rename_i found hseek
        cases h
        have hle := (suffix_seek Char.toNat hseek).length_le
        have hstarts := length_le_of_startsWith Char.toNat (startsWith_of_seek hseek)
        have htwo : "*/".toList.length = 2 := rfl
        rw [List.length_cons] at hle
        rw [List.length_drop]
        omega
    split at h
    · have hle := ( suffix_scanAnnotation u h).length_le
      omega
    · cases h

/-- The loop of `package_header`. -/
def headerFrom (text : List Char) : Option Header :=
  match _hstep : scanItem u text with
  | none => none
  | some (.inl header) => some header
  | some (.inr rest) => headerFrom rest
  termination_by text.length
  decreasing_by exact length_scanItem u _hstep

/-- `package_header`; `none` is a panic. -/
def packageHeader (text : List Char) : Option Header :=
  headerFrom u (if startsWith Char.toNat "#!".toList text then
    (seek Char.toNat "\n".toList text).getD [] else text)

theorem headerFrom_eq (text : List Char) :
    headerFrom u text =
      match scanItem u text with
      | none => none
      | some (.inl header) => some header
      | some (.inr rest) => headerFrom u rest := by
  rw [headerFrom]
  split
  · rename_i hstep
    rw [hstep]
  · rename_i hstep
    rw [hstep]
  · rename_i hstep
    rw [hstep]

theorem packageHeader_total (text : List Char) : ∃ header, packageHeader u text = some header := by
  have hfrom : ∀ text, ∃ header, headerFrom u text = some header := by
    intro text
    induction hn : text.length using Nat.strong_induction_on generalizing text with
    | _ n ih =>
    subst hn
    obtain ⟨r, hr⟩ := scanItem_total u text
    rw [headerFrom_eq, hr]
    cases r with
    | inl header => exact ⟨header, rfl⟩
    | inr rest => exact ih rest.length (length_scanItem u hr) rest rfl
  exact hfrom _

end Loop

end LangJava

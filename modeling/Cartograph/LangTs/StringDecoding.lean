/-
Decoding of string literals (`crates/adapters-lang-ts/src/source_expression.rs`).

`decode_string` reads the text of a literal character by character.  Of the escape sequences it
takes those that stand for one character of Unicode, and a pair of surrogates; all others are
refused.  An operation on `u32` that is out of range is a fault of its own.

* `Spells` — the text of a string, and its value in ECMAScript;
* `decode_string_value` — what is decoded is the value, and no text makes the decoder panic.
-/
import Cartograph.LangTs.Identity
import Cartograph.Lib.Checked

namespace LangTs

open Checked

/-! ### The decoder -/

/-- `Err(())`, or a panic. -/
inductive Fault
  | invalid
  | overflow
  deriving DecidableEq

/-- A result of arithmetic on `u32`. -/
def u32 (n : ℕ) : Except Fault ℕ := ensure (n < 2 ^ 32) .overflow >>= fun _ => .ok n

/-- `is_ascii_hexdigit`. -/
def IsHexDigit (c : Char) : Prop :=
  c.isDigit = true ∨ ('a' ≤ c ∧ c ≤ 'f') ∨ ('A' ≤ c ∧ c ≤ 'F')

instance (c : Char) : Decidable (IsHexDigit c) := inferInstanceAs (Decidable (_ ∨ _))

/-- `char::from_u32`. -/
def fromU32 (n : ℕ) : Except Fault Char := ensure n.isValidChar .invalid >>= fun _ => .ok (Char.ofNat n)

/-- `read_hex`, with the value so far. -/
def readHex : ℕ → ℕ → List Char → Except Fault (ℕ × List Char)
  | 0, value, chars => .ok (value, chars)
  | count + 1, value, chars => do
    let shifted ← u32 (value * 16)
    match chars with
    | [] => .error .invalid
    | c :: rest => do
      ensure (IsHexDigit c) .invalid
      let value ← u32 (shifted + digitValue c)
      readHex count value rest

/-- The digits of a code point in braces, and what is behind them. -/
def readBraced : List Char → List Char → Except Fault (List Char × List Char)
  | _, [] => .error .invalid
  | digits, c :: rest =>
    if c = '\x7d' ∧ digits ≠ [] then .ok (digits, rest)
    else if IsHexDigit c ∧ digits.length < 6 then readBraced (digits ++ [c]) rest
    else .error .invalid

/-- The code point behind `\u`. -/
def readUnicode (chars : List Char) : Except Fault (ℕ × List Char) :=
  if chars.head? = some '\x7b' then do
    let (digits, rest) ← readBraced [] chars.tail
    pure (number 16 digits, rest)
  else do
    let (first, rest) ← readHex 4 0 chars
    if 0xd800 ≤ first ∧ first ≤ 0xdbff then do
      ensure (['\\', 'u'] <+: rest) .invalid
      let (second, rest) ← readHex 4 0 (rest.drop 2)
      ensure (0xdc00 ≤ second ∧ second ≤ 0xdfff) .invalid
      let sum ← u32 (0x10000 + (first - 0xd800) * 1024 + second)
      pure (sum - 0xdc00, rest)
    else pure (first, rest)

/-- The escapes of one character. -/
def plainEscape : Char → Option Char
  | '\\' => some '\\'
  | '\'' => some '\''
  | '"' => some '"'
  | 'n' => some '\n'
  | 'r' => some '\r'
  | 't' => some '\t'
  | 'b' => some '\x08'
  | 'f' => some '\x0c'
  | 'v' => some '\x0b'
  | _ => none

/-- What is pushed for an escape, and what follows it. -/
def readEscape : List Char → Except Fault (List Char × List Char)
  | [] => .error .invalid
  | c :: rest =>
    match plainEscape c with
    | some d => .ok ([d], rest)
    | none =>
      if c = '0' ∧ rest.head?.any Char.isDigit = false then .ok (['\x00'], rest)
      else if c = '\n' then .ok ([], rest)
      else if c = '\r' then .ok ([], if rest.head? = some '\n' then rest.tail else rest)
      else if c = 'x' then do
        let (code, rest) ← readHex 2 0 rest
        let d ← fromU32 code
        pure ([d], rest)
      else if c = 'u' then do
        let (code, rest) ← readUnicode rest
        let d ← fromU32 code
        pure ([d], rest)
      else .error .invalid

/-! ### String values -/

/-- The escape does not take more of the text. -/
def Escape.Ends : Escape → List Char → Prop
  | .octal _ rest _, text => rest.length < 2 → ∀ c ∈ text.head?, ¬('0' ≤ c ∧ c ≤ '7')
  | .continuation lineEnd _, text => lineEnd = ['\r'] → text.head? ≠ some '\n'
  | _, _ => True

/-- The text between the quotes of a string, and its value. -/
inductive Spells : List Char → List ℕ → Prop
  | nil : Spells [] []
  | char {c : Char} {text : List Char} {value : List ℕ} : c ≠ '\\' → c ≠ '\n' → c ≠ '\r' →
      Spells text value → Spells (c :: text) (codeUnits c.toNat ++ value)
  | escape {e : Escape} {text : List Char} {value : List ℕ} : e.Ends text → Spells text value →
      Spells (e.text ++ text) (e.value ++ value)

variable {n : ℕ} {chars rest pushed after : List Char}

variable {m count value : ℕ} {d : Char}

theorem u32_eq_ok : u32 n = .ok m ↔ n < 2 ^ 32 ∧ n = m := by
  rw [u32, bind_eq_ok]
  simp only [ensure_eq_ok, Except.ok.injEq, exists_const]

theorem readHex_ok (h : readHex count value chars = .ok (n, rest)) :
    ∃ digits : List HexDigit,
      digits.length = count ∧ chars = digits.map Subtype.val ++ rest
        ∧ n = (digits.map Subtype.val).foldl (fun n c => n * 16 + digitValue c) value := by
  induction count generalizing value chars with
  | zero =>
    obtain ⟨rfl, rfl⟩ := Prod.mk.inj (Except.ok.inj h)
    exact ⟨[], rfl, rfl, rfl⟩
  | succ count ih =>
    rw [readHex, bind_eq_ok] at h
    obtain ⟨shifted, hshifted, h⟩ := h
    obtain ⟨-, rfl⟩ := u32_eq_ok.mp hshifted
    cases chars with
    | nil => cases h
    | cons c chars =>
      simp only [bind_eq_ok, ensure_eq_ok, u32_eq_ok] at h
      obtain ⟨⟨⟩, hc, _, ⟨-, rfl⟩, h⟩ := h
      obtain ⟨digits, hlength, rfl, hn⟩ := ih h
      exact ⟨⟨c, hc⟩ :: digits, congrArg (· + 1) hlength, rfl, hn⟩

theorem readBraced_ok {acc digits : List Char} (h : readBraced acc chars = .ok (digits, rest)) :
    digits ≠ [] ∧ ∃ ds : List HexDigit,
      digits = acc ++ ds.map Subtype.val ∧ chars = ds.map Subtype.val ++ '\x7d' :: rest := by
  induction chars generalizing acc with
  | nil => cases h
  | cons c chars ih =>
    rw [readBraced] at h
    split_ifs at h with hend hhex
    · obtain ⟨rfl, rfl⟩ := Prod.mk.inj (Except.ok.inj h)
      rw [hend.1]
      exact ⟨hend.2, [], (List.append_nil _).symm, rfl⟩
    · obtain ⟨hne, ds, rfl, rfl⟩ := ih h
      exact ⟨hne, ⟨c, hhex.1⟩ :: ds, List.append_assoc _ _ _, rfl⟩

theorem digitValue_lt {c : Char} (h : IsHexDigit c) : digitValue c < 16 := by
  have hle : ∀ {a b : Char}, a ≤ b → a.toNat ≤ b.toNat := fun h => h
  have hdigits : ∀ {c : Char}, c.isDigit = true → c.toNat ≤ 57 := by
    intro c hc
    rw [Char.isDigit, Bool.and_eq_true, decide_eq_true_eq, decide_eq_true_eq] at hc
    exact hc.2
  rw [digitValue]
  split_ifs with hdigit hupper
  · have hbound := hdigits hdigit
    show c.toNat - 48 < 16
    omega
  · have hbound : c.toNat ≤ 70 := hle hupper
    show c.toNat - 65 + 10 < 16
    omega
  · have hbound : c.toNat ≤ 102 := by
      obtain hc | hc | hc := h
      · exact absurd hc hdigit
      · exact hle hc.2
      · exact absurd hc.2 hupper
    show c.toNat - 97 + 10 < 16
    omega

theorem readHex_bound (hvalue : value < 16 ^ m) (hroom : m + count ≤ 8) (chars : List Char) :
    readHex count value chars ≠ .error .overflow
      ∧ ∀ n rest, readHex count value chars = .ok (n, rest) → n < 16 ^ (m + count) := by
  induction count generalizing value m chars with
  | zero =>
    refine ⟨by simp [readHex], ?_⟩
    rintro n rest ⟨⟩
    exact hvalue
  | succ count ih =>
    have hpow : 16 ^ (m + 1) ≤ 2 ^ 32 := Nat.pow_le_pow_right (by decide) (by omega : m + 1 ≤ 8)
    rw [Nat.pow_succ] at hpow
    rw [readHex, u32_eq_ok.mpr ⟨by omega, rfl⟩, ok_bind]
    cases chars with
    | nil => simp
    | cons c chars =>
      by_cases hc : IsHexDigit c
      · have hdigit := digitValue_lt hc
        have hnext : value * 16 + digitValue c < 16 ^ (m + 1) := by
          rw [Nat.pow_succ]
          omega
        have hsmall : value * 16 + digitValue c < 2 ^ 32 := by
          rw [Nat.pow_succ] at hnext
          omega
        simp only [ensure_of hc, ok_bind, u32_eq_ok.mpr ⟨hsmall, rfl⟩]
        rw [← Nat.add_assoc, Nat.add_right_comm]
        exact ih hnext (by omega) chars
      · simp only [show ensure (IsHexDigit c) Fault.invalid = .error .invalid from if_neg hc]
        constructor
        · exact fun h => by cases h
        · exact fun n rest h => by cases h

theorem fromU32_ok (h : fromU32 n = .ok d) : units [d] = codeUnits n := by
  rw [fromU32, bind_eq_ok] at h
  obtain ⟨⟨⟩, hvalid, ⟨⟩⟩ := h
  have hvalid : n.isValidChar := ensure_eq_ok.mp hvalid
  have htoNat : (Char.ofNat n).toNat = n := by
    rw [Char.ofNat, dif_pos hvalid]
    rfl
  rw [units_cons, units_nil, List.append_nil, htoNat]

/-- What is read behind a backslash, and what it is read as. -/
def Reads (chars pushed after : List Char) : Prop := after.length ≤ chars.length
  ∧ ∀ value, Spells after value → Spells ('\\' :: chars) (units pushed ++ value)

theorem reads_escape (e : Escape) (hends : e.Ends after) (hchars : chars = e.tail ++ after)
    (hvalue : units pushed = e.value) :
    Reads chars pushed after := by
  subst hchars
  rw [Reads, List.length_append, hvalue]
  exact ⟨Nat.le_add_left _ _, fun value h => .escape hends h⟩

theorem codeUnits_pair {first second : ℕ} (hfirst : 0xd800 ≤ first ∧ first ≤ 0xdbff)
    (hsecond : 0xdc00 ≤ second ∧ second ≤ 0xdfff) :
    codeUnits (0x10000 + (first - 0xd800) * 1024 + second - 0xdc00) = [first, second] := by
  have hhigh : 0xd800 + (0x10000 + (first - 0xd800) * 1024 + second - 0xdc00 - 0x10000) / 0x400
      = first := by omega
  have hlow : 0xdc00 + (0x10000 + (first - 0xd800) * 1024 + second - 0xdc00 - 0x10000) % 0x400
      = second := by omega
  rw [codeUnits, if_neg (by omega), hhigh, hlow]

theorem exists_of_length_four {digits : List HexDigit} (h : digits.length = 4) :
    ∃ a b c d, digits = [a, b, c, d] := by
  obtain ⟨a, rest, rfl⟩ := List.exists_cons_of_length_eq_add_one h
  obtain ⟨b, c, d, rfl⟩ := List.length_eq_three.mp (Nat.succ.inj h)
  exact ⟨a, b, c, d, rfl⟩

theorem readUnicode_reads {code : ℕ} (h : readUnicode chars = .ok (code, rest))
    (hd : fromU32 code = .ok d) :
    Reads ('u' :: chars) [d] rest := by
  have hvalue := fromU32_ok hd
  rw [readUnicode] at h
  split_ifs at h with hbrace
  · simp only [bind_eq_ok, Prod.exists, pure_eq_ok, Prod.mk.injEq] at h
    obtain ⟨digits, rest, hread, rfl, rfl⟩ := h
    obtain ⟨hne, ds, rfl, htail⟩ := readBraced_ok hread
    obtain ⟨l, rfl⟩ := List.head?_eq_some_iff.mp hbrace
    cases ds with
    | nil => exact absurd rfl hne
    | cons first more =>
      refine reads_escape (.codePoint first more) trivial ?_ hvalue
      rw [show l = first.1 :: (more.map Subtype.val ++ '\x7d' :: rest) from htail]
      simp [Escape.tail]
  · simp only [bind_eq_ok, Prod.exists] at h
    obtain ⟨first, after, hfirst, h⟩ := h
    obtain ⟨digits, hlength, rfl, hnumber⟩ := readHex_ok hfirst
    obtain ⟨a, b, c, d, rfl⟩ := exists_of_length_four hlength
    split_ifs at h with hhigh
    · simp only [bind_eq_ok, ensure_eq_ok, u32_eq_ok, Prod.exists, pure_eq_ok, Prod.mk.injEq] at h
      obtain ⟨⟨⟩, ⟨after, rfl⟩, second, rest, hsecond, ⟨⟩, hlow, _, ⟨-, rfl⟩, rfl, rfl⟩ := h
      obtain ⟨digits, hlength, hdrop, hnumber'⟩ := readHex_ok hsecond
      obtain ⟨a', b', c', d', rfl⟩ := exists_of_length_four hlength
      obtain rfl : after = [a'.1, b'.1, c'.1, d'.1] ++ rest := hdrop
      rw [codeUnits_pair hhigh hlow, hnumber, hnumber'] at hvalue
      -- the two escapes of a pair
      refine ⟨Nat.le_add_right rest.length 11, fun value hspells => ?_⟩
      rw [hvalue]
      exact .escape (e := .unicode a b c d) trivial (.escape (e := .unicode a' b' c' d') trivial hspells)
    · obtain ⟨rfl, rfl⟩ := Prod.mk.inj (Except.ok.inj h)
      refine reads_escape (.unicode a b c d) trivial rfl (hvalue.trans ?_)
      have hlt : first < 0x10000 := by
        have hbound := (readHex_bound (m := 0) Nat.one_pos (by decide) _).2 _ _ hfirst
        exact hbound
      rw [codeUnits, if_pos hlt, hnumber]
      rfl

theorem readEscape_reads (h : readEscape chars = .ok (pushed, after)) :
    Reads chars pushed after := by
  cases chars with
  | nil => cases h
  | cons c rest =>
    rw [readEscape] at h
    cases hplain : plainEscape c with
    | some d =>
      rw [hplain] at h
      obtain ⟨rfl, rfl⟩ := Prod.mk.inj (Except.ok.inj h)
      unfold plainEscape at hplain
      split at hplain
      all_goals first
        | (obtain rfl := Option.some.inj hplain
           exact reads_escape (.single _ (by decide) (by decide)) trivial rfl (by decide))
        | cases hplain
    | none =>
      rw [hplain] at h
      dsimp only at h
      split_ifs at h with hzero hfeed hreturn hnext hx hu
      · obtain ⟨rfl, rfl⟩ := Prod.mk.inj (Except.ok.inj h)
        obtain ⟨rfl, hdigit⟩ := hzero
        refine reads_escape (.octal ⟨'0', by decide⟩ [] (by decide)) ?_ rfl rfl
        rintro - c hc ⟨hlo, hhi⟩
        rw [Option.mem_def.mp hc, Option.any_some, Char.isDigit, Bool.and_eq_false_iff] at hdigit
        have hnine : c.val ≤ '9'.val := UInt32.le_trans hhi (by decide)
        exact hdigit.elim (fun h => of_decide_eq_false h hlo) fun h => of_decide_eq_false h hnine
      · obtain ⟨rfl, rfl⟩ := Prod.mk.inj (Except.ok.inj h)
        rw [hfeed]
        exact reads_escape (.continuation ['\n'] (by decide)) (fun h => absurd h (by decide)) rfl rfl
      · obtain ⟨rfl, rfl⟩ := Prod.mk.inj (Except.ok.inj h)
        obtain ⟨after, rfl⟩ := List.head?_eq_some_iff.mp hnext
        rw [hreturn]
        exact reads_escape (.continuation ['\r', '\n'] (by decide)) (fun h => absurd h (by decide)) rfl
          rfl
      · obtain ⟨rfl, rfl⟩ := Prod.mk.inj (Except.ok.inj h)
        rw [hreturn]
        exact reads_escape (.continuation ['\r'] (by decide)) (fun _ => hnext) rfl rfl
      · simp only [bind_eq_ok, Prod.exists, pure_eq_ok, Prod.mk.injEq] at h
        obtain ⟨n, after, hread, d, hd, rfl, rfl⟩ := h
        have hlt := (readHex_bound (m := 0) Nat.one_pos (by decide) _).2 _ _ hread
        obtain ⟨digits, hlength, rfl, rfl⟩ := readHex_ok hread
        obtain ⟨a, b, rfl⟩ := List.length_eq_two.mp hlength
        rw [hx]
        refine reads_escape (.hex a b) trivial rfl ((fromU32_ok hd).trans ?_)
        exact if_pos (hlt.trans (by decide))
      · simp only [bind_eq_ok, Prod.exists, pure_eq_ok, Prod.mk.injEq] at h
        obtain ⟨code, after, hread, d, hd, rfl, rfl⟩ := h
        rw [hu]
        exact readUnicode_reads hread hd

/-! ### The loop -/

/-- `decode_string`, character by character. -/
def decodeChars : List Char → Except Fault (List Char)
  | [] => .ok []
  | c :: rest =>
    if c = '\n' ∨ c = '\r' ∨ c = '\u2028' ∨ c = '\u2029' then .error .invalid
    else if c ≠ '\\' then (decodeChars rest).map (c :: ·)
    else
      match _hread : readEscape rest with
      | .error e => .error e
      | .ok (pushed, after) => (decodeChars after).map (pushed ++ ·)
  termination_by chars => chars.length
  decreasing_by
    · exact Nat.lt_succ_self _
    · exact Nat.lt_succ_of_le (readEscape_reads _hread).1

/-- `decode_string`. -/
def decodeString (raw : List Char) : Except Fault (List Char) :=
  match raw with
  | [] => .error .invalid
  | quote :: rest =>
    if (quote = '\'' ∨ quote = '"') ∧ rest.getLast? = some quote then decodeChars rest.dropLast
    else .error .invalid

/-! ### No panic -/

theorem bind_ne_overflow {α β : Type} {x : Except Fault α} {f : α → Except Fault β}
    (hx : x ≠ .error .overflow) (hf : ∀ a, f a ≠ .error .overflow) :
    (x >>= f) ≠ .error .overflow := by
  intro h
  obtain h | ⟨a, -, h⟩ := bind_eq_error.mp h
  · exact hx h
  · exact hf a h

theorem ensure_ne_overflow {c : Prop} [Decidable c] : ensure c Fault.invalid ≠ .error .overflow := by
  intro h
  cases (ensure_eq_error.mp h).2

theorem push_ne_overflow (r : ℕ × List Char) :
    (fromU32 r.1 >>= fun d => pure ([d], r.2)) ≠ .error .overflow :=
  bind_ne_overflow (bind_ne_overflow ensure_ne_overflow fun _ => pure_ne_error) fun _ => pure_ne_error

theorem readBraced_ne_overflow (acc chars : List Char) : readBraced acc chars ≠ .error .overflow := by
  induction chars generalizing acc with
  | nil => simp [readBraced]
  | cons c chars ih =>
    rw [readBraced]
    split_ifs
    · simp
    · exact ih _
    · simp

theorem readUnicode_ne_overflow (chars : List Char) : readUnicode chars ≠ .error .overflow := by
  have hhex : ∀ chars, readHex 4 0 chars ≠ .error .overflow := fun chars =>
    (readHex_bound (m := 0) Nat.one_pos (by decide) chars).1
  rw [readUnicode]
  split_ifs
  · exact bind_ne_overflow (readBraced_ne_overflow _ _) fun _ => pure_ne_error
  · refine bind_ne_overflow (hhex chars) fun r => ?_
    dsimp only
    split_ifs with hhigh
    · refine bind_ne_overflow ensure_ne_overflow fun _ => bind_ne_overflow (hhex _) fun r' => ?_
      intro h
      obtain h | ⟨_, hlow, h⟩ := bind_eq_error.mp h
      · exact ensure_ne_overflow h
      · -- the sum is the code point of a pair, and the offset of the second
        have hlow := ensure_eq_ok.mp hlow
        rw [u32_eq_ok.mpr ⟨by omega, rfl⟩] at h
        cases h
    · exact pure_ne_error

theorem readEscape_ne_overflow (chars : List Char) : readEscape chars ≠ .error .overflow := by
  cases chars with
  | nil => simp [readEscape]
  | cons c rest =>
    rw [readEscape]
    cases plainEscape c with
    | some d => simp
    | none =>
      dsimp only
      split_ifs
      · simp
      · simp
      · simp
      · simp
      · exact bind_ne_overflow (readHex_bound (m := 0) Nat.one_pos (by decide) rest).1 push_ne_overflow
      · exact bind_ne_overflow (readUnicode_ne_overflow rest) push_ne_overflow
      · simp

/-! ### The value -/

/-- What the loop decodes, or that it refuses the text. -/
def Decodes (chars : List Char) (result : Except Fault (List Char)) : Prop :=
  match result with
  | .ok v => Spells chars (units v)
  | .error e => e = .invalid

theorem decodes_map {result : Except Fault (List Char)}
    (hpushed : ∀ value, Spells after value → Spells chars (units pushed ++ value))
    (h : Decodes after result) : Decodes chars (result.map (pushed ++ ·)) := by
  cases result with
  | error e => exact h
  | ok v =>
    show Spells chars (units (pushed ++ v))
    rw [units_append]
    exact hpushed _ h

theorem decodes_decodeChars (chars : List Char) : Decodes chars (decodeChars chars) := by
  induction hn : chars.length using Nat.strong_induction_on generalizing chars with
  | _ n ih =>
    subst hn
    cases chars with
    | nil =>
      rw [decodeChars]
      exact .nil
    | cons c rest =>
      rw [decodeChars]
      split_ifs with hend hslash
      · rfl
      · rw [not_or, not_or] at hend
        show Decodes (c :: rest) ((decodeChars rest).map ([c] ++ ·))
        refine decodes_map ?_ (ih _ (Nat.lt_succ_self _) rest rfl)
        intro value h
        rw [units_cons, units_nil, List.append_nil]
        exact .char hslash hend.1 hend.2.1 h
      · obtain rfl := not_not.mp hslash
        split
        · next e hread =>
          cases e with
          | invalid => rfl
          | overflow => exact absurd hread (readEscape_ne_overflow rest)
        · next pushed after hread =>
          obtain ⟨hlength, hspells⟩ := readEscape_reads hread
          exact decodes_map hspells (ih _ (Nat.lt_succ_of_le hlength) after rfl)

/-- **String literals.**  What is decoded of a text in quotes is the value of the string, and no
text makes the decoder panic. -/
theorem decode_string_value (raw : List Char) :
    match decodeString raw with
    | .ok v => ∃ quote body, (quote = '\'' ∨ quote = '"') ∧ raw = quote :: (body ++ [quote])
      ∧ Spells body (units v)
    | .error e => e = .invalid := by
  cases raw with
  | nil => rfl
  | cons quote rest =>
    rw [decodeString]
    split_ifs with hquotes
    · have hdecodes := decodes_decodeChars rest.dropLast
      have hrest : rest = rest.dropLast ++ [quote] :=
        (List.dropLast_append_getLast? quote hquotes.2).symm
      cases hresult : decodeChars rest.dropLast with
      | error e =>
        rw [hresult] at hdecodes
        exact hdecodes
      | ok v =>
        rw [hresult] at hdecodes
        exact ⟨quote, rest.dropLast, hquotes.1, congrArg (List.cons quote) hrest, hdecodes⟩
    · rfl

end LangTs

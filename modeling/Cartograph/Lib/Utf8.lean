/-
Offsets in a text that is stored as UTF-8.

A text is a list of characters; an offset counts the bytes before a place.

* `bytes` — the length in bytes;
* `offsetOf` — where a text occurs first;
* `offsetOf_eq_bytes_iff` — when a known occurrence is the first;
* `encode` — the bytes of a text; those of a character beyond ASCII are all above 127.
-/
import Mathlib

namespace Utf8

/-- The length in bytes. -/
def bytes (t : List Char) : ℕ := (t.map Char.utf8Size).sum

@[simp] theorem bytes_nil : bytes [] = 0 := rfl

@[simp] theorem bytes_cons (c : Char) (t : List Char) : bytes (c :: t) = c.utf8Size + bytes t := by
  rw [bytes, List.map_cons, List.sum_cons, bytes]

@[simp] theorem bytes_append (s t : List Char) : bytes (s ++ t) = bytes s + bytes t := by
  rw [bytes, List.map_append, List.sum_append, bytes, bytes]

theorem length_le_bytes (t : List Char) : t.length ≤ bytes t := by
  induction t with
  | nil => exact le_rfl
  | cons c t ih =>
    have hc := c.utf8Size_pos
    rw [bytes_cons, List.length_cons]
    omega

theorem eq_of_prefix {s t : List Char} (h : s <+: t) (hbytes : bytes t ≤ bytes s) : s = t := by
  obtain ⟨rest, rfl⟩ := h
  have hrest := length_le_bytes rest
  rw [bytes_append] at hbytes
  have hnil : rest = [] := List.length_eq_zero_iff.mp (by omega)
  rw [hnil, List.append_nil]

/-! ### First occurrences -/

/-- The offset of the first occurrence. -/
def offsetOf (needle : List Char) : List Char → Option ℕ
  | [] => if needle.isEmpty then some 0 else none
  | c :: rest =>
    if needle.isPrefixOf (c :: rest) then some 0
    else (offsetOf needle rest).map (c.utf8Size + ·)

/-- `needle` occurs in `t` after `pre`. -/
def OccursAfter (needle t pre : List Char) : Prop := pre ++ needle <+: t

variable {needle t pre : List Char}

theorem offsetOf_none (h : offsetOf needle t = none) : ¬OccursAfter needle t pre := by
  induction t generalizing pre with
  | nil =>
    intro hocc
    obtain ⟨-, rfl⟩ := List.append_eq_nil_iff.mp (List.prefix_nil.mp hocc)
    exact absurd h (by simp [offsetOf])
  | cons c rest ih =>
    rw [offsetOf] at h
    split_ifs at h with hhere
    intro hocc
    cases pre with
    | nil => exact hhere (List.isPrefixOf_iff_prefix.mpr hocc)
    | cons a pre =>
      obtain ⟨rfl, hrest⟩ := List.cons_prefix_cons.mp hocc
      exact ih (Option.map_eq_none_iff.mp h) hrest

theorem offsetOf_some {n : ℕ} (h : offsetOf needle t = some n) :
    ∃ first, OccursAfter needle t first ∧ bytes first = n
      ∧ ∀ pre, OccursAfter needle t pre → first.length ≤ pre.length := by
  induction t generalizing n with
  | nil =>
    rw [offsetOf] at h
    split_ifs at h with hempty
    rw [List.isEmpty_iff.mp hempty]
    exact ⟨[], List.prefix_rfl, Option.some_inj.mp h, fun _ _ => Nat.zero_le _⟩
  | cons c rest ih =>
    rw [offsetOf] at h
    split_ifs at h with hhere
    · exact ⟨[], List.isPrefixOf_iff_prefix.mp hhere, Option.some_inj.mp h,
        fun _ _ => Nat.zero_le _⟩
    · obtain ⟨m, hm, rfl⟩ := Option.map_eq_some_iff.mp h
      obtain ⟨first, hocc, rfl, hleast⟩ := ih hm
      refine ⟨c :: first, List.cons_prefix_cons.mpr ⟨rfl, hocc⟩, bytes_cons c first, ?_⟩
      intro pre hpre
      cases pre with
      | nil => exact absurd (List.isPrefixOf_iff_prefix.mpr hpre) hhere
      | cons a pre =>
        obtain ⟨rfl, htail⟩ := List.cons_prefix_cons.mp hpre
        exact Nat.succ_le_succ (hleast pre htail)

theorem offsetOf_eq_bytes_iff (hocc : OccursAfter needle t pre) :
    (offsetOf needle t).getD 0 = bytes pre ↔
      ∀ pre', OccursAfter needle t pre' → pre.length ≤ pre'.length := by
  cases h : offsetOf needle t with
  | none => exact absurd hocc (offsetOf_none h)
  | some n =>
    obtain ⟨first, hfirst, rfl, hleast⟩ := offsetOf_some h
    -- both are prefixes of the text
    have hstart : first <+: pre := List.prefix_of_prefix_length_le
      ((List.prefix_append _ _).trans hfirst) ((List.prefix_append _ _).trans hocc)
      (hleast pre hocc)
    rw [Option.getD_some]
    constructor
    · intro hbytes pre' hpre'
      rw [← eq_of_prefix hstart hbytes.ge]
      exact hleast pre' hpre'
    · intro hmin
      rw [hstart.eq_of_length_le (hmin first hfirst)]

/-! ### Bytes -/

/-- The bytes of a text. -/
def encode (t : List Char) : List UInt8 := t.flatMap String.utf8EncodeChar

@[simp] theorem encode_nil : encode [] = [] := rfl

theorem encode_cons (c : Char) (t : List Char) :
    encode (c :: t) = String.utf8EncodeChar c ++ encode t := List.flatMap_cons

theorem encode_append (s t : List Char) : encode (s ++ t) = encode s ++ encode t :=
  List.flatMap_append

theorem length_encode (t : List Char) : (encode t).length = bytes t := by
  induction t with
  | nil => rfl
  | cons c t ih => rw [encode_cons, List.length_append, String.length_utf8EncodeChar, ih, bytes_cons]

theorem encode_ascii {c : Char} (h : c.toNat < 128) (t : List Char) :
    encode (c :: t) = UInt8.ofNat c.toNat :: encode t := by
  have hsize : c.utf8Size = 1 := by
    rw [Char.utf8Size_eq_one_iff, UInt32.le_iff_toNat_le]
    exact Nat.le_of_lt_succ h
  rw [encode_cons, String.utf8EncodeChar_eq_singleton hsize]
  rfl

theorem high_of_wide {c : Char} (h : ¬c.toNat < 128) :
    ∀ b ∈ String.utf8EncodeChar c, 128 ≤ b.toNat := by
  have hhigh : ∀ x y : UInt8, 128 ≤ y.toNat → 128 ≤ (x ||| y).toNat := by
    intro x y hy
    rw [UInt8.toNat_or]
    exact hy.trans Nat.right_le_or
  have hone : c.utf8Size ≠ 1 := by
    rw [Ne, Char.utf8Size_eq_one_iff, UInt32.le_iff_toNat_le]
    intro hle
    exact h (Nat.lt_succ_of_le hle)
  have hpos := c.utf8Size_pos
  have hle := Char.utf8Size_le_four c
  obtain h2 | h3 | h4 : c.utf8Size = 2 ∨ c.utf8Size = 3 ∨ c.utf8Size = 4 := by omega
  · rw [String.utf8EncodeChar_eq_cons_cons h2]
    simp only [List.forall_mem_cons, List.not_mem_nil, false_implies, implies_true, and_true]
    exact ⟨hhigh _ _ (by decide), hhigh _ _ (by decide)⟩
  · rw [String.utf8EncodeChar_eq_cons_cons_cons h3]
    simp only [List.forall_mem_cons, List.not_mem_nil, false_implies, implies_true, and_true]
    exact ⟨hhigh _ _ (by decide), hhigh _ _ (by decide), hhigh _ _ (by decide)⟩
  · rw [String.utf8EncodeChar_eq_cons_cons_cons_cons h4]
    simp only [List.forall_mem_cons, List.not_mem_nil, false_implies, implies_true, and_true]
    exact ⟨hhigh _ _ (by decide), hhigh _ _ (by decide), hhigh _ _ (by decide),
      hhigh _ _ (by decide)⟩

end Utf8

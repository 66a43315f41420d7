/-
The preflight of a provider's response (`preflight_response` of `crates/llm/src/bounded.rs`).

Before a response is decoded, its bytes are scanned once for how deep its containers are nested and
how many they are.  The scanner knows of strings only where they begin and end.  What it reads of a
document is compared with the structure of the document, as it is written.

* `scan_text` — what the scanner makes of a value, from any place in a document;
* `preflight_response` — a document passes when it is neither too deep nor too large.
-/
import Cartograph.Lib.JsonSyntax

/-! ### Documents -/

namespace JsonSyntax

/-- Neither a quote nor a backslash. -/
def unquoting (c : Char) : Prop := c ≠ '\\' ∧ c ≠ '"'

/-- Every piece of a JSON string is one of these. -/
def Piece.Valid : Piece → Prop
  | .plain c => unquoting c
  | .short _ => True
  | .unicode digits => ∀ i, unquoting (digits i)
  | .surrogates high low => ∀ i, unquoting (high i) ∧ unquoting (low i)

/-- What stands outside of strings besides the brackets: numbers, the names of the other scalars,
commas, colons and white space. -/
def quiet (c : Char) : Bool :=
  decide (c.toNat < 128) && !(['"', '\x7b', '[', '\x7d', ']'].contains c)

mutual

/-- Every JSON document is one of these, as nothing is said of what quiet characters spell. -/
def Valid : JsonSyntax → Prop
  | .scalar text => text.all quiet = true
  | .str pieces => ∀ p ∈ pieces, p.Valid
  | .arr lead items => lead.all quiet = true ∧ itemsValid items
  | .obj lead members => lead.all quiet = true ∧ membersValid members

def itemsValid : List (JsonSyntax × List Char) → Prop
  | [] => True
  | (s, after) :: rest => s.Valid ∧ after.all quiet = true ∧ itemsValid rest

def membersValid : List (List Piece × List Char × JsonSyntax × List Char) → Prop
  | [] => True
  | (name, colon, s, after) :: rest => (∀ p ∈ name, p.Valid) ∧ colon.all quiet = true
    ∧ s.Valid ∧ after.all quiet = true ∧ membersValid rest

end

mutual

def nesting : JsonSyntax → ℕ
  | .scalar _ | .str _ => 0
  | .arr _ items => 1 + itemsNesting items
  | .obj _ members => 1 + membersNesting members

def itemsNesting : List (JsonSyntax × List Char) → ℕ
  | [] => 0
  | (s, _) :: rest => max s.nesting (itemsNesting rest)

def membersNesting : List (List Piece × List Char × JsonSyntax × List Char) → ℕ
  | [] => 0
  | (_, _, s, _) :: rest => max s.nesting (membersNesting rest)

end

mutual

/-- How many arrays and objects there are. -/
def containers : JsonSyntax → ℕ
  | .scalar _ | .str _ => 0
  | .arr _ items => 1 + itemsContainers items
  | .obj _ members => 1 + membersContainers members

def itemsContainers : List (JsonSyntax × List Char) → ℕ
  | [] => 0
  | (s, _) :: rest => s.containers + itemsContainers rest

def membersContainers : List (List Piece × List Char × JsonSyntax × List Char) → ℕ
  | [] => 0
  | (_, _, s, _) :: rest => s.containers + membersContainers rest

end

end JsonSyntax

namespace Egress

open JsonSyntax Utf8

/-! ### The scanner -/

structure Scan where
  quoted : Bool
  escaped : Bool
  depth : ℕ
  containers : ℕ

/-- One turn of the loop; nothing when the response is rejected. -/
def Scan.byte (s : Scan) (byte : UInt8) : Option Scan :=
  if s.quoted then
    if s.escaped then some { s with escaped := false }
    else if byte = 92 then some { s with escaped := true }
    else if byte = 34 then some { s with quoted := false }
    else some s
  else if byte = 34 then some { s with quoted := true }
  else if byte = 123 ∨ byte = 91 then
    if 64 < s.depth + 1 ∨ 4096 < s.containers + 1 then none
    else some { s with depth := s.depth + 1, containers := s.containers + 1 }
  else if byte = 125 ∨ byte = 93 then
    if s.depth = 0 then none else some { s with depth := s.depth - 1 }
  else some s

def preflightResponse (bytes : List UInt8) : Option Unit := do
  let s ← bytes.foldlM Scan.byte ⟨false, false, 0, 0⟩
  guard (s.quoted = false ∧ s.depth = 0)

/-- What is scanned of a text. -/
def scan (s : Scan) (t : List Char) : Option Scan := (encode t).foldlM Scan.byte s

variable {s : Scan} {c : Char} {d n : ℕ}

theorem scan_append (s : Scan) (t t' : List Char) :
    scan s (t ++ t') = (scan s t).bind fun s => scan s t' := by
  rw [scan, encode_append, List.foldlM_append]
  rfl

theorem scan_ascii (hc : c.toNat < 128) (s : Scan) (t : List Char) :
    scan s (c :: t) = (s.byte (UInt8.ofNat c.toNat)).bind fun s => scan s t := by
  rw [scan, encode_ascii hc, List.foldlM_cons]
  rfl

theorem ofNat_ne {k : Char} (hc : c.toNat < 128) (hk : k.toNat < 128) (h : c ≠ k) :
    UInt8.ofNat c.toNat ≠ UInt8.ofNat k.toNat := by
  intro heq
  have hnat := congrArg UInt8.toNat heq
  rw [UInt8.toNat_ofNat', UInt8.toNat_ofNat', Nat.mod_eq_of_lt (by omega),
    Nat.mod_eq_of_lt (by omega)] at hnat
  exact h (Char.toNat_inj.mp hnat)

/-! ### Strings -/

theorem byte_quoted {b : UInt8} (h1 : b ≠ 92) (h2 : b ≠ 34) (d n : ℕ) :
    Scan.byte ⟨true, false, d, n⟩ b = some ⟨true, false, d, n⟩ := by
  simp [Scan.byte, h1, h2]

theorem foldlM_quoted {l : List UInt8} (h : ∀ b ∈ l, b ≠ 92 ∧ b ≠ 34) (d n : ℕ) :
    l.foldlM Scan.byte ⟨true, false, d, n⟩ = some ⟨true, false, d, n⟩ := by
  induction l with
  | nil => rfl
  | cons b l ih =>
    obtain ⟨hb, hrest⟩ := List.forall_mem_cons.mp h
    rw [List.foldlM_cons, byte_quoted hb.1 hb.2]
    exact ih hrest

theorem bytes_plain (h1 : c ≠ '\\') (h2 : c ≠ '"') : ∀ b ∈ encode [c], b ≠ 92 ∧ b ≠ 34 := by
  intro b hb
  by_cases hc : c.toNat < 128
  · rw [encode_ascii hc, encode_nil, List.mem_singleton] at hb
    rw [hb]
    exact ⟨ofNat_ne hc (by decide) h1, ofNat_ne hc (by decide) h2⟩
  · rw [encode_cons, encode_nil, List.append_nil] at hb
    have hhigh := high_of_wide hc b hb
    constructor
    · rintro rfl
      exact absurd hhigh (by decide)
    · rintro rfl
      exact absurd hhigh (by decide)

variable {t : List Char} {a k : ℕ}

theorem scan_plain (h : ∀ c ∈ t, unquoting c) (d n : ℕ) :
    scan ⟨true, false, d, n⟩ t = some ⟨true, false, d, n⟩ := by
  induction t with
  | nil => rfl
  | cons c t ih =>
    obtain ⟨hc, hrest⟩ := List.forall_mem_cons.mp h
    have hone : scan ⟨true, false, d, n⟩ [c] = some ⟨true, false, d, n⟩ :=
      foldlM_quoted (bytes_plain hc.1 hc.2) d n
    rw [← List.singleton_append, scan_append, hone]
    exact ih hrest

theorem scan_escape (hc : c.toNat < 128) (d n : ℕ) :
    scan ⟨true, false, d, n⟩ ['\\', c] = some ⟨true, false, d, n⟩ := by
  rw [scan_ascii (by decide)]
  show scan ⟨true, true, d, n⟩ [c] = _
  rw [scan_ascii hc]
  rfl

theorem scan_digits {digits : Fin 4 → Char} (h : ∀ i, unquoting (digits i)) (d n : ℕ) :
    scan ⟨true, false, d, n⟩ ('\\' :: 'u' :: List.ofFn digits) = some ⟨true, false, d, n⟩ := by
  rw [show '\\' :: 'u' :: List.ofFn digits = ['\\', 'u'] ++ List.ofFn digits from rfl, scan_append,
    scan_escape (by decide)]
  refine scan_plain (fun c hc => ?_) d n
  obtain ⟨i, rfl⟩ := List.mem_ofFn.mp hc
  exact h i

theorem scan_piece {p : Piece} (h : p.Valid) (d n : ℕ) :
    scan ⟨true, false, d, n⟩ p.text = some ⟨true, false, d, n⟩ := by
  cases p with
  | plain c => exact scan_plain (List.forall_mem_singleton.mpr h) d n
  | short e => exact scan_escape (by cases e <;> decide) d n
  | unicode digits => exact scan_digits h d n
  | surrogates high low =>
    rw [Piece.text, scan_append, scan_digits fun i => (h i).1]
    exact scan_digits (fun i => (h i).2) d n

theorem scan_string {pieces : List Piece} (h : ∀ p ∈ pieces, p.Valid) (d n : ℕ) :
    scan ⟨false, false, d, n⟩ ('"' :: written pieces ++ ['"']) = some ⟨false, false, d, n⟩ := by
  have hwritten : scan ⟨true, false, d, n⟩ (written pieces) = some ⟨true, false, d, n⟩ := by
    induction pieces with
    | nil => rfl
    | cons p pieces ih =>
      obtain ⟨hp, hrest⟩ := List.forall_mem_cons.mp h
      rw [written, List.flatMap_cons, scan_append, scan_piece hp]
      exact ih hrest
  rw [List.cons_append, scan_ascii (by decide)]
  show scan ⟨true, false, d, n⟩ (written pieces ++ ['"']) = _
  rw [scan_append, hwritten]
  rfl

/-! ### Values -/

theorem scan_quiet (h : t.all quiet = true) (d n : ℕ) :
    scan ⟨false, false, d, n⟩ t = some ⟨false, false, d, n⟩ := by
  induction t with
  | nil => rfl
  | cons c t ih =>
    rw [List.all_cons, Bool.and_eq_true] at h
    obtain ⟨hc, hrest⟩ := h
    simp only [quiet, Bool.and_eq_true, decide_eq_true_iff, Bool.not_eq_true',
      List.contains_eq_mem, decide_eq_false_iff_not, List.mem_cons, List.not_mem_nil, or_false,
      not_or] at hc
    obtain ⟨hlt, hquote, hopen, hopen', hclose, hclose'⟩ := hc
    have h1 : UInt8.ofNat c.toNat ≠ 34 := ofNat_ne hlt (by decide) hquote
    have h2 : UInt8.ofNat c.toNat ≠ 123 := ofNat_ne hlt (by decide) hopen
    have h3 : UInt8.ofNat c.toNat ≠ 91 := ofNat_ne hlt (by decide) hopen'
    have h4 : UInt8.ofNat c.toNat ≠ 125 := ofNat_ne hlt (by decide) hclose
    have h5 : UInt8.ofNat c.toNat ≠ 93 := ofNat_ne hlt (by decide) hclose'
    have hbyte : Scan.byte ⟨false, false, d, n⟩ (UInt8.ofNat c.toNat)
        = some ⟨false, false, d, n⟩ := by
      rw [Scan.byte, if_neg Bool.false_ne_true, if_neg h1, if_neg (not_or.mpr ⟨h2, h3⟩),
        if_neg (not_or.mpr ⟨h4, h5⟩)]
    rw [scan_ascii hlt, hbyte]
    exact ih hrest

/-- The scan of a part with this nesting and these containers. -/
def within (d n depth count : ℕ) : Option Scan :=
  if d + depth ≤ 64 ∧ n + count ≤ 4096 then some ⟨false, false, d, n + count⟩ else none

theorem within_zero (hd : d ≤ 64) (hn : n ≤ 4096) : within d n 0 0 = some ⟨false, false, d, n⟩ :=
  if_pos ⟨hd, hn⟩

theorem within_bind {b m : ℕ}
    (h : n + k ≤ 4096 → scan ⟨false, false, d, n + k⟩ t = within d (n + k) b m) :
    ((within d n a k).bind fun s => scan s t) = within d n (max a b) (k + m) := by
  rw [within, within]
  by_cases hfirst : d + a ≤ 64 ∧ n + k ≤ 4096
  · rw [if_pos hfirst]
    show scan ⟨false, false, d, n + k⟩ t = _
    rw [h hfirst.2, within, Nat.add_assoc]
    refine if_congr ?_ rfl rfl
    omega
  · rw [if_neg hfirst, if_neg (by omega)]
    rfl

theorem scan_container {o e : Char} (h : (o = '[' ∧ e = ']') ∨ (o = '\x7b' ∧ e = '\x7d'))
    (ht : d + 1 ≤ 64 → n + 1 ≤ 4096 → scan ⟨false, false, d + 1, n + 1⟩ t = within (d + 1) (n + 1) a k)
    :
    scan ⟨false, false, d, n⟩ (o :: (t ++ [e])) = within d n (1 + a) (1 + k) := by
  have hopen : Scan.byte ⟨false, false, d, n⟩ (UInt8.ofNat o.toNat)
      = if 64 < d + 1 ∨ 4096 < n + 1 then none else some ⟨false, false, d + 1, n + 1⟩ := by
    rcases h with ⟨rfl, -⟩ | ⟨rfl, -⟩ <;> rfl
  have hclose (m : ℕ) : scan ⟨false, false, d + 1, m⟩ [e] = some ⟨false, false, d, m⟩ := by
    rcases h with ⟨-, rfl⟩ | ⟨-, rfl⟩ <;> rfl
  have hascii : o.toNat < 128 := by
    rcases h with ⟨rfl, -⟩ | ⟨rfl, -⟩ <;> decide
  rw [scan_ascii hascii, hopen]
  by_cases hroom : d + 1 ≤ 64 ∧ n + 1 ≤ 4096
  · rw [if_neg (by omega)]
    show scan ⟨false, false, d + 1, n + 1⟩ (t ++ [e]) = _
    rw [scan_append, ht hroom.1 hroom.2, within, within]
    by_cases hfits : d + 1 + a ≤ 64 ∧ n + 1 + k ≤ 4096
    · rw [if_pos hfits, if_pos (by omega), Nat.add_assoc n 1 k]
      exact hclose _
    · rw [if_neg hfits, if_neg (by omega)]
      rfl
  · rw [if_pos (by omega), within, if_neg (by omega)]
    rfl

mutual

theorem scan_text : ∀ {s : JsonSyntax}, s.Valid → ∀ {d n : ℕ}, d ≤ 64 → n ≤ 4096 →
    scan ⟨false, false, d, n⟩ s.text = within d n s.nesting s.containers
  | .scalar text, h, d, n, hd, hn => by
    rw [JsonSyntax.text, scan_quiet h]
    exact (within_zero hd hn).symm
  | .str pieces, h, d, n, hd, hn => by
    rw [JsonSyntax.text, scan_string h]
    exact (within_zero hd hn).symm
  | .arr lead items, h, d, n, hd, hn => by
    refine scan_container (.inl ⟨rfl, rfl⟩) fun hd' hn' => ?_
    show scan _ (lead ++ itemsText items) = _
    rw [scan_append, scan_quiet h.1]
    exact scan_items h.2 hd' hn'
  | .obj lead members, h, d, n, hd, hn => by
    refine scan_container (.inr ⟨rfl, rfl⟩) fun hd' hn' => ?_
    show scan _ (lead ++ membersText members) = _
    rw [scan_append, scan_quiet h.1]
    exact scan_members h.2 hd' hn'

theorem scan_items : ∀ {items : List (JsonSyntax × List Char)}, itemsValid items → ∀ {d n : ℕ},
    d ≤ 64 → n ≤ 4096 →
    scan ⟨false, false, d, n⟩ (itemsText items) = within d n (itemsNesting items) (itemsContainers items)
  | [], _, d, n, hd, hn => (within_zero hd hn).symm
  | (s, after) :: rest, h, d, n, hd, hn => by
    rw [itemsText, List.append_assoc, scan_append, scan_text h.1 hd hn]
    refine within_bind fun hn' => ?_
    rw [scan_append, scan_quiet h.2.1]
    exact scan_items h.2.2 hd hn'

theorem scan_members : ∀ {members : List (List Piece × List Char × JsonSyntax × List Char)},
    membersValid members → ∀ {d n : ℕ}, d ≤ 64 → n ≤ 4096 →
    scan ⟨false, false, d, n⟩ (membersText members)
      = within d n (membersNesting members) (membersContainers members)
  | [], _, d, n, hd, hn => (within_zero hd hn).symm
  | (name, colon, s, after) :: rest, h, d, n, hd, hn => by
    have hname : membersText ((name, colon, s, after) :: rest)
        = ('"' :: written name ++ ['"']) ++ (colon ++ (s.text ++ (after ++ membersText rest))) := by
      simp [membersText]
    rw [hname, scan_append, scan_string h.1]
    show scan ⟨false, false, d, n⟩ (colon ++ _) = _
    rw [scan_append, scan_quiet h.2.1]
    show scan ⟨false, false, d, n⟩ (s.text ++ _) = _
    rw [scan_append, scan_text h.2.2.1 hd hn]
    refine within_bind fun hn' => ?_
    rw [scan_append, scan_quiet h.2.2.2.1]
    exact scan_members h.2.2.2.2 hd hn'

end

/-- **The preflight of a response.**  A document, with white space around it, passes the preflight
exactly when its containers are nested at most 64 deep and are at most 4096. -/
theorem preflight_response {s : JsonSyntax} (h : s.Valid) {lead trail : List Char}
    (hlead : lead.all quiet = true) (htrail : trail.all quiet = true) :
    preflightResponse (encode (lead ++ s.text ++ trail)) = some ()
      ↔ s.nesting ≤ 64 ∧ s.containers ≤ 4096 := by
  have hscan : (encode (lead ++ s.text ++ trail)).foldlM Scan.byte ⟨false, false, 0, 0⟩
      = within 0 0 s.nesting s.containers := by
    show scan _ _ = _
    rw [List.append_assoc, scan_append, scan_quiet hlead]
    show scan ⟨false, false, 0, 0⟩ _ = _
    rw [scan_append, scan_text h (Nat.zero_le _) (Nat.zero_le _), within]
    split_ifs
    · exact scan_quiet htrail _ _
    · rfl
  rw [preflightResponse, hscan, within, Nat.zero_add, Nat.zero_add]
  split_ifs with hfits
  · exact iff_of_true rfl hfits
  · exact iff_of_false (fun hnone => by cases hnone) hfits

theorem preflight_response_nested :
    preflightResponse (encode ("[\x7b\"]\\\"[\":1\x7d]".toList)) = some () := by
  have hpieces : ∀ p ∈ [Piece.plain ']', .short .quote, .plain '['], p.Valid := by
    intro p hp
    rcases (by simpa using hp) with rfl | rfl | rfl <;> simp [Piece.Valid, unquoting]
  have hvalid : (JsonSyntax.arr [] [(.obj [] [([.plain ']', .short .quote, .plain '['], [':'],
      .scalar ['1'], [])], [])]).Valid :=
    ⟨rfl, ⟨rfl, hpieces, rfl, rfl, rfl, trivial⟩, rfl, trivial⟩
  have hempty : ([] : List Char).all quiet = true := rfl
  exact (preflight_response hvalid hempty hempty).mpr (by decide)

end Egress

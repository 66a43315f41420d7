/-
Regular expressions with priorities.

A pattern is matched by trying its alternatives in order of preference: the left branch
of an alternation before the right one, and the longest run of a greedy repetition
before the shorter ones.  `hits` lists the matches at one position in that order, so
its head is the match a backtracking search reports; `find` reports the leftmost
position that has one, and `pieces` cuts a text at its successive matches.

Only characters are repeated, which is all that the patterns of a redactor need, and
the class of word characters (for `\b`) is a parameter.

* `mem_hits` — the listed matches are those of the declarative semantics `Takes`;
* `find_eq_none`, `find_eq_some` — what a search that fails, or succeeds, says about the
  text it went through;
* `Tail.rest` — a pattern that ends in a greedy repetition stops at a character the
  repetition refuses.
-/
import Mathlib

inductive Regex
  | empty
  | set (p : Char → Bool)
  | boundary
  | seq (a b : Regex)
  | alt (a b : Regex)
  | many (greedy : Bool) (p : Char → Bool)
  | group (a : Regex)

namespace Regex

/-- The characters of `s` one after the other, each up to `same`. -/
def literal (same : Char → Char → Bool) (s : String) : Regex :=
  s.toList.foldr (fun c r => .seq (.set (same c)) r) .empty

/-- `p` exactly `n` times, then `r`. -/
def times : Nat → (Char → Bool) → Regex → Regex
  | 0, _, r => r
  | n + 1, p, r => .seq (.set p) (times n p r)

/-- `p` at least `n` times, as often as possible. -/
def atLeast (n : Nat) (p : Char → Bool) : Regex := times n p (.many true p)

def atMostOne (p : Char → Bool) : Regex := .alt (.set p) .empty

/-- A match: what it takes, what its groups have taken, and what is left. -/
structure Match where
  taken : List Char
  groups : List (List Char)
  rest : List Char

/-- The texts a repetition can take, shortest first. -/
def runs (p : Char → Bool) : List Char → List Match
  | [] => [⟨[], [], []⟩]
  | c :: text => ⟨[], [], c :: text⟩ ::
      if p c then (runs p text).map fun m => ⟨c :: m.taken, m.groups, m.rest⟩ else []

/-- Whether a position next to this character is next to a word. -/
def wordAt (word : Char → Bool) (c : Option Char) : Bool := c.any word

/-- The character before the position reached by taking `taken`. -/
def after (prev : Option Char) (taken : List Char) : Option Char := taken.getLast?.or prev

/-- All matches at a position, best first. -/
def hits (word : Char → Bool) : Regex → Option Char → List Char → List Match
  | .empty, _, text => [⟨[], [], text⟩]
  | .set _, _, [] => []
  | .set p, _, c :: text => if p c then [⟨[c], [], text⟩] else []
  | .boundary, prev, text =>
    if wordAt word prev != wordAt word text.head? then [⟨[], [], text⟩] else []
  | .seq a b, prev, text => (a.hits word prev text).flatMap fun m =>
      (b.hits word (after prev m.taken) m.rest).map fun m' =>
        ⟨m.taken ++ m'.taken, m.groups ++ m'.groups, m'.rest⟩
  | .alt a b, prev, text => a.hits word prev text ++ b.hits word prev text
  | .many true p, _, text => (runs p text).reverse
  | .many false p, _, text => runs p text
  | .group a, prev, text =>
    (a.hits word prev text).map fun m => ⟨m.taken, m.taken :: m.groups, m.rest⟩

/-! ### What a pattern takes -/

/-- `r.Takes word prev s g next`: between the characters `prev` and `next`, the pattern can
take `s`, with the groups `g`. -/
def Takes (word : Char → Bool) :
    Regex → Option Char → List Char → List (List Char) → Option Char → Prop
  | .empty, _, s, g, _ => s = [] ∧ g = []
  | .set p, _, s, g, _ => ∃ c, p c = true ∧ s = [c] ∧ g = []
  | .boundary, prev, s, g, next => wordAt word prev ≠ wordAt word next ∧ s = [] ∧ g = []
  | .seq a b, prev, s, g, next => ∃ s₁ s₂ g₁ g₂, s = s₁ ++ s₂ ∧ g = g₁ ++ g₂
      ∧ a.Takes word prev s₁ g₁ (s₂.head?.or next) ∧ b.Takes word (after prev s₁) s₂ g₂ next
  | .alt a b, prev, s, g, next => a.Takes word prev s g next ∨ b.Takes word prev s g next
  | .many _ p, _, s, g, _ => (∀ c ∈ s, p c = true) ∧ g = []
  | .group a, prev, s, g, next => ∃ g', g = s :: g' ∧ a.Takes word prev s g' next

variable {word : Char → Bool}

variable {p q : Char → Bool} {m : Match} {s gap back : List Char} {g : List (List Char)}
  {x c : Char} {R : Char → Char → Prop} {same : Char → Char → Bool} {l : String} {text : List Char}

theorem mem_runs :
    m ∈ runs p text ↔ text = m.taken ++ m.rest ∧ (∀ c ∈ m.taken, p c = true) ∧ m.groups = [] := by
  obtain ⟨s, g, v⟩ := m
  induction text generalizing s with
  | nil =>
    simp only [runs, List.mem_singleton, Match.mk.injEq, List.nil_eq, List.append_eq_nil_iff]
    constructor
    · rintro ⟨rfl, rfl, rfl⟩
      exact ⟨⟨rfl, rfl⟩, by simp, rfl⟩
    · rintro ⟨⟨rfl, rfl⟩, -, rfl⟩
      exact ⟨rfl, rfl, rfl⟩
  | cons c text ih =>
    rw [runs, List.mem_cons, Match.mk.injEq]
    constructor
    · rintro (⟨rfl, rfl, rfl⟩ | h)
      · exact ⟨rfl, by simp, rfl⟩
      · split_ifs at h with hc
        · obtain ⟨⟨s', g', v'⟩, hm, heq⟩ := List.mem_map.mp h
          obtain ⟨rfl, rfl, rfl⟩ := Match.mk.inj heq
          obtain ⟨rfl, hall, hg⟩ := (ih s').mp hm
          exact ⟨rfl, List.forall_mem_cons.mpr ⟨hc, hall⟩, hg⟩
        · exact absurd h (by simp)
    · rintro ⟨htext, hall, rfl⟩
      cases s with
      | nil => exact .inl ⟨rfl, rfl, htext.symm⟩
      | cons d s =>
        obtain ⟨rfl, rfl⟩ := List.cons.inj htext
        obtain ⟨hc, hall⟩ := List.forall_mem_cons.mp hall
        refine .inr ?_
        rw [if_pos hc]
        exact List.mem_map.mpr ⟨⟨s, [], v⟩, (ih s).mpr ⟨rfl, hall, rfl⟩, rfl⟩

variable {r : Regex} {prev : Option Char}

theorem mem_hits :
    m ∈ r.hits word prev text ↔
      text = m.taken ++ m.rest ∧ r.Takes word prev m.taken m.groups m.rest.head? := by
  induction r generalizing prev text m with
  | empty =>
    obtain ⟨s, g, v⟩ := m
    simp only [hits, Takes, List.mem_singleton, Match.mk.injEq]
    constructor
    · rintro ⟨rfl, rfl, rfl⟩
      exact ⟨rfl, rfl, rfl⟩
    · rintro ⟨rfl, rfl, rfl⟩
      exact ⟨rfl, rfl, rfl⟩
  | set p =>
    obtain ⟨s, g, v⟩ := m
    cases text with
    | nil =>
      simp only [hits, Takes, List.not_mem_nil, List.nil_eq, List.append_eq_nil_iff, false_iff]
      rintro ⟨⟨rfl, -⟩, c, -, hs, -⟩
      exact absurd hs (by simp)
    | cons c text =>
      simp only [hits, Takes]
      constructor
      · intro h
        split_ifs at h with hc
        · obtain ⟨rfl, rfl, rfl⟩ := Match.mk.inj (List.mem_singleton.mp h)
          exact ⟨rfl, c, hc, rfl, rfl⟩
        · exact absurd h (by simp)
      · rintro ⟨htext, d, hd, rfl, rfl⟩
        obtain ⟨rfl, rfl⟩ := List.cons.inj htext
        rw [if_pos hd]
        exact List.mem_singleton_self _
  | boundary =>
    obtain ⟨s, g, v⟩ := m
    simp only [hits, Takes]
    constructor
    · intro h
      split_ifs at h with hb
      · obtain ⟨rfl, rfl, rfl⟩ := Match.mk.inj (List.mem_singleton.mp h)
        exact ⟨rfl, by simpa using hb, rfl, rfl⟩
      · exact absurd h (by simp)
    · rintro ⟨rfl, hb, rfl, rfl⟩
      rw [List.nil_append, if_pos (by simpa using hb)]
      exact List.mem_singleton_self _
  | seq a b iha ihb =>
    obtain ⟨s, g, v⟩ := m
    simp only [hits, Takes, List.mem_flatMap, List.mem_map]
    constructor
    · rintro ⟨m1, hm1, m2, hm2, heq⟩
      obtain ⟨rfl, rfl, rfl⟩ := Match.mk.inj heq
      obtain ⟨rfl, h1⟩ := iha.mp hm1
      obtain ⟨hrest, h2⟩ := ihb.mp hm2
      -- what follows the first part is the head of the second, or of the rest
      rw [hrest, List.head?_append] at h1
      exact ⟨by rw [hrest, List.append_assoc], m1.taken, m2.taken, m1.groups, m2.groups, rfl, rfl, h1,
        h2⟩
    · rintro ⟨rfl, s1, s2, g1, g2, rfl, rfl, h1, h2⟩
      refine ⟨⟨s1, g1, s2 ++ v⟩, iha.mpr ⟨List.append_assoc .., ?_⟩, ⟨s2, g2, v⟩, ihb.mpr ⟨rfl, h2⟩, rfl⟩
      rw [List.head?_append]
      exact h1
  | alt a b iha ihb =>
    simp only [hits, Takes, List.mem_append, iha, ihb, and_or_left]
  | many greedy p =>
    cases greedy with
    | false => simp only [hits, Takes, mem_runs]
    | true => simp only [hits, Takes, List.mem_reverse, mem_runs]
  | group a iha =>
    obtain ⟨s, g, v⟩ := m
    simp only [hits, Takes, List.mem_map]
    constructor
    · rintro ⟨m', hm', heq⟩
      obtain ⟨rfl, rfl, rfl⟩ := Match.mk.inj heq
      obtain ⟨rfl, h⟩ := iha.mp hm'
      exact ⟨rfl, m'.groups, rfl, h⟩
    · rintro ⟨rfl, g', rfl, h⟩
      exact ⟨⟨s, g', v⟩, iha.mpr ⟨rfl, h⟩, rfl⟩

/-! ### Searching -/

/-- The leftmost match, with the text before it. -/
def find (word : Char → Bool) (r : Regex) : Option Char → List Char → Option (List Char × Match)
  | prev, [] => (r.hits word prev []).head?.map fun m => ([], m)
  | prev, c :: text =>
    match (r.hits word prev (c :: text)).head? with
    | some m => some ([], m)
    | none => (find word r (some c) text).map fun f => (c :: f.1, f.2)

def isMatch (word : Char → Bool) (r : Regex) (text : List Char) : Bool := (r.find word none text).isSome

/-- The pattern can take some part of `text`, which stands between `prev` and `next`. -/
def Occurs (word : Char → Bool) (r : Regex) (prev : Option Char) (text : List Char)
    (next : Option Char) : Prop :=
  ∃ u s g v, text = u ++ (s ++ v) ∧ r.Takes word (after prev u) s g (v.head?.or next)

@[simp] theorem after_nil (prev : Option Char) : after prev [] = prev := rfl

theorem after_cons (prev : Option Char) (c : Char) (u : List Char) :
    after prev (c :: u) = after (some c) u := by
  rw [after, after, List.getLast?_cons]
  cases u.getLast? with
  | none => rfl
  | some d => rfl

theorem after_append (prev : Option Char) (u v : List Char) :
    after prev (u ++ v) = after (after prev u) v := by
  rw [after, after, after, List.getLast?_append]
  cases v.getLast? with
  | none => rfl
  | some d => rfl

theorem wordAt_after {b : Bool} (hs : s ≠ []) (hall : ∀ c ∈ s, word c = b) :
    wordAt word (after prev s) = b := by
  rw [after, List.getLast?_eq_getLast_of_ne_nil hs]
  exact hall _ (List.getLast_mem hs)

theorem head?_hits_eq_none :
    (r.hits word prev text).head? = none ↔
      ∀ s g v, text = s ++ v → ¬r.Takes word prev s g v.head? := by
  rw [List.head?_eq_none_iff]
  constructor
  · intro h s g v htext htakes
    have hmem : (⟨s, g, v⟩ : Match) ∈ r.hits word prev text := mem_hits.mpr ⟨htext, htakes⟩
    rw [h] at hmem
    exact absurd hmem (by simp)
  · intro h
    refine List.eq_nil_iff_forall_not_mem.mpr fun m hm => ?_
    obtain ⟨htext, htakes⟩ := mem_hits.mp hm
    exact h m.taken m.groups m.rest htext htakes

/-- What a successful search says: where the match stands, that it is the best one there, and
that no match begins further left. -/
structure Found (word : Char → Bool) (r : Regex) (prev : Option Char) (text gap : List Char)
    (m : Match) : Prop where
  cut : text = gap ++ (m.taken ++ m.rest)
  best : (r.hits word (after prev gap) (m.taken ++ m.rest)).head? = some m
  leftmost : ∀ u s g v, text = u ++ (s ++ v) → r.Takes word (after prev u) s g v.head? →
    gap.length ≤ u.length

theorem Found.takes (h : Found word r prev text gap m) :
    r.Takes word (after prev gap) m.taken m.groups m.rest.head? :=
  (mem_hits.mp (List.mem_of_head? h.best)).2

theorem find_eq_none :
    r.find word prev text = none ↔ ¬r.Occurs word prev text none := by
  induction text generalizing prev with
  | nil =>
    rw [find, Option.map_eq_none_iff, head?_hits_eq_none]
    constructor
    · rintro h ⟨u, s, g, v, htext, htakes⟩
      obtain ⟨rfl, hsv⟩ := List.append_eq_nil_iff.mp htext.symm
      rw [Option.or_none] at htakes
      exact h s g v hsv.symm htakes
    · intro h s g v htext htakes
      exact h ⟨[], s, g, v, htext, by rwa [Option.or_none]⟩
  | cons c text ih =>
    rw [find]
    cases hhead : (r.hits word prev (c :: text)).head? with
    | some m =>
      obtain ⟨htext, htakes⟩ := mem_hits.mp (List.mem_of_head? hhead)
      refine ⟨fun h => absurd h (by simp), fun h => absurd ?_ h⟩
      exact ⟨[], m.taken, m.groups, m.rest, htext, by rwa [Option.or_none]⟩
    | none =>
      show Option.map _ _ = none ↔ _
      rw [Option.map_eq_none_iff, ih, not_iff_not]
      constructor
      · rintro ⟨u, s, g, v, rfl, htakes⟩
        exact ⟨c :: u, s, g, v, rfl, by rwa [after_cons]⟩
      · rintro ⟨u, s, g, v, htext, htakes⟩
        cases u with
        | nil =>
          rw [Option.or_none] at htakes
          exact absurd htakes (head?_hits_eq_none.mp hhead s g v htext)
        | cons d u =>
          obtain ⟨rfl, rfl⟩ := List.cons.inj htext
          exact ⟨u, s, g, v, rfl, by rwa [after_cons] at htakes⟩

theorem find_eq_some (h : r.find word prev text = some (gap, m)) :
    Found word r prev text gap m:= by
  induction text generalizing prev gap with
  | nil =>
    rw [find, Option.map_eq_some_iff] at h
    obtain ⟨m', hhead, heq⟩ := h
    obtain ⟨rfl, rfl⟩ := Prod.mk.inj heq
    obtain ⟨htext, -⟩ := mem_hits.mp (List.mem_of_head? hhead)
    exact ⟨htext, by rwa [← htext], fun _ _ _ _ _ _ => Nat.zero_le _⟩
  | cons c text ih =>
    rw [find] at h
    cases hhead : (r.hits word prev (c :: text)).head? with
    | some m' =>
      rw [hhead] at h
      obtain ⟨rfl, rfl⟩ := Prod.mk.inj (Option.some.inj h)
      obtain ⟨htext, -⟩ := mem_hits.mp (List.mem_of_head? hhead)
      exact ⟨htext, by rw [← htext]; exact hhead, fun _ _ _ _ _ _ => Nat.zero_le _⟩
    | none =>
      rw [hhead] at h
      obtain ⟨⟨gap', m'⟩, hfind, heq⟩ := Option.map_eq_some_iff.mp h
      obtain ⟨rfl, rfl⟩ := Prod.mk.inj heq
      have hfound := ih hfind
      refine ⟨by rw [hfound.cut]; rfl, by rw [after_cons]; exact hfound.best, ?_⟩
      intro u s g v htext htakes
      cases u with
      | nil => exact absurd htakes (head?_hits_eq_none.mp hhead s g v htext)
      | cons d u =>
        obtain ⟨rfl, rfl⟩ := List.cons.inj htext
        rw [after_cons] at htakes
        exact Nat.succ_le_succ (hfound.leftmost u s g v rfl htakes)

/-! ### Occurrences in a part of a text -/

variable {prev next : Option Char}

theorem Occurs.of_left {a b : List Char} (h : r.Occurs word prev a (b.head?.or next)) :
    r.Occurs word prev (a ++ b) next:= by
  obtain ⟨u, s, g, v, rfl, htakes⟩ := h
  refine ⟨u, s, g, v ++ b, by simp only [List.append_assoc], ?_⟩
  rwa [List.head?_append, Option.or_assoc]

theorem Occurs.of_right {a b : List Char} (h : r.Occurs word (after prev a) b next) :
    r.Occurs word prev (a ++ b) next:= by
  obtain ⟨u, s, g, v, rfl, htakes⟩ := h
  exact ⟨a ++ u, s, g, v, (List.append_assoc ..).symm, by rwa [after_append]⟩

/-! ### What the classes of a pattern say about what it takes -/

/-- No class of the pattern has `x`. -/
def avoids (x : Char) : Regex → Bool
  | .empty | .boundary => true
  | .set p | .many _ p => !p x
  | .seq a b | .alt a b => a.avoids x && b.avoids x
  | .group a => a.avoids x

/-- Whatever is taken is made of characters of `q`. -/
def Within (q : Char → Bool) : Regex → Prop
  | .empty | .boundary => True
  | .set p | .many _ p => ∀ c, p c = true → q c = true
  | .seq a b | .alt a b => a.Within q ∧ b.Within q
  | .group a => a.Within q

def groupless : Regex → Bool
  | .empty | .boundary | .set _ | .many _ _ => true
  | .seq a b | .alt a b => a.groupless && b.groupless
  | .group _ => false

/-- Whatever is taken has a character of `q`. -/
def Needs (q : Char → Bool) : Regex → Prop
  | .empty | .boundary | .many _ _ => False
  | .set p => ∀ c, p c = true → q c = true
  | .seq a b => a.Needs q ∨ b.Needs q
  | .alt a b => a.Needs q ∧ b.Needs q
  | .group a => a.Needs q

/-- Whatever is taken begins with a character of `q`. -/
def Starts (q : Char → Bool) : Regex → Prop
  | .empty | .boundary | .many _ _ => False
  | .set p => ∀ c, p c = true → q c = true
  | .seq a b => a = .boundary ∧ b.Starts q ∨ a.Starts q
  | .alt a b => a.Starts q ∧ b.Starts q
  | .group a => a.Starts q

/-- Whatever is taken ends with a character of `q`. -/
def Ends (q : Char → Bool) : Regex → Prop
  | .empty | .boundary | .many _ _ => False
  | .set p => ∀ c, p c = true → q c = true
  | .seq a b => b.Within q ∧ a.Ends q ∨ b.Ends q
  | .alt a b => a.Ends q ∧ b.Ends q
  | .group a => a.Ends q

/-- The pattern does not depend on the character after what it takes. -/
def Settled : Regex → Prop
  | .empty | .set _ | .many _ _ => True
  | .boundary => False
  | .seq a b => b.Settled ∧ (a.Settled ∨ b.Needs fun _ => true)
  | .alt a b => a.Settled ∧ b.Settled
  | .group a => a.Settled

/-- The pattern does not look around, and cannot tell characters that `R` relates. -/
def Blind (R : Char → Char → Prop) : Regex → Prop
  | .empty => True
  | .boundary => False
  | .set p | .many _ p => ∀ c d, R c d → p c = p d
  | .seq a b | .alt a b => a.Blind R ∧ b.Blind R
  | .group a => a.Blind R

/-- The pattern ends in a greedy repetition of `p`. -/
def Tail (p : Char → Bool) : Regex → Prop
  | .many true p' => p' = p
  | .seq _ b => b.Tail p
  | .group a => a.Tail p
  | _ => False

theorem Takes.within (hr : r.Within q) (h : r.Takes word prev s g next) :
    ∀ c ∈ s, q c = true := by
  induction r generalizing prev next s g with
  | empty =>
    obtain ⟨rfl, -⟩ := h
    exact fun c hc => absurd hc List.not_mem_nil
  | boundary =>
    obtain ⟨-, rfl, -⟩ := h
    exact fun c hc => absurd hc List.not_mem_nil
  | set p =>
    obtain ⟨d, hd, rfl, -⟩ := h
    intro c hc
    rw [List.mem_singleton.mp hc]
    exact hr d hd
  | many greedy p => exact fun c hc => hr c (h.1 c hc)
  | seq a b iha ihb =>
    obtain ⟨s1, s2, g1, g2, rfl, -, h1, h2⟩ := h
    intro c hc
    exact (List.mem_append.mp hc).elim (iha hr.1 h1 c) (ihb hr.2 h2 c)
  | alt a b iha ihb => exact h.elim (iha hr.1) (ihb hr.2)
  | group a iha =>
    obtain ⟨g', -, h⟩ := h
    exact iha hr h

theorem within_of_avoids (hr : r.avoids x = true) :
    r.Within fun c => c != x := by
  have hclass : ∀ p : Char → Bool, (!p x) = true → ∀ c, p c = true → (c != x) = true := by
    intro p hp c hc
    refine bne_iff_ne.mpr fun hcx => ?_
    rw [← hcx, hc] at hp
    exact absurd hp (by simp)
  induction r with
  | empty | boundary => trivial
  | set p => exact hclass p hr
  | many greedy p => exact hclass p hr
  | seq a b iha ihb | alt a b iha ihb =>
    obtain ⟨ha, hb⟩ := (Bool.and_eq_true _ _).mp hr
    exact ⟨iha ha, ihb hb⟩
  | group a iha => exact iha hr

theorem Takes.avoids (hr : r.avoids x = true) (h : r.Takes word prev s g next) : x ∉ s :=
  fun hx => absurd rfl (bne_iff_ne.mp (h.within (within_of_avoids hr) x hx))

theorem Takes.groupless (hr : r.groupless = true) (h : r.Takes word prev s g next) : g = [] := by
  induction r generalizing prev next s g with
  | empty => exact h.2
  | boundary => exact h.2.2
  | set p =>
    obtain ⟨c, -, -, hg⟩ := h
    exact hg
  | many greedy p => exact h.2
  | seq a b iha ihb =>
    obtain ⟨s1, s2, g1, g2, -, rfl, h1, h2⟩ := h
    obtain ⟨ha, hb⟩ := (Bool.and_eq_true _ _).mp hr
    rw [iha ha h1, ihb hb h2, List.nil_append]
  | alt a b iha ihb =>
    obtain ⟨ha, hb⟩ := (Bool.and_eq_true _ _).mp hr
    exact h.elim (iha ha) (ihb hb)
  | group a => exact absurd hr (by simp [Regex.groupless])

theorem Takes.needs (hr : r.Needs q) (h : r.Takes word prev s g next) : ∃ c ∈ s, q c = true := by
  induction r generalizing prev next s g with
  | empty | boundary | many greedy p => exact hr.elim
  | set p =>
    obtain ⟨c, hc, rfl, -⟩ := h
    exact ⟨c, List.mem_singleton_self c, hr c hc⟩
  | seq a b iha ihb =>
    obtain ⟨s1, s2, g1, g2, rfl, -, h1, h2⟩ := h
    rcases hr with hr | hr
    · obtain ⟨c, hc, hq⟩ := iha hr h1
      exact ⟨c, List.mem_append_left _ hc, hq⟩
    · obtain ⟨c, hc, hq⟩ := ihb hr h2
      exact ⟨c, List.mem_append_right _ hc, hq⟩
  | alt a b iha ihb => exact h.elim (iha hr.1) (ihb hr.2)
  | group a iha =>
    obtain ⟨g', -, h⟩ := h
    exact iha hr h

theorem Takes.starts (hr : r.Starts q) (h : r.Takes word prev s g next) :
    ∃ c s', s = c :: s' ∧ q c = true := by
  induction r generalizing prev next s g with
  | empty | boundary | many greedy p => exact hr.elim
  | set p =>
    obtain ⟨c, hc, rfl, -⟩ := h
    exact ⟨c, [], rfl, hr c hc⟩
  | seq a b iha ihb =>
    obtain ⟨s1, s2, g1, g2, rfl, -, h1, h2⟩ := h
    rcases hr with ⟨rfl, hr⟩ | hr
    · obtain ⟨-, rfl, -⟩ := h1
      exact ihb hr h2
    · obtain ⟨c, s', rfl, hq⟩ := iha hr h1
      exact ⟨c, s' ++ s2, rfl, hq⟩
  | alt a b iha ihb => exact h.elim (iha hr.1) (ihb hr.2)
  | group a iha =>
    obtain ⟨g', -, h⟩ := h
    exact iha hr h

theorem Takes.ends (hr : r.Ends q) (h : r.Takes word prev s g next) :
    ∃ c s', s = s' ++ [c] ∧ q c = true := by
  induction r generalizing prev next s g with
  | empty | boundary | many greedy p => exact hr.elim
  | set p =>
    obtain ⟨c, hc, rfl, -⟩ := h
    exact ⟨c, [], rfl, hr c hc⟩
  | seq a b iha ihb =>
    obtain ⟨s1, s2, g1, g2, rfl, -, h1, h2⟩ := h
    rcases hr with ⟨hb, hr⟩ | hr
    · rcases List.eq_nil_or_concat s2 with rfl | ⟨s2, c, rfl⟩
      · obtain ⟨c, s', rfl, hq⟩ := iha hr h1
        exact ⟨c, s', List.append_nil _, hq⟩
      · rw [List.concat_eq_append] at h2 ⊢
        refine ⟨c, s1 ++ s2, (List.append_assoc ..).symm, ?_⟩
        exact h2.within hb c (List.mem_append_right _ (List.mem_singleton_self c))
    · obtain ⟨c, s', rfl, hq⟩ := ihb hr h2
      exact ⟨c, s1 ++ s', (List.append_assoc ..).symm, hq⟩
  | alt a b iha ihb => exact h.elim (iha hr.1) (ihb hr.2)
  | group a iha =>
    obtain ⟨g', -, h⟩ := h
    exact iha hr h

theorem Takes.settled (hr : r.Settled) {prev next next' : Option Char}
    (h : r.Takes word prev s g next) : r.Takes word prev s g next' := by
  induction r generalizing prev next next' s g with
  | empty | set p | many greedy p => exact h
  | boundary => exact hr.elim
  | seq a b iha ihb =>
    obtain ⟨s1, s2, g1, g2, hs, hg, h1, h2⟩ := h
    refine ⟨s1, s2, g1, g2, hs, hg, ?_, ihb hr.1 h2⟩
    rcases hr.2 with ha | hb
    · exact iha ha h1
    · -- what `b` takes is not empty, so `a` sees its first character either way
      obtain ⟨c, hc, -⟩ := h2.needs hb
      obtain ⟨d, s', rfl⟩ := List.exists_cons_of_ne_nil (List.ne_nil_of_mem hc)
      exact h1
  | alt a b iha ihb => exact h.imp (iha hr.1) (ihb hr.2)
  | group a iha =>
    obtain ⟨g', hg, h⟩ := h
    exact ⟨g', hg, iha hr h⟩

theorem Blind.settled (hr : r.Blind R) : r.Settled := by
  induction r with
  | empty | set p | many greedy p => trivial
  | boundary => exact hr
  | seq a b iha ihb => exact ⟨ihb hr.2, .inl (iha hr.1)⟩
  | alt a b iha ihb => exact ⟨iha hr.1, ihb hr.2⟩
  | group a iha => exact iha hr

theorem Takes.blind (hr : r.Blind R) {prev next prev' next' : Option Char} {s' : List Char}
    (h : r.Takes word prev s g next) (hs : List.Forall₂ R s' s) :
    ∃ g', r.Takes word prev' s' g' next' := by
  induction r generalizing prev next prev' next' s s' g with
  | empty =>
    obtain ⟨rfl, rfl⟩ := h
    exact ⟨[], List.forall₂_nil_right_iff.mp hs, rfl⟩
  | boundary => exact hr.elim
  | set p =>
    obtain ⟨c, hc, rfl, rfl⟩ := h
    obtain ⟨d, t, hdc, ht, rfl⟩ := List.forall₂_cons_right_iff.mp hs
    obtain rfl := List.forall₂_nil_right_iff.mp ht
    exact ⟨[], d, (hr d c hdc).trans hc, rfl, rfl⟩
  | many greedy p =>
    refine ⟨[], fun d hd => ?_, rfl⟩
    obtain ⟨hall, -⟩ := h
    induction hs with
    | nil => exact absurd hd List.not_mem_nil
    | cons hdc _ ih =>
      obtain ⟨hc, hall⟩ := List.forall_mem_cons.mp hall
      rcases List.mem_cons.mp hd with rfl | hd
      · exact (hr _ _ hdc).trans hc
      · exact ih hd hall
  | seq a b iha ihb =>
    obtain ⟨s1, s2, g1, g2, rfl, rfl, h1, h2⟩ := h
    obtain ⟨g1', h1⟩ := iha hr.1 h1 (List.forall₂_take_append s' s1 s2 hs)
    obtain ⟨g2', h2⟩ := ihb hr.2 h2 (List.forall₂_drop_append s' s1 s2 hs)
    exact ⟨g1' ++ g2', _, _, g1', g2', (List.take_append_drop s1.length s').symm, rfl, h1, h2⟩
  | alt a b iha ihb =>
    rcases h with h | h
    · obtain ⟨g', h⟩ := iha hr.1 h hs
      exact ⟨g', .inl h⟩
    · obtain ⟨g', h⟩ := ihb hr.2 h hs
      exact ⟨g', .inr h⟩
  | group a iha =>
    obtain ⟨g', -, h⟩ := h
    obtain ⟨g'', h⟩ := iha hr h hs
    exact ⟨s' :: g'', g'', rfl, h⟩

variable {word word' : Char → Bool}

theorem Takes.congr (h : r.Takes word prev s g next) (hs : ∀ c ∈ s, word c = word' c)
    (hprev : wordAt word prev = wordAt word' prev) (hnext : wordAt word next = wordAt word' next) :
    r.Takes word' prev s g next := by
  have hafter {prev : Option Char} {s : List Char} (hs : ∀ c ∈ s, word c = word' c)
      (hprev : wordAt word prev = wordAt word' prev) :
      wordAt word (after prev s) = wordAt word' (after prev s) := by
    rw [after]
    cases hlast : s.getLast? with
    | none => exact hprev
    | some c => exact hs c (List.mem_of_getLast? hlast)
  induction r generalizing prev next s g with
  | empty | set p | many greedy p => exact h
  | boundary =>
    obtain ⟨hb, rfl, rfl⟩ := h
    rw [hprev, hnext] at hb
    exact ⟨hb, rfl, rfl⟩
  | seq a b iha ihb =>
    obtain ⟨s1, s2, g1, g2, rfl, rfl, h1, h2⟩ := h
    obtain ⟨hs1, hs2⟩ := List.forall_mem_append.mp hs
    refine ⟨s1, s2, g1, g2, rfl, rfl, iha h1 hs1 hprev ?_, ihb h2 hs2 (hafter hs1 hprev) hnext⟩
    cases s2 with
    | nil => exact hnext
    | cons c s2 => exact hs2 c (List.mem_cons_self ..)
  | alt a b iha ihb => exact h.imp (iha · hs hprev hnext) (ihb · hs hprev hnext)
  | group a iha =>
    obtain ⟨g', hg, h⟩ := h
    exact ⟨g', hg, iha h hs hprev hnext⟩

theorem Occurs.congr (h : r.Occurs word none text none) (htext : ∀ c ∈ text, word c = word' c) :
    r.Occurs word' none text none := by
  obtain ⟨u, s, g, v, rfl, htakes⟩ := h
  obtain ⟨hu, hsv⟩ := List.forall_mem_append.mp htext
  obtain ⟨hs, hv⟩ := List.forall_mem_append.mp hsv
  refine ⟨u, s, g, v, rfl, htakes.congr hs ?_ ?_⟩
  · rw [after]
    cases hlast : u.getLast? with
    | none => rfl
    | some c => exact hu c (List.mem_of_getLast? hlast)
  · cases v with
    | nil => rfl
    | cons c v => exact hv c (List.mem_cons_self ..)

theorem takes_literal :
    (literal same l).Takes word prev s g next ↔
      List.Forall₂ (fun c d => same c d = true) l.toList s ∧ g = [] := by
  rw [literal]
  induction l.toList generalizing prev s g with
  | nil =>
    rw [List.forall₂_nil_left_iff]
    exact Iff.rfl
  | cons c l ih =>
    rw [List.forall₂_cons_left_iff]
    constructor
    · rintro ⟨s1, s2, g1, g2, rfl, rfl, ⟨d, hd, rfl, rfl⟩, h2⟩
      obtain ⟨hs2, rfl⟩ := ih.mp h2
      exact ⟨⟨d, s2, hd, hs2, rfl⟩, rfl⟩
    · rintro ⟨⟨d, s2, hd, hs2, rfl⟩, rfl⟩
      exact ⟨[d], s2, [], [], rfl, rfl, ⟨d, hd, rfl, rfl⟩, ih.mpr ⟨hs2, rfl⟩⟩

theorem blind_literal (h : ∀ c ∈ l.toList, ∀ d e, R d e → same c d = same c e) :
    (literal same l).Blind R := by
  rw [literal]
  generalize l.toList = l at *
  induction l with
  | nil => trivial
  | cons c l ih =>
    obtain ⟨hc, h⟩ := List.forall_mem_cons.mp h
    exact ⟨hc, ih h⟩

theorem needs_literal (hc : c ∈ l.toList) (h : ∀ d, same c d = true → q d = true) :
    (literal same l).Needs q := by
  rw [literal]
  generalize l.toList = l at *
  induction l with
  | nil => exact absurd hc List.not_mem_nil
  | cons d l ih =>
    rcases List.mem_cons.mp hc with rfl | hc
    · exact .inl h
    · exact .inr (ih hc)

theorem ends_literal (hc : l.toList.getLast? = some c) (h : ∀ d, same c d = true → q d = true) :
    (literal same l).Ends q := by
  rw [literal]
  generalize l.toList = l at *
  induction l with
  | nil => exact absurd hc (by simp)
  | cons d l ih =>
    cases l with
    | nil =>
      obtain rfl := Option.some.inj hc
      exact .inl ⟨trivial, h⟩
    | cons e l => exact .inr (ih hc)

theorem blind_atLeast (hp : ∀ c d, R c d → p c = p d) (n : Nat) : (atLeast n p).Blind R := by
  induction n with
  | zero => exact hp
  | succ n ih => exact ⟨hp, ih⟩

theorem ends_atLeast (h : ∀ c, p c = true → q c = true) (n : Nat) :
    (atLeast (n + 1) p).Ends q := by
  induction n with
  | zero => exact .inl ⟨h, h⟩
  | succ n ih => exact .inr ih

theorem takes_times {n : Nat} (h : (times n p r).Takes word prev s g next) :
    ∃ s1 s2, s = s1 ++ s2 ∧ s1.length = n ∧ (∀ c ∈ s1, p c = true)
      ∧ r.Takes word (after prev s1) s2 g next := by
  induction n generalizing prev s g with
  | zero => exact ⟨[], s, rfl, rfl, by simp, h⟩
  | succ n ih =>
    obtain ⟨t, t', g1, g2, rfl, rfl, ⟨c, hc, rfl, rfl⟩, h⟩ := h
    obtain ⟨s1, s2, rfl, hlen, hall, h⟩ := ih h
    refine ⟨c :: s1, s2, rfl, by rw [List.length_cons, hlen], List.forall_mem_cons.mpr ⟨hc, hall⟩, ?_⟩
    rw [after_cons]
    exact h

theorem getLast?_runs (h : (runs p text).getLast? = some m) (hc : m.rest.head? = some c) :
    p c = false:= by
  induction text generalizing m with
  | nil =>
    obtain rfl := Option.some.inj h
    exact absurd hc (by simp)
  | cons d text ih =>
    rw [runs, List.getLast?_cons] at h
    split_ifs at h with hd
    · rw [List.getLast?_map] at h
      cases hlast : (runs p text).getLast? with
      | none =>
        -- a repetition always has its empty run
        have hnil : runs p text = [] := List.getLast?_eq_none_iff.mp hlast
        cases text with
        | nil | cons e text => exact absurd hnil (by simp [runs])
      | some m' =>
        rw [hlast] at h
        obtain rfl := Option.some.inj h
        exact ih hlast hc
    · obtain rfl := Option.some.inj h
      obtain rfl := Option.some.inj hc
      exact Bool.eq_false_iff.mpr hd

theorem Tail.rest (hr : r.Tail p) (h : (r.hits word prev text).head? = some m)
    (hc : m.rest.head? = some c) : p c = false := by
  induction r generalizing prev text m with
  | empty | boundary | set q | alt a b => exact hr.elim
  | group a iha =>
    rw [hits, List.head?_map, Option.map_eq_some_iff] at h
    obtain ⟨m', hbest, rfl⟩ := h
    exact iha hr hbest hc
  | many greedy q =>
    cases greedy with
    | false => exact absurd hr id
    | true =>
      obtain rfl : q = p := hr
      rw [hits, List.head?_reverse] at h
      exact getLast?_runs h hc
  | seq a b iha ihb =>
    rw [hits, List.head?_flatMap] at h
    obtain ⟨m1, -, hbest⟩ := List.exists_of_findSome?_eq_some h
    rw [List.head?_map, Option.map_eq_some_iff] at hbest
    obtain ⟨m2, hbest, rfl⟩ := hbest
    exact ihb hr hbest hc

/-! ### Occurrences, from the classes of the pattern -/

variable {prev' next' : Option Char} {a b : List Char}

theorem Occurs.split (hx : r.avoids x = true) (hq : r.Needs q)
    (h : r.Occurs word prev (a ++ x :: b) next) :
    r.Occurs word prev a (some x) ∨ r.Occurs word (some x) b next := by
  obtain ⟨u, s, g, v, htext, htakes⟩ := h
  have hxs : x ∉ s := htakes.avoids hx
  rcases List.append_eq_append_iff.mp htext with ⟨w, rfl, hw⟩ | ⟨w, rfl, hw⟩
  · -- the pattern begins at `x` or later
    obtain ⟨c, hc, -⟩ := htakes.needs hq
    cases w with
    | nil =>
      obtain ⟨d, s', rfl⟩ := List.exists_cons_of_ne_nil (List.ne_nil_of_mem hc)
      obtain ⟨rfl, -⟩ := List.cons.inj hw
      exact absurd (List.mem_cons_self ..) hxs
    | cons d w =>
      obtain ⟨rfl, rfl⟩ := List.cons.inj hw
      rw [after_append, after_cons] at htakes
      exact .inr ⟨w, s, g, v, rfl, htakes⟩
  · -- it begins before `x`, so that it ends there
    rcases List.append_eq_append_iff.mp hw with ⟨z, rfl, hz⟩ | ⟨z, rfl, hz⟩
    · refine .inl ⟨u, s, g, z, rfl, ?_⟩
      rw [hz, List.head?_append, Option.or_assoc] at htakes
      exact htakes
    · cases z with
      | nil =>
        obtain rfl : x :: b = v := hz
        refine .inl ⟨u, w, g, [], by rw [List.append_nil], ?_⟩
        rw [List.append_nil] at htakes
        exact htakes
      | cons d z =>
        obtain ⟨rfl, -⟩ := List.cons.inj hz
        exact absurd (List.mem_append_right _ (List.mem_cons_self ..)) hxs

theorem Occurs.of_prev (hq : r.Starts q) (hhead : ∀ c, text.head? = some c → q c = false)
    (h : r.Occurs word prev' text next) :
    r.Occurs word prev text next := by
  obtain ⟨u, s, g, v, rfl, htakes⟩ := h
  refine ⟨u, s, g, v, rfl, ?_⟩
  cases u with
  | nil =>
    obtain ⟨c, s', rfl, hc⟩ := htakes.starts hq
    exact absurd hc (Bool.eq_false_iff.mp (hhead c rfl))
  | cons c u =>
    rw [after_cons] at htakes ⊢
    exact htakes

theorem Occurs.of_settled (hr : r.Settled) (h : r.Occurs word prev text next) :
    r.Occurs word prev text next' := by
  obtain ⟨u, s, g, v, rfl, htakes⟩ := h
  exact ⟨u, s, g, v, rfl, htakes.settled hr⟩

theorem Occurs.of_blind (hr : r.Blind Eq) (h : r.Occurs word prev text next) :
    r.Occurs word prev' text next' := by
  obtain ⟨u, s, g, v, rfl, htakes⟩ := h
  obtain ⟨g', htakes⟩ := htakes.blind hr (List.forall₂_eq_eq_eq ▸ rfl)
  exact ⟨u, s, g', v, rfl, htakes⟩

theorem Occurs.of_ends (hr : r.Settled) (hq : r.Ends q) (hb : ∀ c ∈ b, q c = false)
    (h : r.Occurs word prev (a ++ b) next) :
    r.Occurs word prev a next' := by
  obtain ⟨u, s, g, v, htext, htakes⟩ := h
  obtain ⟨c, s', rfl, hc⟩ := htakes.ends hq
  rw [← List.append_assoc] at htext
  rcases List.append_eq_append_iff.mp htext with ⟨w, hw, rfl⟩ | ⟨w, rfl, -⟩
  · -- the last character taken would be one of `b`
    rcases List.eq_nil_or_concat w with rfl | ⟨w', d, rfl⟩
    · rw [List.append_nil] at hw
      exact ⟨u, s' ++ [c], g, [], by rw [← hw, List.append_nil], htakes.settled hr⟩
    · rw [List.concat_eq_append, ← List.append_assoc, ← List.append_assoc] at hw
      obtain ⟨-, hcd⟩ := List.append_inj' hw rfl
      obtain rfl : c = d := by simpa using hcd
      refine absurd hc (Bool.eq_false_iff.mp (hb c (List.mem_append_left _ ?_)))
      rw [List.concat_eq_append]
      exact List.mem_append_right _ (List.mem_singleton_self c)
  · exact ⟨u, s' ++ [c], g, w, List.append_assoc .., htakes.settled hr⟩

theorem Occurs.needs (hq : r.Needs q) (h : r.Occurs word prev text next) :
    ∃ c ∈ text, q c = true := by
  obtain ⟨u, s, g, v, rfl, htakes⟩ := h
  obtain ⟨c, hc, hqc⟩ := htakes.needs hq
  exact ⟨c, List.mem_append_right _ (List.mem_append_left _ hc), hqc⟩

theorem not_occurs_of_all (hq : r.Needs q) (h : text.all (fun c => !q c) = true) :
    ¬r.Occurs word prev text next := by
  intro hocc
  obtain ⟨c, hc, hqc⟩ := hocc.needs hq
  have hall := List.all_eq_true.mp h c hc
  rw [hqc] at hall
  exact absurd hall (by simp)

theorem Starts.needs (hr : r.Starts q) : r.Needs q := by
  induction r with
  | empty | boundary | many greedy p => exact hr
  | set p => exact hr
  | seq a b iha ihb => exact hr.elim (fun h => .inr (ihb h.2)) fun h => .inl (iha h)
  | alt a b iha ihb => exact ⟨iha hr.1, ihb hr.2⟩
  | group a iha => exact iha hr

section

variable (h : Found word r prev text gap m)
include h

theorem Found.within (front : List Char)
    (htaken : m.taken = front ++ back)
    (hocc : r.Occurs word prev (gap ++ front) ((back ++ m.rest).head?)) :
    r.Occurs word (after prev gap) front ((back ++ m.rest).head?) := by
  obtain ⟨u, s, g, v, hcut, htakes⟩ := hocc
  have htext : text = u ++ (s ++ (v ++ (back ++ m.rest))) := by
    rw [h.cut, htaken, List.append_assoc, ← List.append_assoc, hcut]
    simp only [List.append_assoc]
  have hlen : gap.length ≤ u.length := by
    refine h.leftmost u s g _ htext ?_
    rwa [List.head?_append]
  obtain ⟨w, rfl⟩ : gap <+: u :=
    List.prefix_of_prefix_length_le (hcut ▸ List.prefix_append ..) (List.prefix_append ..) hlen
  rw [List.append_assoc, List.append_right_inj] at hcut
  rw [after_append] at htakes
  exact ⟨w, s, g, v, hcut, htakes⟩

theorem Found.clear {k : Regex} (front : List Char)
    (htaken : m.taken = front ++ back) (hclear : ¬k.Occurs word prev text none) :
    ¬k.Occurs word prev (gap ++ front) ((back ++ m.rest).head?) := by
  intro hocc
  refine hclear ?_
  have htext : text = (gap ++ front) ++ (back ++ m.rest) := by
    rw [h.cut, htaken]
    simp only [List.append_assoc]
  rw [htext]
  exact Occurs.of_left (by rwa [Option.or_none])

theorem Found.refused (hr : r.Tail p)
    (hpq : ∀ c, q c = true → p c = true) (hc : m.rest.head? = some c) : q c = false := by
  refine Bool.eq_false_iff.mpr fun hq => ?_
  have hp := hpq c hq
  rw [hr.rest h.best hc] at hp
  exact absurd hp (by simp)

theorem Found.head (front : List Char)
    (htaken : m.taken = front ++ back) (hc : (gap ++ front).head? = some c) :
    text.head? = some c := by
  have htext : text = (gap ++ front) ++ (back ++ m.rest) := by
    rw [h.cut, htaken]
    simp only [List.append_assoc]
  rw [htext, List.head?_append, hc]
  rfl

end

/-! ### Cutting a text at its matches -/

/-- The successive matches, each with the text before it, and the text after the last one.
A pattern that takes something at each match needs no more steps than the text has
characters. -/
def pieces (word : Char → Bool) (r : Regex) :
    Nat → Option Char → List Char → List (List Char × Match) × List Char
  | 0, _, text => ([], text)
  | n + 1, prev, text =>
    match r.find word prev text with
    | none => ([], text)
    | some (gap, m) =>
      let cut := pieces word r n (after prev (gap ++ m.taken)) m.rest
      ((gap, m) :: cut.1, cut.2)

def findIter (word : Char → Bool) (r : Regex) (text : List Char) : List (List Char × Match) :=
  (r.pieces word text.length none text).1

def filled (f : Match → List Char) (cut : List (List Char × Match) × List Char) : List Char :=
  cut.1.flatMap (fun piece => piece.1 ++ f piece.2) ++ cut.2

def replaceAll (word : Char → Bool) (r : Regex) (f : Match → List Char) (text : List Char) :
    List Char :=
  filled f (r.pieces word text.length none text)

theorem pieces_of_not_occurs (h : ¬r.Occurs word prev text none) (n : Nat) :
    r.pieces word n prev text = ([], text) := by
  cases n with
  | zero => rfl
  | succ n => rw [pieces, find_eq_none.mpr h]

variable {f : Match → List Char}

/-- Induction over the matches of a text: what holds of a text without a match, and of a
text up to the end of its first match if it holds of the rest, holds of every text and of
what replacing its matches makes of it. -/
theorem replaceAll_induct (hq : r.Needs q)
    {motive : Option Char → List Char → List Char → Prop}
    (done : ∀ prev text, ¬r.Occurs word prev text none → motive prev text text)
    (more : ∀ prev text gap m out, Found word r prev text gap m →
      motive (after prev (gap ++ m.taken)) m.rest out → motive prev text (gap ++ (f m ++ out)))
    (text : List Char) : motive none text (r.replaceAll word f text) := by
  suffices h : ∀ n prev text, text.length ≤ n → motive prev text (filled f (r.pieces word n prev text))
    from h text.length none text (Nat.le_refl _)
  intro n
  induction n with
  | zero =>
    intro prev text hlen
    obtain rfl := List.length_eq_zero_iff.mp (Nat.le_zero.mp hlen)
    refine done prev [] fun h => ?_
    obtain ⟨c, hc, -⟩ := h.needs hq
    exact absurd hc List.not_mem_nil
  | succ n ih =>
    intro prev text hlen
    rw [pieces]
    cases hfind : r.find word prev text with
    | none => exact done prev text (find_eq_none.mp hfind)
    | some found =>
      obtain ⟨gap, m⟩ := found
      have hfound := find_eq_some hfind
      obtain ⟨c, hc, -⟩ := hfound.takes.needs hq
      have htaken : 0 < m.taken.length := List.length_pos_of_mem hc
      have hrest : m.rest.length ≤ n := by
        rw [hfound.cut, List.length_append, List.length_append] at hlen
        omega
      have hmore := more prev text gap m _ hfound (ih _ _ hrest)
      rw [filled, List.flatMap_cons]
      rw [filled] at hmore
      simpa only [List.append_assoc] using hmore

/-! ### Marked replacements

The matches of `r` are replaced by a `front` and a fixed text between two marks, and `k` is a
pattern that takes neither mark.  If `k` does not occur in the fixed text, and not in a gap
followed by a `front`, then it does not occur in the whole.  `own` says that `k` is the
pattern `r` itself, whose matches need not be absent from the text it starts from. -/

theorem not_occurs_marked {k : Regex} {y : Char} (front : Match → List Char)
    (inner : List Char) (own : Prop) (hown : own → k = r) (hr : r.Needs p)
    (hf : ∀ m, f m = front m ++ x :: (inner ++ [y])) (hk : k.Starts q) (hx : k.avoids x = true)
    (hy : k.avoids y = true) (hinner : ¬k.Occurs word (some x) inner (some y))
    (hrest : ∀ prev text gap m, Found word r prev text gap m →
      ∀ c, m.rest.head? = some c → q c = false)
    (hhead : ∀ prev text gap m, Found word r prev text gap m →
      (∀ c, text.head? = some c → q c = false) → ∀ c, (gap ++ front m).head? = some c → q c = false)
    (hgap : ∀ prev text gap m, Found word r prev text gap m →
      own ∨ ¬k.Occurs word prev text none → ¬k.Occurs word prev (gap ++ front m) (some x))
    (text : List Char) (hclear : own ∨ ¬k.Occurs word none text none) :
    ¬k.Occurs word none (r.replaceAll word f text) none := by
  -- the rest of the output follows the mark `y`, the rest of the input what was taken
  let motive (prev : Option Char) (text out : List Char) : Prop :=
    (own ∨ ¬k.Occurs word prev text none) → ∀ prev',
      prev' = prev ∨ (∀ c, text.head? = some c → q c = false) → ¬k.Occurs word prev' out none
  refine replaceAll_induct (motive := motive) hr ?_ ?_ text hclear none (.inl rfl)
  · intro prev text hnone hclear prev' hprev hocc
    have hclear : ¬k.Occurs word prev text none := by
      rcases hclear with h | h
      · rw [hown h]
        exact hnone
      · exact h
    rcases hprev with rfl | hhead
    · exact hclear hocc
    · exact hclear (hocc.of_prev hk hhead)
  · intro prev text gap m out hfound ih hclear prev' hprev hocc
    have hshape : gap ++ (f m ++ out) = (gap ++ front m) ++ x :: (inner ++ y :: out) := by
      rw [hf]
      simp only [List.append_assoc, List.cons_append, List.nil_append]
    rw [hshape] at hocc
    rcases hocc.split hx hk.needs with hocc | hocc
    · refine hgap prev text gap m hfound hclear ?_
      rcases hprev with rfl | htext
      · exact hocc
      · exact hocc.of_prev hk (hhead prev text gap m hfound htext)
    · rcases hocc.split hy hk.needs with hocc | hocc
      · exact hinner hocc
      · refine ih ?_ (some y) (.inr (hrest prev text gap m hfound)) hocc
        refine hclear.imp id fun h hocc => h ?_
        rw [hfound.cut, ← List.append_assoc]
        exact hocc.of_right

end Regex

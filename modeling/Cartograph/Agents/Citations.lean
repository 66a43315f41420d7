/-
Citations of a staged proposal (`match_citations` and `citation_assignment` of
`crates/agents/src/staging.rs`).

A proposal keeps the references it cites, not the ids.  To stage it, ids are assigned back
to its references: each reference one that is supplied with it, no id twice, and both sides
of the link cited.  Sets of items are masks of 16 bits.

* `citationAssignment` — a search over masks, which enters no mask twice;
* `citationAssignment_sound`, `citationAssignment_complete` — it finds an assignment, and
  finds one whenever there is one.
-/
import Cartograph.Lib.Search
import Cartograph.Lib.Table
import Cartograph.Agents.Broker

namespace Agents

open Investigation Checked

/-! ### Masks -/

abbrev Mask := BitVec 16

/-- `1 << index`. -/
def bit (index : ℕ) : Mask := 1#16 <<< index

/-- The bits of a mask from the lowest on, as a loop over `trailing_zeros` finds them. -/
def setBits (mask : Mask) : List ℕ := (List.range 16).filter mask.getLsbD

variable {i : ℕ} {used : Mask} {evidence : List (String × EvidenceRef)}

variable {mask : Mask} {index j : ℕ} {masks : List Mask}

theorem mem_setBits : i ∈ setBits mask ↔ mask.getLsbD i = true := by
  rw [setBits, List.mem_filter, List.mem_range]
  constructor
  · rintro ⟨-, h⟩
    exact h
  · intro h
    exact ⟨BitVec.lt_of_getLsbD h, h⟩

theorem getLsbD_bit (h : index < 16) : (bit index).getLsbD i = decide (i = index) := by
  rw [bit, BitVec.getLsbD_shiftLeft, BitVec.getLsbD_one]
  by_cases hi : i = index
  · subst hi
    simp [h]
  · simp only [hi, decide_false]
    rcases Nat.lt_or_ge i index with hlt | hge
    · simp [hlt]
    · have hne : i - index ≠ 0 := by omega
      simp [hne]

theorem and_ne_zero {a b : Mask} :
    a &&& b ≠ 0#16 ↔ ∃ i, a.getLsbD i = true ∧ b.getLsbD i = true := by
  constructor
  · intro h
    by_contra hnone
    refine h (BitVec.eq_of_getLsbD_eq fun i _ => ?_)
    rw [BitVec.getLsbD_and, BitVec.getLsbD_zero, Bool.and_eq_false_iff]
    by_contra hboth
    rw [not_or, Bool.not_eq_false, Bool.not_eq_false] at hboth
    exact hnone ⟨i, hboth.1, hboth.2⟩
  · rintro ⟨i, ha, hb⟩ hzero
    have hbit := congrArg (fun m : Mask => m.getLsbD i) hzero
    simp only [BitVec.getLsbD_and, ha, hb, BitVec.getLsbD_zero] at hbit
    exact absurd hbit (by decide)

/-- The bits of a mask, counted. -/
def popcount (mask : Mask) : ℕ := (setBits mask).length

theorem popcount_or_bit (hi : i < 16) (hfree : used.getLsbD i = false) :
    popcount (used ||| bit i) = popcount used + 1 := by
  have hnodup (mask : Mask) : (setBits mask).Nodup := List.nodup_range.filter _
  have hperm : (setBits (used ||| bit i)).Perm (i :: setBits used) := by
    refine (List.perm_ext_iff_of_nodup (hnodup _) ?_).mpr fun j => ?_
    · refine List.nodup_cons.mpr ⟨?_, hnodup _⟩
      rw [mem_setBits, hfree]
      exact Bool.false_ne_true
    · rw [mem_setBits, BitVec.getLsbD_or, getLsbD_bit hi, List.mem_cons, mem_setBits, Bool.or_eq_true,
        decide_eq_true_iff, or_comm]
  rw [popcount, hperm.length_eq, List.length_cons, popcount]

/-! ### The search -/

/-- The mask of the items that satisfy `p`. -/
def maskOf {α : Type} (p : α → Bool) : ℕ → List α → Mask
  | _, [] => 0
  | index, a :: rest => (if p a then bit index else 0) ||| maskOf p (index + 1) rest

theorem getLsbD_maskOf {α : Type} {p : α → Bool} {l : List α} (h : index + l.length ≤ 16) :
    (maskOf p index l).getLsbD i = true ↔ ∃ j, ∃ hj : j < l.length, i = index + j ∧ p l[j] = true := by
  induction l generalizing index with
  | nil => simp [maskOf]
  | cons a rest ih =>
    rw [List.length_cons] at h
    rw [maskOf, BitVec.getLsbD_or, Bool.or_eq_true, ih (by omega)]
    constructor
    · rintro (hbit | ⟨j, hj, rfl, hp⟩)
      · split_ifs at hbit with hp
        · rw [getLsbD_bit (by omega), decide_eq_true_iff] at hbit
          exact ⟨0, Nat.succ_pos _, hbit, hp⟩
        · simp at hbit
      · exact ⟨j + 1, Nat.succ_lt_succ hj, by omega, hp⟩
    · rintro ⟨j, hj, rfl, hp⟩
      cases j with
      | zero =>
        have hp : p a = true := hp
        refine .inl ?_
        rw [if_pos hp, getLsbD_bit (by omega), decide_eq_true_iff]
        omega
      | succ j => exact .inr ⟨j, Nat.lt_of_succ_lt_succ hj, by omega, hp⟩

/-- The bits a reference may still take. -/
def freeBits (mask used : Mask) : List ℕ := setBits (mask &&& ~~~used)

def takeBit (used : Mask) (index : ℕ) : Mask := used ||| bit index

/-- Both sides are cited. -/
def bothSides (source target used : Mask) : Bool :=
  decide (used &&& source ≠ 0#16) && decide (used &&& target ≠ 0#16)

/-- `assign`: the indices selected for the references in turn. -/
def assign (masks : List Mask) (source target : Mask) : Option (List ℕ) :=
  (Search.search freeBits takeBit (bothSides source target) masks 0#16 []).1

/-- `citation_assignment`. -/
def citationAssignment (evidence : List (String × EvidenceRef)) (sourceIds targetIds : List String)
    (citations : List EvidenceRef) : Option (List String) :=
  if 12 < evidence.length ∨ citations = [] ∨ evidence.length < citations.length then none
  else
    let membership (ids : List String) : Mask := maskOf (fun e => ids.contains e.1) 0 evidence
    let masks := citations.map fun reference => maskOf (fun e => e.2 == reference) 0 evidence
    (assign masks (membership sourceIds) (membership targetIds)).map fun selected =>
      selected.filterMap fun index => (evidence[index]?).map Prod.fst

/-- `match_citations`. -/
def matchCitations (t : AgentTask) (p : AgentProposal) : Option (List String) :=
  (t.candidates.find? fun c => c.nodeId == p.targetId).bind fun target =>
    citationAssignment (t.evidence.map fun e => (e.id, e.source)) t.sourceEvidenceIds target.evidenceIds
      p.provenance.evidence

/-! ### Solutions -/

theorem mem_freeBits :
    i ∈ freeBits mask used ↔ mask.getLsbD i = true ∧ used.getLsbD i = false := by
  rw [freeBits, mem_setBits, BitVec.getLsbD_and, BitVec.getLsbD_not, Bool.and_eq_true]
  constructor
  · rintro ⟨hmask, hused⟩
    refine ⟨hmask, ?_⟩
    rw [Bool.and_eq_true, Bool.not_eq_true'] at hused
    exact hused.2
  · rintro ⟨hmask, hused⟩
    refine ⟨hmask, ?_⟩
    rw [decide_eq_true (BitVec.lt_of_getLsbD hmask), hused]
    rfl

theorem getLsbD_take (hi : i < 16) :
    (takeBit used i).getLsbD j = true ↔ used.getLsbD j = true ∨ j = i := by
  rw [takeBit, BitVec.getLsbD_or, getLsbD_bit hi, Bool.or_eq_true, decide_eq_true_iff]

/-- The choices of a solution: free bits, each of its mask and none twice, that hit both sides. -/
theorem solves_iff {accept : Mask → Bool} {chosen : List ℕ} :
    Search.Solves freeBits takeBit accept masks used chosen ↔
      List.Forall₂ (fun mask i => mask.getLsbD i = true) masks chosen ∧ chosen.Nodup
        ∧ (∀ i ∈ chosen, used.getLsbD i = false) ∧ accept (chosen.foldl takeBit used) = true := by
  induction masks generalizing used chosen with
  | nil =>
    rw [Search.Solves, List.forall₂_nil_left_iff]
    constructor
    · rintro ⟨rfl, haccept⟩
      exact ⟨rfl, List.nodup_nil, fun i hi => absurd hi List.not_mem_nil, haccept⟩
    · rintro ⟨rfl, -, -, haccept⟩
      exact ⟨rfl, haccept⟩
  | cons mask masks ih =>
    rw [Search.Solves]
    constructor
    · rintro ⟨i, rest, rfl, hi, hrest⟩
      obtain ⟨hmask, hfree⟩ := mem_freeBits.mp hi
      have hlt := BitVec.lt_of_getLsbD hmask
      obtain ⟨hmasks, hnodup, hclear, haccept⟩ := ih.mp hrest
      refine ⟨.cons hmask hmasks, List.nodup_cons.mpr ⟨fun hmem => ?_, hnodup⟩, ?_, haccept⟩
      · have htaken : (takeBit used i).getLsbD i = true := (getLsbD_take hlt).mpr (.inr rfl)
        rw [hclear i hmem] at htaken
        exact Bool.false_ne_true htaken
      · refine List.forall_mem_cons.mpr ⟨hfree, fun j hj => ?_⟩
        by_contra hused
        rw [Bool.not_eq_false] at hused
        have htaken : (takeBit used i).getLsbD j = true := (getLsbD_take hlt).mpr (.inl hused)
        rw [hclear j hj] at htaken
        exact Bool.false_ne_true htaken
    · rintro ⟨hmasks, hnodup, hclear, haccept⟩
      cases hmasks with
      | @cons _ i _ rest hmask hmasks =>
        obtain ⟨hnew, hnodup⟩ := List.nodup_cons.mp hnodup
        obtain ⟨hfree, hclear⟩ := List.forall_mem_cons.mp hclear
        have hlt := BitVec.lt_of_getLsbD hmask
        refine ⟨i, rest, rfl, mem_freeBits.mpr ⟨hmask, hfree⟩, ih.mpr ⟨hmasks, hnodup, ?_, haccept⟩⟩
        intro j hj
        by_contra htaken
        rw [Bool.not_eq_false, getLsbD_take hlt] at htaken
        rcases htaken with hused | rfl
        · rw [hclear j hj] at hused
          exact Bool.false_ne_true hused
        · exact hnew hj

theorem getLsbD_foldl_take {chosen : List ℕ} (h : ∀ i ∈ chosen, i < 16) :
    (chosen.foldl takeBit used).getLsbD j = true ↔ used.getLsbD j = true ∨ j ∈ chosen := by
  induction chosen generalizing used with
  | nil => simp
  | cons i rest ih =>
    obtain ⟨hi, hrest⟩ := List.forall_mem_cons.mp h
    rw [List.foldl_cons, ih hrest, getLsbD_take hi, List.mem_cons, or_assoc]

theorem assign_iff {source target : Mask} :
    (∀ selected, assign masks source target = some selected →
      List.Forall₂ (fun mask i => mask.getLsbD i = true) masks selected ∧ selected.Nodup
        ∧ (∃ i ∈ selected, source.getLsbD i = true) ∧ ∃ i ∈ selected, target.getLsbD i = true)
    ∧ ((∃ selected, List.Forall₂ (fun mask i => mask.getLsbD i = true) masks selected
        ∧ selected.Nodup ∧ (∃ i ∈ selected, source.getLsbD i = true)
        ∧ ∃ i ∈ selected, target.getLsbD i = true) →
      ∃ selected, assign masks source target = some selected) := by
  have hlow {l : List Mask} {selected : List ℕ}
      (h : List.Forall₂ (fun mask i => mask.getLsbD i = true) l selected) : ∀ i ∈ selected, i < 16 := by
    induction h with
    | nil => exact fun i hi => absurd hi List.not_mem_nil
    | cons hmask _ ih => exact List.forall_mem_cons.mpr ⟨BitVec.lt_of_getLsbD hmask, ih⟩
  have hside {selected : List ℕ} (hselected : ∀ i ∈ selected, i < 16) (side : Mask) :
      selected.foldl takeBit 0#16 &&& side ≠ 0#16 ↔ ∃ i ∈ selected, side.getLsbD i = true := by
    rw [and_ne_zero]
    refine exists_congr fun i => and_congr_left fun _ => ?_
    rw [getLsbD_foldl_take hselected, BitVec.getLsbD_zero]
    simp
  constructor
  · intro selected h
    have hsolves := Search.search_sound (Prod.ext (h : _ = _) rfl :
      Search.search freeBits takeBit (bothSides source target) masks 0#16 [] = (some selected, _))
    obtain ⟨hmasks, hnodup, -, haccept⟩ := solves_iff.mp hsolves
    rw [bothSides, Bool.and_eq_true, decide_eq_true_iff, decide_eq_true_iff, hside (hlow hmasks),
      hside (hlow hmasks)] at haccept
    exact ⟨hmasks, hnodup, haccept.1, haccept.2⟩
  · rintro ⟨selected, hmasks, hnodup, hsource, htarget⟩
    have hrank : ∀ mask used i, i ∈ freeBits mask used →
        popcount (takeBit used i) = popcount used + 1 := by
      intro mask used i hi
      obtain ⟨hmask, hfree⟩ := mem_freeBits.mp hi
      exact popcount_or_bit (BitVec.lt_of_getLsbD hmask) hfree
    have hstart : popcount 0#16 = 0 := rfl
    refine Search.search_complete hrank hstart (solves_iff.mpr ⟨hmasks, hnodup, ?_, ?_⟩)
    · intro i _
      exact BitVec.getLsbD_zero
    · rw [bothSides, Bool.and_eq_true, decide_eq_true_iff, decide_eq_true_iff, hside (hlow hmasks),
        hside (hlow hmasks)]
      exact ⟨hsource, htarget⟩

/-! ### Assignments -/

theorem getLsbD_reference (h : evidence.length ≤ 12) {p : String × EvidenceRef → Bool} :
    (maskOf p 0 evidence).getLsbD i = true ↔ ∃ e, evidence[i]? = some e ∧ p e = true := by
  rw [getLsbD_maskOf (by omega)]
  constructor
  · rintro ⟨j, hj, rfl, hp⟩
    exact ⟨evidence[j], by rw [Nat.zero_add, List.getElem?_eq_getElem hj], hp⟩
  · rintro ⟨e, he, hp⟩
    obtain ⟨hi, rfl⟩ := List.getElem?_eq_some_iff.mp he
    exact ⟨i, hi, (Nat.zero_add i).symm, hp⟩

/-- Places in the evidence for the citations: with equal references, none twice, both sides hit. -/
structure Assigns (evidence : List (String × EvidenceRef)) (sourceIds targetIds : List String)
    (citations : List EvidenceRef) (chosen : List ℕ) : Prop where
  refs : List.Forall₂ (fun reference i => (evidence[i]?).map Prod.snd = some reference)
    citations chosen
  distinct : chosen.Nodup
  source : ∃ i ∈ chosen, ∃ id ∈ sourceIds, (evidence[i]?).map Prod.fst = some id
  target : ∃ i ∈ chosen, ∃ id ∈ targetIds, (evidence[i]?).map Prod.fst = some id

section Places

variable {sourceIds targetIds ids : List String} {citations : List EvidenceRef} {chosen : List ℕ}

theorem assigns_masks (h : evidence.length ≤ 12) :
    Assigns evidence sourceIds targetIds citations chosen ↔
      List.Forall₂ (fun mask i => mask.getLsbD i = true)
        (citations.map fun reference => maskOf (fun e => e.2 == reference) 0 evidence) chosen
      ∧ chosen.Nodup ∧ (∃ i ∈ chosen, (maskOf (fun e => sourceIds.contains e.1) 0 evidence).getLsbD i)
      ∧ ∃ i ∈ chosen, (maskOf (fun e => targetIds.contains e.1) 0 evidence).getLsbD i := by
  have href (reference : EvidenceRef) (i : ℕ) :
      (maskOf (fun e => e.2 == reference) 0 evidence).getLsbD i = true
        ↔ (evidence[i]?).map Prod.snd = some reference := by
    rw [getLsbD_reference h, Option.map_eq_some_iff]
    simp only [beq_iff_eq]
  have hside (side : List String) (i : ℕ) :
      (maskOf (fun e => side.contains e.1) 0 evidence).getLsbD i = true
        ↔ ∃ id ∈ side, (evidence[i]?).map Prod.fst = some id := by
    rw [getLsbD_reference h]
    constructor
    · rintro ⟨e, he, hmem⟩
      exact ⟨e.1, List.contains_iff_mem.mp hmem, by rw [he]; rfl⟩
    · rintro ⟨id, hid, hmap⟩
      obtain ⟨e, he, rfl⟩ := Option.map_eq_some_iff.mp hmap
      exact ⟨e, he, List.contains_iff_mem.mpr hid⟩
  simp only [List.forall₂_map_left_iff, href, hside]
  exact ⟨fun h => ⟨h.refs, h.distinct, h.source, h.target⟩, fun ⟨hrefs, hdistinct, hsource, htarget⟩ =>
    ⟨hrefs, hdistinct, hsource, htarget⟩⟩

theorem assigns_of_citationAssignment
    (h : citationAssignment evidence sourceIds targetIds citations = some ids) :
    evidence.length ≤ 12 ∧ ∃ chosen, Assigns evidence sourceIds targetIds citations chosen
      ∧ ids = chosen.filterMap fun i => (evidence[i]?).map Prod.fst := by
  rw [citationAssignment] at h
  split_ifs at h with hbounds
  have hlength : evidence.length ≤ 12 := by omega
  obtain ⟨chosen, hassign, rfl⟩ := Option.map_eq_some_iff.mp h
  exact ⟨hlength, chosen, (assigns_masks hlength).mpr (assign_iff.1 chosen hassign), rfl⟩

theorem citationAssignment_of_assigns (hlength : evidence.length ≤ 12)
    (h : Assigns evidence sourceIds targetIds citations chosen) :
    ∃ ids, citationAssignment evidence sourceIds targetIds citations = some ids := by
  have hplaces : ∀ {l : List EvidenceRef} {chosen : List ℕ},
      List.Forall₂ (fun reference i => (evidence[i]?).map Prod.snd = some reference) l chosen →
      ∀ i ∈ chosen, i < evidence.length := by
    intro l chosen hrefs
    induction hrefs with
    | nil => exact fun i hi => absurd hi List.not_mem_nil
    | cons href _ ih =>
      obtain ⟨e, he, -⟩ := Option.map_eq_some_iff.mp href
      exact List.forall_mem_cons.mpr ⟨(List.getElem?_eq_some_iff.mp he).1, ih⟩
  have hcount : chosen.length ≤ evidence.length := by
    have hperm := h.distinct.subperm fun i hi => List.mem_range.mpr (hplaces h.refs i hi)
    simpa using hperm.length_le
  have hlengths := h.refs.length_eq
  have hbounds : ¬(12 < evidence.length ∨ citations = [] ∨ evidence.length < citations.length) := by
    rintro (hlong | rfl | hmany)
    · omega
    · obtain ⟨i, hi, -⟩ := h.source
      rw [List.length_eq_zero_iff.mp hlengths.symm] at hi
      exact List.not_mem_nil hi
    · omega
  rw [citationAssignment, if_neg hbounds]
  obtain ⟨selected, hselected⟩ := assign_iff.2 ⟨chosen, (assigns_masks hlength).mp h⟩
  exact ⟨_, Option.map_eq_some_iff.mpr ⟨selected, hselected, rfl⟩⟩

/-- **The search for an assignment.**  It finds one for at most twelve items of evidence exactly when
there is one, and what it returns are the ids of one. -/
theorem citation_assignment (evidence : List (String × EvidenceRef))
    (sourceIds targetIds : List String) (citations : List EvidenceRef) :
    ((∃ ids, citationAssignment evidence sourceIds targetIds citations = some ids) ↔
      evidence.length ≤ 12 ∧ ∃ chosen, Assigns evidence sourceIds targetIds citations chosen)
    ∧ ∀ ids, citationAssignment evidence sourceIds targetIds citations = some ids →
      ∃ chosen, Assigns evidence sourceIds targetIds citations chosen
        ∧ chosen.map (fun i => (evidence[i]?).map Prod.fst) = ids.map some := by
  refine ⟨⟨?_, ?_⟩, fun ids h => ?_⟩
  · rintro ⟨ids, h⟩
    obtain ⟨hlength, chosen, hchosen, -⟩ := assigns_of_citationAssignment h
    exact ⟨hlength, chosen, hchosen⟩
  · rintro ⟨hlength, chosen, hchosen⟩
    exact citationAssignment_of_assigns hlength hchosen
  · obtain ⟨-, chosen, hchosen, rfl⟩ := assigns_of_citationAssignment h
    refine ⟨chosen, hchosen, ?_⟩
    have hrefs := hchosen.refs
    clear h hchosen
    induction hrefs with
    | nil => rfl
    | cons href _ ih =>
      obtain ⟨e, he, -⟩ := Option.map_eq_some_iff.mp href
      rw [List.map_cons, ih, List.filterMap_cons_some (by rw [he]; rfl), List.map_cons, he]
      rfl

theorem citation_assignment_beyond : ∃ evidence : List (String × EvidenceRef), ∃ citations,
    Assigns evidence ["1"] ["1"] citations [0]
      ∧ citationAssignment evidence ["1"] ["1"] citations = none :=
  ⟨List.replicate 13 ("1", ⟨"r", "p", 0, 1, "c"⟩), [⟨"r", "p", 0, 1, "c"⟩],
    ⟨.cons rfl .nil, List.nodup_singleton 0, ⟨0, List.mem_cons_self, "1", List.mem_cons_self, rfl⟩,
      ⟨0, List.mem_cons_self, "1", List.mem_cons_self, rfl⟩⟩, rfl⟩

end Places

theorem citationAssignment_sound (hnodup : (evidence.map Prod.fst).Nodup)
    {sourceIds targetIds ids : List String} {citations : List EvidenceRef}
    (h : citationAssignment evidence sourceIds targetIds citations = some ids) :
    ∃ chosen : List (String × EvidenceRef), (∀ e ∈ chosen, e ∈ evidence) ∧ ids = chosen.map Prod.fst
      ∧ citations = chosen.map Prod.snd ∧ ids.Nodup ∧ (∃ id ∈ sourceIds, id ∈ ids)
      ∧ ∃ id ∈ targetIds, id ∈ ids := by
  obtain ⟨-, places, hplaces, rfl⟩ := assigns_of_citationAssignment h
  have hrefs : citations = (places.filterMap fun i => evidence[i]?).map Prod.snd := by
    have hrefs := hplaces.refs
    clear hplaces h
    induction hrefs with
    | nil => rfl
    | cons href _ ih =>
      obtain ⟨e, he, rfl⟩ := Option.map_eq_some_iff.mp href
      rw [List.filterMap_cons_some he, List.map_cons, ← ih]
  have hside {side : List String}
      (h : ∃ i ∈ places, ∃ id ∈ side, (evidence[i]?).map Prod.fst = some id) :
      ∃ id ∈ side, id ∈ places.filterMap fun i => (evidence[i]?).map Prod.fst := by
    obtain ⟨i, hi, id, hid, hmap⟩ := h
    exact ⟨id, hid, List.mem_filterMap.mpr ⟨i, hi, hmap⟩⟩
  refine ⟨places.filterMap fun i => evidence[i]?, ?_, by rw [List.map_filterMap], hrefs, ?_,
    hside hplaces.source, hside hplaces.target⟩
  · intro e he
    obtain ⟨i, -, hi⟩ := List.mem_filterMap.mp he
    exact List.mem_of_getElem? hi
  · refine hplaces.distinct.filterMap fun i j id hi hj => ?_
    rw [← List.getElem?_map] at hi hj
    obtain ⟨hi', -⟩ := List.getElem?_eq_some_iff.mp hi
    exact (List.getElem?_inj hi' hnodup).mp (hi.trans hj.symm)

variable {chosen : List (String × EvidenceRef)}

theorem citationAssignment_complete (hlength : evidence.length ≤ 12)
    (hchosen : ∀ e ∈ chosen, e ∈ evidence) (hnodup : (chosen.map Prod.fst).Nodup)
    {sourceIds targetIds : List String} (hsource : ∃ id ∈ sourceIds, id ∈ chosen.map Prod.fst)
    (htarget : ∃ id ∈ targetIds, id ∈ chosen.map Prod.fst) :
    ∃ ids, citationAssignment evidence sourceIds targetIds (chosen.map Prod.snd) = some ids := by
  have hindex {e : String × EvidenceRef} (he : e ∈ chosen) :
      evidence[evidence.idxOf e]? = some e := List.getElem?_idxOf (hchosen e he)
  have hside {side : List String} (h : ∃ id ∈ side, id ∈ chosen.map Prod.fst) :
      ∃ i ∈ chosen.map evidence.idxOf, ∃ id ∈ side, (evidence[i]?).map Prod.fst = some id := by
    obtain ⟨id, hid, hmem⟩ := h
    obtain ⟨e, he, rfl⟩ := List.mem_map.mp hmem
    exact ⟨_, List.mem_map_of_mem he, e.1, hid, by rw [hindex he]; rfl⟩
  have hrefs : List.Forall₂ (fun reference i => (evidence[i]?).map Prod.snd = some reference)
      (chosen.map Prod.snd) (chosen.map evidence.idxOf) := by
    rw [List.forall₂_map_left_iff, List.forall₂_map_right_iff, List.forall₂_same]
    intro e he
    rw [hindex he]
    rfl
  have hdistinct : (chosen.map evidence.idxOf).Nodup :=
    (hnodup.of_map _).map_on fun a ha b _ heq => (List.idxOf_inj (hchosen a ha)).mp heq
  exact citationAssignment_of_assigns hlength ⟨hrefs, hdistinct, hside hsource, hside htarget⟩

/-! ### From the broker to the stage -/

section Valid

variable {limits : BrokerLimits} {t : AgentTask} (h : ValidTask limits t)

include h

theorem ValidTask.item {id : String} {e : AgentEvidence} :
    t.item id = some e ↔ e ∈ t.evidence ∧ e.id = id := by
  have hnodup : (t.evidence.reverse.map AgentEvidence.id).Nodup := by
    rw [List.map_reverse]
    exact List.nodup_reverse.mpr h.evidenceIds.2
  constructor
  · intro hfind
    rw [AgentTask.item] at hfind
    have hid := List.find?_some hfind
    exact ⟨List.mem_reverse.mp (List.mem_of_find?_eq_some hfind), beq_iff_eq.mp hid⟩
  · rintro ⟨hmem, hid⟩
    exact Table.find?_distinct hnodup (List.mem_reverse.mpr hmem) hid

theorem ValidTask.candidate {id : String} {c : AgentCandidate} (hc : t.candidate id = some c) :
    (t.candidates.find? fun c => c.nodeId == id) = some c := by
  rw [AgentTask.candidate] at hc
  have hid := List.find?_some hc
  have hmem : c ∈ t.candidates := List.mem_reverse.mp (List.mem_of_find?_eq_some hc)
  exact Table.find?_distinct h.candidateIds.2 hmem (beq_iff_eq.mp hid)

theorem ValidTask.cited {citations : List String}
    (hitems : ∀ id ∈ citations, (t.item id).isSome = true) :
    (∀ e ∈ citations.filterMap t.item, e ∈ t.evidence)
      ∧ (citations.filterMap t.item).map AgentEvidence.id = citations := by
  refine ⟨fun e he => ?_, ?_⟩
  · obtain ⟨id, -, hid⟩ := List.mem_filterMap.mp he
    exact (h.item.mp hid).1
  · induction citations with
    | nil => rfl
    | cons id rest ih =>
      obtain ⟨hid, hrest⟩ := List.forall_mem_cons.mp hitems
      obtain ⟨e, he⟩ := Option.isSome_iff_exists.mp hid
      rw [List.filterMap_cons_some he, List.map_cons, ih hrest, (h.item.mp he).2]

theorem ValidTask.refs (hchosen : ∀ e ∈ chosen, e ∈ t.evidence.map fun e => (e.id, e.source)) :
    (∀ id ∈ chosen.map Prod.fst, (t.item id).isSome = true)
      ∧ ((chosen.map Prod.fst).filterMap t.item).map AgentEvidence.source = chosen.map Prod.snd := by
  induction chosen with
  | nil => exact ⟨fun _ hid => absurd hid List.not_mem_nil, rfl⟩
  | cons x rest ih =>
    obtain ⟨hx, hrest⟩ := List.forall_mem_cons.mp hchosen
    obtain ⟨hitems, hrefs⟩ := ih hrest
    obtain ⟨e, he, rfl⟩ := List.mem_map.mp hx
    have hitem : t.item e.id = some e := h.item.mpr ⟨he, rfl⟩
    refine ⟨List.forall_mem_cons.mpr ⟨by rw [hitem]; rfl, hitems⟩, ?_⟩
    rw [List.map_cons, List.map_cons, List.filterMap_cons_some hitem, List.map_cons, hrefs]

end Valid

theorem withBasis_rebuilt {contentHash : String → Hash} {limits : BrokerLimits} {t : AgentTask}
    (hspans : limits.maxEvidenceSpans ≤ 12) (hvalid : ValidTask limits t) {raw : RawProposal}
    {basisHash : String} {p : AgentProposal}
    (h : validateResponseWithBasis contentHash t raw basisHash = .ok p) :
    ∃ citations, matchCitations t p = some citations
      ∧ validateResponseWithBasis contentHash t ⟨p.targetId, p.annotation, citations⟩ basisHash
        = .ok p := by
  obtain ⟨candidate, hcandidate, ⟨-, hnodup⟩, hitems, hsource, htarget, rfl⟩ :=
    validateResponseWithBasis_ok.mp h
  obtain ⟨hsupplied, hids⟩ := hvalid.cited hitems
  set chosen : List (String × EvidenceRef) :=
    (raw.citations.filterMap t.item).map fun e => (e.id, e.source) with hchosen
  have hfirst : chosen.map Prod.fst = raw.citations := by
    rw [hchosen, List.map_map]
    exact hids
  have hsecond : chosen.map Prod.snd = (raw.citations.filterMap t.item).map AgentEvidence.source := by
    rw [hchosen, List.map_map]
    rfl
  have hmem : ∀ e ∈ chosen, e ∈ t.evidence.map fun e => (e.id, e.source) := by
    intro e he
    obtain ⟨item, hitem, rfl⟩ := List.mem_map.mp he
    exact List.mem_map_of_mem (hsupplied item hitem)
  have hne : chosen ≠ [] := by
    intro hnil
    obtain ⟨id, -, hid⟩ := hsource
    rw [← hfirst, hnil] at hid
    exact absurd hid List.not_mem_nil
  have hlength : (t.evidence.map fun e => (e.id, e.source)).length ≤ 12 := by
    rw [List.length_map]
    exact hvalid.evidence.2.trans hspans
  have hsource' := hsource
  have htarget' := htarget
  rw [← hfirst] at hnodup hsource' htarget'
  -- the ids of the response are one assignment, so the search finds one
  obtain ⟨ids, hassigned⟩ := citationAssignment_complete hlength hmem hnodup hsource' htarget'
  rw [hsecond] at hassigned
  have hevidence : ((t.evidence.map fun e => (e.id, e.source)).map Prod.fst).Nodup := by
    rw [List.map_map]
    exact hvalid.evidenceIds.2
  -- what it finds cites the same items
  obtain ⟨found, hfound, hfoundIds, hfoundRefs, hdistinct, hsourceFound, htargetFound⟩ :=
    citationAssignment_sound hevidence hassigned
  obtain ⟨hfoundItems, hrefs⟩ := hvalid.refs hfound
  refine ⟨ids, ?_, validateResponseWithBasis_ok.mpr ⟨candidate, hcandidate, ⟨?_, hdistinct⟩, ?_,
    hsourceFound, htargetFound, ?_⟩⟩
  · rw [matchCitations]
    show (t.candidates.find? fun c => c.nodeId == raw.targetId).bind _ = _
    rw [hvalid.candidate hcandidate]
    exact hassigned
  · -- ids of valid evidence are not blank
    refine Bool.eq_false_iff.mpr fun hblank => ?_
    obtain ⟨id, hid, hblank⟩ := List.any_eq_true.mp hblank
    have hitem : (t.item id).isSome = true := hfoundItems id (hfoundIds ▸ hid)
    obtain ⟨e, he⟩ := Option.isSome_iff_exists.mp hitem
    obtain ⟨hmem, rfl⟩ := hvalid.item.mp he
    have hnot := List.any_eq_false.mp hvalid.evidenceIds.1 e.id (List.mem_map_of_mem hmem)
    exact hnot hblank
  · rw [hfoundIds]
    exact hfoundItems
  · show proposalFor contentHash t raw.targetId raw.annotation basisHash _ = proposalFor contentHash t
      raw.targetId raw.annotation basisHash _
    rw [hfoundIds, hrefs, ← hfoundRefs]

/-- What the broker accepts, the stage can check again: the citations found for the proposal of
a response make a response that is accepted as the same proposal. -/
theorem response_round_trip {contentHash : String → Hash} {limits : BrokerLimits} {t : AgentTask}
    (hspans : limits.maxEvidenceSpans ≤ 12) (hvalid : validateTask limits t = .ok ())
    {raw : RawProposal} {p : AgentProposal} (h : validateResponse contentHash t raw = .ok p) :
    ∃ citations, matchCitations t p = some citations
      ∧ validateResponse contentHash t ⟨p.targetId, p.annotation, citations⟩ = .ok p :=
  withBasis_rebuilt hspans (validateTask_ok.mp hvalid) h

namespace Sample

def noHash : String → Hash := fun _ =>
  ⟨"0000000000000000000000000000000000000000000000000000000000000000", by decide⟩

/-- One span of source, supplied under several ids. -/
def span : EvidenceRef := ⟨"r", "p", 0, 1, "c"⟩

def task (ids : List String) : AgentTask where
  actionId := "a"
  gapId := "g"
  sourceId := "s"
  edgeLabel := "CALLS"
  existingConfidence := .gap
  sourceEvidenceIds := ["1"]
  evidence := ids.map fun id => ⟨id, span, "x"⟩
  candidates := [⟨"t", "Service", "", ["2"]⟩]

def proposal (ids : List String) : AgentProposal :=
  proposalFor noHash (task ids) "t" "why" ((task ids).basisHash noHash) [span, span]

end Sample

/-- The target is cited first; the search finds the source first. -/
theorem response_round_trip_shared :
    validateResponse Sample.noHash (Sample.task ["1", "2", "3"]) ⟨"t", "why", ["2", "1"]⟩
        = .ok (Sample.proposal ["1", "2", "3"])
      ∧ ∃ citations, matchCitations (Sample.task ["1", "2", "3"]) (Sample.proposal ["1", "2", "3"])
          = some citations
        ∧ validateResponse Sample.noHash (Sample.task ["1", "2", "3"]) ⟨"t", "why", citations⟩
          = .ok (Sample.proposal ["1", "2", "3"]) := by
  have haccepted : validateResponse Sample.noHash (Sample.task ["1", "2", "3"])
      ⟨"t", "why", ["2", "1"]⟩ = .ok (Sample.proposal ["1", "2", "3"]) := by
    refine validateResponseWithBasis_ok.mpr ⟨⟨"t", "Service", "", ["2"]⟩, ?_⟩
    decide
  have hvalid : validateTask .standard (Sample.task ["1", "2", "3"]) = .ok () := by
    decide
  exact ⟨haccepted, response_round_trip (Nat.le_refl 12) hvalid haccepted⟩

/-- With thirteen items, more than any search covers, a response is accepted and no citations are
found for its proposal. -/
theorem response_round_trip_beyond :
    ¬ ∀ (contentHash : String → Hash) (t : AgentTask) (raw : RawProposal) (p : AgentProposal),
      validateResponse contentHash t raw = .ok p →
        ∃ citations, matchCitations t p = some citations
          ∧ validateResponse contentHash t ⟨p.targetId, p.annotation, citations⟩ = .ok p := by
  intro h
  have haccepted : validateResponse Sample.noHash
      (Sample.task ["1", "2", "3", "4", "5", "6", "7", "8", "9", "10", "11", "12", "13"])
      ⟨"t", "why", ["2", "1"]⟩
      = .ok (Sample.proposal ["1", "2", "3", "4", "5", "6", "7", "8", "9", "10", "11", "12", "13"]) := by
    refine validateResponseWithBasis_ok.mpr ⟨⟨"t", "Service", "", ["2"]⟩, ?_⟩
    decide
  obtain ⟨citations, hfound, -⟩ := h _ _ _ _ haccepted
  have hnone : matchCitations
      (Sample.task ["1", "2", "3", "4", "5", "6", "7", "8", "9", "10", "11", "12", "13"])
      (Sample.proposal ["1", "2", "3", "4", "5", "6", "7", "8", "9", "10", "11", "12", "13"])
      = none := by decide
  rw [hnone] at hfound
  exact absurd hfound (by simp)

end Agents

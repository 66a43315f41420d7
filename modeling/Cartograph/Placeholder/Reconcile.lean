/-
Placeholders of several closures for one endpoint (`reconcile_placeholders`).

Each adapter closes over its own endpoints, so the merged nodes can hold more than one placeholder
with an id.  One of them is kept, where the first of them was, and it is a proven boundary only if
all of them are that boundary.

* `reconcile_eq` — what becomes of a node, from the nodes with its id alone;
* `group_reconcile` — the nodes with an id, afterwards;
* `survivor_kind` — the kind that is kept;
* `placeholders_reconciled` — the whole.
-/
import Cartograph.Placeholder.EdgeOrder
import Cartograph.Properties

namespace Placeholder

open GraphStore Investigation Grouped

/-! ### Placeholders -/

def isPlaceholder (n : Node Json) : Bool := (get n.props "placeholder").bind asBool == some true

def nodeProvenance (n : Node Json) : Option Provenance :=
  (get n.props "prov").bind Provenance.fromValue

/-- `props["boundary"]`. -/
def boundary (n : Node Json) : Json := (get n.props "boundary").getD .null

/-- Whether a placeholder is a Gap: anything but a readable confirmed boundary is one. -/
def isGap (n : Node Json) : Bool :=
  !((nodeProvenance n).any fun prov => prov.confidenceTier == .confirmed)
    || !(asStr (boundary n) == some "external" || asStr (boundary n) == some "internal")

inductive Kind
  | gap
  | external
  | internal

def kindOf (n : Node Json) : Kind :=
  if isGap n = true then .gap
  else if asStr (boundary n) = some "internal" then .internal
  else .external

/-! ### Reconciliation -/

section Reconcile

variable (t : Texts)

/-- The Gap for placeholders whose boundaries disagree, under the first of them. -/
def disagreeing (n : Node Json) : Node Json :=
  mint t n.id n.label (.unresolved "references disagree on the boundary")
    (((nodeProvenance n).map Provenance.evidence).getD [])
    (((nodeProvenance n).map Provenance.extractorId).getD "")

/-- What the nodes with one id are replaced by, if they are. -/
def survivor : List (Node Json) → Option (Node Json)
  | [] => none
  | first :: rest =>
    if rest.isEmpty || !(first :: rest).all isPlaceholder then none
    else
      match (first :: rest).find? isGap with
      | some gap => some gap
      | none =>
        if (first :: rest).all fun n => boundary n == boundary first then some first
        else some (disagreeing t first)

/-- The nodes with their positions, by id.  The source goes through the groups in the order of
the ids; none of them touches a position of another. -/
def byId (nodes : List (Node Json)) : List (List (Node Json × ℕ)) :=
  (groups (fun n => n.1.id) (fun n => [n]) (fun held n => held ++ [n]) nodes.zipIdx).map Prod.snd

/-- `replace`: what is put at the first position of a group. -/
def replace (nodes : List (Node Json)) : List (ℕ × Node Json) :=
  (byId nodes).filterMap fun group =>
    (survivor t (group.map Prod.fst)).bind fun kept => group.head?.map fun first => (first.2, kept)

/-- `drop`: the other positions of these groups. -/
def dropped (nodes : List (Node Json)) : List ℕ :=
  (byId nodes).flatMap fun group =>
    if (survivor t (group.map Prod.fst)).isSome then group.tail.map Prod.snd else []

def reconcilePlaceholders (nodes : List (Node Json)) : List (Node Json) :=
  if (replace t nodes).isEmpty then nodes
  else nodes.zipIdx.filterMap fun n =>
    if (dropped t nodes).contains n.2 then none
    else some ((((replace t nodes).find? fun r => r.1 == n.2).map Prod.snd).getD n.1)

end Reconcile

variable {t : Texts} {nodes : List (Node Json)}

/-! ### The nodes with one id -/

/-- The nodes with an id, and where they are. -/
def placed (nodes : List (Node Json)) (id : String) : List (Node Json × ℕ) :=
  nodes.zipIdx.filter fun n => decide (n.1.id = id)

/-- The nodes with an id. -/
def withId (nodes : List (Node Json)) (id : String) : List (Node Json) :=
  nodes.filter fun n => decide (n.id = id)

theorem map_placed (id : String) : (placed nodes id).map Prod.fst = withId nodes id := by
  have h := List.filter_map (f := Prod.fst) (p := fun n : Node Json => decide (n.id = id))
    (l := nodes.zipIdx)
  rw [List.zipIdx_map_fst] at h
  exact h.symm

variable {id : String} {n : Node Json × ℕ} {group : List (Node Json)} {kept : Node Json}

theorem mem_placed :
    n ∈ placed nodes id ↔ n ∈ nodes.zipIdx ∧ n.1.id = id := by
  rw [placed, List.mem_filter, decide_eq_true_eq]

theorem mem_withId {n : Node Json} : n ∈ withId nodes id ↔ n ∈ nodes ∧ n.id = id := by
  rw [withId, List.mem_filter, decide_eq_true_eq]

theorem placed_sorted (nodes : List (Node Json)) (id : String) :
    (placed nodes id).Pairwise fun a b => a.2 < b.2 := by
  have hall : nodes.zipIdx.Pairwise fun a b => a.2 < b.2 := by
    have h : (List.range' 0 nodes.length).Pairwise (· < ·) := List.pairwise_lt_range' _
    rw [← List.zipIdx_map_snd, List.pairwise_map] at h
    exact h
  exact hall.sublist List.filter_sublist

theorem zipIdx_inj {a b : Node Json × ℕ} (ha : a ∈ nodes.zipIdx) (hb : b ∈ nodes.zipIdx)
    (h : a.2 = b.2) : a = b := by
  have ha' := List.mem_zipIdx_iff_getElem?.mp ha
  have hb' := List.mem_zipIdx_iff_getElem?.mp hb
  rw [h, hb'] at ha'
  exact Prod.ext (Option.some.inj ha').symm h

theorem foldl_append (held rest : List (Node Json × ℕ)) :
    rest.foldl (fun held n => held ++ [n]) held = held ++ rest := by
  induction rest generalizing held with
  | nil => exact (List.append_nil held).symm
  | cons n rest ih => rw [List.foldl_cons, ih, List.append_assoc, List.singleton_append]

theorem mem_byId {group : List (Node Json × ℕ)} :
    group ∈ byId nodes ↔ group ≠ [] ∧ ∃ id, group = placed nodes id := by
  rw [byId, List.mem_map]
  constructor
  · rintro ⟨⟨id, group⟩, hmem, rfl⟩
    obtain ⟨first, rest, hfilter, hfold⟩ := mem_groups.mp hmem
    rw [foldl_append] at hfold
    refine ⟨?_, id, hfold.trans hfilter.symm⟩
    rw [show group = _ from hfold]
    exact List.cons_ne_nil _ _
  · rintro ⟨hne, id, rfl⟩
    obtain ⟨first, rest, hfilter⟩ := List.exists_cons_of_ne_nil hne
    refine ⟨(id, placed nodes id), mem_groups.mpr ⟨first, rest, hfilter, ?_⟩, rfl⟩
    rw [foldl_append]
    exact hfilter

theorem mem_replace {r : ℕ × Node Json} : r ∈ replace t nodes ↔
    ∃ id, survivor t (withId nodes id) = some r.2
      ∧ ((placed nodes id).head?.map Prod.snd) = some r.1 := by
  rw [replace, List.mem_filterMap]
  constructor
  · rintro ⟨group, hgroup, heq⟩
    obtain ⟨-, id, rfl⟩ := mem_byId.mp hgroup
    obtain ⟨kept, hkept, heq⟩ := Option.bind_eq_some_iff.mp heq
    obtain ⟨first, hfirst, rfl⟩ := Option.map_eq_some_iff.mp heq
    rw [map_placed] at hkept
    exact ⟨id, hkept, by rw [hfirst]; rfl⟩
  · rintro ⟨id, hkept, hfirst⟩
    obtain ⟨first, hhead, heq⟩ := Option.map_eq_some_iff.mp hfirst
    refine ⟨placed nodes id, mem_byId.mpr ⟨?_, id, rfl⟩, ?_⟩
    · intro hnil
      rw [hnil] at hhead
      cases hhead
    · rw [map_placed, hkept, hhead]
      exact congrArg some (Prod.ext heq rfl)

theorem mem_dropped {i : ℕ} : i ∈ dropped t nodes ↔
    ∃ id, (survivor t (withId nodes id)).isSome = true
      ∧ i ∈ (placed nodes id).tail.map Prod.snd := by
  rw [dropped, List.mem_flatMap]
  constructor
  · rintro ⟨group, hgroup, hi⟩
    obtain ⟨-, id, rfl⟩ := mem_byId.mp hgroup
    rw [map_placed] at hi
    split_ifs at hi with hkept
    · exact ⟨id, hkept, hi⟩
    · exact absurd hi List.not_mem_nil
  · rintro ⟨id, hkept, hi⟩
    refine ⟨placed nodes id, mem_byId.mpr ⟨?_, id, rfl⟩, ?_⟩
    · intro hnil
      rw [hnil] at hi
      exact List.not_mem_nil hi
    · rw [map_placed, if_pos hkept]
      exact hi

/-- What becomes of a node. -/
def fate (t : Texts) (nodes : List (Node Json)) (n : Node Json × ℕ) : Option (Node Json) :=
  match survivor t (withId nodes n.1.id) with
  | none => some n.1
  | some kept => if (placed nodes n.1.id).head?.map Prod.snd = some n.2 then some kept else none

theorem id_of_position (hn : n ∈ nodes.zipIdx) (hi : n.2 ∈ (placed nodes id).map Prod.snd) :
    id = n.1.id := by
  obtain ⟨m, hm, heq⟩ := List.mem_map.mp hi
  obtain ⟨hmem, rfl⟩ := mem_placed.mp hm
  rw [zipIdx_inj hmem hn heq]

theorem head_mem {i : ℕ} (h : (placed nodes id).head?.map Prod.snd = some i) :
    i ∈ (placed nodes id).map Prod.snd := by
  obtain ⟨first, hfirst, rfl⟩ := Option.map_eq_some_iff.mp h
  exact List.mem_map_of_mem (List.mem_of_mem_head? hfirst)

theorem replaced_iff {n : Node Json × ℕ} (hn : n ∈ nodes.zipIdx) {kept : Node Json} :
    (((replace t nodes).find? fun r => r.1 == n.2).map Prod.snd) = some kept ↔
      survivor t (withId nodes n.1.id) = some kept
        ∧ (placed nodes n.1.id).head?.map Prod.snd = some n.2 := by
  have hmem : ∀ r ∈ replace t nodes, r.1 = n.2 →
      survivor t (withId nodes n.1.id) = some r.2
        ∧ (placed nodes n.1.id).head?.map Prod.snd = some n.2 := by
    intro r hr heq
    obtain ⟨id, hkept, hfirst⟩ := mem_replace.mp hr
    rw [heq] at hfirst
    obtain rfl := id_of_position hn (head_mem hfirst)
    exact ⟨hkept, hfirst⟩
  constructor
  · intro hfind
    obtain ⟨r, hr, rfl⟩ := Option.map_eq_some_iff.mp hfind
    have hat : (r.1 == n.2) = true := List.find?_some (p := fun r : ℕ × Node Json => r.1 == n.2) hr
    exact hmem r (List.mem_of_find?_eq_some hr) (beq_iff_eq.mp hat)
  · rintro ⟨hkept, hfirst⟩
    cases hfind : (replace t nodes).find? fun r => r.1 == n.2 with
    | none =>
      have hr : (n.2, kept) ∈ replace t nodes := mem_replace.mpr ⟨n.1.id, hkept, hfirst⟩
      exact absurd (beq_self_eq_true n.2) (List.find?_eq_none.mp hfind _ hr)
    | some r =>
      have hat : (r.1 == n.2) = true := List.find?_some (p := fun r : ℕ × Node Json => r.1 == n.2) hfind
      obtain ⟨hr, -⟩ := hmem r (List.mem_of_find?_eq_some hfind) (beq_iff_eq.mp hat)
      rw [Option.map_some, Option.some_inj]
      exact Option.some.inj (hr.symm.trans hkept)

theorem dropped_iff (hn : n ∈ nodes.zipIdx) : n.2 ∈ dropped t nodes ↔
    (survivor t (withId nodes n.1.id)).isSome = true
      ∧ (placed nodes n.1.id).head?.map Prod.snd ≠ some n.2 := by
  rw [mem_dropped]
  constructor
  · rintro ⟨id, hkept, hi⟩
    have hin : n.2 ∈ (placed nodes id).map Prod.snd := by
      obtain ⟨m, hm, heq⟩ := List.mem_map.mp hi
      exact List.mem_map.mpr ⟨m, List.mem_of_mem_tail hm, heq⟩
    obtain rfl := id_of_position hn hin
    refine ⟨hkept, fun hfirst => ?_⟩
    have hsorted := placed_sorted nodes n.1.id
    cases hplaced : placed nodes n.1.id with
    | nil =>
      rw [hplaced] at hi
      exact List.not_mem_nil hi
    | cons first rest =>
      rw [hplaced] at hi hfirst hsorted
      obtain ⟨m, hm, heq⟩ := List.mem_map.mp hi
      have hlt := (List.pairwise_cons.mp hsorted).1 m hm
      have hhead : first.2 = n.2 := Option.some.inj hfirst
      omega
  · rintro ⟨hkept, hnot⟩
    refine ⟨n.1.id, hkept, ?_⟩
    have hin : n ∈ placed nodes n.1.id := mem_placed.mpr ⟨hn, rfl⟩
    cases hplaced : placed nodes n.1.id with
    | nil =>
      rw [hplaced] at hin
      exact absurd hin List.not_mem_nil
    | cons first rest =>
      rw [hplaced] at hin hnot
      rcases List.mem_cons.mp hin with rfl | hin
      · exact absurd rfl hnot
      · exact List.mem_map_of_mem hin

/-- **A node and its group.**  What becomes of a node depends on the nodes with its id. -/
theorem reconcile_eq (t : Texts) (nodes : List (Node Json)) :
    reconcilePlaceholders t nodes = nodes.zipIdx.filterMap (fate t nodes) := by
  unfold reconcilePlaceholders
  split_ifs with hempty
  · -- no group has a survivor
    have hnone : ∀ n ∈ nodes.zipIdx, fate t nodes n = some n.1 := by
      intro n hn
      unfold fate
      cases hkept : survivor t (withId nodes n.1.id) with
      | none => rfl
      | some kept =>
        have hin : n ∈ placed nodes n.1.id := mem_placed.mpr ⟨hn, rfl⟩
        obtain ⟨first, rest, hplaced⟩ := List.exists_cons_of_ne_nil (List.ne_nil_of_mem hin)
        have hr : (first.2, kept) ∈ replace t nodes :=
          mem_replace.mpr ⟨n.1.id, hkept, by rw [hplaced]; rfl⟩
        rw [List.isEmpty_iff.mp hempty] at hr
        exact absurd hr List.not_mem_nil
    rw [List.filterMap_congr hnone]
    rw [show (fun n : Node Json × ℕ => some n.1) = some ∘ Prod.fst from rfl, List.filterMap_eq_map,
      List.zipIdx_map_fst]
  · refine List.filterMap_congr fun n hn => ?_
    have hreplaced := fun kept => @replaced_iff t nodes n hn kept
    unfold fate
    by_cases hdrop : n.2 ∈ dropped t nodes
    · obtain ⟨hkept, hnot⟩ := (dropped_iff hn).mp hdrop
      obtain ⟨kept, hkept⟩ := Option.isSome_iff_exists.mp hkept
      rw [if_pos (List.contains_iff_mem.mpr hdrop), hkept]
      exact (if_neg hnot).symm
    · rw [if_neg fun h => hdrop (List.contains_iff_mem.mp h)]
      cases hkept : survivor t (withId nodes n.1.id) with
      | none =>
        -- a group without a survivor replaces nothing
        have hstay : ((replace t nodes).find? fun r => r.1 == n.2).map Prod.snd = none := by
          refine Option.eq_none_iff_forall_ne_some.mpr fun kept heq => ?_
          rw [((hreplaced kept).mp heq).1] at hkept
          cases hkept
        rw [hstay]
        rfl
      | some kept =>
        -- the survivor takes the first place of its group
        have hfirst : (placed nodes n.1.id).head?.map Prod.snd = some n.2 := by
          by_contra hnot
          exact hdrop ((dropped_iff hn).mpr ⟨by rw [hkept]; rfl, hnot⟩)
        rw [(hreplaced kept).mpr ⟨hkept, hfirst⟩]
        exact (if_pos hfirst).symm

/-! ### The survivor -/

theorem disagreeing_placeholder (n : Node Json) : isPlaceholder (disagreeing t n) = true := rfl

theorem disagreeing_gap (n : Node Json) : isGap (disagreeing t n) = true := by
  rw [isGap, Bool.or_eq_true]
  right
  rfl

theorem survivor_some (h : survivor t group = some kept) : ∃ first rest, group = first :: rest
      ∧ (∀ n ∈ group, isPlaceholder n = true)
      ∧ ((kept ∈ group ∧ isGap kept = true)
        ∨ ((∀ n ∈ group, isGap n = false)
          ∧ (((∀ n ∈ group, (boundary n == boundary first) = true) ∧ kept = first)
            ∨ ((∃ n ∈ group, (boundary n == boundary first) = false)
              ∧ kept = disagreeing t first)))) := by
  cases group with
  | nil => cases h
  | cons first rest =>
    refine ⟨first, rest, rfl, ?_⟩
    rw [survivor] at h
    by_cases hsingle : (rest.isEmpty || !(first :: rest).all isPlaceholder) = true
    · rw [if_pos hsingle] at h
      cases h
    · rw [if_neg hsingle] at h
      simp only [Bool.or_eq_true, not_or, Bool.not_eq_true', Bool.not_eq_false,
        List.all_eq_true] at hsingle
      refine ⟨hsingle.2, ?_⟩
      cases hgap : (first :: rest).find? isGap with
      | some gap =>
        rw [hgap] at h
        obtain rfl := Option.some.inj h
        exact .inl ⟨List.mem_of_find?_eq_some hgap, List.find?_some hgap⟩
      | none =>
        rw [hgap] at h
        have hnone : ∀ n ∈ first :: rest, isGap n = false := fun n hn =>
          Bool.not_eq_true _ ▸ List.find?_eq_none.mp hgap n hn
        refine .inr ⟨hnone, ?_⟩
        by_cases hagree : ((first :: rest).all fun n => boundary n == boundary first) = true
        · obtain rfl := Option.some.inj ((if_pos hagree).symm.trans h)
          exact .inl ⟨List.all_eq_true.mp hagree, rfl⟩
        · obtain rfl := Option.some.inj ((if_neg hagree).symm.trans h)
          obtain ⟨n, hn, hdiffers⟩ := List.all_eq_false.mp (Bool.eq_false_iff.mpr hagree)
          exact .inr ⟨⟨n, hn, Bool.eq_false_iff.mpr hdiffers⟩, rfl⟩

theorem survivor_none (h : survivor t group = none) :
    group.length ≤ 1 ∨ ∃ n ∈ group, isPlaceholder n = false := by
  cases group with
  | nil => exact .inl (Nat.zero_le 1)
  | cons first rest =>
    rw [survivor] at h
    by_cases hsingle : (rest.isEmpty || !(first :: rest).all isPlaceholder) = true
    · rcases Bool.or_eq_true_iff.mp hsingle with hempty | hdeclared
      · rw [List.isEmpty_iff.mp hempty]
        exact .inl (le_refl 1)
      · obtain ⟨n, hn, hnot⟩ := List.all_eq_false.mp ((Bool.not_eq_true' _).mp hdeclared)
        exact .inr ⟨n, hn, Bool.eq_false_iff.mpr hnot⟩
    · rw [if_neg hsingle] at h
      cases hgap : (first :: rest).find? isGap with
      | some gap =>
        rw [hgap] at h
        cases h
      | none =>
        rw [hgap] at h
        by_cases hagree : ((first :: rest).all fun n => boundary n == boundary first) = true
        · cases (if_pos hagree).symm.trans h
        · cases (if_neg hagree).symm.trans h

theorem survivor_of_short (h : group.length ≤ 1) :
    survivor t group = none := by
  cases group with
  | nil => rfl
  | cons first rest =>
    obtain rfl : rest = [] := List.eq_nil_of_length_eq_zero (by rw [List.length_cons] at h; omega)
    rfl

theorem survivor_of_declared (h : ∃ n ∈ group, isPlaceholder n = false) :
    survivor t group = none := by
  refine Option.eq_none_iff_forall_ne_some.mpr fun kept hkept => ?_
  obtain ⟨-, -, -, hall, -⟩ := survivor_some hkept
  obtain ⟨n, hn, hnot⟩ := h
  rw [hall n hn] at hnot
  cases hnot

theorem survivor_id (h : survivor t (withId nodes id) = some kept) : kept.id = id := by
  obtain ⟨first, rest, hgroup, -, hcases⟩ := survivor_some h
  have hids : ∀ n ∈ withId nodes id, n.id = id := fun n hn => (mem_withId.mp hn).2
  have hfirst : first.id = id := hids first (hgroup ▸ List.mem_cons_self)
  rcases hcases with ⟨hmem, -⟩ | ⟨-, ⟨-, rfl⟩ | ⟨-, rfl⟩⟩
  · exact hids kept hmem
  · exact hfirst
  · exact hfirst

theorem survivor_placeholder (h : survivor t group = some kept) : isPlaceholder kept = true := by
  obtain ⟨first, rest, rfl, hall, hcases⟩ := survivor_some h
  rcases hcases with ⟨hmem, -⟩ | ⟨-, ⟨-, rfl⟩ | ⟨-, rfl⟩⟩
  · exact hall kept hmem
  · exact hall kept List.mem_cons_self
  · exact disagreeing_placeholder first

theorem boundary_of_not_gap {n : Node Json} (h : isGap n = false) :
    boundary n = .str "external" ∨ boundary n = .str "internal" := by
  have htext : ∀ {j : Json} {text : String}, (asStr j == some text) = true → j = .str text := by
    intro j text hj
    cases j with
    | str s => rw [Option.some.inj (beq_iff_eq.mp hj)]
    | _ => cases beq_iff_eq.mp hj
  have hkind := (Bool.or_eq_false_iff.mp h).2
  rw [Bool.not_eq_false', Bool.or_eq_true] at hkind
  exact hkind.imp htext htext

theorem str_beq_iff (a b : String) :
    (Json.str a == Json.str b) = true ↔ Json.str a = Json.str b := by
  show valueEq (.str a) (.str b) = true ↔ _
  rw [valueEq, beq_iff_eq]
  exact ⟨congrArg Json.str, Json.str.inj⟩

theorem boundary_beq_iff {n m : Node Json} (hn : isGap n = false) (hm : isGap m = false) :
    (boundary n == boundary m) = true ↔ boundary n = boundary m := by
  rcases boundary_of_not_gap hn with h | h <;> rcases boundary_of_not_gap hm with h' | h' <;>
    rw [h, h'] <;> exact str_beq_iff _ _

/-- **The kind that is kept**: a Gap exactly if one of the group is a Gap or two boundaries
differ, and else the boundary of all. -/
theorem survivor_kind (h : survivor t group = some kept) :
    (isGap kept = true ↔ (∃ n ∈ group, isGap n = true)
      ∨ ∃ n ∈ group, ∃ m ∈ group, boundary n ≠ boundary m)
    ∧ (isGap kept = false → kept ∈ group) := by
  obtain ⟨first, rest, rfl, -, hcases⟩ := survivor_some h
  rcases hcases with ⟨hmem, hgap⟩ | ⟨hnone, hcases⟩
  · refine ⟨iff_of_true hgap (.inl ⟨kept, hmem, hgap⟩), fun hnot => ?_⟩
    rw [hgap] at hnot
    cases hnot
  have hfirst : isGap first = false := hnone first List.mem_cons_self
  rcases hcases with ⟨hagree, rfl⟩ | ⟨⟨n, hn, hdiffers⟩, rfl⟩
  · refine ⟨iff_of_false (Bool.eq_false_iff.mp hfirst) ?_, fun _ => List.mem_cons_self⟩
    rintro (⟨n, hn, hgap⟩ | ⟨n, hn, m, hm, hne⟩)
    · exact Bool.eq_false_iff.mp (hnone n hn) hgap
    · have hn' := (boundary_beq_iff (hnone n hn) hfirst).mp (hagree n hn)
      have hm' := (boundary_beq_iff (hnone m hm) hfirst).mp (hagree m hm)
      exact hne (hn'.trans hm'.symm)
  · refine ⟨iff_of_true (disagreeing_gap first) (.inr ⟨n, hn, first, List.mem_cons_self, ?_⟩), ?_⟩
    · intro heq
      exact Bool.eq_false_iff.mp hdiffers ((boundary_beq_iff (hnone n hn) hfirst).mpr heq)
    · intro hnot
      rw [disagreeing_gap] at hnot
      cases hnot

/-! ### Afterwards -/

theorem fate_id {n' : Node Json} (h : fate t nodes n = some n') :
    n'.id = n.1.id := by
  unfold fate at h
  cases hkept : survivor t (withId nodes n.1.id) with
  | none =>
    rw [hkept] at h
    rw [← Option.some.inj h]
  | some kept =>
    rw [hkept] at h
    obtain ⟨-, heq⟩ := Option.ite_none_right_eq_some.mp h
    rw [← Option.some.inj heq]
    exact survivor_id hkept

/-- **The nodes with one id, afterwards.** -/
theorem group_reconcile (t : Texts) (nodes : List (Node Json)) (id : String) :
    withId (reconcilePlaceholders t nodes) id = (survivor t (withId nodes id)).elim
      (withId nodes id) fun kept => [kept] := by
  have hids : ∀ n ∈ nodes.zipIdx, (fate t nodes n).filter (fun n' => decide (n'.id = id))
      = if decide (n.1.id = id) = true then fate t nodes n else none := by
    intro n _
    cases hfate : fate t nodes n with
    | none => rw [Option.filter_none, ite_self]
    | some n' =>
      rw [Option.filter_some, fate_id hfate]
  have hstep : withId (reconcilePlaceholders t nodes) id
      = (placed nodes id).filterMap (fate t nodes) := by
    rw [reconcile_eq, withId, List.filter_filterMap, List.filterMap_congr hids,
      ← List.filterMap_filter, placed]
  rw [hstep]
  cases hkept : survivor t (withId nodes id) with
  | none =>
    have hstay : ∀ n ∈ placed nodes id, fate t nodes n = (some ∘ Prod.fst) n := by
      intro n hn
      rw [fate, (mem_placed.mp hn).2, hkept]
      rfl
    rw [List.filterMap_congr hstay, List.filterMap_eq_map, map_placed]
    rfl
  | some kept =>
    have hfate : ∀ n ∈ placed nodes id, fate t nodes n
        = if (placed nodes id).head?.map Prod.snd = some n.2 then some kept else none := by
      intro n hn
      rw [fate, (mem_placed.mp hn).2, hkept]
    have hsorted := placed_sorted nodes id
    cases hplaced : placed nodes id with
    | nil =>
      rw [← map_placed, hplaced] at hkept
      cases hkept
    | cons first rest =>
      rw [hplaced] at hfate hsorted
      -- only the first position is the first
      have hrest : ∀ n ∈ rest, fate t nodes n = none := by
        intro n hn
        have hlt := (List.pairwise_cons.mp hsorted).1 n hn
        rw [hfate n (List.mem_cons_of_mem _ hn), if_neg]
        intro heq
        have hhead : first.2 = n.2 := Option.some.inj heq
        omega
      rw [List.filterMap_cons_some ((hfate first List.mem_cons_self).trans (if_pos rfl)),
        List.filterMap_eq_nil_iff.mpr hrest]
      rfl

/-- An id with a node that is no placeholder. -/
def Declared (nodes : List (Node Json)) (id : String) : Prop :=
  ∃ n ∈ nodes, n.id = id ∧ isPlaceholder n = false

theorem declared_iff :
    Declared nodes id ↔ ∃ n ∈ withId nodes id, isPlaceholder n = false := by
  refine exists_congr fun n => ?_
  rw [mem_withId, and_assoc]

theorem one_left (hid : id ∈ nodes.map Node.id) (hnot : ¬Declared nodes id) :
    ∃ n, withId (reconcilePlaceholders t nodes) id = [n]
      ∧ (withId nodes id = [n] ∨ survivor t (withId nodes id) = some n) := by
  rw [group_reconcile]
  cases hkept : survivor t (withId nodes id) with
  | some kept => exact ⟨kept, rfl, .inr rfl⟩
  | none =>
    rcases survivor_none hkept with hshort | hdeclared
    · obtain ⟨n, hn, hin⟩ := List.mem_map.mp hid
      have hmem : n ∈ withId nodes id := mem_withId.mpr ⟨hn, hin⟩
      obtain ⟨first, rest, hgroup⟩ := List.exists_cons_of_ne_nil (List.ne_nil_of_mem hmem)
      rw [hgroup, List.length_cons] at hshort
      obtain rfl : rest = [] := List.eq_nil_of_length_eq_zero (by omega)
      exact ⟨first, hgroup, .inl hgroup⟩
    · exact absurd (declared_iff.mpr hdeclared) hnot

theorem left_kind {n : Node Json} (hall : ∀ m ∈ group, isPlaceholder m = true)
    (h : group = [n] ∨ survivor t group = some n) :
    isPlaceholder n = true
      ∧ (isGap n = true ↔ (∃ m ∈ group, isGap m = true)
        ∨ ∃ m ∈ group, ∃ m' ∈ group, boundary m ≠ boundary m')
      ∧ (isGap n = false → n ∈ group) := by
  rcases h with rfl | hkept
  · refine ⟨hall n List.mem_cons_self, ?_, fun _ => List.mem_cons_self⟩
    simp only [List.mem_singleton, exists_eq_left, ne_eq, not_true_eq_false, or_false]
  · exact ⟨survivor_placeholder hkept, survivor_kind hkept⟩

theorem kindOf_eq {n n' : Node Json} (hgap : isGap n' = true ↔ isGap n = true)
    (hboundary : isGap n = false → boundary n' = boundary n) : kindOf n' = kindOf n := by
  unfold kindOf
  by_cases h : isGap n = true
  · rw [if_pos h, if_pos (hgap.mpr h)]
  · rw [if_neg h, if_neg fun h' => h (hgap.mp h'), hboundary (Bool.eq_false_iff.mpr h)]

theorem forall₂_fates (l : List (Node Json × ℕ)) :
    List.Forall₂ (fun n n' => fate t nodes n = some n')
      (l.filter fun n => (fate t nodes n).isSome) (l.filterMap (fate t nodes)) := by
  induction l with
  | nil => exact .nil
  | cons n rest ih =>
    cases hfate : fate t nodes n with
    | none =>
      rw [List.filterMap_cons_none hfate, List.filter_cons_of_neg (by rw [hfate]; decide)]
      exact ih
    | some n' =>
      rw [List.filterMap_cons_some hfate, List.filter_cons_of_pos (by rw [hfate]; rfl)]
      exact .cons hfate ih

theorem fate_isSome (hn : n ∈ nodes.zipIdx) :
    (fate t nodes n).isSome = true ↔ Declared nodes n.1.id
      ∨ ∀ m ∈ nodes.zipIdx, m.1.id = n.1.id → n.2 ≤ m.2 := by
  have hin : n ∈ placed nodes n.1.id := mem_placed.mpr ⟨hn, rfl⟩
  have hfirst : (placed nodes n.1.id).head?.map Prod.snd = some n.2
      ↔ ∀ m ∈ nodes.zipIdx, m.1.id = n.1.id → n.2 ≤ m.2 := by
    have hsorted := placed_sorted nodes n.1.id
    cases hplaced : placed nodes n.1.id with
    | nil =>
      rw [hplaced] at hin
      exact absurd hin List.not_mem_nil
    | cons first rest =>
      rw [hplaced] at hsorted
      -- positions grow, so the head has the first
      have hle : ∀ m ∈ placed nodes n.1.id, first.2 ≤ m.2 := by
        intro m hm
        rw [hplaced] at hm
        rcases List.mem_cons.mp hm with rfl | hm
        · exact le_refl _
        · exact ((List.pairwise_cons.mp hsorted).1 m hm).le
      have hfirst : first ∈ placed nodes n.1.id := hplaced ▸ List.mem_cons_self
      rw [List.head?_cons, Option.map_some, Option.some_inj]
      constructor
      · intro heq m hm hid
        exact heq ▸ hle m (mem_placed.mpr ⟨hm, hid⟩)
      · intro hleast
        obtain ⟨hmem, hid⟩ := mem_placed.mp hfirst
        exact le_antisymm (hle n hin) (hleast first hmem hid)
  rw [← hfirst]
  unfold fate
  cases hkept : survivor t (withId nodes n.1.id) with
  | none =>
    refine iff_of_true rfl ?_
    -- the only node of its id, or a declared one
    rcases survivor_none hkept with hshort | hdeclared
    · right
      rw [← map_placed, List.length_map] at hshort
      obtain ⟨m, hm⟩ := List.length_eq_one_iff.mp
        (le_antisymm hshort (List.length_pos_of_mem hin))
      rw [hm] at hin ⊢
      rw [List.mem_singleton.mp hin]
      rfl
    · exact .inl (declared_iff.mpr hdeclared)
  | some kept =>
    have hnot : ¬Declared nodes n.1.id := by
      intro hdeclared
      rw [survivor_of_declared (declared_iff.mp hdeclared)] at hkept
      cases hkept
    rw [or_iff_right hnot]
    by_cases hhead : (placed nodes n.1.id).head?.map Prod.snd = some n.2
    · exact iff_of_true (by simp only [if_pos hhead]; rfl) hhead
    · exact iff_of_false (by simp only [if_neg hhead]; decide) hhead

theorem reconcile_idempotent (t : Texts) (nodes : List (Node Json)) :
    reconcilePlaceholders t (reconcilePlaceholders t nodes) = reconcilePlaceholders t nodes := by
  have hnone : ∀ id, survivor t (withId (reconcilePlaceholders t nodes) id) = none := by
    intro id
    rw [group_reconcile]
    cases hkept : survivor t (withId nodes id) with
    | none => exact hkept
    | some kept => exact survivor_of_short (le_refl 1)
  have hstay : ∀ n ∈ (reconcilePlaceholders t nodes).zipIdx,
      fate t (reconcilePlaceholders t nodes) n = (some ∘ Prod.fst) n := by
    intro n _
    rw [fate, hnone]
    rfl
  rw [reconcile_eq t (reconcilePlaceholders t nodes), List.filterMap_congr hstay,
    List.filterMap_eq_map, List.zipIdx_map_fst]

/-- **Reconciled placeholders.**  The nodes that are left are in their order, at the first
position of an id or under an id with a node that is no placeholder, and the latter are as they
were; for an id that only has placeholders one of them is left, a Gap exactly if one was a Gap or
two boundaries differed.  Reconciling once is enough, and the kind that is left is the same in
every order of the nodes. -/
theorem placeholders_reconciled (t : Texts) (nodes : List (Node Json)) :
    (∃ kept : List (Node Json × ℕ), kept.Sublist nodes.zipIdx
      ∧ (∀ n ∈ nodes.zipIdx, n ∈ kept ↔ Declared nodes n.1.id
        ∨ ∀ m ∈ nodes.zipIdx, m.1.id = n.1.id → n.2 ≤ m.2)
      ∧ List.Forall₂ (fun n n' => n'.id = n.1.id ∧ (Declared nodes n.1.id → n' = n.1))
          kept (reconcilePlaceholders t nodes))
    ∧ (∀ id ∈ nodes.map Node.id, ¬Declared nodes id →
      ∃ n, withId (reconcilePlaceholders t nodes) id = [n] ∧ isPlaceholder n = true
        ∧ (isGap n = true ↔ (∃ m ∈ withId nodes id, isGap m = true)
          ∨ ∃ m ∈ withId nodes id, ∃ m' ∈ withId nodes id, boundary m ≠ boundary m'))
    ∧ reconcilePlaceholders t (reconcilePlaceholders t nodes) = reconcilePlaceholders t nodes
    ∧ ∀ nodes', nodes.Perm nodes' → ∀ n ∈ reconcilePlaceholders t nodes,
      ∀ n' ∈ reconcilePlaceholders t nodes', n'.id = n.id → ¬Declared nodes n.id →
        kindOf n' = kindOf n := by
  have hplaceholders : ∀ {nodes : List (Node Json)} {id : String}, ¬Declared nodes id →
      ∀ m ∈ withId nodes id, isPlaceholder m = true := by
    intro nodes id hnot m hm
    by_contra hdeclared
    exact hnot (declared_iff.mpr ⟨m, hm, Bool.eq_false_iff.mpr hdeclared⟩)
  refine ⟨⟨nodes.zipIdx.filter fun n => (fate t nodes n).isSome, List.filter_sublist,
    fun n hn => ?_, ?_⟩, fun id hid hnot => ?_, reconcile_idempotent t nodes, ?_⟩
  · rw [List.mem_filter, and_iff_right hn]
    exact fate_isSome hn
  · rw [reconcile_eq]
    refine (forall₂_fates _).imp fun n n' hfate => ⟨fate_id hfate, fun hdeclared => ?_⟩
    rw [fate, survivor_of_declared (declared_iff.mp hdeclared)] at hfate
    exact (Option.some.inj hfate).symm
  · obtain ⟨n, hleft, hcases⟩ := one_left (t := t) hid hnot
    obtain ⟨hplaceholder, hkind, -⟩ := left_kind (hplaceholders hnot) hcases
    exact ⟨n, hleft, hplaceholder, hkind⟩
  · intro nodes' hperm n hn n' hn' hid hnot
    have hids : ∀ {nodes : List (Node Json)} {n}, n ∈ reconcilePlaceholders t nodes →
        n.id ∈ nodes.map Node.id := by
      intro nodes n hn
      rw [reconcile_eq] at hn
      obtain ⟨m, hm, hfate⟩ := List.mem_filterMap.mp hn
      rw [fate_id hfate]
      exact List.mem_map_of_mem (List.fst_mem_of_mem_zipIdx hm)
    have hnot' : ¬Declared nodes' n'.id := by
      rintro ⟨m, hm, hmid, hdeclared⟩
      exact hnot ⟨m, hperm.mem_iff.mpr hm, hmid.trans hid, hdeclared⟩
    have hmem : ∀ m, m ∈ withId nodes' n'.id ↔ m ∈ withId nodes n.id := by
      intro m
      rw [mem_withId, mem_withId, hperm.mem_iff, hid]
    -- what is left of an id is its only node or the survivor of several
    have hown : ∀ {nodes : List (Node Json)} {n}, n ∈ reconcilePlaceholders t nodes →
        ¬Declared nodes n.id →
        withId nodes n.id = [n] ∨ survivor t (withId nodes n.id) = some n := by
      intro nodes n hn hnot
      obtain ⟨left, hleft, hcases⟩ := one_left (t := t) (hids hn) hnot
      have hin : n ∈ withId (reconcilePlaceholders t nodes) n.id := mem_withId.mpr ⟨hn, rfl⟩
      rw [hleft] at hin
      rwa [List.mem_singleton.mp hin] at hcases ⊢
    -- both orders have the same nodes of the id, so the same kinds
    obtain ⟨-, hkind, hgroup⟩ := left_kind (hplaceholders hnot) (hown hn hnot)
    obtain ⟨-, hkind', hgroup'⟩ := left_kind (hplaceholders hnot') (hown hn' hnot')
    simp only [hmem] at hkind' hgroup'
    have hgap : isGap n' = true ↔ isGap n = true := hkind'.trans hkind.symm
    refine kindOf_eq hgap fun hnone => ?_
    by_contra hdiffer
    have hnone' : isGap n' = false := Bool.eq_false_iff.mpr fun h =>
      Bool.eq_false_iff.mp hnone (hgap.mp h)
    -- two boundaries that differ would be a Gap
    refine Bool.eq_false_iff.mp hnone (hkind.mpr (.inr ?_))
    exact ⟨n', hgroup' hnone', n, hgroup hnone, hdiffer⟩

end Placeholder

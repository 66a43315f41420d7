/-
Tables with a primary key.

A `Table κ ν` is a finite list of rows in strictly increasing key order, so a
key occurs at most once and two tables with the same lookups are equal
(`Table.ext_find?`).  Every operation is computable, and each has one lookup
lemma, tagged `simp`:

* `find?_put` — insert or replace one row;
* `find?_filter` — keep the rows that satisfy a predicate;
* `find?_erase` — delete one row, and `find?_foldl_erase` — some rows;
* `find?_mapValues` — the same keys with other values.

Reading a table "ordered by key" is reading `rows`.  `find?_distinct` finds an item of a
plain list by a key that is there once.
-/
import Mathlib

/-- Rows in strictly increasing key order. -/
structure Table (κ ν : Type) [LinearOrder κ] where
  rows : List (κ × ν)
  sorted : rows.Pairwise fun a b => a.1 < b.1

namespace Table

variable {κ ν : Type} [LinearOrder κ]

/-! ### Lookup -/

/-- The value of the first row with key `k`. -/
def lookupRow (k : κ) : List (κ × ν) → Option ν
  | [] => none
  | (k', v) :: rest => if k' = k then some v else lookupRow k rest

/-- The value stored under `k`. -/
def find? (t : Table κ ν) (k : κ) : Option ν := lookupRow k t.rows

theorem keys_nodup (t : Table κ ν) : (t.rows.map Prod.fst).Nodup :=
  List.pairwise_map.mpr (t.sorted.imp fun h => ne_of_lt h)

/-- The table without rows. -/
def empty : Table κ ν := ⟨[], List.Pairwise.nil⟩

@[simp] theorem find?_empty (k : κ) : (empty : Table κ ν).find? k = none := rfl

variable {k : κ} {v : ν} {l : List (κ × ν)} {t : Table κ ν} {α : Type}

theorem lookupRow_cons (k : κ) (r : κ × ν) (rest : List (κ × ν)) :
    lookupRow k (r :: rest) = if r.1 = k then some r.2 else lookupRow k rest := rfl

theorem lookupRow_eq_some_iff (hl : l.Pairwise fun a b => a.1 < b.1) :
    lookupRow k l = some v ↔ (k, v) ∈ l := by
  induction l with
  | nil => exact ⟨nofun, nofun⟩
  | cons r rest ih =>
    obtain ⟨hr, hrest⟩ := List.pairwise_cons.mp hl
    rw [lookupRow_cons]
    by_cases hk : r.1 = k
    · rw [if_pos hk]
      constructor
      · intro h
        rw [Option.some_inj] at h
        simp [← hk, ← h]
      · intro h
        rcases List.mem_cons.mp h with h | h
        · rw [← h]
        · exact absurd (hr _ h) (by simp [hk])
    · rw [if_neg hk, ih hrest]
      constructor
      · intro h
        exact List.mem_cons_of_mem _ h
      · intro h
        rcases List.mem_cons.mp h with h | h
        · exact absurd (by rw [← h]) hk
        · exact h

theorem find?_eq_some_iff :
    t.find? k = some v ↔ (k, v) ∈ t.rows :=
  lookupRow_eq_some_iff t.sorted

/-! ### Insert or replace -/

/-- Put a row at its place, replacing a row with the same key. -/
def putRow (k : κ) (v : ν) : List (κ × ν) → List (κ × ν)
  | [] => [(k, v)]
  | (k', v') :: rest =>
    if k = k' then (k, v) :: rest
    else if k < k' then (k, v) :: (k', v') :: rest
    else (k', v') :: putRow k v rest

@[simp] theorem putRow_nil (k : κ) (v : ν) : putRow k v [] = [(k, v)] := rfl

theorem putRow_cons (k k' : κ) (v v' : ν) (rest : List (κ × ν)) :
    putRow k v ((k', v') :: rest) = if k = k' then (k, v) :: rest
      else if k < k' then (k, v) :: (k', v') :: rest else (k', v') :: putRow k v rest := rfl

theorem mem_putRow {r : κ × ν} (h : r ∈ putRow k v l) : r = (k, v) ∨ r ∈ l := by
  induction l with
  | nil => simpa using h
  | cons r' rest ih =>
    obtain ⟨k', v'⟩ := r'
    rw [putRow_cons] at h
    split_ifs at h with h1 h2
    · rcases List.mem_cons.mp h with h | h
      · exact .inl h
      · exact .inr (List.mem_cons_of_mem _ h)
    · rcases List.mem_cons.mp h with h | h
      · exact .inl h
      · exact .inr h
    · rcases List.mem_cons.mp h with h | h
      · exact .inr (by simp [h])
      · rcases ih h with h | h
        · exact .inl h
        · exact .inr (List.mem_cons_of_mem _ h)

theorem putRow_sorted (hl : l.Pairwise fun a b => a.1 < b.1) :
    (putRow k v l).Pairwise fun a b => a.1 < b.1 := by
  induction l with
  | nil => simp
  | cons r rest ih =>
    obtain ⟨k', v'⟩ := r
    obtain ⟨hr, hrest⟩ := List.pairwise_cons.mp hl
    rw [putRow_cons]
    split_ifs with h1 h2
    · subst h1
      exact List.pairwise_cons.mpr ⟨hr, hrest⟩
    · refine List.pairwise_cons.mpr ⟨fun r hr' => ?_, hl⟩
      rcases List.mem_cons.mp hr' with rfl | hr'
      · exact h2
      · exact lt_trans h2 (hr _ hr')
    · refine List.pairwise_cons.mpr ⟨fun r hr' => ?_, ih hrest⟩
      rcases mem_putRow hr' with rfl | hr'
      · exact lt_of_le_of_ne (not_lt.mp h2) (Ne.symm h1)
      · exact hr _ hr'

theorem lookupRow_putRow (k k' : κ) (v : ν) (l : List (κ × ν)) :
    lookupRow k' (putRow k v l) = if k' = k then some v else lookupRow k' l := by
  induction l with
  | nil =>
    rw [putRow_nil, lookupRow_cons]
    by_cases h : k' = k
    · rw [if_pos h, if_pos h.symm]
    · rw [if_neg h, if_neg (Ne.symm h)]
  | cons r rest ih =>
    obtain ⟨k1, v1⟩ := r
    rw [putRow_cons]
    by_cases h1 : k = k1
    · rw [if_pos h1, lookupRow_cons, lookupRow_cons]
      by_cases h : k' = k
      · rw [if_pos h, if_pos h.symm]
      · rw [if_neg h, if_neg (Ne.symm h), if_neg (h1 ▸ Ne.symm h)]
    rw [if_neg h1]
    by_cases h2 : k < k1
    · rw [if_pos h2, lookupRow_cons]
      by_cases h : k' = k
      · rw [if_pos h, if_pos h.symm]
      · rw [if_neg h, if_neg (Ne.symm h)]
    · rw [if_neg h2, lookupRow_cons, ih, lookupRow_cons]
      by_cases h : k' = k
      · rw [if_pos h, if_pos h, if_neg (by rw [h]; exact Ne.symm h1)]
      · rw [if_neg h, if_neg h]

/-- Insert the row `(k, v)`, or replace the row with key `k`. -/
def put (t : Table κ ν) (k : κ) (v : ν) : Table κ ν :=
  ⟨putRow k v t.rows, putRow_sorted t.sorted⟩

@[simp] theorem find?_put (t : Table κ ν) (k k' : κ) (v : ν) :
    (t.put k v).find? k' = if k' = k then some v else t.find? k' :=
  lookupRow_putRow k k' v t.rows

theorem find?_put_eq_some {k' : κ} {v' : ν} :
    (t.put k v).find? k' = some v' ↔ k' = k ∧ v' = v ∨ k' ≠ k ∧ t.find? k' = some v' := by
  rw [find?_put]
  split_ifs with hk
  · simp [hk, eq_comm]
  · simp [hk]

theorem putRow_perm (h : lookupRow k l = none) :
    (putRow k v l).Perm ((k, v) :: l) := by
  induction l with
  | nil => exact .refl _
  | cons r rest ih =>
    obtain ⟨k', v'⟩ := r
    rw [lookupRow_cons] at h
    by_cases hk : k' = k
    · rw [if_pos hk] at h
      exact absurd h (by simp)
    · rw [if_neg hk] at h
      rw [putRow_cons, if_neg (Ne.symm hk)]
      split_ifs with hlt
      · exact .refl _
      · exact ((ih h).cons (k', v')).trans (.swap _ _ _)

theorem rows_put_perm (v : ν) (h : t.find? k = none) :
    (t.put k v).rows.Perm ((k, v) :: t.rows) :=
  putRow_perm h

theorem putRow_of_lookupRow {w : ν} (hl : l.Pairwise fun a b => a.1 < b.1)
    (h : lookupRow k l = some v) :
    ∃ l1 l2, l = l1 ++ (k, v) :: l2 ∧ putRow k w l = l1 ++ (k, w) :: l2 := by
  induction l with
  | nil => cases h
  | cons r rest ih =>
    obtain ⟨k', v'⟩ := r
    obtain ⟨hr, hrest⟩ := List.pairwise_cons.mp hl
    rw [lookupRow_cons] at h
    by_cases hk : k' = k
    · rw [if_pos hk] at h
      cases h
      exact ⟨[], rest, by rw [hk]; rfl, by rw [putRow_cons, if_pos hk.symm]; rfl⟩
    · rw [if_neg hk] at h
      have hlt : ¬k < k' := not_lt_of_gt (hr _ ((lookupRow_eq_some_iff hrest).mp h))
      obtain ⟨l1, l2, hrows, hput⟩ := ih hrest h
      refine ⟨(k', v') :: l1, l2, by rw [hrows]; rfl, ?_⟩
      rw [putRow_cons, if_neg (Ne.symm hk), if_neg hlt, hput]
      rfl

theorem rows_put_of_find? (w : ν) (h : t.find? k = some v) :
    ∃ l1 l2, t.rows = l1 ++ (k, v) :: l2 ∧ (t.put k w).rows = l1 ++ (k, w) :: l2 :=
  putRow_of_lookupRow t.sorted h

theorem putRow_of_lt (h : ∀ r ∈ l, r.1 < k) :
    putRow k v l = l ++ [(k, v)] := by
  induction l with
  | nil => rfl
  | cons r rest ih =>
    obtain ⟨hr, hrest⟩ := List.forall_mem_cons.mp h
    rw [putRow_cons, if_neg (ne_of_gt hr), if_neg (not_lt_of_gt hr), ih hrest]
    rfl

theorem rows_put_of_lt (v : ν) (h : ∀ r ∈ t.rows, r.1 < k) :
    (t.put k v).rows = t.rows ++ [(k, v)] :=
  putRow_of_lt h

theorem sum_putRow_le (f : κ × ν → ℕ) (k : κ) (v : ν) (l : List (κ × ν)) :
    ((putRow k v l).map f).sum ≤ (l.map f).sum + f (k, v) := by
  induction l with
  | nil => simp
  | cons r rest ih =>
    obtain ⟨k', v'⟩ := r
    rw [putRow_cons]
    split_ifs with h1 h2
    · simp only [List.map_cons, List.sum_cons]
      omega
    · simp only [List.map_cons, List.sum_cons]
      omega
    · simp only [List.map_cons, List.sum_cons]
      omega

theorem sum_put_le (f : κ × ν → ℕ) (t : Table κ ν) (k : κ) (v : ν) :
    ((t.put k v).rows.map f).sum ≤ (t.rows.map f).sum + f (k, v) :=
  sum_putRow_le f k v t.rows

/-! ### Delete -/

/-- Keep the rows that satisfy `p`. -/
def filter (p : κ → ν → Bool) (t : Table κ ν) : Table κ ν :=
  ⟨t.rows.filter fun r => p r.1 r.2, t.sorted.filter _⟩

@[simp] theorem find?_filter (p : κ → ν → Bool) (t : Table κ ν) (k : κ) :
    (t.filter p).find? k = (t.find? k).filter (p k) := by
  refine Option.ext fun v => ?_
  rw [find?_eq_some_iff, Option.filter_eq_some_iff, find?_eq_some_iff]
  simp [filter]

/-- Delete the row with key `k`. -/
def erase (t : Table κ ν) (k : κ) : Table κ ν := t.filter fun k' _ => !decide (k' = k)

@[simp] theorem find?_erase (t : Table κ ν) (k k' : κ) :
    (t.erase k).find? k' = if k' = k then none else t.find? k' := by
  rw [erase, find?_filter]
  by_cases h : k' = k
  · cases hv : t.find? k' with
    | none => simp [h]
    | some v => simp [h]
  · cases hv : t.find? k' with
    | none => simp [h]
    | some v => simp [h]

theorem find?_foldl_erase (l : List κ) (t : Table κ ν) (k : κ) :
    (l.foldl erase t).find? k = if k ∈ l then none else t.find? k := by
  induction l generalizing t with
  | nil => simp
  | cons k' rest ih =>
    rw [List.foldl_cons, ih, find?_erase]
    by_cases hk : k = k'
    · simp [hk]
    · simp [hk]

/-! ### Values and lists of rows -/

/-- The same keys, with other values. -/
def mapValues {μ : Type} (f : ν → μ) (t : Table κ ν) : Table κ μ :=
  ⟨t.rows.map fun r => (r.1, f r.2), List.pairwise_map.mpr t.sorted⟩

@[simp] theorem find?_mapValues {μ : Type} (f : ν → μ) (t : Table κ ν) (k : κ) :
    (t.mapValues f).find? k = (t.find? k).map f := by
  refine Option.ext fun v => ?_
  rw [find?_eq_some_iff, Option.map_eq_some_iff, mapValues, List.mem_map]
  constructor
  · rintro ⟨r, hr, heq⟩
    obtain ⟨rfl, rfl⟩ := Prod.mk.inj heq
    exact ⟨r.2, find?_eq_some_iff.mpr hr, rfl⟩
  · rintro ⟨w, hw, rfl⟩
    exact ⟨(k, w), find?_eq_some_iff.mp hw, rfl⟩

/-- The rows of a list, the last one of a key winning. -/
def ofList {α : Type} (key : α → κ) (value : α → ν) (l : List α) : Table κ ν :=
  l.foldl (fun t a => t.put (key a) (value a)) empty

theorem ofList_concat (key : α → κ) (value : α → ν) (l : List α) (a : α) :
    ofList key value (l ++ [a]) = (ofList key value l).put (key a) (value a) := by
  rw [ofList, List.foldl_append, List.foldl_cons, List.foldl_nil]
  rfl

theorem find?_ofList (key : α → κ) (value : α → ν) (l : List α) (k : κ) :
    (ofList key value l).find? k = (l.reverse.find? fun a => key a = k).map value := by
  induction l using List.reverseRecOn with
  | nil => rfl
  | append_singleton l a ih =>
    rw [ofList_concat, find?_put, List.reverse_append, List.reverse_singleton,
      List.singleton_append, List.find?_cons]
    by_cases hk : key a = k
    · rw [if_pos hk.symm, decide_eq_true hk]
      rfl
    · rw [if_neg fun h => hk h.symm, decide_eq_false hk, ih]

theorem mem_keys_ofList {key : α → κ} {value : α → ν} {l : List α} :
    k ∈ (ofList key value l).rows.map Prod.fst ↔ k ∈ l.map key := by
  have hfind : ∀ {t : Table κ ν}, k ∈ t.rows.map Prod.fst ↔ t.find? k ≠ none := by
    intro t
    rw [Option.ne_none_iff_exists', List.mem_map]
    constructor
    · rintro ⟨⟨k, v⟩, hr, rfl⟩
      exact ⟨v, find?_eq_some_iff.mpr hr⟩
    · rintro ⟨v, hv⟩
      exact ⟨(k, v), find?_eq_some_iff.mp hv, rfl⟩
  induction l using List.reverseRecOn with
  | nil => exact iff_of_false (List.not_mem_nil) List.not_mem_nil
  | append_singleton l a ih =>
    have hbefore : k ∈ l.map key ↔ (ofList key value l).find? k ≠ none := ih.symm.trans hfind
    rw [ofList_concat, hfind, find?_put, List.map_append, List.mem_append, hbefore,
      List.map_singleton, List.mem_singleton]
    by_cases hk : k = key a
    · simp [hk]
    · simp [hk]

theorem rows_ofList_perm {key : α → κ} (value : α → ν) {l : List α} (hkeys : (l.map key).Nodup) :
    (ofList key value l).rows.Perm (l.map fun a => (key a, value a)) := by
  induction l using List.reverseRecOn with
  | nil => exact .nil
  | append_singleton l a ih =>
    rw [List.map_append, List.nodup_append] at hkeys
    obtain ⟨hnodup, -, hnew⟩ := hkeys
    have hnone : (ofList key value l).find? (key a) = none := by
      refine Option.eq_none_iff_forall_ne_some.mpr fun v hv => ?_
      have hin := mem_keys_ofList.mp (List.mem_map_of_mem (find?_eq_some_iff.mp hv))
      exact hnew (key a) hin (key a) (List.mem_singleton_self _) rfl
    rw [ofList_concat, List.map_append]
    refine (rows_put_perm (value a) hnone).trans ?_
    exact ((ih hnodup).cons _).trans (List.perm_append_singleton _ _).symm

theorem length_ofList_eq_iff (key : α → κ) (value : α → ν) (l : List α) :
    (ofList key value l).rows.length ≤ l.length
      ∧ ((ofList key value l).rows.length = l.length ↔ (l.map key).Nodup) := by
  have hperm : ((ofList key value l).rows.map Prod.fst).Perm (l.map key).dedup := by
    refine (List.perm_ext_iff_of_nodup (keys_nodup _) (List.nodup_dedup _)).mpr fun k => ?_
    rw [mem_keys_ofList, List.mem_dedup]
  have hlength : (ofList key value l).rows.length = (l.map key).dedup.length := by
    rw [← hperm.length_eq, List.length_map]
  have hsub : (l.map key).dedup.Sublist (l.map key) := List.dedup_sublist _
  rw [hlength, ← @List.length_map _ _ l key]
  refine ⟨hsub.length_le, fun heq => ?_, fun hnodup => ?_⟩
  · exact List.dedup_eq_self.mp (hsub.eq_of_length heq)
  · rw [List.dedup_eq_self.mpr hnodup]

/-! ### Lookups determine the table -/

private theorem rows_ext : ∀ {l l' : List (κ × ν)}, l.Pairwise (fun a b => a.1 < b.1) →
    l'.Pairwise (fun a b => a.1 < b.1) → (∀ r, r ∈ l ↔ r ∈ l') → l = l'
  | [], [], _, _, _ => rfl
  | [], r' :: _, _, _, h => absurd ((h r').mpr (by simp)) (by simp)
  | r :: _, [], _, _, h => absurd ((h r).mp (by simp)) (by simp)
  | r :: rest, r' :: rest', hl, hl', h => by
    obtain ⟨hr, hrest⟩ := List.pairwise_cons.mp hl
    obtain ⟨hr', hrest'⟩ := List.pairwise_cons.mp hl'
    -- The smallest row of each list is in the other one.
    have hhead : r = r' := by
      rcases List.mem_cons.mp ((h r).mp (by simp)) with h1 | h1
      · exact h1
      rcases List.mem_cons.mp ((h r').mpr (by simp)) with h2 | h2
      · exact h2.symm
      · exact absurd (hr _ h2) (not_lt.mpr (le_of_lt (hr' _ h1)))
    subst hhead
    have htail : ∀ x, x ∈ rest ↔ x ∈ rest' := by
      intro x
      constructor
      · intro hx
        rcases List.mem_cons.mp ((h x).mp (List.mem_cons_of_mem _ hx)) with h1 | h1
        · exact absurd (hr _ hx) (by simp [h1])
        · exact h1
      · intro hx
        rcases List.mem_cons.mp ((h x).mpr (List.mem_cons_of_mem _ hx)) with h1 | h1
        · exact absurd (hr' _ hx) (by simp [h1])
        · exact h1
    rw [rows_ext hrest hrest' htail]

theorem ext_find? {u : Table κ ν} (h : ∀ k, t.find? k = u.find? k) : t = u := by
  obtain ⟨l, hl⟩ := t
  obtain ⟨l', hl'⟩ := u
  have hrows : l = l' := by
    refine rows_ext hl hl' fun r => ?_
    have h1 := find?_eq_some_iff (t := ⟨l, hl⟩) (k := r.1) (v := r.2)
    have h2 := find?_eq_some_iff (t := ⟨l', hl'⟩) (k := r.1) (v := r.2)
    rw [h] at h1
    exact h1.symm.trans h2
  subst hrows
  rfl

@[simp] theorem put_put (t : Table κ ν) (k : κ) (v w : ν) : (t.put k v).put k w = t.put k w := by
  refine ext_find? fun k' => ?_
  by_cases h : k' = k
  · simp [h]
  · simp [h]

/-! ### Lists with distinct keys -/

theorem find?_distinct {β : Type} [BEq β] [LawfulBEq β] {key : α → β} {l : List α}
    (hnodup : (l.map key).Nodup) {a : α} (ha : a ∈ l) {k : β} (hk : key a = k) :
    (l.find? fun x => key x == k) = some a := by
  cases hfind : l.find? fun x => key x == k with
  | none => exact absurd hk (by simpa using List.find?_eq_none.mp hfind a ha)
  | some b =>
    have hb : key b = k := by simpa using List.find?_some hfind
    rw [List.inj_on_of_nodup_map hnodup (List.mem_of_find?_eq_some hfind) ha (hb.trans hk.symm)]

end Table

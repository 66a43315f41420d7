/-
The receipt-reference index is exact.

Deleting source material relies on `investigationReceiptReferences`: it goes through
every stored ledger of every task, collects the references with the revision each came
with, and compares them with the index, row by row, before it answers from the index.

* `takeTask_ok` — the ledgers of a task give the rows the index has for it;
* `matchRefs_ok` — an index with exactly the expected rows is answered from;
* `receipt_references_exact` — so the read succeeds after every run, and its answer is
  what all admitted ledgers say.
-/
import Cartograph.Jobs.Reads
import Cartograph.Jobs.Ledgers
import Cartograph.Jobs.Starting

namespace Jobs

open Investigation Checked

/-! ### Collecting references -/

/-- A row of the index, with its task. -/
def tagged (id : String) (ref : InvestigationReceiptReference × ℕ) : ReferenceKey × ℕ :=
  ((id, ref.1), ref.2)

theorem length_addRefs (revision : ℕ) (references : List InvestigationReceiptReference) :
    ∀ refs : List (InvestigationReceiptReference × ℕ),
    refs.length ≤ (addRefs revision refs references).length := by
  induction references with
  | nil =>
    intro refs
    exact le_rfl
  | cons r rest ih =>
    intro refs
    refine le_trans ?_ (ih _)
    split_ifs
    · exact le_rfl
    · simp

variable {last : ℕ × InvestigationInputLedger} {n : ℕ} {value : String}

section Collect

variable {base : Expected} {id : String}

theorem orInsert_tagged (hbase : ∀ e ∈ base, e.1.1 ≠ id) (r : InvestigationReceiptReference)
    (revision : ℕ) (refs : List (InvestigationReceiptReference × ℕ)) :
    Expected.orInsert (base ++ refs.map (tagged id)) (id, r) revision
      = base ++ (if r ∈ refs.map Prod.fst then refs else refs ++ [(r, revision)]).map (tagged id) := by
  have hmem : (id, r) ∈ (base ++ refs.map (tagged id)).map Prod.fst ↔ r ∈ refs.map Prod.fst := by
    rw [List.map_append, List.map_map, List.mem_append]
    constructor
    · rintro (h | h)
      · obtain ⟨e, he, heq⟩ := List.mem_map.mp h
        exact absurd (congrArg Prod.fst heq) (hbase e he)
      · obtain ⟨ref, href, heq⟩ := List.mem_map.mp h
        exact List.mem_map.mpr ⟨ref, href, congrArg Prod.snd heq⟩
    · intro h
      obtain ⟨ref, href, rfl⟩ := List.mem_map.mp h
      exact .inr (List.mem_map.mpr ⟨ref, href, rfl⟩)
  rw [Expected.orInsert]
  by_cases h : r ∈ refs.map Prod.fst
  · rw [if_pos (hmem.mpr h), if_pos h]
  · rw [if_neg (mt hmem.mp h), if_neg h, List.map_append, List.append_assoc]
    rfl

theorem takeRefs_ok (hbase : ∀ e ∈ base, e.1.1 ≠ id) (revision : ℕ)
    (references : List InvestigationReceiptReference) :
    ∀ refs : List (InvestigationReceiptReference × ℕ),
    base.length + (addRefs revision refs references).length ≤ 8192 →
    takeRefs id revision (base ++ refs.map (tagged id)) references
      = .ok (base ++ (addRefs revision refs references).map (tagged id)) := by
  induction references with
  | nil =>
    intro refs _
    rfl
  | cons r rest ih =>
    intro refs hroom
    have hroom' : base.length + (addRefs revision (if r ∈ refs.map Prod.fst then refs
        else refs ++ [(r, revision)]) rest).length ≤ 8192 := hroom
    have hlength := length_addRefs revision rest
      (if r ∈ refs.map Prod.fst then refs else refs ++ [(r, revision)])
    have hbound : (base ++ (if r ∈ refs.map Prod.fst then refs else refs ++ [(r, revision)]).map
        (tagged id)).length ≤ 8192 := by
      rw [List.length_append, List.length_map]
      omega
    simp only [takeRefs, orInsert_tagged hbase, bind_eq_ok, ensure_eq_ok]
    exact ⟨(), hbound, ih _ hroom'⟩

variable {env : Env} {row : TaskRow}

theorem takeLedger_ok (h : Indexed env row.input) (hbase : ∀ e ∈ base, e.1.1 ≠ id)
    (hlast : row.input.inputs.rows.getLast? = some last) {r : ℕ × InvestigationInputLedger}
    (hr : r ∈ row.input.inputs.rows) (refs : List (InvestigationReceiptReference × ℕ))
    (hroom : base.length + (addRefs r.1 refs r.2.receiptReferences).length ≤ 8192) :
    takeLedger id row (some last.2) (base ++ refs.map (tagged id)) r.1
      = .ok (base ++ (addRefs r.1 refs r.2.receiptReferences).map (tagged id)) := by
  obtain ⟨hrevision, hvalid, hbound, hgraph, hscope⟩ := h.stored r hr
  have hfind : row.rows.inputs.find? r.1 = some r.2 := Table.find?_eq_some_iff.mpr hr
  have hsize : r.2.toJson.size ≤ MAX_MANIFEST_BYTES := by
    simp only [InvestigationInputLedger.validate, bind_eq_ok, ensure_eq_ok] at hvalid
    obtain ⟨⟨⟩, -, ⟨⟩, -, ⟨⟩, -, ⟨⟩, -, ⟨⟩, -, ⟨⟩, -, ⟨⟩, -, ⟨⟩, -, hsize⟩ := hvalid
    exact hsize
  have hsubset : (some last.2).any (fun latest =>
      r.2.receiptReferences.all fun ref => latest.receiptReferences.contains ref) = true := by
    rw [Option.any_some, List.all_eq_true]
    intro ref href
    rw [List.contains_iff_mem]
    rcases h.of_last hlast (List.mem_map.mpr ⟨r, hr, rfl⟩) with heq | hextends
    · rw [← heq]
      exact href
    · exact hextends.2.2.2.2.2.2.2.2 ref href
  simp only [takeLedger, readBody, encode, signed, bind_eq_ok, ensure_eq_ok, pure_eq_ok, orFail_eq_ok,
    admitted_eq_ok, hfind]
  refine ⟨some r.2, ⟨(), by simpa using decodable_ledger hvalid, rfl⟩, r.2, rfl, (), hvalid, (), hsize,
    (), hrevision ▸ hbound, (), ⟨hrevision, hgraph, hscope, hsubset⟩, ?_⟩
  exact takeRefs_ok hbase r.1 r.2.receiptReferences refs hroom

/-- The index after some of the ledgers, continued with the others. -/
def indexFrom (refs : List (InvestigationReceiptReference × ℕ))
    (rows : List (ℕ × InvestigationInputLedger)) : List (InvestigationReceiptReference × ℕ) :=
  rows.foldl (fun refs r => addRefs r.1 refs r.2.receiptReferences) refs

theorem length_indexFrom (rows : List (ℕ × InvestigationInputLedger)) :
    ∀ refs, refs.length ≤ (indexFrom refs rows).length := by
  induction rows with
  | nil =>
    intro refs
    exact le_rfl
  | cons r rest ih =>
    intro refs
    exact (length_addRefs r.1 r.2.receiptReferences refs).trans (ih _)

theorem takeLedgers_ok (h : Indexed env row.input) (hbase : ∀ e ∈ base, e.1.1 ≠ id)
    (hlast : row.input.inputs.rows.getLast? = some last)
    (rows : List (ℕ × InvestigationInputLedger)) (hrows : ∀ r ∈ rows, r ∈ row.input.inputs.rows) :
    ∀ refs, base.length + (indexFrom refs rows).length ≤ 8192 →
    (rows.map Prod.fst).foldlM (takeLedger id row (some last.2)) (base ++ refs.map (tagged id))
      = .ok (base ++ (indexFrom refs rows).map (tagged id)) := by
  induction rows with
  | nil =>
    intro refs _
    rfl
  | cons r rest ih =>
    intro refs hroom
    obtain ⟨hr, hrest⟩ := List.forall_mem_cons.mp hrows
    have hlength := length_indexFrom rest (addRefs r.1 refs r.2.receiptReferences)
    have hroom' : base.length
        + (indexFrom (addRefs r.1 refs r.2.receiptReferences) rest).length ≤ 8192 := hroom
    rw [List.map_cons, List.foldlM_cons, takeLedger_ok h hbase hlast hr refs (by omega)]
    exact ih hrest _ hroom'

theorem Indexed.indexFrom_eq (h : Indexed env row.input) :
    indexFrom [] row.input.inputs.rows = row.rows.refs := by
  have hrefs : row.rows.refs = index row.input.ledgers := h.refs
  rw [hrefs, index, Input.ledgers, List.foldl_map, indexFrom]
  refine List.foldl_ext _ _ _ fun refs r hr => ?_
  rw [(h.stored r hr).1]

/-- The rows of the index that belong to one task. -/
def TaskRow.indexed (row : TaskRow) (id : String) : Expected := row.rows.refs.map (tagged id)

theorem takeTask_ok {s : Store} (hsound : Sound env s.ns id row)
    (hrow : s.tasks.find? id = some row) (h : Indexed env row.input)
    (hcount : row.input.inputs.rows.length ≤ 9) (hbase : ∀ e ∈ base, e.1.1 ≠ id) (n : ℕ)
    (hroom : base.length + row.rows.refs.length ≤ 8192) :
    s.takeTask env (base, n) id
      = .ok (base ++ row.indexed id, n + row.rows.inputs.rows.length) := by
  have hid : idValid id = true := hsound.investigationId ▸ hsound.valid.fields.2.2.1
  have htake : (row.rows.inputs.rows.map Prod.fst).take 10 = row.rows.inputs.rows.map Prod.fst :=
    List.take_of_length_le (by
      rw [List.length_map]
      exact hcount.trans (by omega))
  have hlast : (row.rows.inputs.rows.map Prod.fst).getLast? = row.record.ledgerRevision := by
    rw [List.getLast?_map]
    exact h.last.symm
  have hsigned : row.record.ledgerRevision.getD 0 ≤ MAX_ROWID := by
    have heq : row.record.ledgerRevision = row.input.inputs.rows.getLast?.map Prod.fst := h.last
    rw [heq]
    cases hget : row.input.inputs.rows.getLast? with
    | none => exact Nat.zero_le _
    | some r => exact (h.stored r (List.mem_of_getLast? hget)).2.2.1
  have hcollect : (row.rows.inputs.rows.map Prod.fst).foldlM
      (takeLedger id row (row.input.inputs.rows.getLast?.map Prod.snd)) base
      = .ok (base ++ row.indexed id) := by
    cases hget : row.input.inputs.rows.getLast? with
    | none =>
      have hnil : row.rows.inputs.rows = [] := List.getLast?_eq_none_iff.mp hget
      have hrefs : row.rows.refs = [] := by
        rw [← h.indexFrom_eq]
        show indexFrom [] row.rows.inputs.rows = []
        rw [hnil]
        rfl
      rw [hnil, TaskRow.indexed, hrefs, List.map_nil, List.map_nil, List.append_nil]
      rfl
    | some last =>
      have hall := takeLedgers_ok h hbase hget row.input.inputs.rows (fun r hr => hr) []
        (by rw [h.indexFrom_eq]; exact hroom)
      rw [h.indexFrom_eq, List.map_nil, List.append_nil] at hall
      exact hall
  have hload : loadLedger env (row.draft s.jobs)
      = .ok (row.input.inputs.rows.getLast?.map Prod.snd) :=
    Indexed.loadLedger (d := row.draft s.jobs) h
  simp only [Store.takeTask, signed, bind_eq_ok, ensure_eq_ok, pure_eq_ok]
  refine ⟨(), idValid_size hid, row, hsound.loadTask hrow, _, hload, (), hsigned, (), ?_,
    base ++ row.indexed id, ?_, ?_⟩
  · rw [htake, List.length_map]
    exact ⟨hcount, hlast⟩
  · rw [htake]
    exact hcollect
  · rw [htake, List.length_map]

end Collect

/-! ### All tasks -/

/-- What the read relies on. -/
structure Referable (env : Env) (s : Store) : Prop where
  bounded : s.Bounded
  sound : ∀ id row, s.tasks.find? id = some row → Sound env s.ns id row
  indexed : ∀ id row, s.tasks.find? id = some row → Indexed env row.input
  count : ∀ id row, s.tasks.find? id = some row → row.input.inputs.rows.length ≤ 9

theorem allowance_le {env : Env} {t : StoredTask} (h : ValidTask env t) : allowance t ≤ 9 := by
  obtain ⟨-, -, -, -, -, -, -, -, -, -, -, hlimits, -⟩ := h.fields
  have htools : t.detail.usage.toolActions ≤ 8 := by
    have husage := h.usage
    rw [hlimits, validateUsage, ensure_eq_ok] at husage
    exact husage.2.1
  rw [allowance]
  split <;> omega

theorem steps_referable {env : Env} {s0 s : Store} {tr : List Event}
    (h : (machine env).Steps s0 tr s) (h0 : s0.Initial) : Referable env s := by
  refine ⟨steps_bounded h h0, steps_sound h h0, fun id row hrow => (steps_indexed h h0 id row hrow).1,
    fun id row hrow => ?_⟩
  exact (steps_indexed h h0 id row hrow).2.trans (allowance_le (steps_sound h h0 id row hrow).valid)

theorem Indexed.length_refs {env : Env} {row : TaskRow} (h : Indexed env row.input) :
    row.rows.refs.length ≤ 64 := by
  have hrefs : row.rows.refs = index row.input.ledgers := h.refs
  cases hlast : row.input.inputs.rows.getLast? with
  | none =>
    have hnil : row.input.inputs.rows = [] := List.getLast?_eq_none_iff.mp hlast
    rw [hrefs, Input.ledgers, hnil]
    exact Nat.zero_le _
  | some r =>
    have hvalid := (h.stored r (List.mem_of_getLast? hlast)).2.1
    simp only [InvestigationInputLedger.validate, bind_eq_ok, ensure_eq_ok] at hvalid
    obtain ⟨⟨⟩, ⟨-, -, -, -, hreceipts, -⟩, -⟩ := hvalid
    have hsubset : (index row.input.ledgers).map Prod.fst ⊆ r.2.receiptReferences := by
      intro ref href
      obtain ⟨l, hl, hmem⟩ := mem_index_keys.mp href
      rcases h.of_last hlast hl with rfl | hextends
      · exact hmem
      · exact hextends.2.2.2.2.2.2.2.2 ref hmem
    have hlength := (List.subperm_of_subset (index_nodup _) hsubset).length_le
    rw [List.length_map, ← hrefs] at hlength
    exact hlength.trans hreceipts

theorem sum_le_of_forall {α : Type} {f : α → ℕ} {l : List α} (h : ∀ a ∈ l, f a ≤ n) :
    (l.map f).sum ≤ l.length * n := by
  have hsum := List.sum_le_card_nsmul (l.map f) n (by simpa using h)
  rwa [List.length_map, nsmul_eq_mul, Nat.cast_id] at hsum

variable {env : Env} {s : Store}

theorem Referable.row (h : Referable env s) {r : String × TaskRow} (hr : r ∈ s.tasks.rows) :
    Sound env s.ns r.1 r.2 ∧ Indexed env r.2.input ∧ r.2.input.inputs.rows.length ≤ 9
      ∧ s.tasks.find? r.1 = some r.2 := by
  have hrow := Table.find?_eq_some_iff.mpr hr
  exact ⟨h.sound r.1 r.2 hrow, h.indexed r.1 r.2 hrow, h.count r.1 r.2 hrow, hrow⟩

theorem Referable.inputs_le (h : Referable env s) :
    (s.tasks.rows.map fun r => r.2.rows.inputs.rows.length).sum ≤ 1152 := by
  have hsum := sum_le_of_forall (l := s.tasks.rows) fun r hr => (h.row hr).2.2.1
  have htasks : s.tasks.rows.length ≤ 128 := h.bounded.tasks
  refine hsum.trans ?_
  omega

theorem Referable.refs_le (h : Referable env s) :
    (s.tasks.rows.map fun r => r.2.rows.refs.length).sum ≤ 8192 := by
  have hsum := sum_le_of_forall (l := s.tasks.rows) fun r hr => (h.row hr).2.1.length_refs
  have htasks : s.tasks.rows.length ≤ 128 := h.bounded.tasks
  refine hsum.trans ?_
  omega

/-- The expected rows of these tasks. -/
def expectedOf (rows : List (String × TaskRow)) : Expected := rows.flatMap fun r => r.2.indexed r.1

theorem length_expectedOf (rows : List (String × TaskRow)) :
    (expectedOf rows).length = (rows.map fun r => r.2.rows.refs.length).sum := by
  rw [expectedOf, List.length_flatMap]
  congr 1
  refine List.map_congr_left fun r _ => ?_
  rw [TaskRow.indexed, List.length_map]

theorem key_of_expectedOf {rows : List (String × TaskRow)} {e : ReferenceKey × ℕ}
    (h : e ∈ expectedOf rows) : ∃ r ∈ rows, e.1.1 = r.1 := by
  obtain ⟨r, hr, he⟩ := List.mem_flatMap.mp h
  obtain ⟨ref, -, rfl⟩ := List.mem_map.mp he
  exact ⟨r, hr, rfl⟩

theorem takeTasks_ok (h : Referable env s) (rest : List (String × TaskRow)) :
    ∀ front, s.tasks.rows = front ++ rest → ∀ n,
    (rest.map Prod.fst).foldlM (s.takeTask env) (expectedOf front, n)
      = .ok (expectedOf s.tasks.rows, n + (rest.map fun r => r.2.rows.inputs.rows.length).sum) := by
  induction rest with
  | nil =>
    intro front hfront n
    rw [hfront, List.append_nil]
    rfl
  | cons r rest ih =>
    intro front hfront n
    have hr : r ∈ s.tasks.rows := by rw [hfront]; simp
    obtain ⟨hsound, hindexed, hcount, hrow⟩ := h.row hr
    have hbase : ∀ e ∈ expectedOf front, e.1.1 ≠ r.1 := by
      intro e he
      obtain ⟨r', hr', hkey⟩ := key_of_expectedOf he
      have hsorted := s.tasks.sorted
      rw [hfront] at hsorted
      rw [hkey]
      exact ((List.pairwise_append.mp hsorted).2.2 r' hr' r (by simp)).ne
    have hroom : (expectedOf front).length + r.2.rows.refs.length ≤ 8192 := by
      have htotal := h.refs_le
      rw [hfront, List.map_append, List.map_cons, List.sum_append, List.sum_cons] at htotal
      rw [length_expectedOf]
      omega
    have hfront' : s.tasks.rows = (front ++ [r]) ++ rest := by rw [hfront]; simp
    have hexpected : expectedOf (front ++ [r]) = expectedOf front ++ r.2.indexed r.1 := by
      rw [expectedOf, List.flatMap_append, List.flatMap_singleton]
      rfl
    have hnext := ih (front ++ [r]) hfront' (n + r.2.rows.inputs.rows.length)
    rw [List.map_cons, List.foldlM_cons, takeTask_ok hsound hrow hindexed hcount hbase n hroom,
      List.map_cons, List.sum_cons, ← Nat.add_assoc, ← hnext, hexpected]
    rfl

/-! ### Comparing with the index -/

def useOf (key : ReferenceKey) : InvestigationReceiptUse :=
  ⟨key.1, key.2.sourceId, key.2.repoKey, key.2.receiptId⟩

/-- Texts the index admits. -/
def keyBounded (key : ReferenceKey) : Prop :=
  key.1.utf8ByteSize ≤ 128 ∧ key.2.sourceId.utf8ByteSize ≤ 256
    ∧ key.2.repoKey.utf8ByteSize ≤ 256 ∧ key.2.receiptId.utf8ByteSize ≤ 256

theorem matchRefs_ok (sourceId : String) (rows : List (ReferenceKey × ℕ)) :
    ∀ expected : Expected, expected.Perm rows → (rows.map Prod.fst).Nodup →
    (∀ r ∈ rows, keyBounded r.1) →
    matchRefs sourceId expected rows
      = .ok ((rows.filter fun r => r.1.2.sourceId == sourceId).map fun r => useOf r.1) := by
  induction rows with
  | nil =>
    intro expected hperm _ _
    rw [List.perm_nil.mp hperm]
    rfl
  | cons r rest ih =>
    intro expected hperm hnodup hbounded
    obtain ⟨key, n⟩ := r
    obtain ⟨hkey, hrest⟩ := List.forall_mem_cons.mp hbounded
    rw [List.map_cons, List.nodup_cons] at hnodup
    have hkeys : (expected.map Prod.fst).Nodup :=
      ((hperm.map Prod.fst).nodup_iff).mpr (List.nodup_cons.mpr hnodup)
    have hfind := Table.find?_distinct hkeys (hperm.mem_iff.mpr (List.mem_cons_self ..)) rfl
    have hothers : rest.filter (fun e => e.1 != key) = rest := by
      refine List.filter_eq_self.mpr fun e he => ?_
      have hne : e.1 ≠ key := by
        rintro rfl
        exact hnodup.1 (List.mem_map.mpr ⟨e, he, rfl⟩)
      simpa using hne
    have hperm' : (expected.filter fun e => e.1 != key).Perm rest := by
      have hfilter := hperm.filter fun e => e.1 != key
      rwa [List.filter_cons, if_neg (by simp), hothers] at hfilter
    have hnext := ih _ hperm' hnodup.2 hrest
    simp only [matchRefs, bind_eq_ok, ensure_eq_ok, pure_eq_ok]
    refine ⟨(), hkey, (), hfind, _, hnext, ?_⟩
    by_cases hsource : key.2.sourceId = sourceId
    · rw [if_pos hsource, List.filter_cons, if_pos (by simpa using hsource), List.map_cons]
      rfl
    · rw [if_neg hsource, List.filter_cons, if_neg (by simpa using hsource)]

theorem indexRows_perm (s : Store) : (expectedOf s.tasks.rows).Perm s.indexRows := by
  rw [expectedOf, Store.indexRows]
  refine List.Perm.flatMap_left _ fun r _ => ?_
  exact ((List.mergeSort_perm _ _).map (tagged r.1)).symm

theorem mem_indexRows {s : Store} {key : ReferenceKey} :
    (key, n) ∈ s.indexRows ↔ ∃ row, s.tasks.find? key.1 = some row ∧ (key.2, n) ∈ row.rows.refs := by
  rw [← (indexRows_perm s).mem_iff, expectedOf, List.mem_flatMap]
  constructor
  · rintro ⟨r, hr, hmem⟩
    obtain ⟨ref, href, heq⟩ := List.mem_map.mp hmem
    obtain ⟨rfl, rfl⟩ := Prod.mk.inj heq
    exact ⟨r.2, Table.find?_eq_some_iff.mpr hr, href⟩
  · rintro ⟨row, hrow, href⟩
    exact ⟨(key.1, row), Table.find?_eq_some_iff.mp hrow, List.mem_map.mpr ⟨_, href, rfl⟩⟩

theorem Referable.keys_nodup (h : Referable env s) : (s.indexRows.map Prod.fst).Nodup := by
  rw [← ((indexRows_perm s).map Prod.fst).nodup_iff, expectedOf, List.map_flatMap,
    List.nodup_flatMap]
  refine ⟨fun r hr => ?_, ?_⟩
  · have hnodup := index_nodup r.2.input.ledgers
    rw [← (h.row hr).2.1.refs] at hnodup
    have hmap : (r.2.indexed r.1).map Prod.fst = (r.2.rows.refs.map Prod.fst).map fun ref => (r.1, ref) := by
      rw [TaskRow.indexed, List.map_map, List.map_map]
      rfl
    rw [hmap]
    exact hnodup.map fun a b hab => congrArg Prod.snd hab
  · refine s.tasks.sorted.imp fun hlt => ?_
    intro key hkey hkey'
    obtain ⟨e, he, rfl⟩ := List.mem_map.mp hkey
    obtain ⟨ref, -, rfl⟩ := List.mem_map.mp he
    obtain ⟨e', he', heq⟩ := List.mem_map.mp hkey'
    obtain ⟨ref', -, rfl⟩ := List.mem_map.mp he'
    exact hlt.ne (congrArg Prod.fst heq).symm

/-! ### Texts of references -/

theorem prefixed_size {lead : String} (h : prefixed value lead = true) :
    value.utf8ByteSize = lead.utf8ByteSize + 64 := by
  simp only [prefixed, leads, hashBytes, Bool.and_eq_true, beq_iff_eq,
    List.isPrefixOf_iff_prefix] at h
  obtain ⟨⟨rest, hrest⟩, hlength, -⟩ := h
  rw [← hrest, List.drop_left] at hlength
  rw [← Json.length_utf8, ← hrest, List.length_append, hlength, Json.length_utf8]

theorem receiptsValid_mem {previous : Option InvestigationReceiptReference}
    {l : List InvestigationReceiptReference} (h : receiptsValid previous l = true) :
    ∀ r ∈ l, text r.sourceId 256 = true ∧ text r.repoKey 256 = true ∧ receiptId r.receiptId = true := by
  induction l generalizing previous with
  | nil => simp
  | cons r rest ih =>
    simp only [receiptsValid, Bool.and_eq_true] at h
    exact List.forall_mem_cons.mpr ⟨⟨h.1.1.1.1, h.1.1.1.2, h.1.1.2⟩, ih h.2⟩

theorem text_size {maximum : ℕ} (h : text value maximum = true) :
    value.utf8ByteSize ≤ maximum := by
  simp only [text, Bool.and_eq_true, decide_eq_true_eq] at h
  exact h.1.2

theorem receiptId_size (h : receiptId value = true) : value.utf8ByteSize ≤ 256 := by
  rw [receiptId, Bool.or_eq_true] at h
  have hlead : ("ts-primary-v1:" : String).utf8ByteSize = 14 ∧
      ("ts-primary-v2:" : String).utf8ByteSize = 14 := by decide
  rcases h with h | h
  · have hsize := prefixed_size h
    omega
  · have hsize := prefixed_size h
    omega

theorem Referable.keyBounded (h : Referable env s) : ∀ r ∈ s.indexRows, keyBounded r.1 := by
  rintro ⟨key, n⟩ hr
  obtain ⟨row, hrow, href⟩ := mem_indexRows.mp hr
  have hsound := h.sound key.1 row hrow
  have hindexed := h.indexed key.1 row hrow
  have hrefs : row.rows.refs = index row.input.ledgers := hindexed.refs
  have hmem : key.2 ∈ (index row.input.ledgers).map Prod.fst :=
    List.mem_map.mpr ⟨_, hrefs ▸ href, rfl⟩
  obtain ⟨l, hl, hreference⟩ := mem_index_keys.mp hmem
  obtain ⟨r, hr', rfl⟩ := List.mem_map.mp hl
  have hvalid := (hindexed.stored r hr').2.1
  simp only [InvestigationInputLedger.validate, bind_eq_ok, ensure_eq_ok] at hvalid
  obtain ⟨⟨⟩, -, ⟨⟩, -, ⟨⟩, ⟨hreceipts, -⟩, -⟩ := hvalid
  obtain ⟨hsource, hrepo, hreceipt⟩ := receiptsValid_mem hreceipts key.2 hreference
  have hid : idValid key.1 = true := hsound.investigationId ▸ hsound.valid.fields.2.2.1
  exact ⟨idValid_size hid, text_size hsource, text_size hrepo, receiptId_size hreceipt⟩

/-! ### The answer -/

theorem receiptReferences_ok (h : Referable env s) {sourceId : String}
    (hsource : idValid sourceId = true) :
    s.investigationReceiptReferences env sourceId
      = .ok ((s.indexRows.filter fun r => r.1.2.sourceId == sourceId).map fun r => useOf r.1) := by
  have hall := takeTasks_ok h s.tasks.rows [] rfl 0
  have hmatch := matchRefs_ok sourceId s.indexRows _ (indexRows_perm s) h.keys_nodup h.keyBounded
  simp only [Store.investigationReceiptReferences, bind_eq_ok, ensure_eq_ok]
  refine ⟨(), hsource, (), ⟨h.bounded.tasks, h.inputs_le, h.refs_le⟩, _, hall, (), ⟨?_, ?_⟩, hmatch⟩
  · exact Nat.zero_add _
  · exact length_expectedOf _

/-- **The index is exact**, after every run: for every source id the read accepts, it returns
the references with that source id of all ledgers ever admitted, each once; the ledgers of a
task extend each other in the order they were admitted; and the index has each reference at
the revision of the first ledger that has it. -/
theorem receipt_references_exact {s₀ : Store} {tr : List Event} (h₀ : s₀.Initial)
    (hs : (machine env).Steps s₀ tr s) :
    (∀ sourceId, idValid sourceId = true →
      ∃ uses, s.investigationReceiptReferences env sourceId = .ok uses ∧ uses.Nodup
        ∧ ∀ use, use ∈ uses ↔ ∃ ledger ∈ ledgersOf tr use.investigationId,
          ∃ reference ∈ ledger.receiptReferences, reference.sourceId = sourceId
            ∧ use = ⟨use.investigationId, reference.sourceId, reference.repoKey,
              reference.receiptId⟩)
    ∧ (∀ id, (ledgersOf tr id).Pairwise ledgerExtends)
    ∧ ∀ id row, s.tasks.find? id = some row → ∀ reference revision,
      (reference, revision) ∈ row.rows.refs ↔ ∃ ledger ∈ ledgersOf tr id,
        ledger.revision = revision ∧ reference ∈ ledger.receiptReferences
          ∧ ∀ other ∈ ledgersOf tr id, reference ∈ other.receiptReferences →
            revision ≤ other.revision := by
  have href := steps_referable hs h₀
  refine ⟨fun sourceId hsource => ?_, steps_chain hs h₀, fun id row hrow reference revision => ?_⟩
  · refine ⟨_, receiptReferences_ok href hsource, ?_, fun use => ?_⟩
    · have hkeys := (href.keys_nodup.of_map).filter fun r => r.1.2.sourceId == sourceId
      refine List.Nodup.map_on ?_ hkeys
      rintro ⟨key, n⟩ hr ⟨key', n'⟩ hr' heq
      -- a use names all parts of its key but the source id, which is fixed
      have hkey : key = key' := by
        simp only [useOf, InvestigationReceiptUse.mk.injEq] at heq
        obtain ⟨h₁, h₂, h₃, h₄⟩ := heq
        obtain ⟨id, r⟩ := key
        obtain ⟨id', r'⟩ := key'
        cases r
        cases r'
        simp_all
      subst hkey
      exact List.inj_on_of_nodup_map href.keys_nodup (List.mem_of_mem_filter hr)
        (List.mem_of_mem_filter hr') rfl
    · rw [List.mem_map]
      constructor
      · rintro ⟨⟨key, n⟩, hr, rfl⟩
        obtain ⟨hr, hmatch⟩ := List.mem_filter.mp hr
        obtain ⟨row, hrow, hmem⟩ := mem_indexRows.mp hr
        have hrefs : row.rows.refs = index row.input.ledgers := (href.indexed key.1 row hrow).refs
        obtain ⟨l, hl, hreference⟩ := mem_index_keys.mp (List.mem_map.mpr ⟨_, hrefs ▸ hmem, rfl⟩)
        rw [(steps_ledgers hs h₀ key.1).1 row hrow] at hl
        exact ⟨l, hl, key.2, hreference, by simpa using hmatch, rfl⟩
      · rintro ⟨l, hl, reference, hreference, hmatch, huse⟩
        -- a ledger of a task that is not there was never admitted
        cases hrow : s.tasks.find? use.investigationId with
        | none =>
          rw [(steps_ledgers hs h₀ _).2 hrow] at hl
          exact absurd hl (by simp)
        | some row =>
          have hrefs : row.rows.refs = index row.input.ledgers := (href.indexed _ row hrow).refs
          rw [← (steps_ledgers hs h₀ _).1 row hrow] at hl
          obtain ⟨⟨_, n⟩, hmem, rfl⟩ := List.mem_map.mp (mem_index_keys.mpr ⟨l, hl, hreference⟩)
          refine ⟨((use.investigationId, _), n), List.mem_filter.mpr ⟨mem_indexRows.mpr
            ⟨row, hrow, hrefs ▸ hmem⟩, by simpa using hmatch⟩, huse.symm⟩
  · have hindexed := href.indexed id row hrow
    have hrefs : row.rows.refs = index row.input.ledgers := hindexed.refs
    rw [hrefs, mem_index hindexed.chain, (steps_ledgers hs h₀ id).1 row hrow]

namespace Sample

def boundDigest : String :=
  "node-v1:0000000000000000000000000000000000000000000000000000000000000000"

def boundReceipt : String :=
  "ts-primary-v1:0000000000000000000000000000000000000000000000000000000000000000"

/-- One selected fact, bound to a receipt of the source `s1`. -/
def boundLedger : InvestigationInputLedger :=
  { ledger with
    selectedFacts := [⟨.node "n", boundDigest, some ⟨"r", boundReceipt, boundDigest⟩⟩]
    receiptReferences := [⟨"s1", "r", boundReceipt⟩]
    citations := [⟨"c1", .node "n", boundDigest, none, none, none, none, .graphMetadata⟩]
    queries := [⟨⟨.all, none, [], 1, 64, none⟩,
      "0000000000000000000000000000000000000000000000000000000000000000", 64, 1, 1, false⟩] }

def boundRun : List Op := begun ++
  [.advanceInvestigation clock handle 1 (.inputPrepared boundLedger { selectedFacts := 1 })]

end Sample

/-- The reference of the one admitted ledger is found under its source. -/
theorem receipt_references_exact_bound :
    ∃ uses, ((machine (Sample.env Sample.intent)).exec Sample.empty
        Sample.boundRun).investigationReceiptReferences (Sample.env Sample.intent) "s1" = .ok uses
      ∧ ⟨Sample.taskId, "s1", "r", Sample.boundReceipt⟩ ∈ uses := by
  obtain ⟨hread, -⟩ := receipt_references_exact Sample.empty_initial
    (Machine.steps_exec (M := machine (Sample.env Sample.intent))
      fun _ i (_ : i ∈ Sample.boundRun) => trivial)
  obtain ⟨uses, huses, -, hmem⟩ := hread "s1" (by decide)
  have hledgers : ledgersOf ((machine (Sample.env Sample.intent)).trace Sample.empty Sample.boundRun)
      Sample.taskId = [Sample.boundLedger] := by decide +kernel
  refine ⟨uses, huses, (hmem _).mpr ⟨Sample.boundLedger, ?_, _, List.mem_singleton_self _, rfl, rfl⟩⟩
  rw [hledgers]
  exact List.mem_singleton_self _

/-- A source id outside the form of ids is refused, although a ledger may name one. -/
theorem receipt_references_refused :
    text "a b" 256 = true ∧ ¬∀ (env : Env) (s : Store), (machine env).Reachable s →
      ∀ sourceId, ∃ uses, s.investigationReceiptReferences env sourceId = .ok uses := by
  refine ⟨by decide, fun h => ?_⟩
  obtain ⟨uses, huses⟩ := h (Sample.env Sample.intent) Sample.empty
    (.initial Sample.empty_initial) "a b"
  simp only [Store.investigationReceiptReferences, bind_eq_ok, ensure_eq_ok] at huses
  obtain ⟨⟨⟩, hid, -⟩ := huses
  exact absurd hid (by decide)

end Jobs

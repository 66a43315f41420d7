/-
Paging through the history of investigations.

Tasks are never deleted, and each new one takes the next ordinal; so the catalogue of
their ordinals, ids and conversations only grows at its end.

* `steps_catalog` — a run appends to the catalogue;
* `historyRows_entries` — what a page may show is the catalogue, newest first, up to the
  high-water mark and below the last task shown;
* `page_ok` — such a page is always read, within its limits;
* `Pages` — reads that follow the cursors, with any operations between them.
-/
import Cartograph.Lib.Paging
import Cartograph.Jobs.Reads
import Cartograph.Jobs.Starting

namespace Jobs

open Investigation Checked

/-! ### The catalogue -/

/-- The columns of a task that history is selected by. -/
structure Entry where
  ordinal : ℕ
  id : String
  conversationId : String

def entry (r : String × TaskRow) : Entry := ⟨r.2.ordinal, r.1, r.2.conversationId⟩

def Store.catalog (s : Store) : List Entry :=
  (s.tasks.rows.map entry).mergeSort fun a b => decide (a.ordinal ≤ b.ordinal)

/-- Ordinals count the tasks. -/
def Store.Ordered (s : Store) : Prop := s.catalog.map Entry.ordinal = List.range' 1 s.taskSeq

theorem catalog_perm (s : Store) : s.catalog.Perm (s.tasks.rows.map entry) := List.mergeSort_perm ..

variable {e : Entry} {s' s₁ s₀ : Store} {id : String} {env : Env} {tr : List Event}
  {conversationId : Option String} {c selection : HistoryCursor} {cursor : Option HistoryCursor}
  {s : Store}

theorem mem_catalog :
    e ∈ s.catalog ↔ ∃ r ∈ s.tasks.rows, entry r = e := by
  rw [(catalog_perm s).mem_iff, List.mem_map]

theorem catalog_sorted (s : Store) : s.catalog.Pairwise fun a b => a.ordinal ≤ b.ordinal := by
  have hsorted : s.catalog.Pairwise fun a b => decide (a.ordinal ≤ b.ordinal) = true := by
    refine List.pairwise_mergeSort ?_ ?_ _
    · intro a b c hab hbc
      rw [decide_eq_true_iff] at hab hbc ⊢
      omega
    · intro a b
      rw [Bool.or_eq_true, decide_eq_true_iff, decide_eq_true_iff]
      omega
  exact hsorted.imp fun h => of_decide_eq_true h

section Ordered

variable (h : s.Ordered)

include h

theorem Store.Ordered.strict : s.catalog.Pairwise fun a b => a.ordinal < b.ordinal := by
  have hrange : (List.range' 1 s.taskSeq).Pairwise (· < ·) := List.pairwise_lt_range' 1
  rw [← show s.catalog.map Entry.ordinal = _ from h] at hrange
  exact List.pairwise_map.mp hrange

theorem Store.Ordered.mem (he : e ∈ s.catalog) : 1 ≤ e.ordinal ∧ e.ordinal ≤ s.taskSeq := by
  have hmem : e.ordinal ∈ s.catalog.map Entry.ordinal := List.mem_map_of_mem he
  rw [show s.catalog.map Entry.ordinal = _ from h, List.mem_range'_1] at hmem
  omega

theorem Store.Ordered.length : s.tasks.rows.length = s.taskSeq := by
  have hlength := congrArg List.length (show s.catalog.map Entry.ordinal = _ from h)
  rw [List.length_map, List.length_range', (catalog_perm s).length_eq, List.length_map] at hlength
  exact hlength

theorem Store.Ordered.nodup : (s.catalog.map Entry.ordinal).Nodup := by
  rw [show s.catalog.map Entry.ordinal = _ from h]
  exact List.nodup_range'

end Ordered

theorem catalog_put {row row' : TaskRow} (hrow : s.tasks.find? id = some row)
    (hsame : entry (id, row') = entry (id, row)) (htasks : s'.tasks = s.tasks.put id row') :
    s'.catalog = s.catalog := by
  obtain ⟨l1, l2, hbefore, hafter⟩ := Table.rows_put_of_find? row' hrow
  rw [Store.catalog, Store.catalog, htasks, hafter, hbefore, List.map_append, List.map_append,
    List.map_cons, List.map_cons, hsame]

theorem Starts.catalog {d : Draft} (h : Starts env s d id s') (ho : s.Ordered) :
    s'.catalog = s.catalog ++ [entry (id, (insertedRow s d.task).saved d)] := by
  have hnew : (entry (id, (insertedRow s d.task).saved d)).ordinal = s.taskSeq + 1 := rfl
  have hlast : ∀ e ∈ s.catalog, e.ordinal < s.taskSeq + 1 := by
    intro e he
    have := (ho.mem he).2
    omega
  have hperm : s'.catalog.Perm (s.catalog ++ [entry (id, (insertedRow s d.task).saved d)]) := by
    refine (catalog_perm s').trans ?_
    rw [h.tasks]
    refine ((Table.rows_put_perm _ h.fresh).map entry).trans ?_
    refine List.Perm.trans ?_ (List.perm_append_singleton _ _).symm
    exact List.Perm.cons _ (catalog_perm s).symm
  have hsorted : (s.catalog ++ [entry (id, (insertedRow s d.task).saved d)]).Pairwise
      fun a b => a.ordinal ≤ b.ordinal := by
    refine List.pairwise_append.mpr ⟨catalog_sorted s, List.pairwise_singleton .., ?_⟩
    intro a ha b hb
    rw [List.mem_singleton.mp hb, hnew]
    exact (hlast a ha).le
  have hnodup : ((s.catalog ++ [entry (id, (insertedRow s d.task).saved d)]).map
      Entry.ordinal).Nodup := by
    rw [List.map_append, List.nodup_append]
    refine ⟨ho.nodup, List.nodup_singleton _, ?_⟩
    intro n hn m hm heq
    obtain ⟨e, he, rfl⟩ := List.mem_map.mp hn
    obtain ⟨e', he', rfl⟩ := List.mem_map.mp hm
    rw [List.mem_singleton.mp he', hnew] at heq
    exact absurd heq (hlast e he).ne
  refine List.Perm.eq_of_pairwise ?_ (catalog_sorted s') hsorted hperm
  intro a b ha hb hab hba
  exact List.inj_on_of_nodup_map hnodup (hperm.mem_iff.mp ha) hb (Nat.le_antisymm hab hba)

/-- What an operation does to the catalogue. -/
def Appends (s s' : Store) : Prop := s'.Ordered ∧ s.catalog <+: s'.catalog

theorem Moves.appends {clock : Clock} {action : Action} (h : Moves env clock s₁ id action s')
    (ho : s.Ordered) (htasks : s₁.tasks = s.tasks) (hseq : s₁.taskSeq = s.taskSeq) :
    Appends s s':= by
  obtain ⟨row, d, terminal, hload, -, -, -, hs'⟩ := h
  have hrow : s.tasks.find? id = some row := htasks ▸ hload.stored
  have hsaved : entry (id, row.saved d) = entry (id, row) := rfl
  have hsame : s'.catalog = s.catalog := catalog_put hrow hsaved (by rw [hs', ← htasks])
  have hcount : s'.taskSeq = s.taskSeq := by
    rw [hs']
    exact hseq
  refine ⟨?_, hsame ▸ List.prefix_refl _⟩
  rw [Store.Ordered, hsame, hcount]
  exact ho

theorem Effect.appends {op : Op} {a : Answer} (h : Effect env s op a s') (ho : s.Ordered) :
    Appends s s':= by
  cases h with
  | attach _ _ _ _ _ _ _ _ _ _ _ hmoves | cancelJobTask _ _ _ _ _ _ _ _ _ hmoves
  | moved _ _ _ _ _ _ hmoves => exact hmoves.appends ho rfl rfl
  | start _ _ _ _ _ _ _ _ _ _ _ _ hstarts =>
    have hcatalog := hstarts.catalog ho
    refine ⟨?_, hcatalog ▸ List.prefix_append ..⟩
    rw [Store.Ordered, hcatalog, hstarts.taskSeq, List.map_append, List.range'_concat,
      show s.catalog.map Entry.ordinal = _ from ho]
    rw [Nat.one_mul, Nat.add_comm 1]
    rfl
  | idle | enqueue | claim | update | interrupt | cancelJob | clear | cancelled =>
    exact ⟨ho, List.prefix_refl _⟩

theorem steps_ordered (h : (machine env).Steps s₀ tr s) (h0 : s₀.Initial) :
    s.Ordered := by
  induction h with
  | refl =>
    rw [Store.Ordered, Store.catalog, h0.2.2.1, h0.2.2.2.1,
      show (Table.empty : Table String TaskRow).rows.map entry = [] from rfl, List.mergeSort_nil]
    rfl
  | snoc _ _ hst ih =>
    rcases step_cases hst with ⟨_, -, rfl⟩ | ⟨a, -, heffect⟩
    · exact ih
    · exact (heffect.appends ih).1

theorem steps_catalog (h : (machine env).Steps s tr s') (ho : s.Ordered) :
    s'.Ordered ∧ s.catalog <+: s'.catalog := by
  induction h with
  | refl => exact ⟨ho, List.prefix_refl _⟩
  | snoc _ _ hst ih =>
    rcases step_cases hst with ⟨_, -, rfl⟩ | ⟨a, -, heffect⟩
    · exact ih
    · obtain ⟨hordered, hgrown⟩ := heffect.appends ih.1
      exact ⟨hordered, ih.2.trans hgrown⟩

/-! ### Newest first -/

/-- The entries of a conversation, or all of them, newest first. -/
def recent (conversationId : Option String) (catalog : List Entry) : List Entry :=
  (catalog.filter fun e => conversationId.all fun id => e.conversationId == id).reverse

theorem recent_append (conversationId : Option String) (a b : List Entry) :
    recent conversationId (a ++ b) = recent conversationId b ++ recent conversationId a := by
  rw [recent, List.filter_append, List.reverse_append]
  rfl

theorem mem_recent {catalog : List Entry} :
    e ∈ recent conversationId catalog ↔
      e ∈ catalog ∧ (conversationId.all fun id => e.conversationId == id) = true := by
  rw [recent, List.mem_reverse, List.mem_filter]

theorem Store.Ordered.recent (h : s.Ordered) (conversationId : Option String) :
    (recent conversationId s.catalog).Pairwise fun a b => b.ordinal < a.ordinal :=
  List.pairwise_reverse.mpr (h.strict.filter _)

/-- Whether a page with this selection may show an entry. -/
def HistoryCursor.selects (c : HistoryCursor) (e : Entry) : Bool :=
  decide (e.ordinal ≤ c.high) && decide (e.ordinal < c.before)

theorem historyRows_entries (ho : s.Ordered) (conversationId : Option String)
    (selection : HistoryCursor) :
    (s.historyRows conversationId selection).map entry
      = (recent conversationId s.catalog).filter selection.selects := by
  let chosen (e : Entry) : Bool :=
    selection.selects e && conversationId.all fun id => e.conversationId == id
  have hperm : ((s.historyRows conversationId selection).map entry).Perm
      ((recent conversationId s.catalog).filter selection.selects) := by
    have hleft : ((s.historyRows conversationId selection).map entry).Perm
        ((s.tasks.rows.map entry).filter chosen) := by
      rw [List.filter_map]
      exact (List.mergeSort_perm ..).map entry
    have hright : ((recent conversationId s.catalog).filter selection.selects).Perm
        (s.catalog.filter chosen) := by
      rw [recent, List.filter_reverse, List.filter_filter]
      exact List.reverse_perm _
    exact hleft.trans (((catalog_perm s).symm.filter chosen).trans hright.symm)
  have hright := (ho.recent conversationId).filter selection.selects
  have hleft : ((s.historyRows conversationId selection).map entry).Pairwise
      fun a b => b.ordinal ≤ a.ordinal := by
    rw [List.pairwise_map]
    exact Paging.pairwise_descending (fun r : String × TaskRow => r.2.ordinal) _
  refine List.Perm.eq_of_pairwise ?_ hleft (hright.imp Nat.le_of_lt) hperm
  intro a b ha hb hab hba
  have hcatalog {e : Entry} (he : e ∈ (recent conversationId s.catalog).filter selection.selects) :
      e ∈ s.catalog := (mem_recent.mp (List.mem_filter.mp he).1).1
  exact List.inj_on_of_nodup_map ho.nodup (hcatalog (hperm.mem_iff.mp ha)) (hcatalog hb)
    (Nat.le_antisymm hba hab)

theorem recent_below (h1 : s₁.Ordered) (hs : s.Ordered) (hgrown : s₁.catalog <+: s.catalog)
    (conversationId : Option String) (hhigh : c.high = s₁.taskSeq) :
    (recent conversationId s.catalog).filter c.selects
      = (recent conversationId s₁.catalog).filter fun e => decide (e.ordinal < c.before) := by
  obtain ⟨newer, hnewer⟩ := hgrown
  have hlater : ∀ e ∈ newer, s₁.taskSeq < e.ordinal := by
    intro e he
    have hordinals : s.catalog.map Entry.ordinal = List.range' 1 s.taskSeq := hs
    rw [← hnewer, List.map_append, show s₁.catalog.map Entry.ordinal = _ from h1] at hordinals
    have hlength := congrArg List.length hordinals
    rw [List.length_append, List.length_range', List.length_range'] at hlength
    rw [← hlength, ← List.range'_append_1, List.append_cancel_left_eq] at hordinals
    have hmem : e.ordinal ∈ newer.map Entry.ordinal := List.mem_map_of_mem he
    rw [hordinals, List.mem_range'_1] at hmem
    omega
  have hnone : (recent conversationId newer).filter c.selects = [] := by
    refine List.filter_eq_nil_iff.mpr fun e he => ?_
    have hordinal := hlater e (mem_recent.mp he).1
    rw [HistoryCursor.selects, Bool.and_eq_true, decide_eq_true_iff]
    omega
  rw [← hnewer, recent_append, List.filter_append, hnone, List.nil_append]
  refine List.filter_congr fun e he => ?_
  have hordinal := (h1.mem (mem_recent.mp he).1).2
  rw [HistoryCursor.selects, decide_eq_true (by omega), Bool.true_and]

/-! ### Cursors -/

/-- A cursor of this store and this conversation, as a page returns it. -/
structure HistoryCursor.Offered (c : HistoryCursor) (ns : ExecutionNamespace)
    (conversationId : Option String) : Prop where
  version : c.version = 1
  namespaceValue : c.namespaceValue = ns.value.text
  conversation : c.conversation = conversationId
  before : 1 ≤ c.before
  order : c.before ≤ c.high
  high : c.high ≤ MAX_TASKS

theorem HistoryCursor.Offered.size {ns : ExecutionNamespace} (h : c.Offered ns conversationId)
    (hconversation : conversationId.all idValid = true) : c.toJson.size ≤ 512 := by
  have hkeys : Json.keysSize ["version", "namespace", "conversation", "high", "before"] ≤ 60 := by
    decide
  have hnumber {n : ℕ} (hn : n ≤ MAX_TASKS) : (Json.nat n).size ≤ 3 :=
    Json.size_nat_le (by omega) (Nat.lt_of_le_of_lt hn (by decide))
  have hversion : (Json.nat c.version).size ≤ 3 := hnumber (h.version ▸ by decide)
  have hhigh := hnumber h.high
  have hbefore := hnumber (h.order.trans h.high)
  have hns : Json.strSize c.namespaceValue = 34 := by
    rw [h.namespaceValue]
    exact strSize_token ns.value.valid
  have hopt : (Json.opt .str c.conversation).size ≤ 130 := by
    refine Json.size_opt_le (by omega) fun id hid => ?_
    rw [h.conversation, Option.mem_def] at hid
    rw [hid, Option.all_some] at hconversation
    rw [Json.size_str]
    exact strSize_id hconversation
  refine (Json.size_obj_le _).trans ?_
  simp only [List.map_cons, List.map_nil, List.sum_cons, List.sum_nil, Json.size_str]
  omega

theorem HistoryCursor.decodable {c : HistoryCursor} (hsize : c.toJson.size ≤ 512) :
    decodable c.toJson = true := by
  have hshape : Shape c.toJson 1 := by
    refine shape_obj ["version", "namespace", "conversation", "high", "before"] rfl (by decide) ?_
    simp
  have hvalues : values c.toJson ≤ 6 := by
    have hopt : values (.opt .str c.conversation) ≤ 1 := values_opt_le le_rfl fun _ _ => by simp
    simp only [HistoryCursor.toJson, values_obj, List.map_cons, List.map_nil, List.sum_cons,
      List.sum_nil, values_nat, values_str]
    omega
  exact decodable_of_shape hshape (by omega) (hsize.trans (by decide)) (hvalues.trans (by omega))

theorem historySelection_some (h : c.Offered s.ns conversationId)
    (hconversation : conversationId.all idValid = true) :
    s.historySelection conversationId (some c) = .ok c := by
  have hsize := h.size hconversation
  have hbefore := h.before
  simp only [Store.historySelection, bind_eq_ok, ensure_eq_ok, pure_eq_ok]
  exact ⟨(), ⟨hsize, HistoryCursor.decodable hsize⟩, (),
    ⟨h.version, h.namespaceValue, h.conversation, by omega, h.order⟩, trivial⟩

theorem foldr_max_le_iff {l : List ℕ} {n : ℕ} : l.foldr max 0 ≤ n ↔ ∀ m ∈ l, m ≤ n := by
  induction l with
  | nil => simp
  | cons m l ih => rw [List.foldr_cons, Nat.max_le, ih, List.forall_mem_cons]

theorem Store.Ordered.maxOrdinal (h : s.Ordered) : s.maxOrdinal = s.taskSeq := by
  have hmem (n : ℕ) : n ∈ (s.tasks.rows.map fun r => r.2.ordinal) ↔ 1 ≤ n ∧ n < 1 + s.taskSeq := by
    have hperm := ((catalog_perm s).map Entry.ordinal).mem_iff (a := n)
    rw [show s.catalog.map Entry.ordinal = _ from h, List.mem_range'_1, List.map_map] at hperm
    exact hperm.symm
  refine Nat.le_antisymm (foldr_max_le_iff.mpr fun n hn => ?_) ?_
  · have := (hmem n).mp hn
    omega
  · rcases Nat.eq_zero_or_pos s.taskSeq with hzero | hpos
    · omega
    · exact foldr_max_le_iff.mp (Nat.le_refl _) _ ((hmem _).mpr ⟨hpos, by omega⟩)

/-! ### One page -/

/-- What reading relies on. -/
structure Readable (env : Env) (s : Store) : Prop where
  ordered : s.Ordered
  sound : ∀ id row, s.tasks.find? id = some row → Sound env s.ns id row
  room : s.taskSeq ≤ MAX_TASKS

theorem steps_readable (h : (machine env).Steps s₀ tr s) (h0 : s₀.Initial) :
    Readable env s := by
  have ho := steps_ordered h h0
  exact ⟨ho, steps_sound h h0, ho.length ▸ (steps_bounded h h0).tasks⟩

def summaryOf (r : String × TaskRow) : InvestigationSummary := r.2.record.detail.summary

theorem Readable.item {env : Env} (h : Readable env s) {r : String × TaskRow}
    (hr : r ∈ s.tasks.rows) : s.historyItem env r = .ok (summaryOf r) := by
  have hfind : s.tasks.find? r.1 = some r.2 := Table.find?_eq_some_iff.mpr hr
  have hsound := h.sound r.1 r.2 hfind
  obtain ⟨-, -, hid, -⟩ := hsound.valid.fields
  have hordinal := (h.ordered.mem (mem_catalog.mpr ⟨r, hr, rfl⟩)).1
  simp only [Store.historyItem, encode, bind_eq_ok, ensure_eq_ok, pure_eq_ok]
  refine ⟨(), idValid_size (hsound.investigationId ▸ hid), (), ?_, r.2, hsound.loadTask hfind, (),
    hsound.valid.summary, rfl⟩
  show r.2.ordinal ≠ 0
  exact Nat.ne_of_gt hordinal

theorem fillHistory_eq (h : Readable env s) :
    ∀ (rows : List (String × TaskRow)) (items : List InvestigationSummary) (remaining before : ℕ),
      (∀ r ∈ rows, r ∈ s.tasks.rows) → items.length ≤ 50 →
      let k := Paging.fits (fun r => (summaryOf r).toJson.size) (50 - items.length) remaining rows
      s.fillHistory env items remaining before rows
        = .ok (items ++ (rows.take k).map summaryOf,
          (((rows.take k).getLast?).map fun r => r.2.ordinal).getD before,
          decide (k < rows.length)) := by
  intro rows
  induction rows with
  | nil =>
    intro items remaining before _ _
    simp [Store.fillHistory]
    rfl
  | cons r rest ih =>
    intro items remaining before hrows hitems
    obtain ⟨hr, hrest⟩ := List.forall_mem_cons.mp hrows
    rw [Store.fillHistory, h.item hr]
    show (if items.length = 50 ∨ remaining < (summaryOf r).toJson.size + 1 then _ else _) = _
    by_cases hfull : items.length = 50
    · rw [if_pos (.inl hfull), hfull]
      simp [Paging.fits]
      rfl
    · obtain ⟨places, hplaces⟩ : ∃ places, 50 - items.length = places + 1 :=
        ⟨50 - items.length - 1, by omega⟩
      rw [hplaces, Paging.fits]
      by_cases hbig : remaining < (summaryOf r).toJson.size + 1
      · rw [if_pos (.inr hbig), if_pos hbig]
        simp
        rfl
      · rw [if_neg (by rintro (h | h) <;> contradiction), if_neg hbig]
        have hlength : 50 - (items ++ [summaryOf r]).length = places := by
          rw [List.length_append, List.length_singleton]
          omega
        have hnext := ih (items ++ [summaryOf r]) (remaining - ((summaryOf r).toJson.size + 1))
          r.2.ordinal hrest (by rw [List.length_append, List.length_singleton]; omega)
        rw [hlength] at hnext
        rw [hnext, List.take_succ_cons, List.map_cons, List.append_assoc, List.singleton_append,
          List.getLast?_cons, List.length_cons]
        cases (rest.take _).getLast? with
        | none => simp
        | some last => simp

theorem mem_historyRows {r : String × TaskRow} (h : r ∈ s.historyRows conversationId selection) :
    r ∈ s.tasks.rows ∧ r.2.ordinal ≤ selection.high := by
  obtain ⟨hr, hselects⟩ := List.mem_filter.mp (List.mem_mergeSort.mp h)
  simp only [Bool.and_eq_true, decide_eq_true_eq] at hselects
  exact ⟨hr, hselects.1.1⟩

theorem size_page {page : InvestigationPage}
    (hitems : (page.items.map fun item => 1 + item.toJson.size).sum ≤ 256 * 1024 - 4096)
    (hcursor : ∀ c ∈ page.nextCursor, c.toJson.size ≤ 512) : page.toJson.size ≤ 256 * 1024 := by
  have hkeys : Json.keysSize ["items", "next_cursor"] ≤ 32 := by decide
  have harr := Json.size_arr_le (page.items.map InvestigationSummary.toJson)
  rw [List.map_map] at harr
  have hsum : (page.items.map ((fun j => 1 + Json.size j) ∘ InvestigationSummary.toJson)).sum
      ≤ 256 * 1024 - 4096 := hitems
  have hopt : (Json.opt (fun c => .str (HistoryCursor.toJson c).render) page.nextCursor).size
      ≤ 3074 := by
    refine Json.size_opt_le (by omega) fun c hc => ?_
    have hsize := hcursor c hc
    rw [Json.size_eq] at hsize
    rw [Json.size_str]
    exact strSize_le hsize
  refine (Json.size_obj_le _).trans ?_
  simp only [List.map_cons, List.map_nil, List.sum_cons, List.sum_nil]
  omega

theorem history_of_fill {items : List InvestigationSummary} {before : ℕ} {more : Bool}
    (next : Option HistoryCursor) (hconversation : conversationId.all idValid = true)
    (hselection : s.historySelection conversationId cursor = .ok selection)
    (hfill : s.fillHistory env [] (256 * 1024 - 4096) selection.before
      ((s.historyRows conversationId selection).take 51) = .ok (items, before, more))
    (hnext : (if more then some { selection with before := before } else none) = next)
    (hitems : (items.map fun item => 1 + item.toJson.size).sum ≤ 256 * 1024 - 4096)
    (hcursor : ∀ c ∈ next, c.toJson.size ≤ 512) :
    s.investigationHistory env conversationId cursor = .ok ⟨items, next⟩
      ∧ (⟨items, next⟩ : InvestigationPage).toJson.size ≤ 256 * 1024 := by
  have hpage : (⟨items, next⟩ : InvestigationPage).toJson.size ≤ 256 * 1024 :=
    size_page hitems hcursor
  refine ⟨?_, hpage⟩
  subst hnext
  simp only [Store.investigationHistory, encode, bind_eq_ok, ensure_eq_ok, pure_eq_ok]
  exact ⟨(), hconversation, selection, hselection, (items, before, more), hfill, (), hcursor, (),
    hpage, rfl⟩

/-- A page within its limits: the first items of what it may show, all of them or at least
one, and then a cursor behind the last one. -/
theorem page_ok (h : Readable env s) (hconversation : conversationId.all idValid = true)
    (hselection : s.historySelection conversationId cursor = .ok selection)
    (hhigh : selection.high ≤ s.taskSeq) (hversion : selection.version = 1)
    (hns : selection.namespaceValue = s.ns.value.text)
    (hfilter : selection.conversation = conversationId) :
    ∃ page k, s.investigationHistory env conversationId cursor = .ok page
      ∧ page.items = ((s.historyRows conversationId selection).take k).map summaryOf
      ∧ page.toJson.size ≤ 256 * 1024
      ∧ (page.nextCursor = none ∧ (s.historyRows conversationId selection).length ≤ k
        ∨ ∃ r, 0 < k ∧ k < (s.historyRows conversationId selection).length
          ∧ ((s.historyRows conversationId selection).take k).getLast? = some r
          ∧ page.nextCursor = some { selection with before := r.2.ordinal }
          ∧ ({ selection with before := r.2.ordinal } : HistoryCursor).Offered s.ns
            conversationId) := by
  set rows := s.historyRows conversationId selection with hrows
  set k := Paging.fits (fun r => (summaryOf r).toJson.size) 50 (256 * 1024 - 4096) (rows.take 51)
    with hk
  have hplaces : k ≤ 50 := Paging.fits_le_places ..
  have hmem : ∀ r ∈ rows.take 51, r ∈ s.tasks.rows := fun r hr =>
    (mem_historyRows (List.mem_of_mem_take hr)).1
  have htake : (rows.take 51).take k = rows.take k := by
    rw [List.take_take, Nat.min_eq_left (by omega)]
  -- the loop over the rows takes what fits
  have hfill := fillHistory_eq h (rows.take 51) [] (256 * 1024 - 4096) selection.before hmem
    (Nat.zero_le _)
  simp only [List.length_nil, Nat.sub_zero, ← hk, htake, List.nil_append, List.length_take] at hfill
  have hroom : (((rows.take k).map summaryOf).map fun item => 1 + item.toJson.size).sum
      ≤ 256 * 1024 - 4096 := by
    rw [← htake, List.map_map]
    exact Paging.sum_fits ..
  by_cases hmore : k < rows.length
  · -- the first item always fits
    have hpos : 0 < k := by
      obtain ⟨r, rest, hcons⟩ : ∃ r rest, rows = r :: rest :=
        List.exists_cons_of_ne_nil (List.ne_nil_of_length_pos (by omega))
      have hr : r ∈ s.tasks.rows := (mem_historyRows (hcons ▸ List.mem_cons_self ..)).1
      have hsummary := (h.sound r.1 r.2 (Table.find?_eq_some_iff.mpr hr)).valid.summary
      rw [hk, hcons, List.take_succ_cons]
      refine Paging.fits_pos (by omega) ?_
      show r.2.record.detail.summary.toJson.size + 1 ≤ 256 * 1024 - 4096
      omega
    -- the cursor stands behind the last item that is shown
    obtain ⟨r, hlast⟩ : ∃ r, (rows.take k).getLast? = some r := by
      refine Option.ne_none_iff_exists'.mp fun hnone => ?_
      have hlength := congrArg List.length (List.getLast?_eq_none_iff.mp hnone)
      rw [List.length_take, List.length_nil] at hlength
      omega
    obtain ⟨hr, hbelow⟩ := mem_historyRows (List.mem_of_mem_take (List.mem_of_getLast? hlast))
    have hordinal := (h.ordered.mem (mem_catalog.mpr ⟨r, hr, rfl⟩)).1
    have hoffered : ({ selection with before := r.2.ordinal } : HistoryCursor).Offered s.ns
        conversationId :=
      ⟨hversion, hns, hfilter, hordinal, hbelow, hhigh.trans h.room⟩
    rw [hlast, decide_eq_true (by omega)] at hfill
    obtain ⟨hread, hsize⟩ := history_of_fill (some { selection with before := r.2.ordinal })
      hconversation hselection hfill rfl hroom
      (fun c hc => Option.mem_some.mp hc ▸ hoffered.size hconversation)
    exact ⟨_, k, hread, rfl, hsize, .inr ⟨r, hpos, hmore, hlast, rfl, hoffered⟩⟩
  · rw [decide_eq_false (by omega)] at hfill
    obtain ⟨hread, hsize⟩ := history_of_fill none hconversation hselection hfill rfl hroom
      (fun c hc => absurd hc (by simp))
    exact ⟨_, k, hread, rfl, hsize, .inl ⟨rfl, by omega⟩⟩

/-! ### Following the cursors -/

/-- Pages read one after the other: the first one from `s₁` without a cursor, each other one
with the cursor of the page before it, after any operations. -/
inductive Pages (env : Env) (conversationId : Option String) (s₁ : Store) :
    List InvestigationPage → Store → Option HistoryCursor → Prop
  | first {page : InvestigationPage} :
      s₁.investigationHistory env conversationId none = .ok page →
      Pages env conversationId s₁ [page] s₁ page.nextCursor
  | next {pages : List InvestigationPage} {s s' : Store} {tr : List Event} {cursor : HistoryCursor}
      {page : InvestigationPage} :
      Pages env conversationId s₁ pages s (some cursor) → (machine env).Steps s tr s' →
      s'.investigationHistory env conversationId (some cursor) = .ok page →
      Pages env conversationId s₁ (pages ++ [page]) s' page.nextCursor

def shownIds (pages : List InvestigationPage) : List String :=
  pages.flatMap fun page => page.items.map fun item => item.investigationId

/-- Where a reader stands after the first `k` entries of the history it began with. -/
structure Standing (conversationId : Option String) (s₁ s : Store) (k : ℕ)
    (c : HistoryCursor) : Prop where
  version : c.version = 1
  namespaceValue : c.namespaceValue = s.ns.value.text
  conversation : c.conversation = conversationId
  high : c.high = s₁.taskSeq
  rest : ((recent conversationId s₁.catalog).filter fun e => decide (e.ordinal < c.before))
    = (recent conversationId s₁.catalog).drop k

theorem Standing.read {k : ℕ} (h1 : s₁.Ordered) (h : Readable env s)
    (hgrown : s₁.catalog <+: s.catalog) (hconversation : conversationId.all idValid = true)
    (hselection : s.historySelection conversationId cursor = .ok selection)
    (hstanding : Standing conversationId s₁ s k selection) :
    ∃ page j, s.investigationHistory env conversationId cursor = .ok page
      ∧ page.items.map (fun item => item.investigationId)
        = (((recent conversationId s₁.catalog).drop k).take j).map Entry.id
      ∧ page.toJson.size ≤ 256 * 1024
      ∧ (page.nextCursor = none ∧ (recent conversationId s₁.catalog).length ≤ k + j
        ∨ ∃ c, 0 < j ∧ k + j < (recent conversationId s₁.catalog).length ∧ page.nextCursor = some c
          ∧ c.Offered s.ns conversationId ∧ Standing conversationId s₁ s (k + j) c) := by
  have hentries : (s.historyRows conversationId selection).map entry
      = (recent conversationId s₁.catalog).drop k := by
    rw [historyRows_entries h.ordered, recent_below h1 h.ordered hgrown _ hstanding.high,
      hstanding.rest]
  have hhigh : selection.high ≤ s.taskSeq := by
    rw [hstanding.high, ← h1.length, ← h.ordered.length]
    have hlength := hgrown.length_le
    rwa [(catalog_perm s₁).length_eq, (catalog_perm s).length_eq, List.length_map,
      List.length_map] at hlength
  obtain ⟨page, j, hread, hitems, hsize, hnext⟩ := page_ok h hconversation hselection hhigh
    hstanding.version hstanding.namespaceValue hstanding.conversation
  refine ⟨page, j, hread, ?_, hsize, ?_⟩
  · rw [hitems, ← hentries, List.map_map, ← List.map_take, List.map_map]
    refine List.map_congr_left fun r hr => ?_
    have hrow := (mem_historyRows (List.mem_of_mem_take hr)).1
    exact (h.sound r.1 r.2 (Table.find?_eq_some_iff.mpr hrow)).investigationId
  have hlength : (s.historyRows conversationId selection).length
      = (recent conversationId s₁.catalog).length - k := by
    rw [← List.length_map entry, hentries, List.length_drop]
  rcases hnext with ⟨hnone, hall⟩ | ⟨r, hpos, hmore, hlast, hsome, hoffered⟩
  · exact .inl ⟨hnone, by omega⟩
  · refine .inr ⟨_, hpos, by omega, hsome, hoffered, hstanding.version, hstanding.namespaceValue,
      hstanding.conversation, hstanding.high, ?_⟩
    have hend : ((recent conversationId s₁.catalog).take (k + j)).getLast? = some (entry r) := by
      rw [List.take_add, List.getLast?_append, ← hentries, ← List.map_take, List.getLast?_map, hlast]
      rfl
    exact Paging.filter_lt_getLast (h1.recent conversationId) hend

/-- What was read so far: the first entries of the history at the first page. -/
structure Pages.Progress (conversationId : Option String) (s₁ s : Store)
    (pages : List InvestigationPage) (cursor : Option HistoryCursor) (k : ℕ) : Prop where
  ids : shownIds pages = ((recent conversationId s₁.catalog).take k).map Entry.id
  sizes : ∀ page ∈ pages, page.toJson.size ≤ 256 * 1024
  count : pages.length ≤ (recent conversationId s₁.catalog).length + 1
  next : cursor = none ∧ (recent conversationId s₁.catalog).length ≤ k
    ∨ ∃ c, cursor = some c ∧ pages.length ≤ k ∧ k < (recent conversationId s₁.catalog).length
      ∧ c.Offered s.ns conversationId ∧ Standing conversationId s₁ s k c

theorem standing_first (h : s.Ordered) (hroom : s.taskSeq ≤ MAX_TASKS)
    (conversationId : Option String) :
    ∃ selection, s.historySelection conversationId none = .ok selection
      ∧ Standing conversationId s s 0 selection := by
  have hmax := h.maxOrdinal
  have hrowid : MAX_TASKS + 1 ≤ MAX_ROWID := by decide
  refine ⟨⟨1, s.ns.value.text, conversationId, s.maxOrdinal, s.maxOrdinal + 1⟩, ?_, rfl, rfl, rfl,
    hmax, ?_⟩
  · simp only [Store.historySelection, bind_eq_ok, ensure_eq_ok, pure_eq_ok]
    exact ⟨(), by omega, trivial⟩
  · rw [List.drop_zero]
    refine List.filter_eq_self.mpr fun e he => decide_eq_true ?_
    have hordinal := (h.mem (mem_recent.mp he).1).2
    show e.ordinal < s.maxOrdinal + 1
    omega

theorem Pages.progress {pages : List InvestigationPage} (h0 : s₀.Initial)
    (hs1 : (machine env).Steps s₀ tr s₁) (hconversation : conversationId.all idValid = true)
    (h : Pages env conversationId s₁ pages s cursor) :
    ∃ tr' k, (machine env).Steps s₁ tr' s ∧ s.ns = s₁.ns
      ∧ Pages.Progress conversationId s₁ s pages cursor k := by
  have hr1 := steps_readable hs1 h0
  induction h with
  | @first page hread =>
    obtain ⟨selection, hselection, hstanding⟩ := standing_first hr1.ordered hr1.room conversationId
    obtain ⟨page', j, hread', hids, hsize, hnext⟩ := hstanding.read hr1.ordered hr1
      (List.prefix_refl _) hconversation hselection
    obtain rfl : page = page' := Except.ok.inj (hread.symm.trans hread')
    refine ⟨[], j, .refl, rfl, ?_, ?_, by simp, ?_⟩
    · rw [shownIds, List.flatMap_singleton, hids, List.drop_zero]
    · intro p hp
      rw [List.mem_singleton.mp hp]
      exact hsize
    · rcases hnext with ⟨hnone, hall⟩ | ⟨c, hpos, hmore, hsome, hoffered, hstanding⟩
      · exact .inl ⟨hnone, by omega⟩
      · rw [Nat.zero_add] at hmore hstanding
        exact .inr ⟨c, hsome, hpos, hmore, hoffered, hstanding⟩
  | @next pages s s' tr1 cursor page hpages hsteps hread ih =>
    obtain ⟨tr', k, hbefore, hns, hids, hsizes, hcount, hnext⟩ := ih
    rcases hnext with ⟨hnone, -⟩ | ⟨c, hsome, hlength, hk, hoffered, hstanding⟩
    · exact absurd hnone (by simp)
    obtain rfl : cursor = c := Option.some.inj hsome
    have hsteps' := hbefore.trans hsteps
    have hns' : s'.ns = s.ns := steps_ns hsteps
    have hr' := steps_readable (hs1.trans hsteps') h0
    have hgrown := (steps_catalog hsteps' hr1.ordered).2
    have hselection := historySelection_some (hns' ▸ hoffered) hconversation
    -- the cursor still stands where it stood, whatever was started since
    have hstanding' : Standing conversationId s₁ s' k cursor :=
      ⟨hstanding.version, hns' ▸ hstanding.namespaceValue, hstanding.conversation, hstanding.high,
        hstanding.rest⟩
    obtain ⟨page', j, hread', hids', hsize, hnext⟩ := hstanding'.read hr1.ordered hr' hgrown
      hconversation hselection
    obtain rfl : page = page' := Except.ok.inj (hread.symm.trans hread')
    refine ⟨tr' ++ tr1, k + j, hsteps', hns'.trans hns, ?_, ?_, ?_, ?_⟩
    · rw [shownIds, List.flatMap_append, List.flatMap_singleton, hids', List.take_add, List.map_append,
        ← hids]
      rfl
    · intro p hp
      rcases List.mem_append.mp hp with hp | hp
      · exact hsizes p hp
      · rw [List.mem_singleton.mp hp]
        exact hsize
    · rw [List.length_append, List.length_singleton]
      omega
    · rcases hnext with ⟨hnone, hall⟩ | ⟨c, hpos, hmore, hsome, hoffered, hstanding⟩
      · exact .inl ⟨hnone, hall⟩
      · refine .inr ⟨c, hsome, ?_, hmore, hoffered, hstanding⟩
        rw [List.length_append, List.length_singleton]
        omega

theorem recent_rows (h1 : s₁.Ordered) (hs : s.Ordered) (hgrown : s₁.catalog <+: s.catalog)
    (conversationId : Option String) :
    ∃ rows : List (String × TaskRow), rows.map entry = recent conversationId s₁.catalog
      ∧ rows.Pairwise (fun a b => b.2.ordinal < a.2.ordinal)
      ∧ ∀ r, r ∈ rows ↔ r ∈ s.tasks.rows ∧ r.2.ordinal ≤ s₁.maxOrdinal
        ∧ ∀ id ∈ conversationId, r.2.conversationId = id := by
  let selection : HistoryCursor := ⟨1, "", conversationId, s₁.taskSeq, s₁.taskSeq + 1⟩
  have hentries : (s.historyRows conversationId selection).map entry
      = recent conversationId s₁.catalog := by
    rw [historyRows_entries hs, recent_below h1 hs hgrown _ rfl]
    refine List.filter_eq_self.mpr fun e he => decide_eq_true ?_
    have hordinal := (h1.mem (mem_recent.mp he).1).2
    show e.ordinal < s₁.taskSeq + 1
    omega
  have hsorted := h1.recent conversationId
  rw [← hentries, List.pairwise_map] at hsorted
  refine ⟨s.historyRows conversationId selection, hentries, hsorted, fun r => ?_⟩
  rw [Store.historyRows, List.mem_mergeSort, List.mem_filter, h1.maxOrdinal]
  simp only [Bool.and_eq_true, decide_eq_true_eq]
  have hfilter : (conversationId.all fun id => r.2.conversationId == id) = true
      ↔ ∀ id ∈ conversationId, r.2.conversationId = id := by
    cases conversationId with
    | none => simp
    | some id => simp
  rw [hfilter]
  show _ ∧ (r.2.ordinal ≤ s₁.taskSeq ∧ r.2.ordinal < s₁.taskSeq + 1) ∧ _ ↔ _
  constructor
  · rintro ⟨hr, ⟨hle, -⟩, hconversation⟩
    exact ⟨hr, hle, hconversation⟩
  · rintro ⟨hr, hle, hconversation⟩
    exact ⟨hr, ⟨hle, by omega⟩, hconversation⟩

/-- Reading the history, whatever happens between the pages: every read succeeds within its
limits and there are not more pages than tasks and one; and when no cursor is left, the ids shown
are those of the tasks up to the high-water mark, newest first. -/
theorem history_cut (h0 : s₀.Initial) (hs1 : (machine env).Steps s₀ tr s₁)
    (hconversation : conversationId.all idValid = true) :
    (∃ page, s₁.investigationHistory env conversationId none = .ok page)
    ∧ ∀ pages s cursor, Pages env conversationId s₁ pages s cursor →
      (∀ page ∈ pages, page.toJson.size ≤ 256 * 1024)
      ∧ pages.length ≤ s₁.tasks.rows.length + 1
      ∧ (∀ c ∈ cursor, ∀ tr' s', (machine env).Steps s tr' s' →
        ∃ page, s'.investigationHistory env conversationId (some c) = .ok page)
      ∧ (cursor = none → (shownIds pages).Nodup
        ∧ ∃ rows : List (String × TaskRow), shownIds pages = rows.map Prod.fst
        ∧ rows.Pairwise (fun a b => b.2.ordinal < a.2.ordinal)
        ∧ ∀ r, r ∈ rows ↔ r ∈ s.tasks.rows ∧ r.2.ordinal ≤ s₁.maxOrdinal
          ∧ ∀ id ∈ conversationId, r.2.conversationId = id) := by
  have hr1 := steps_readable hs1 h0
  refine ⟨?_, ?_⟩
  · obtain ⟨selection, hselection, hstanding⟩ := standing_first hr1.ordered hr1.room conversationId
    obtain ⟨page, _, hread, -⟩ := hstanding.read hr1.ordered hr1 (List.prefix_refl _) hconversation
      hselection
    exact ⟨page, hread⟩
  · intro pages s cursor hpages
    obtain ⟨tr', k, hsteps, hns, hprogress⟩ := hpages.progress h0 hs1 hconversation
    have hgrown := steps_catalog hsteps hr1.ordered
    refine ⟨hprogress.sizes, ?_, ?_, ?_⟩
    · -- a page shows at least one task, or it is the last
      have hcount := hprogress.count
      have hlength : (recent conversationId s₁.catalog).length ≤ s₁.tasks.rows.length := by
        rw [recent, List.length_reverse]
        refine (List.length_filter_le _ _).trans ?_
        rw [(catalog_perm s₁).length_eq, List.length_map]
      omega
    · intro c hc tr2 s₂ hsteps2
      rcases hprogress.next with ⟨hnone, -⟩ | ⟨c', hsome, -, -, hoffered, hstanding⟩
      · rw [hnone] at hc
        exact absurd hc (by simp)
      obtain rfl : c = c' := Option.some.inj ((Option.mem_def.mp hc).symm.trans hsome)
      -- cursors are bound to a namespace, which no step changes
      have hns2 : s₂.ns = s.ns := steps_ns hsteps2
      have hr2 := steps_readable ((hs1.trans hsteps).trans hsteps2) h0
      have hgrown2 := (steps_catalog (hsteps.trans hsteps2) hr1.ordered).2
      obtain ⟨page, _, hread, -⟩ := Standing.read hr1.ordered hr2 hgrown2 hconversation
        (historySelection_some (hns2 ▸ hoffered) hconversation)
        ⟨hstanding.version, hns2 ▸ hstanding.namespaceValue, hstanding.conversation, hstanding.high,
          hstanding.rest⟩
      exact ⟨page, hread⟩
    · intro hnone
      rcases hprogress.next with ⟨-, hall⟩ | ⟨c, hsome, -⟩
      · obtain ⟨rows, hentries, hsorted, hmem⟩ :=
          recent_rows hr1.ordered hgrown.1 hgrown.2 conversationId
        have hids : shownIds pages = rows.map Prod.fst := by
          rw [hprogress.ids, List.take_of_length_le hall, ← hentries, List.map_map]
          rfl
        refine ⟨?_, rows, hids, hsorted, hmem⟩
        rw [hids]
        -- ordinals fall strictly, so no task is shown twice
        have hdistinct : rows.Nodup := hsorted.imp fun {a b} hlt heq => by
          rw [heq] at hlt
          exact Nat.lt_irrefl _ hlt
        refine List.Nodup.map_on ?_ hdistinct
        intro a ha b hb heq
        have ha' := Table.find?_eq_some_iff.mpr ((hmem a).mp ha).1
        have hb' := Table.find?_eq_some_iff.mpr ((hmem b).mp hb).1
        rw [heq, hb'] at ha'
        exact Prod.ext heq (Option.some.inj ha').symm
      · rw [hnone] at hsome
        exact absurd hsome (by simp)

end Jobs

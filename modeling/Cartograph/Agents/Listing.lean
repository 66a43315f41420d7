/-
Listing staged proposals (`ProposalStore::list` of `crates/agents/src/staging.rs`).

Rows are listed newest first, by their sequence numbers.  A page ends with a cursor that
carries the highest number the listing began with and the last number shown.

* `ProposalStore.list` — one page;
* `steps_later` — a run keeps the rows and their numbers, and gives new rows higher ones;
* `ListPages` — pages that follow the cursors, with any calls between them;
* `listing_complete` — they show the rows of the beginning, each once.

The text of a cursor is modelled by the value it renders; a text that does not decode to
one is refused like a value that fails its checks.
-/
import Cartograph.Lib.Paging
import Cartograph.Agents.Reviews

namespace Agents

open Investigation Checked

def MAX_STAGED_PAGE_ITEMS : ℕ := 50

structure HistoryCursor where
  version : ℕ
  ceiling : ℕ
  before : ℕ
  deriving DecidableEq

def HistoryCursor.toJson (c : HistoryCursor) : Json :=
  .obj [("version", .nat c.version), ("ceiling", .nat c.ceiling), ("before", .nat c.before)]

structure StagedProposalPage where
  items : List StagedProposal
  nextCursor : Option HistoryCursor
  deriving DecidableEq

/-- `parse_cursor`; the numbers are signed words, so zero stands for what is not positive. -/
def parseCursor (c : HistoryCursor) : Except StagingError HistoryCursor := do
  ensure (c.toJson.size ≤ 256) .invalidCursor
  ensure (c.ceiling ≤ I64_MAX ∧ c.version = 1 ∧ c.ceiling ≠ 0 ∧ c.before ≠ 0 ∧ c.before ≤ c.ceiling)
    .invalidCursor
  pure c

/-- The rows a page may show, newest first. -/
def ProposalStore.listRows (s : ProposalStore) (ceiling : ℕ) (before : Option ℕ) :
    List (String × StoredRow) :=
  (s.rows.filter fun r => decide (r.2.sequence ≤ ceiling)
    && before.all (fun n => decide (r.2.sequence < n))).mergeSort
      fun a b => decide (b.2.sequence ≤ a.2.sequence)

section List

variable (contentHash : String → Hash)

/-- Fill a page: the items, the number of the last one, and whether a row was left. -/
def fillPage (limit : ℕ) : List StagedProposal → Option ℕ → List (String × StoredRow) →
    Except StagingError (List StagedProposal × Option ℕ × Bool)
  | items, last, [] => pure (items, last, false)
  | items, last, row :: rest =>
    if items.length = limit then pure (items, last, true)
    else do
      let item ← decodeRow contentHash row.1 row.2
      fillPage limit (items ++ [item]) (some row.2.sequence) rest

/-- `list`. -/
def ProposalStore.list (s : ProposalStore) (limit : ℕ) (cursor : Option HistoryCursor) :
    Except StagingError StagedProposalPage := do
  ensure (limit ≠ 0 ∧ limit ≤ MAX_STAGED_PAGE_ITEMS) .invalidLimit
  let cursor ← cursor.mapM parseCursor
  let ceiling := (cursor.map HistoryCursor.ceiling).getD s.maxSequence
  let (items, last, more) ← fillPage contentHash limit [] none
    ((s.listRows ceiling (cursor.map HistoryCursor.before)).take (limit + 1))
  if more then do
    let before ← orFail last .invalidRecord
    pure ⟨items, some ⟨1, ceiling, before⟩⟩
  else pure ⟨items, none⟩

end List

/-! ### Numbers along a run -/

variable {contentHash : String → Hash}

variable {id : String} {s' s₁ : ProposalStore} {c : HistoryCursor} {cursor : Option HistoryCursor}
  {s : ProposalStore}

theorem sequence_le_max {row : StoredRow} (h : s.find? id = some row) :
    row.sequence ≤ s.maxSequence := by
  have hmem : row.sequence ∈ s.rows.map fun r => r.2.sequence :=
    List.mem_map.mpr ⟨(id, row), Table.find?_eq_some_iff.mp h, rfl⟩
  have hle : ∀ l : List ℕ, ∀ n ∈ l, n ≤ l.foldr max 0 := by
    intro l
    induction l with
    | nil => exact fun n hn => absurd hn List.not_mem_nil
    | cons m l ih =>
      refine List.forall_mem_cons.mpr ⟨Nat.le_max_left .., fun n hn => ?_⟩
      exact (ih n hn).trans (Nat.le_max_right ..)
  exact hle _ _ hmem

/-- What listing relies on: rows that are read, with different numbers that are words. -/
structure Listable (contentHash : String → Hash) (s : ProposalStore) : Prop where
  healthy : ∀ id row, s.find? id = some row → Healthy contentHash id row
  sequence : ∀ id row, s.find? id = some row → row.sequence ≠ 0 ∧ row.sequence ≤ I64_MAX
  distinct : ∀ id id' row row', s.find? id = some row → s.find? id' = some row' →
    row.sequence = row'.sequence → id = id'

/-- A later store has the rows it had, and new ones with higher numbers. -/
structure Later (s s' : ProposalStore) : Prop where
  kept : ∀ id row, s.find? id = some row → ∃ row', s'.find? id = some row' ∧ Kept row row'
  fresh : ∀ id row', s'.find? id = some row' → s.find? id = none → s.maxSequence < row'.sequence

theorem Later.refl (s : ProposalStore) : Later s s :=
  ⟨fun id row h => ⟨row, h, .refl row⟩, fun id row h hnone => by rw [h] at hnone; simp at hnone⟩

theorem maxSequence_attained (s : ProposalStore) :
    s.maxSequence = 0 ∨ ∃ id row, s.find? id = some row ∧ row.sequence = s.maxSequence := by
  have hattained : ∀ l : List ℕ, l.foldr max 0 = 0 ∨ l.foldr max 0 ∈ l := by
    intro l
    induction l with
    | nil => exact .inl rfl
    | cons n l ih =>
      rw [List.foldr_cons]
      rcases Nat.le_total (l.foldr max 0) n with hle | hle
      · rw [Nat.max_eq_left hle]
        exact .inr (List.mem_cons_self ..)
      · rw [Nat.max_eq_right hle]
        exact ih.imp_right (List.mem_cons_of_mem _)
  refine (hattained _).imp_right fun hmem => ?_
  obtain ⟨r, hr, heq⟩ := List.mem_map.mp hmem
  exact ⟨r.1, r.2, Table.find?_eq_some_iff.mpr hr, heq⟩

theorem Later.maxSequence_le (h : Later s s') :
    s.maxSequence ≤ s'.maxSequence := by
  rcases maxSequence_attained s with hzero | ⟨id, row, hrow, heq⟩
  · omega
  · obtain ⟨row', hrow', hkept⟩ := h.kept id row hrow
    rw [← heq, ← hkept.sequence]
    exact sequence_le_max hrow'

theorem Later.trans {s₂ s₃ : ProposalStore} (h : Later s₁ s₂) (h' : Later s₂ s₃) : Later s₁ s₃ := by
  constructor
  · intro id row hrow
    obtain ⟨row2, hrow2, hkept⟩ := h.kept id row hrow
    obtain ⟨row3, hrow3, hkept'⟩ := h'.kept id row2 hrow2
    exact ⟨row3, hrow3, hkept.trans hkept'⟩
  · intro id row3 hrow3 hnone
    cases hrow2 : s₂.find? id with
    | none =>
      have hnew := h'.fresh id row3 hrow3 hrow2
      have hle := h.maxSequence_le
      omega
    | some row2 =>
      have hnew := h.fresh id row2 hrow2 hnone
      obtain ⟨row', hrow', hkept⟩ := h'.kept id row2 hrow2
      obtain rfl : row' = row3 := Option.some.inj (hrow'.symm.trans hrow3)
      rwa [hkept.sequence]

theorem Does.later {s s' : ProposalStore} {op : StagingOp contentHash}
    {out : Except StagingError StagedProposal} (h : Does s op s' out) (hs : Listable contentHash s) :
    Listable contentHash s' ∧ Later s s' := by
  have hkept : ∀ id row, s.find? id = some row → ∃ row', s'.find? id = some row' ∧ Kept row row' := by
    intro id row hrow
    obtain ⟨row', hrow', hkept, -⟩ := h.kept hrow
    exact ⟨row', hrow', hkept⟩
  cases h with
  | fails e => exact ⟨hs, .refl s⟩
  | stages now skipped content row hcontent hnumber hrow hsame hhealthy =>
    rw [ProposalStore.insert] at hkept hrow ⊢
    cases hfind : s.find? (content.identity contentHash) with
    | some found => exact ⟨hs, .refl s⟩
    | none =>
      rw [hfind] at hkept hrow hnumber
      -- a proposal is only stored under a number that there is
      have hroom : s.nextSequence skipped ≤ I64_MAX := by
        rcases hnumber with hsome | hroom
        · exact absurd hsome (by simp)
        · exact hroom
      simp only [Table.find?_put, if_pos] at hrow
      obtain rfl := Option.some.inj hrow
      -- the new number is above all others
      have hlast {id : String} {row : StoredRow} (hrow : s.find? id = some row) :
          row.sequence < s.nextSequence skipped := by
        have hle := sequence_le_max hrow
        rw [ProposalStore.nextSequence]
        omega
      refine ⟨⟨?_, ?_, ?_⟩, hkept, ?_⟩
      · intro id row hrow
        rcases Table.find?_put_eq_some.mp hrow with ⟨rfl, rfl⟩ | ⟨-, hold⟩
        · exact hhealthy
        · exact hs.healthy id row hold
      · intro id row hrow
        rcases Table.find?_put_eq_some.mp hrow with ⟨-, rfl⟩ | ⟨-, hold⟩
        · exact ⟨Nat.succ_ne_zero _, hroom⟩
        · exact hs.sequence id row hold
      · intro id id' row row' hrow hrow' heq
        rcases Table.find?_put_eq_some.mp hrow with ⟨rfl, rfl⟩ | ⟨-, hold⟩
        · rcases Table.find?_put_eq_some.mp hrow' with ⟨rfl, rfl⟩ | ⟨-, hold'⟩
          · rfl
          · have hlt := hlast hold'
            simp only at heq
            omega
        · rcases Table.find?_put_eq_some.mp hrow' with ⟨rfl, rfl⟩ | ⟨-, hold'⟩
          · have hlt := hlast hold
            simp only at heq
            omega
          · exact hs.distinct id id' row row' hold hold' heq
      · intro id row hrow hnone
        rcases Table.find?_put_eq_some.mp hrow with ⟨rfl, rfl⟩ | ⟨-, hold⟩
        · show s.maxSequence < s.nextSequence skipped
          rw [ProposalStore.nextSequence]
          omega
        · rw [hold] at hnone
          exact absurd hnone (by simp)
  | reviews now id' expected decision note old hop hold hexpected hdecode =>
    have hput (id : String) : (s.put id' (old.reviewed (expected + 1) decision note now)).find? id
        = if id = id' then some (old.reviewed (expected + 1) decision note now) else s.find? id :=
      Table.find?_put ..
    -- a row of the new store has the number of a row of the old one
    have hback {id : String} {row : StoredRow}
        (hrow : (s.put id' (old.reviewed (expected + 1) decision note now)).find? id = some row) :
        ∃ before, s.find? id = some before ∧ row.sequence = before.sequence := by
      rw [hput] at hrow
      split_ifs at hrow with hid
      · obtain rfl := Option.some.inj hrow
        exact ⟨old, hid ▸ hold, rfl⟩
      · exact ⟨row, hrow, rfl⟩
    refine ⟨⟨?_, ?_, ?_⟩, hkept, ?_⟩
    · intro id row hrow
      rw [hput] at hrow
      split_ifs at hrow with hid
      · obtain rfl := Option.some.inj hrow
        rw [hid]
        exact (hs.healthy id' old hold).reviewed hdecode
      · exact hs.healthy id row hrow
    · intro id row hrow
      obtain ⟨before, hbefore, heq⟩ := hback hrow
      rw [heq]
      exact hs.sequence id before hbefore
    · intro id id2 row row2 hrow hrow2 heq
      obtain ⟨before, hbefore, hsame⟩ := hback hrow
      obtain ⟨before₂, hbefore2, hsame2⟩ := hback hrow2
      exact hs.distinct id id2 before before₂ hbefore hbefore2 (by omega)
    · intro id row hrow hnone
      obtain ⟨before, hbefore, -⟩ := hback hrow
      rw [hbefore] at hnone
      exact absurd hnone (by simp)

theorem steps_later
    {tr : List (Machine.Event ProposalStore (StagingOp contentHash) (Except StagingError StagedProposal))}
    (h : (stagingMachine contentHash).Steps s tr s') (hs : Listable contentHash s) :
    Listable contentHash s' ∧ Later s s' := by
  induction h with
  | refl => exact ⟨hs, .refl s⟩
  | snoc _ _ hst ih =>
    obtain ⟨hlistable, hlater⟩ := ih
    obtain ⟨hlistable', hlater'⟩ := (step_does hst).later hlistable
    exact ⟨hlistable', hlater.trans hlater'⟩

theorem empty_listable : Listable contentHash .empty :=
  ⟨fun id row h => absurd h (by simp), fun id row h => absurd h (by simp),
    fun id id' row row' h => absurd h (by simp)⟩

/-! ### One page -/

def entryOf (r : String × StoredRow) : ℕ × String := (r.2.sequence, r.1)

/-- The numbers and ids of all rows, newest first. -/
def ProposalStore.listing (s : ProposalStore) : List (ℕ × String) :=
  (s.listRows s.maxSequence none).map entryOf

theorem mem_listRows {ceiling : ℕ} {before : Option ℕ} {r : String × StoredRow} :
    r ∈ s.listRows ceiling before ↔ s.find? r.1 = some r.2 ∧ r.2.sequence ≤ ceiling
      ∧ before.all (fun n => decide (r.2.sequence < n)) = true := by
  rw [ProposalStore.listRows, List.mem_mergeSort, List.mem_filter, Table.find?_eq_some_iff,
    Bool.and_eq_true, decide_eq_true_iff]

variable {limit : ℕ} {cursor parsed : Option HistoryCursor}

section Pages

variable (hs : Listable contentHash s)

include hs

theorem Listable.descending (ceiling : ℕ) (before : Option ℕ) :
    (s.listRows ceiling before).Pairwise fun a b => b.2.sequence < a.2.sequence := by
  refine Paging.pairwise_descending_lt ?_
  have hrows : s.rows.Nodup := s.sorted.imp fun {a b} hlt heq => by
    rw [heq] at hlt
    exact lt_irrefl _ hlt
  refine List.Nodup.map_on ?_ (hrows.filter _)
  intro a ha b hb heq
  have ha' := Table.find?_eq_some_iff.mpr (List.mem_of_mem_filter ha)
  have hb' := Table.find?_eq_some_iff.mpr (List.mem_of_mem_filter hb)
  have hid := hs.distinct a.1 b.1 a.2 b.2 ha' hb' heq
  rw [hid, hb'] at ha'
  exact Prod.ext hid (Option.some.inj ha').symm

theorem Listable.listing_descending : s.listing.Pairwise fun a b => b.1 < a.1 :=
  List.pairwise_map.mpr (hs.descending s.maxSequence none)

theorem Listable.entries (h1 : Listable contentHash s₁) (hlater : Later s₁ s) (before : Option ℕ) :
    (s.listRows s₁.maxSequence before).map entryOf
      = s₁.listing.filter fun e => before.all (fun n => decide (e.1 < n)) := by
  refine Paging.eq_of_descending (α := ℕ × String)
    (List.pairwise_map.mpr (hs.descending s₁.maxSequence before))
    (h1.listing_descending.filter _) fun e => ?_
  rw [List.mem_filter, ProposalStore.listing, List.mem_map, List.mem_map]
  constructor
  · rintro ⟨r, hr, rfl⟩
    obtain ⟨hrow, hle, hbefore⟩ := mem_listRows.mp hr
    cases hold : s₁.find? r.1 with
    | none =>
      have hnew := hlater.fresh r.1 r.2 hrow hold
      omega
    | some row =>
      obtain ⟨row', hrow', hkept⟩ := hlater.kept r.1 row hold
      obtain rfl : row' = r.2 := Option.some.inj (hrow'.symm.trans hrow)
      refine ⟨⟨(r.1, row), mem_listRows.mpr ⟨hold, sequence_le_max hold, rfl⟩, ?_⟩, hbefore⟩
      show (row.sequence, r.1) = (r.2.sequence, r.1)
      rw [hkept.sequence]
  · rintro ⟨⟨r, hr, rfl⟩, hbefore⟩
    obtain ⟨hrow, hle, -⟩ := mem_listRows.mp hr
    obtain ⟨row', hrow', hkept⟩ := hlater.kept r.1 r.2 hrow
    have hsame : entryOf (r.1, row') = entryOf r := Prod.ext hkept.sequence rfl
    refine ⟨(r.1, row'), mem_listRows.mpr ⟨hrow', ?_, ?_⟩, hsame⟩
    · show row'.sequence ≤ s₁.maxSequence
      rw [hkept.sequence]
      exact hle
    · show before.all (fun n => decide (row'.sequence < n)) = true
      rw [hkept.sequence]
      exact hbefore

theorem Listable.fillPage : ∀ (rows : List (String × StoredRow))
    (items : List StagedProposal) (last : Option ℕ),
    (∀ r ∈ rows, s.find? r.1 = some r.2) → items.length ≤ limit →
    fillPage contentHash limit items last rows
      = .ok (items ++ (rows.take (limit - items.length)).map (fun r => r.2.staged r.1),
        (((rows.take (limit - items.length)).getLast?).map fun r => r.2.sequence).or last,
        decide (limit - items.length < rows.length)) := by
  intro rows
  induction rows with
  | nil =>
    intro items last _ _
    simp [Agents.fillPage]
    rfl
  | cons r rest ih =>
    intro items last hrows hitems
    obtain ⟨hr, hrest⟩ := List.forall_mem_cons.mp hrows
    rw [Agents.fillPage]
    by_cases hfull : items.length = limit
    · rw [if_pos hfull, hfull]
      simp
      rfl
    · obtain ⟨room, hroom⟩ : ∃ room, limit - items.length = room + 1 :=
        ⟨limit - items.length - 1, by omega⟩
      have hlength : limit - (items ++ [r.2.staged r.1]).length = room := by
        rw [List.length_append, List.length_singleton]
        omega
      rw [if_neg hfull, (hs.healthy r.1 r.2 hr).decodes]
      show Agents.fillPage contentHash limit (items ++ [r.2.staged r.1]) (some r.2.sequence) rest = _
      rw [ih _ _ hrest (by rw [List.length_append, List.length_singleton]; omega), hlength, hroom,
        List.take_succ_cons, List.map_cons, List.append_assoc, List.singleton_append,
        List.getLast?_cons, List.length_cons]
      cases (rest.take room).getLast? with
      | none => simp
      | some last => simp

theorem Listable.page (hlimit : limit ≠ 0 ∧ limit ≤ MAX_STAGED_PAGE_ITEMS)
    (hparse : cursor.mapM parseCursor = .ok parsed) {ceiling : ℕ}
    (hceiling : (parsed.map HistoryCursor.ceiling).getD s.maxSequence = ceiling)
    {rows : List (String × StoredRow)}
    (hrows : s.listRows ceiling (parsed.map HistoryCursor.before) = rows) :
    ∃ page, s.list contentHash limit cursor = .ok page
      ∧ page.items = (rows.take limit).map (fun r => r.2.staged r.1)
      ∧ (page.nextCursor = none ∧ rows.length ≤ limit
        ∨ ∃ r, (rows.take limit).getLast? = some r ∧ limit < rows.length
          ∧ page.nextCursor = some ⟨1, ceiling, r.2.sequence⟩) := by
  have hmem : ∀ r ∈ rows.take (limit + 1), s.find? r.1 = some r.2 := fun r hr =>
    (mem_listRows.mp (hrows ▸ List.mem_of_mem_take hr)).1
  have hfill := hs.fillPage (rows.take (limit + 1)) [] none hmem (Nat.zero_le limit)
  have htake : (rows.take (limit + 1)).take limit = rows.take limit := by
    rw [List.take_take, Nat.min_eq_left (by omega)]
  simp only [List.length_nil, Nat.sub_zero, htake, List.nil_append, List.length_take, Option.or_none]
    at hfill
  by_cases hmore : limit < rows.length
  · obtain ⟨r, hlast⟩ : ∃ r, (rows.take limit).getLast? = some r := by
      refine Option.ne_none_iff_exists'.mp fun hnone => ?_
      have hlength := congrArg List.length (List.getLast?_eq_none_iff.mp hnone)
      rw [List.length_take, List.length_nil] at hlength
      omega
    rw [hlast, decide_eq_true (by omega)] at hfill
    refine ⟨⟨(rows.take limit).map (fun r => r.2.staged r.1), some ⟨1, ceiling, r.2.sequence⟩⟩, ?_, rfl,
      .inr ⟨r, hlast, hmore, rfl⟩⟩
    subst hceiling hrows
    simp only [ProposalStore.list, bind_eq_ok, ensure_eq_ok]
    exact ⟨(), hlimit, parsed, hparse, _, hfill, rfl⟩
  · rw [decide_eq_false (by omega)] at hfill
    refine ⟨⟨(rows.take limit).map (fun r => r.2.staged r.1), none⟩, ?_, rfl, .inl ⟨rfl, by omega⟩⟩
    subst hceiling hrows
    simp only [ProposalStore.list, bind_eq_ok, ensure_eq_ok]
    exact ⟨(), hlimit, parsed, hparse, _, hfill, rfl⟩

end Pages

theorem parseCursor_ok (hversion : c.version = 1) (hbefore : c.before ≠ 0)
    (horder : c.before ≤ c.ceiling) (hceiling : c.ceiling ≤ I64_MAX) : parseCursor c = .ok c := by
  have hkeys : Json.keysSize ["version", "ceiling", "before"] ≤ 40 := by decide
  have hnumber {n : ℕ} (hn : n ≤ I64_MAX) : (Json.nat n).size ≤ 19 :=
    Json.size_nat_le (by omega) (Nat.lt_of_le_of_lt hn (by decide))
  have h1 : (Json.nat c.version).size ≤ 19 := hnumber (hversion ▸ by decide)
  have h2 := hnumber hceiling
  have h3 := hnumber (horder.trans hceiling)
  have hsize : c.toJson.size ≤ 256 := by
    refine (Json.size_obj_le _).trans ?_
    simp only [List.map_cons, List.map_nil, List.sum_cons, List.sum_nil]
    omega
  simp only [parseCursor, bind_eq_ok, ensure_eq_ok, pure_eq_ok]
  exact ⟨(), hsize, (), ⟨hceiling, hversion, by omega, hbefore, horder⟩, trivial⟩

/-! ### Following the cursors -/

/-- Pages read one after the other: the first one from `s₁` without a cursor, each other one with
the cursor of the page before it and a limit of its own, after any calls. -/
inductive ListPages (contentHash : String → Hash) (s₁ : ProposalStore) :
    List StagedProposalPage → ProposalStore → Option HistoryCursor → Prop
  | first {limit : ℕ} {page : StagedProposalPage} :
      s₁.list contentHash limit none = .ok page →
      ListPages contentHash s₁ [page] s₁ page.nextCursor
  | next {pages : List StagedProposalPage} {s s' : ProposalStore}
      {tr : List (Machine.Event ProposalStore (StagingOp contentHash)
        (Except StagingError StagedProposal))}
      {cursor : HistoryCursor} {limit : ℕ} {page : StagedProposalPage} :
      ListPages contentHash s₁ pages s (some cursor) → (stagingMachine contentHash).Steps s tr s' →
      s'.list contentHash limit (some cursor) = .ok page →
      ListPages contentHash s₁ (pages ++ [page]) s' page.nextCursor

def shownProposals (pages : List StagedProposalPage) : List String :=
  pages.flatMap fun page => page.items.map StagedProposal.proposalId

/-- Where a reader stands after the first `k` rows of the listing it began with. -/
structure Reading (s₁ : ProposalStore) (k : ℕ) (c : HistoryCursor) : Prop where
  version : c.version = 1
  ceiling : c.ceiling = s₁.maxSequence
  before : c.before ≠ 0 ∧ c.before ≤ s₁.maxSequence
  rest : (s₁.listing.filter fun e => decide (e.1 < c.before)) = s₁.listing.drop k

theorem list_limit {page : StagedProposalPage} (h : s.list contentHash limit cursor = .ok page) :
    limit ≠ 0 ∧ limit ≤ MAX_STAGED_PAGE_ITEMS := by
  simp only [ProposalStore.list, bind_eq_ok, ensure_eq_ok] at h
  exact h.choose_spec.1

theorem Reading.page {s₁ s : ProposalStore} (h1 : Listable contentHash s₁)
    (hs : Listable contentHash s) (hlater : Later s₁ s)
    (hlimit : limit ≠ 0 ∧ limit ≤ MAX_STAGED_PAGE_ITEMS)
    (hparse : cursor.mapM parseCursor = .ok parsed)
    (hceiling : (parsed.map HistoryCursor.ceiling).getD s.maxSequence = s₁.maxSequence) {k : ℕ}
    (hrest : (s₁.listing.filter fun e =>
      (parsed.map HistoryCursor.before).all (fun n => decide (e.1 < n))) = s₁.listing.drop k) :
    ∃ page, s.list contentHash limit cursor = .ok page
      ∧ page.items.map StagedProposal.proposalId
        = ((s₁.listing.drop k).take limit).map Prod.snd
      ∧ (page.nextCursor = none ∧ s₁.listing.length ≤ k + limit
        ∨ ∃ c, page.nextCursor = some c ∧ k + limit < s₁.listing.length
          ∧ Reading s₁ (k + limit) c) := by
  have hentries := hs.entries h1 hlater (parsed.map HistoryCursor.before)
  rw [hrest] at hentries
  have hlength : (s.listRows s₁.maxSequence (parsed.map HistoryCursor.before)).length
      = s₁.listing.length - k := by
    rw [← List.length_map entryOf, hentries, List.length_drop]
  obtain ⟨page, hlist, hitems, hnext⟩ := hs.page hlimit hparse hceiling rfl
  refine ⟨page, hlist, ?_, ?_⟩
  · rw [hitems, ← hentries, ← List.map_take, List.map_map, List.map_map]
    rfl
  rcases hnext with ⟨hnone, hall⟩ | ⟨r, hlast, hmore, hsome⟩
  · exact .inl ⟨hnone, by omega⟩
  · have hrow := mem_listRows.mp (List.mem_of_mem_take (List.mem_of_getLast? hlast))
    have hsequence := hs.sequence r.1 r.2 hrow.1
    refine .inr ⟨_, hsome, by omega, rfl, rfl, ⟨hsequence.1, hrow.2.1⟩, ?_⟩
    -- the row shown last is where the listing is cut
    have hend : (s₁.listing.take (k + limit)).getLast? = some (entryOf r) := by
      rw [List.take_add, List.getLast?_append, ← hentries, ← List.map_take, List.getLast?_map, hlast]
      rfl
    exact Paging.filter_lt_getLast h1.listing_descending hend

/-- The state of a reader after its pages. -/
structure ListPages.Progress (s₁ : ProposalStore) (pages : List StagedProposalPage)
    (cursor : Option HistoryCursor) (k : ℕ) : Prop where
  shown : shownProposals pages = (s₁.listing.take k).map Prod.snd
  next : cursor = none ∧ s₁.listing.length ≤ k
    ∨ ∃ c, cursor = some c ∧ k < s₁.listing.length ∧ Reading s₁ k c

theorem Reading.parse (h1 : Listable contentHash s₁) {k : ℕ} (h : Reading s₁ k c) :
    (some c).mapM parseCursor = .ok (some c) := by
  have hmax : s₁.maxSequence ≤ I64_MAX := by
    rcases maxSequence_attained s₁ with hzero | ⟨id, row, hrow, heq⟩
    · omega
    · rw [← heq]
      exact (h1.sequence id row hrow).2
  have hparse : parseCursor c = .ok c :=
    parseCursor_ok h.version h.before.1 (h.ceiling ▸ h.before.2) (h.ceiling ▸ hmax)
  rw [Option.mapM_some, hparse]
  rfl

theorem ListPages.progress {pages : List StagedProposalPage} (h1 : Listable contentHash s₁)
    (h : ListPages contentHash s₁ pages s cursor) :
    Listable contentHash s ∧ Later s₁ s ∧ ∃ k, ListPages.Progress s₁ pages cursor k := by
  induction h with
  | @first limit page hlist =>
    obtain ⟨page', hlist', hitems, hnext⟩ := Reading.page (k := 0) h1 h1 (.refl s₁)
      (list_limit hlist) (show (none : Option HistoryCursor).mapM parseCursor = .ok none from rfl) rfl
      (by simp)
    obtain rfl : page = page' := Except.ok.inj (hlist.symm.trans hlist')
    refine ⟨h1, .refl s₁, limit, ?_, ?_⟩
    · rw [shownProposals, List.flatMap_singleton, hitems, List.drop_zero]
    · simpa using hnext
  | @next pages s s' tr cursor limit page hpages hsteps hlist ih =>
    obtain ⟨hs, hlater, k, hshown, hnext⟩ := ih
    obtain ⟨hs', hlater'⟩ := steps_later hsteps hs
    rcases hnext with ⟨hnone, -⟩ | ⟨c, hsome, hk, hreading⟩
    · exact absurd hnone (by simp)
    obtain rfl : cursor = c := Option.some.inj hsome
    obtain ⟨page', hlist', hitems, hnext⟩ := Reading.page h1 hs' (hlater.trans hlater')
      (list_limit hlist) (hreading.parse h1) hreading.ceiling hreading.rest
    obtain rfl : page = page' := Except.ok.inj (hlist.symm.trans hlist')
    refine ⟨hs', hlater.trans hlater', k + limit, ?_, hnext⟩
    rw [shownProposals, List.flatMap_append, List.flatMap_singleton, hitems, List.take_add,
      List.map_append, ← hshown]
    rfl

theorem mem_listing :
    id ∈ s.listing.map Prod.snd ↔ (s.find? id).isSome = true := by
  rw [ProposalStore.listing, List.map_map, List.mem_map, Option.isSome_iff_exists]
  constructor
  · rintro ⟨r, hr, rfl⟩
    exact ⟨r.2, (mem_listRows.mp hr).1⟩
  · rintro ⟨row, hrow⟩
    exact ⟨(id, row), mem_listRows.mpr ⟨hrow, sequence_le_max hrow, rfl⟩, rfl⟩

/-- Ids from the newest row to the oldest. -/
def NewestFirst (s : ProposalStore) (a b : String) : Prop :=
  ∀ row row', s.find? a = some row → s.find? b = some row' → row'.sequence < row.sequence

theorem Listable.newestFirst (hs : Listable contentHash s) :
    (s.listing.map Prod.snd).Pairwise (NewestFirst s) := by
  rw [ProposalStore.listing, List.map_map]
  refine List.pairwise_map.mpr ((hs.descending _ _).imp_of_mem fun {a b} ha hb hlt => ?_)
  intro row row' hrow hrow'
  have ha' := (mem_listRows.mp ha).1
  have hb' := (mem_listRows.mp hb).1
  obtain rfl : row = a.2 := Option.some.inj (hrow.symm.trans ha')
  obtain rfl : row' = b.2 := Option.some.inj (hrow'.symm.trans hb')
  exact hlt

/-- Listing, whatever is staged and reviewed between the pages: every page is read, and every cursor
leads to a page that shows something; the ids shown are rows of the beginning, newest first, none
twice; and when no cursor is left, they are all of them.  A cursor is accepted for its form. -/
theorem listing_complete {s₁ : ProposalStore}
    {tr : List (Machine.Event ProposalStore (StagingOp contentHash) (Except StagingError StagedProposal))}
    (h : (stagingMachine contentHash).Steps .empty tr s₁) :
    (∀ limit, limit ≠ 0 → limit ≤ MAX_STAGED_PAGE_ITEMS →
      ∃ page, s₁.list contentHash limit none = .ok page)
    ∧ (∀ pages s cursor, ListPages contentHash s₁ pages s cursor →
      (∀ c ∈ cursor, ∀ tr' s' limit, (stagingMachine contentHash).Steps s tr' s' → limit ≠ 0 →
        limit ≤ MAX_STAGED_PAGE_ITEMS →
        ∃ page, s'.list contentHash limit (some c) = .ok page ∧ page.items ≠ [])
      ∧ (shownProposals pages).Nodup
      ∧ (shownProposals pages).Pairwise (NewestFirst s₁)
      ∧ (∀ id ∈ shownProposals pages, (s₁.find? id).isSome = true)
      ∧ (cursor = none → ∀ id, (s₁.find? id).isSome = true → id ∈ shownProposals pages))
    ∧ ∀ limit c, limit ≠ 0 → limit ≤ MAX_STAGED_PAGE_ITEMS → c.version = 1 → c.before ≠ 0 →
      c.before ≤ c.ceiling → c.ceiling ≤ I64_MAX →
      ∃ page, s₁.list contentHash limit (some c) = .ok page := by
  obtain ⟨h₁, -⟩ := steps_later h empty_listable
  refine ⟨?_, ?_, ?_⟩
  · intro limit hzero hmax
    obtain ⟨page, hlist, -⟩ := h₁.page ⟨hzero, hmax⟩
      (show (none : Option HistoryCursor).mapM parseCursor = .ok none from rfl) rfl rfl
    exact ⟨page, hlist⟩
  · intro pages s cursor hpages
    obtain ⟨hs, hlater, k, hshown, hnext⟩ := hpages.progress h₁
    -- what is shown is a prefix of the listing of the beginning
    have hsub : (shownProposals pages).Sublist (s₁.listing.map Prod.snd) := by
      rw [hshown]
      exact (List.take_sublist _ _).map _
    have horder := h₁.newestFirst.sublist hsub
    have hrows : ∀ id ∈ shownProposals pages, (s₁.find? id).isSome = true := fun id hid =>
      mem_listing.mp (hsub.subset hid)
    refine ⟨?_, ?_, horder, hrows, ?_⟩
    · intro c hc tr' s' limit hsteps hzero hmax
      rcases hnext with ⟨hnone, -⟩ | ⟨c', hsome, hk, hreading⟩
      · rw [hnone] at hc
        exact absurd hc (by simp)
      obtain rfl : c = c' := Option.some.inj ((Option.mem_def.mp hc).symm.trans hsome)
      obtain ⟨hs', hlater'⟩ := steps_later hsteps hs
      obtain ⟨page, hlist, hitems, -⟩ := Reading.page h₁ hs' (hlater.trans hlater') ⟨hzero, hmax⟩
        (hreading.parse h₁) hreading.ceiling hreading.rest
      refine ⟨page, hlist, fun hnil => ?_⟩
      -- a cursor is only given while something is left
      have hlength := congrArg List.length hitems
      rw [hnil, List.map_nil, List.length_nil, List.length_map, List.length_take,
        List.length_drop] at hlength
      omega
    · refine horder.imp_of_mem fun {a b} ha _ hlt heq => ?_
      obtain ⟨row, hrow⟩ := Option.isSome_iff_exists.mp (hrows a ha)
      exact absurd (hlt row row hrow (heq ▸ hrow)) (Nat.lt_irrefl _)
    · intro hnone id hid
      rcases hnext with ⟨-, hall⟩ | ⟨c, hsome, -⟩
      · rw [hshown, List.take_of_length_le hall]
        exact mem_listing.mpr hid
      · rw [hnone] at hsome
        exact absurd hsome (by simp)
  · intro limit c hzero hmax hversion hbefore horder hceiling
    have hparse : (some c).mapM parseCursor = .ok (some c) := by
      rw [Option.mapM_some, parseCursor_ok hversion hbefore horder hceiling]
      rfl
    obtain ⟨page, hlist, -⟩ := h₁.page ⟨hzero, hmax⟩ hparse rfl rfl
    exact ⟨page, hlist⟩

/-- One proposal is listed on one page. -/
theorem listing_complete_staged :
    ∃ page, ((stagingMachine Sample.noHash).exec .empty [Sample.stage]).list Sample.noHash 1 none
        = .ok page
      ∧ Sample.content.identity Sample.noHash ∈ page.items.map StagedProposal.proposalId := by
  have hsteps : (stagingMachine Sample.noHash).Steps .empty
      ((stagingMachine Sample.noHash).trace .empty [Sample.stage])
      ((stagingMachine Sample.noHash).exec .empty [Sample.stage]) :=
    Machine.steps_exec fun _ _ _ => trivial
  obtain ⟨hfirst, hpages, -⟩ := listing_complete hsteps
  obtain ⟨page, hlist⟩ := hfirst 1 (by decide) (by decide)
  have hlast : (((stagingMachine Sample.noHash).exec .empty [Sample.stage]).list Sample.noHash 1
      none).toOption.map StagedProposalPage.nextCursor = some none := by decide +kernel
  rw [hlist] at hlast
  have hstored : (((stagingMachine Sample.noHash).exec .empty [Sample.stage]).find?
      (Sample.content.identity Sample.noHash)).isSome = true := by decide
  obtain ⟨-, -, -, -, hall⟩ := hpages [page] _ _ (.first hlist)
  have hshown := hall (Option.some.inj hlast) _ hstored
  refine ⟨page, hlist, ?_⟩
  rwa [shownProposals, List.flatMap_singleton] at hshown

/-- A store without proposals accepts a cursor, and no listing of it ever returned one. -/
theorem listing_foreign_cursor :
    ¬ ∀ (contentHash : String → Hash) (s : ProposalStore)
      (tr : List (Machine.Event ProposalStore (StagingOp contentHash)
        (Except StagingError StagedProposal))),
      (stagingMachine contentHash).Steps .empty tr s → ∀ limit c page,
        s.list contentHash limit (some c) = .ok page →
        ∃ s' tr₁ tr₂ limit' cursor page', tr = tr₁ ++ tr₂
          ∧ (stagingMachine contentHash).Steps .empty tr₁ s'
          ∧ s'.list contentHash limit' cursor = .ok page' ∧ page'.nextCursor = some c := by
  intro h
  obtain ⟨s', tr₁, tr₂, limit, cursor, page, htr, hsteps, hlist, hnext⟩ := h Sample.noHash .empty []
    .refl 1 ⟨1, 1, 1⟩ ⟨[], none⟩ (by decide +kernel)
  obtain ⟨htr₁, -⟩ := List.append_eq_nil_iff.mp htr.symm
  have hempty : ∀ ceiling before, ProposalStore.listRows .empty ceiling before = [] := fun _ _ =>
    List.mergeSort_nil
  cases hsteps with
  | refl =>
    simp only [ProposalStore.list, bind_eq_ok, ensure_eq_ok] at hlist
    obtain ⟨-, -, parsed, -, filled, hfilled, hpage⟩ := hlist
    rw [hempty, List.take_nil, fillPage] at hfilled
    obtain rfl := Except.ok.inj hfilled
    obtain rfl := Except.ok.inj hpage
    exact absurd hnext (by simp)
  | snoc _ _ _ => exact absurd htr₁ (by simp)

end Agents

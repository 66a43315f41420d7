/-
Pages of a query.

A client starts without a cursor and follows the cursor of each page, with budgets of its
choice for every request; a request that fails is asked again with others.  A page is the
longest part of what remains whose own text, cursor and counters included, stays within
the budget at every length before it.

* `fill_ok`, `fill_error` — what the loop returns, and how it fails;
* `query_page` — a request for the page after the first `shown` facts;
* `QueryPages.shown` — after any pages, a prefix of the selection has been shown;
* `query_lossless` — following the cursor to its end shows everything once, in order.
-/
import Cartograph.ContextHub.Identity

namespace ContextHub

open Checked GraphStore SortBy
open ContextSnapshot (fill query cursorAt startOffset)

/-! ### The order of facts -/

@[simp] theorem reference_make (reference : FactReference) (label : String) (properties : Json) :
    (ContextFact.make reference label properties).reference = reference := by
  rw [ContextFact.make]
  split
  split <;> rfl

/-- Facts in canonical order, each reference once. -/
def Ordered (facts : List ContextFact) : Prop :=
  facts.Pairwise fun f g => f.reference.key < g.reference.key

variable {hash : String → String} {r : QueryRequest} {selected : List ContextFact}
  {s : ContextSnapshot}

theorem new_ordered {nodes : List (Node Json.Value)} {edges : List (Edge Json.Value)}
    (h : ContextSnapshot.new hash nodes edges = .ok s) : Ordered s.facts := by
  rw [ContextSnapshot.new] at h
  cases hnode : firstDuplicate Node.id (sortNodes nodes) with
  | some n =>
    rw [hnode] at h
    exact absurd h (by simp)
  | none =>
    cases hedge : firstDuplicate edgeOrder (sortEdges edges) with
    | some e =>
      rw [hnode, hedge] at h
      exact absurd h (by simp)
    | none =>
      rw [hnode, hedge] at h
      obtain rfl := Except.ok.inj h
      refine List.pairwise_append.mpr ⟨?_, ?_, ?_⟩
      · refine List.pairwise_map.mpr ((sortBy_strict hnode).imp fun {a b} hab => ?_)
        rw [nodeFact, nodeFact, reference_make, reference_make]
        exact Prod.Lex.toLex_lt_toLex.mpr (.inr ⟨rfl, Prod.Lex.toLex_lt_toLex.mpr (.inl hab)⟩)
      · refine List.pairwise_map.mpr ((sortBy_strict hedge).imp fun {a b} hab => ?_)
        rw [edgeFact, edgeFact, reference_make, reference_make]
        exact Prod.Lex.toLex_lt_toLex.mpr (.inr ⟨rfl, hab⟩)
      · intro f hf g hg
        obtain ⟨n, -, rfl⟩ := List.mem_map.mp hf
        obtain ⟨e, -, rfl⟩ := List.mem_map.mp hg
        rw [nodeFact, edgeFact, reference_make, reference_make]
        exact Prod.Lex.toLex_lt_toLex.mpr (.inl (show false < true by decide))

/-! ### One page -/

section Page

variable {id : String} {total offset maxBytes : ℕ}

theorem fill_ok : ∀ {rest facts : List ContextFact} {page : QueryResponse},
    s.fill id total offset maxBytes facts rest = .ok page →
    (facts ≠ [] → (s.page id total offset facts).toJson.size ≤ maxBytes) →
    ∃ n ≤ rest.length, page = s.page id total offset (facts ++ rest.take n)
      ∧ page.toJson.size ≤ maxBytes ∧ (rest ≠ [] → facts ++ rest.take n ≠ [])
  | [], facts, page, h, _ => by
    simp only [fill, bind_eq_ok, ensure_eq_ok, pure_eq_ok] at h
    obtain ⟨_, hfits, rfl⟩ := h
    refine ⟨0, le_rfl, ?_, hfits, fun hne => absurd rfl hne⟩
    rw [List.take_nil, List.append_nil]
  | fact :: rest, facts, page, h, hfacts => by
    rw [fill] at h
    by_cases hbytes : maxBytes < (s.page id total offset (facts ++ [fact])).toJson.size
    · rw [if_pos hbytes] at h
      by_cases hempty : facts = []
      · rw [if_pos hempty] at h
        exact absurd h (by simp)
      · rw [if_neg hempty] at h
        obtain rfl := Except.ok.inj h
        refine ⟨0, Nat.zero_le _, ?_, hfacts hempty, fun _ => ?_⟩
        · rw [List.take_zero, List.append_nil]
        · simpa using hempty
    · rw [if_neg hbytes] at h
      obtain ⟨n, hn, hpage, hsize, -⟩ := fill_ok h fun _ => Nat.le_of_not_lt hbytes
      refine ⟨n + 1, Nat.succ_le_succ hn, ?_, hsize, fun _ => by simp⟩
      rw [hpage, List.take_succ_cons, List.append_assoc, List.singleton_append]

theorem fill_error : ∀ {rest facts : List ContextFact} {e : ContextError},
    s.fill id total offset maxBytes facts rest = .error e →
    ∃ requiredBytes, e = .responseBudgetExceeded maxBytes requiredBytes
  | [], facts, e, h => by
    simp only [fill, bind_eq_error, ensure_eq_error] at h
    rcases h with ⟨-, rfl⟩ | ⟨_, -, h⟩
    · exact ⟨_, rfl⟩
    · exact absurd h pure_ne_error
  | fact :: rest, facts, e, h => by
    rw [fill] at h
    split at h
    · split at h
      · exact ⟨_, (Except.error.inj h).symm⟩
      · exact absurd h (by simp)
    · exact fill_error h

end Page

/-- The budgets a request may ask for. -/
structure Budgets (r : QueryRequest) : Prop where
  facts : 1 ≤ r.maxFacts ∧ r.maxFacts ≤ MAX_FACTS
  bytes : 1 ≤ r.maxBytes ∧ r.maxBytes ≤ MAX_RESPONSE_BYTES

theorem validateLimit_ok {name : String} {requested maximum : ℕ} {u : Unit} :
    validateLimit name requested maximum = .ok u ↔ 1 ≤ requested ∧ requested ≤ maximum := by
  rw [validateLimit, ensure_eq_ok, not_or]
  omega

theorem validateLimits_ok {u : Unit} :
    r.validateLimits = .ok u ↔ Budgets r ∧ r.scope.validateLimits = .ok () := by
  simp only [QueryRequest.validateLimits, bind_eq_ok, validateLimit_ok]
  constructor
  · rintro ⟨_, hfacts, _, hbytes, hscope⟩
    exact ⟨⟨hfacts, hbytes⟩, hscope⟩
  · rintro ⟨hbudgets, hscope⟩
    exact ⟨(), hbudgets.facts, (), hbudgets.bytes, hscope⟩

/-- What a request selects. -/
structure Selects (s : ContextSnapshot) (r : QueryRequest) (selected : List ContextFact) : Prop where
  limits : r.scope.validateLimits = .ok ()
  facts : ∃ neighborhood, s.scopeNodes r.scope = .ok neighborhood
    ∧ selected = s.selected r.selection neighborhood

theorem Selects.same {r' : QueryRequest} (h : Selects s r selected) (hsame : SameSelection r r') :
    Selects s r' selected:= by
  obtain ⟨hlimits, neighborhood, hscope, rfl⟩ := h
  rw [hsame.scope] at hlimits hscope
  exact ⟨hlimits, neighborhood, hscope, by rw [selection_eq_iff.mpr hsame]⟩

theorem Selects.ordered (h : Selects s r selected) (hs : Ordered s.facts) :
    Ordered selected := by
  obtain ⟨-, _, -, rfl⟩ := h
  exact hs.sublist List.filter_sublist

theorem query_eq (hash : String → String) (h : Selects s r selected) (hbudgets : Budgets r) :
    s.query hash r = (s.startOffset (selectionId hash r.selection) selected.length r.cursor >>=
      fun offset => s.fill (selectionId hash r.selection) selected.length offset r.maxBytes []
        ((selected.drop offset).take r.maxFacts)) := by
  obtain ⟨hlimits, neighborhood, hscope, rfl⟩ := h
  have hvalid : r.validateLimits = .ok () := validateLimits_ok.mpr ⟨hbudgets, hlimits⟩
  rw [query, hvalid]
  show (s.scopeNodes r.scope >>= _) = _
  rw [hscope]
  rfl

theorem query_ok {page : QueryResponse} (h : s.query hash r = .ok page) :
    Budgets r ∧ ∃ selected, Selects s r selected := by
  simp only [query, bind_eq_ok] at h
  obtain ⟨_, hvalid, neighborhood, hscope, -⟩ := h
  obtain ⟨hbudgets, hlimits⟩ := validateLimits_ok.mp hvalid
  exact ⟨hbudgets, _, hlimits, neighborhood, hscope, rfl⟩

/-- The cursor after the first `shown` facts of a selection. -/
def cursorAfter (s : ContextSnapshot) (hash : String → String) (r : QueryRequest)
    (selected : List ContextFact) (shown : ℕ) : Option QueryCursor :=
  s.cursorAt (selectionId hash r.selection) selected.length shown

/-- The page after the first `shown` facts, asked for without a cursor at the beginning and
with the cursor of the page before it later. -/
theorem query_page (hash : String → String) {shown : ℕ}
    (h : Selects s r selected) (hbudgets : Budgets r) (hcursor : (r.cursor = none ∧ shown = 0)
      ∨ (r.cursor = cursorAfter s hash r selected shown ∧ shown < selected.length)) :
    (∃ n page, s.query hash r = .ok page ∧ page.facts = (selected.drop shown).take n
      ∧ page.nextCursor = cursorAfter s hash r selected (shown + page.facts.length)
      ∧ page.totalSelected = selected.length ∧ page.toJson.size ≤ r.maxBytes
      ∧ page.facts.length ≤ r.maxFacts ∧ (shown < selected.length → page.facts ≠ []))
    ∨ ∃ requiredBytes, s.query hash r = .error (.responseBudgetExceeded r.maxBytes requiredBytes) := by
  have hstart : s.startOffset (selectionId hash r.selection) selected.length r.cursor = .ok shown := by
    rcases hcursor with ⟨hcursor, rfl⟩ | ⟨hcursor, hlt⟩
    · rw [hcursor]
      rfl
    · rw [hcursor, cursorAfter, cursorAt, if_pos hlt]
      simp only [startOffset, bind_eq_ok, ensure_eq_ok, pure_eq_ok]
      exact ⟨(), trivial, (), trivial, (), hlt.le, trivial⟩
  have hquery := query_eq hash h hbudgets
  rw [hstart] at hquery
  cases hfill : s.fill (selectionId hash r.selection) selected.length shown r.maxBytes []
      ((selected.drop shown).take r.maxFacts) with
  | error e =>
    obtain ⟨requiredBytes, rfl⟩ := fill_error hfill
    exact .inr ⟨requiredBytes, hquery.trans hfill⟩
  | ok page =>
    obtain ⟨n, hn, hpage, hsize, hsome⟩ := fill_ok hfill fun hne => absurd rfl hne
    rw [List.nil_append] at hpage hsome
    have hfacts : page.facts = ((selected.drop shown).take r.maxFacts).take n := by
      rw [hpage]
      rfl
    refine .inl ⟨min n r.maxFacts, page, hquery.trans hfill, ?_, ?_, ?_, hsize, ?_, fun hlt => ?_⟩
    · rw [hfacts, List.take_take]
    · rw [hfacts, hpage]
      rfl
    · rw [hpage]
      rfl
    · rw [hfacts, List.length_take, List.length_take]
      omega
    · rw [hfacts]
      refine hsome fun hnil => ?_
      have hlength := congrArg List.length hnil
      rw [List.length_take, List.length_drop, List.length_nil] at hlength
      have hpos := hbudgets.facts.1
      omega

theorem query_bounds {page : QueryResponse} (h : s.query hash r = .ok page) :
    page.toJson.size ≤ r.maxBytes ∧ page.facts.length ≤ r.maxFacts := by
  obtain ⟨hbudgets, selected, hselects⟩ := query_ok h
  rw [query_eq hash hselects hbudgets, bind_eq_ok] at h
  obtain ⟨offset, -, hfill⟩ := h
  obtain ⟨n, -, hpage, hsize, -⟩ := fill_ok hfill fun hne => absurd rfl hne
  refine ⟨hsize, ?_⟩
  rw [hpage]
  show ([] ++ ((selected.drop offset).take r.maxFacts).take n).length ≤ r.maxFacts
  rw [List.nil_append, List.length_take, List.length_take]
  omega

theorem query_invalid (s : ContextSnapshot) (hash : String → String)
    (hscope : r.scope.validateLimits = .ok ()) (h : ¬ Budgets r) :
    ∃ name requested maximum, s.query hash r = .error (.invalidLimit name requested maximum) := by
  cases hvalid : r.validateLimits with
  | ok u => exact absurd (validateLimits_ok.mp hvalid).1 h
  | error e =>
    have hquery : s.query hash r = .error e := by rw [query, hvalid]; rfl
    simp only [QueryRequest.validateLimits, validateLimit, bind_eq_error, ensure_eq_error] at hvalid
    rcases hvalid with ⟨-, rfl⟩ | ⟨-, -, ⟨-, rfl⟩ | ⟨-, -, herror⟩⟩
    · exact ⟨_, _, _, hquery⟩
    · exact ⟨_, _, _, hquery⟩
    · rw [hscope] at herror
      exact absurd herror (by simp)

/-! ### Following the cursor -/

/-- The pages of one selection so far, and the cursor after them.  Requests differ in their
budgets and in how they write the selection. -/
inductive QueryPages (s : ContextSnapshot) (hash : String → String) (request : QueryRequest) :
    List QueryResponse → Option QueryCursor → Prop
  | first {r : QueryRequest} {page : QueryResponse} : SameSelection request r → r.cursor = none →
      s.query hash r = .ok page → QueryPages s hash request [page] page.nextCursor
  | next {pages : List QueryResponse} {c : QueryCursor} {r : QueryRequest} {page : QueryResponse} :
      QueryPages s hash request pages (some c) → SameSelection request r → r.cursor = some c →
      s.query hash r = .ok page → QueryPages s hash request (pages ++ [page]) page.nextCursor

def shownFacts (pages : List QueryResponse) : List ContextFact := pages.flatMap QueryResponse.facts

/-- A prefix of the selection has been shown, and the cursor is at its end. -/
structure Shown (s : ContextSnapshot) (hash : String → String) (request : QueryRequest)
    (selected : List ContextFact) (pages : List QueryResponse) (next : Option QueryCursor) :
    Prop where
  facts : shownFacts pages = selected.take (shownFacts pages).length
  cursor : next = cursorAfter s hash request selected (shownFacts pages).length
  nonempty : selected ≠ [] → ∀ page ∈ pages, page.facts ≠ []

theorem take_append_drop_take {α : Type} (l : List α) (shown n : ℕ) (h : shown ≤ l.length) :
    l.take shown ++ (l.drop shown).take n
      = l.take (shown + ((l.drop shown).take n).length) := by
  rw [List.length_take, List.take_add, List.length_drop]
  congr 1
  rw [List.take_eq_take_iff, List.length_drop]
  omega

/-- **Step lemma**: one more page. -/
theorem Shown.page {hash : String → String} {request r : QueryRequest} {selected : List ContextFact}
    {pages : List QueryResponse} {page : QueryResponse} {shown n : ℕ}
    (hsame : SameSelection request r) (hshown : shownFacts pages = selected.take shown)
    (hle : shown ≤ selected.length) (hnonempty : selected ≠ [] → ∀ page ∈ pages, page.facts ≠ [])
    (hfacts : page.facts = (selected.drop shown).take n)
    (hcursor : page.nextCursor = cursorAfter s hash r selected (shown + page.facts.length))
    (hsome : selected ≠ [] → page.facts ≠ []) :
    Shown s hash request selected (pages ++ [page]) page.nextCursor := by
  have hall : shownFacts (pages ++ [page]) = selected.take (shown + page.facts.length) := by
    rw [shownFacts, List.flatMap_append, List.flatMap_singleton, hfacts]
    show shownFacts pages ++ _ = _
    rw [hshown, take_append_drop_take selected shown n hle]
  have hlength : shown + page.facts.length ≤ selected.length := by
    rw [hfacts, List.length_take, List.length_drop]
    omega
  have hcount : (shownFacts (pages ++ [page])).length = shown + page.facts.length := by
    rw [hall, List.length_take]
    omega
  refine ⟨?_, ?_, fun hne p hp => ?_⟩
  · rw [hcount]
    exact hall
  · rw [hcount, hcursor, cursorAfter, cursorAfter, selection_eq_iff.mpr hsame]
  · rcases List.mem_append.mp hp with hold | hnew
    · exact hnonempty hne p hold
    · obtain rfl : p = page := by simpa using hnew
      exact hsome hne

theorem cursorAfter_some {shown : ℕ} {c : QueryCursor}
    (h : some c = cursorAfter s hash r selected shown) : shown < selected.length := by
  by_contra hge
  rw [cursorAfter, cursorAt, if_neg hge] at h
  exact absurd h (by simp)

theorem QueryPages.shown {request : QueryRequest} {pages : List QueryResponse}
    {next : Option QueryCursor} (h : QueryPages s hash request pages next) :
    ∃ selected, Selects s request selected ∧ Shown s hash request selected pages next := by
  induction h with
  | @first r page hsame hcursor hquery =>
    obtain ⟨hbudgets, selected, hselects⟩ := query_ok hquery
    have hsame' : SameSelection r request :=
      ⟨hsame.scope.symm, hsame.kind.symm, fun label => (hsame.labels label).symm⟩
    rcases query_page hash hselects hbudgets (.inl ⟨hcursor, rfl⟩) with
      ⟨n, page', hquery', hfacts, hnext, -, -, -, hsome⟩ | ⟨_, herror⟩
    · rw [hquery] at hquery'
      obtain rfl := Except.ok.inj hquery'
      have hnothing : shownFacts [] = selected.take 0 := rfl
      exact ⟨selected, hselects.same hsame', Shown.page hsame hnothing (Nat.zero_le _)
        (fun _ _ h => absurd h (by simp)) hfacts hnext
        fun hne => hsome (List.length_pos_iff.mpr hne)⟩
    · rw [hquery] at herror
      exact absurd herror (by simp)
  | @next pages c r page _ hsame hcursor hquery ih =>
    obtain ⟨selected, hselects, hshown⟩ := ih
    obtain ⟨hbudgets, -⟩ := query_ok hquery
    have hlt := cursorAfter_some hshown.cursor
    have hcursor' : r.cursor = cursorAfter s hash r selected (shownFacts pages).length := by
      rw [hcursor, hshown.cursor, cursorAfter, cursorAfter, selection_eq_iff.mpr hsame]
    rcases query_page hash (hselects.same hsame) hbudgets (.inr ⟨hcursor', hlt⟩) with
      ⟨n, page', hquery', hfacts, hnext, -, -, -, hsome⟩ | ⟨_, herror⟩
    · rw [hquery] at hquery'
      obtain rfl := Except.ok.inj hquery'
      exact ⟨selected, hselects, Shown.page hsame hshown.facts hlt.le hshown.nonempty hfacts hnext
        fun _ => hsome hlt⟩
    · rw [hquery] at herror
      exact absurd herror (by simp)

/-- **Lossless paging.**  After any pages of a selection the facts shown are a prefix of the
selected ones, which are in canonical order without duplicates, and all of them once there is
no cursor.  A page stays within its budgets and holds a fact whenever one remains.  A request
with the cursor of a page succeeds, or its byte budget is too small, or its budgets are not
allowed ones. -/
theorem query_lossless {hash : String → String} {nodes : List (Node Json.Value)}
    {edges : List (Edge Json.Value)} {s : ContextSnapshot} {request : QueryRequest}
    {pages : List QueryResponse} {next : Option QueryCursor}
    (hs : ContextSnapshot.new hash nodes edges = .ok s)
    (hpages : QueryPages s hash request pages next) :
    (∃ selected, Selects s request selected ∧ Ordered selected
      ∧ shownFacts pages <+: selected
      ∧ (next = none → shownFacts pages = selected)
      ∧ (selected ≠ [] → ∀ page ∈ pages, page.facts ≠ []))
    ∧ (∀ c r, next = some c → SameSelection request r → r.cursor = some c →
      (∀ page, s.query hash r = .ok page → page.facts ≠ [])
      ∧ ∀ e, s.query hash r = .error e →
        (∃ requiredBytes, e = .responseBudgetExceeded r.maxBytes requiredBytes)
        ∨ ¬ Budgets r ∧ ∃ name requested maximum, e = .invalidLimit name requested maximum)
    ∧ ∀ r page, s.query hash r = .ok page →
      page.toJson.size ≤ r.maxBytes ∧ page.facts.length ≤ r.maxFacts := by
  obtain ⟨selected, hselects, hshown⟩ := hpages.shown
  refine ⟨⟨selected, hselects, hselects.ordered (new_ordered hs), ?_, fun hnone => ?_,
    hshown.nonempty⟩, fun c r hnext hsame hcursor => ?_, fun r page => query_bounds⟩
  · rw [hshown.facts]
    exact List.take_prefix _ _
  · have hall : selected.length ≤ (shownFacts pages).length := by
      by_contra hlt
      -- a cursor is left while a fact remains
      have hcursor := hshown.cursor
      rw [hnone, cursorAfter, cursorAt, if_pos (Nat.lt_of_not_le hlt)] at hcursor
      exact absurd hcursor (by simp)
    rw [hshown.facts, List.take_of_length_le hall]
  · subst hnext
    have hlt := cursorAfter_some hshown.cursor
    -- the cursor names the selection, which the request shares
    have hcursor' : r.cursor = cursorAfter s hash r selected (shownFacts pages).length := by
      rw [hcursor, hshown.cursor, cursorAfter, cursorAfter, selection_eq_iff.mpr hsame]
    by_cases hbudgets : Budgets r
    · rcases query_page hash (hselects.same hsame) hbudgets (.inr ⟨hcursor', hlt⟩) with
        ⟨n, page, hquery, -, -, -, -, -, hsome⟩ | ⟨requiredBytes, hquery⟩
      · rw [hquery]
        exact ⟨fun page' h => Except.ok.inj h ▸ hsome hlt, fun e h => absurd h (by simp)⟩
      · rw [hquery]
        exact ⟨fun page' h => absurd h (by simp),
          fun e h => .inl ⟨requiredBytes, (Except.error.inj h).symm⟩⟩
    · obtain ⟨name, requested, maximum, hquery⟩ :=
        query_invalid s hash (hselects.same hsame).limits hbudgets
      rw [hquery]
      exact ⟨fun page' h => absurd h (by simp),
        fun e h => .inr ⟨hbudgets, name, requested, maximum, (Except.error.inj h).symm⟩⟩

namespace Sample

/-- Two nodes. -/
def nodes : List (Node Json.Value) := [⟨"a", "Symbol", name⟩, ⟨"b", "Symbol", none⟩]

/-- A page of one node. -/
def one : QueryRequest := { kind := some .node, labels := ["Symbol", "Endpoint"], maxFacts := 1 }

end Sample

theorem sample_page : ∃ s page c, ContextSnapshot.new Sample.hash Sample.nodes [] = .ok s
    ∧ s.query Sample.hash Sample.one = .ok page ∧ page.nextCursor = some c := by
  have hcursor : ((ContextSnapshot.new Sample.hash Sample.nodes []).bind fun s =>
      s.query Sample.hash Sample.one).toOption.bind QueryResponse.nextCursor ≠ none := by
    decide +kernel
  obtain ⟨c, hc⟩ := Option.ne_none_iff_exists'.mp hcursor
  obtain ⟨page, hpage, hnext⟩ := Option.bind_eq_some_iff.mp hc
  cases hs : ContextSnapshot.new Sample.hash Sample.nodes [] with
  | error e =>
    rw [hs] at hpage
    exact absurd hpage (by simp [Except.bind, Except.toOption])
  | ok s =>
    rw [hs] at hpage
    cases hquery : s.query Sample.hash Sample.one with
    | error e =>
      simp only [Except.bind, hquery, Except.toOption] at hpage
      exact absurd hpage (by simp)
    | ok page' =>
      simp only [Except.bind, hquery, Except.toOption, Option.some_inj] at hpage
      exact ⟨s, page', c, rfl, hquery, hpage ▸ hnext⟩

theorem query_lossless_one : ∃ s pages next,
    ContextSnapshot.new Sample.hash Sample.nodes [] = .ok s
    ∧ QueryPages s Sample.hash Sample.one pages next
    ∧ ∃ selected, Selects s Sample.one selected ∧ shownFacts pages <+: selected := by
  obtain ⟨s, page, c, hs, hquery, -⟩ := sample_page
  have hpages : QueryPages s Sample.hash Sample.one [page] page.nextCursor :=
    .first ⟨rfl, rfl, fun _ => Iff.rfl⟩ rfl hquery
  obtain ⟨⟨selected, hselects, -, hshown, -⟩, -⟩ := query_lossless hs hpages
  exact ⟨s, _, _, hs, hpages, selected, hselects, hshown⟩

/-- A budget of no facts is refused as a limit, whatever the cursor. -/
theorem query_refuses_budget :
    ¬ ∀ (hash : String → String) (nodes : List (Node Json.Value)) (edges : List (Edge Json.Value))
      (s : ContextSnapshot) (request r : QueryRequest) (pages : List QueryResponse)
      (c : QueryCursor) (e : ContextError),
      ContextSnapshot.new hash nodes edges = .ok s → QueryPages s hash request pages (some c) →
      SameSelection request r → r.cursor = some c → s.query hash r = .error e →
      ∃ requiredBytes, e = .responseBudgetExceeded r.maxBytes requiredBytes := by
  intro h
  obtain ⟨s, page, c, hs, hquery, hnext⟩ := sample_page
  have hpages : QueryPages s Sample.hash Sample.one [page] (some c) :=
    hnext ▸ .first ⟨rfl, rfl, fun _ => Iff.rfl⟩ rfl hquery
  obtain ⟨requiredBytes, he⟩ := h Sample.hash Sample.nodes [] s Sample.one
    { Sample.one with maxFacts := 0, cursor := some c } [page] c (.invalidLimit "max_facts" 0 500)
    hs hpages ⟨rfl, rfl, fun _ => Iff.rfl⟩ rfl rfl
  exact absurd he (by simp)

end ContextHub

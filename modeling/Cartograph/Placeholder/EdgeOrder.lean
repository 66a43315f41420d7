/-
Placeholders and the order of the edges.

Of edges that agree on a proven boundary the first one is held, and its evidence alone decides
whether the boundary is confirmed.

* `placedKind_cons` — the kind of a placeholder, from the first edge that names its endpoint;
* `edge_order_iff` — the kinds are the same in every order of the edges exactly when, of edges
  that agree on a proven boundary, all carry evidence or none does;
* `edge_order_matters` — two edges that agree, one without evidence.
-/
import Cartograph.Placeholder.Closure

namespace Placeholder

open GraphStore Investigation Grouped

/-- A classifier without a state. -/
def stateless (classify : String → Edge Json → Option Boundary) (s : Unit) (id : String)
    (e : Edge Json) : Option Boundary × Unit := (classify id e, s)

def Names (e : Edge Json) (id : String) : Prop := e.src = id ∨ e.dst = id

/-- The boundary and the confidence of a node. -/
def marks (n : Node Json) : Option Json × Option Json :=
  (get n.props "boundary", (get n.props "prov").bind fun prov => get prov "confidence_tier")

section Order

variable (t : Texts) (nodes : List (Node Json)) (fallbackExtractor : String)
  (labelOf : String → String) (classify : String → Edge Json → Option Boundary)

def judged (id : String) (e : Edge Json) : Boundary :=
  (classify id e).getD (.unresolved (unresolvedReason t e))

/-- The boundary and the confidence of the placeholder for `id`. -/
def verdict (edges : List (Edge Json)) (id : String) : Option (Option Json × Option Json) :=
  (((closeOverEndpoints t nodes edges fallbackExtractor labelOf (stateless classify) ()).drop
    nodes.length).find? fun n => n.id == id).map marks

/-- The kind of the placeholder for `id`. -/
def placedKind (edges : List (Edge Json)) (id : String) : Option String :=
  (held id (pending (references t (stateless classify) () nodes edges))).map fun held =>
    (citable t held.1 held.2).kind

end Order

variable {edges : List (Edge Json)} {id : String}

section Order

variable {t : Texts} {nodes : List (Node Json)} {fallbackExtractor : String}
  {labelOf : String → String} {classify : String → Edge Json → Option Boundary}

theorem find?_placeholders (f : String × Edge Json × Boundary → Node Json)
    (hid : ∀ entry, (f entry).id = entry.1) (entries : List (String × Edge Json × Boundary))
    (id : String) : (entries.map f).find? (fun n => n.id == id)
      = (held id entries).map fun b => f (id, b) := by
  induction entries with
  | nil => rfl
  | cons entry rest ih =>
    obtain ⟨k, b⟩ := entry
    rw [List.map_cons, List.find?_cons, hid, held, ih]
    by_cases hk : k = id
    · rw [hk, beq_self_eq_true, if_pos rfl]
      rfl
    · rw [beq_eq_false_iff_ne.mpr hk, if_neg hk]

/-- The confidence that goes with a kind. -/
def kindConfidence (kind : String) : ConfidenceTier :=
  if kind = "unresolved" then .gap else .confirmed

theorem kindConfidence_kind (b : Boundary) : kindConfidence b.kind = b.confidence := by
  cases b <;> rfl

theorem verdict_eq (edges : List (Edge Json)) (id : String) :
    verdict t nodes fallbackExtractor labelOf classify edges id
      = (placedKind t nodes classify edges id).map fun kind =>
          (some (.str kind), some (.str (kindConfidence kind).text)) := by
  rw [verdict, closeOverEndpoints, List.drop_left, find?_placeholders _ fun _ => rfl, placedKind,
    Option.map_map, Option.map_map]
  refine congrArg (fun f => Option.map f _) (funext fun held => ?_)
  show (some (Json.str (citable t held.1 held.2).kind),
    some (Json.str (citable t held.1 held.2).confidence.text)) = _
  rw [← kindConfidence_kind]
  rfl

/-! ### The references to one endpoint -/

theorem classified_stateless (l : List (String × Edge Json)) :
    classified t (stateless classify) () l
      = l.map fun top => ⟨top.1, top.2, judged t classify top.1 top.2⟩ := by
  induction l with
  | nil => rfl
  | cons top rest ih =>
    rw [classified, List.map_cons, ih]
    rfl

/-- The references to `id`, in the order of the edges. -/
def referring (t : Texts) (nodes : List (Node Json))
    (classify : String → Edge Json → Option Boundary) (edges : List (Edge Json)) (id : String) :
    List Reference :=
  (references t (stateless classify) () nodes edges).filter fun r => decide (r.id = id)

theorem mem_referring {r : Reference} :
    r ∈ referring t nodes classify edges id ↔ id ∉ nodes.map Node.id
      ∧ ∃ e ∈ edges, Names e id ∧ r = ⟨id, e, judged t classify id e⟩ := by
  rw [referring, references, classified_stateless, List.mem_filter, List.mem_map]
  constructor
  · rintro ⟨⟨⟨k, e⟩, hmem, rfl⟩, hid⟩
    obtain rfl : k = id := of_decide_eq_true hid
    obtain ⟨e', he', hin⟩ := List.mem_flatMap.mp hmem
    obtain ⟨k', hk', heq⟩ := List.mem_map.mp hin
    obtain ⟨rfl, rfl⟩ := Prod.mk.inj heq
    obtain ⟨hends, hnew⟩ := List.mem_filter.mp hk'
    refine ⟨by simpa using hnew, e', he', ?_, rfl⟩
    simp only [List.mem_cons, List.not_mem_nil, or_false] at hends
    exact hends.imp Eq.symm Eq.symm
  · rintro ⟨hnew, e, he, hnames, rfl⟩
    refine ⟨⟨(id, e), List.mem_flatMap.mpr ⟨e, he, List.mem_map.mpr ⟨id, ?_, rfl⟩⟩, rfl⟩,
      decide_eq_true rfl⟩
    refine List.mem_filter.mpr ⟨?_, by simpa using hnew⟩
    simp only [List.mem_cons, List.not_mem_nil, or_false]
    exact hnames.imp Eq.symm Eq.symm

theorem referring_append (first rest : List (Edge Json)) (id : String) :
    referring t nodes classify (first ++ rest) id
      = referring t nodes classify first id ++ referring t nodes classify rest id := by
  simp only [referring, references, classified_stateless, endpoints, List.flatMap_append,
    List.map_append, List.filter_append]

theorem referring_cons (t : Texts) (classify : String → Edge Json → Option Boundary) {e : Edge Json}
    (edges : List (Edge Json)) (hnew : id ∉ nodes.map Node.id) (hnames : Names e id) :
    ∃ rest, referring t nodes classify (e :: edges) id
      = ⟨id, e, judged t classify id e⟩ :: rest := by
  have hown : (⟨id, e, judged t classify id e⟩ : Reference)
      ∈ referring t nodes classify [e] id :=
    mem_referring.mpr ⟨hnew, e, List.mem_singleton_self e, hnames, rfl⟩
  rw [← List.singleton_append, referring_append]
  cases hrefs : referring t nodes classify [e] id with
  | nil =>
    rw [hrefs] at hown
    exact absurd hown List.not_mem_nil
  | cons r rest =>
    obtain ⟨-, e', he', -, rfl⟩ := mem_referring.mp (hrefs ▸ List.mem_cons_self : r ∈ _)
    obtain rfl := List.mem_singleton.mp he'
    exact ⟨rest ++ referring t nodes classify edges id, rfl⟩

theorem placedKind_cons {r : Reference} {rest : List Reference}
    (h : referring t nodes classify edges id = r :: rest) :
    ∃ kind, placedKind t nodes classify edges id = some kind
      ∧ (kind = "external" ∨ kind = "internal" ∨ kind = "unresolved")
      ∧ ∀ proven, (proven = "external" ∨ proven = "internal") →
        (kind = proven ↔ (∀ q ∈ r :: rest, q.boundary.kind = proven) ∧ edgeEvidence r.edge ≠ []) := by
  have hheld : held id (pending (references t (stateless classify) () nodes edges))
      = some (rest.foldl hold (r.edge, r.boundary)) := by
    rw [pending, held_groups, show (List.filter _ _) = r :: rest from h]
    rfl
  generalize hlast : rest.foldl hold (r.edge, r.boundary) = last at hheld
  refine ⟨(citable t last.1 last.2).kind, by rw [placedKind, hheld]; rfl, ?_, fun proven hkind => ?_⟩
  · cases citable t last.1 last.2 <;> simp [Boundary.kind]
  constructor
  · intro heq
    have hproven : (citable t last.1 last.2).proven = true := proven_iff.mpr (heq ▸ hkind)
    obtain ⟨hsame, hb, hevidence⟩ := citable_proven hproven
    have hfold : (rest.foldl hold (r.edge, r.boundary)).2.proven = true := hlast ▸ hb
    obtain ⟨hfirst, hkinds⟩ := foldl_hold_proven hfold
    obtain rfl : last = (r.edge, r.boundary) := hlast.symm.trans hfirst
    rw [hsame] at heq
    refine ⟨fun q hq => ?_, hevidence⟩
    rcases List.mem_cons.mp hq with rfl | hq
    · exact heq
    · exact (hkinds q hq).trans heq
  · rintro ⟨hkinds, hevidence⟩
    have hr : r.boundary.kind = proven := hkinds r List.mem_cons_self
    have hfirst : rest.foldl hold (r.edge, r.boundary) = (r.edge, r.boundary) :=
      foldl_hold_agrees (proven_iff.mpr (hr ▸ hkind)) fun q hq =>
        (hkinds q (List.mem_cons_of_mem _ hq)).trans hr.symm
    obtain rfl : last = (r.edge, r.boundary) := hlast.symm.trans hfirst
    rw [citable, if_neg fun h => hevidence h.2]
    exact hr

theorem placedKind_none (h : referring t nodes classify edges id = []) :
    placedKind t nodes classify edges id = none := by
  rw [placedKind, pending, held_groups, show (List.filter _ _) = [] from h]
  rfl

theorem verdict_eq_iff {edges' : List (Edge Json)} :
    verdict t nodes fallbackExtractor labelOf classify edges' id
        = verdict t nodes fallbackExtractor labelOf classify edges id
      ↔ placedKind t nodes classify edges' id = placedKind t nodes classify edges id := by
  have hinj : Function.Injective fun kind : String =>
      (some (Json.str kind), some (Json.str (kindConfidence kind).text)) := by
    intro a b hab
    exact Json.str.inj (Option.some.inj (Prod.mk.inj hab).1)
  rw [verdict_eq, verdict_eq]
  exact (Option.map_injective hinj).eq_iff

/-! ### Another order -/

/-- Brought to the front, an edge decides by its evidence whether the boundary all agree on is
proven. -/
theorem placed_first {e : Edge Json} {proven : String} (hnew : id ∉ nodes.map Node.id)
    (hkind : proven = "external" ∨ proven = "internal")
    (hagree : ∀ e ∈ edges, Names e id → (judged t classify id e).kind = proven) (he : e ∈ edges)
    (hnames : Names e id) :
    ∃ edges', edges.Perm edges'
      ∧ (placedKind t nodes classify edges' id = some proven ↔ edgeEvidence e ≠ []) := by
  obtain ⟨before, after, rfl⟩ := List.append_of_mem he
  refine ⟨e :: (before ++ after), List.perm_middle, ?_⟩
  obtain ⟨rest, hrefs⟩ := referring_cons t classify (before ++ after) hnew hnames
  obtain ⟨kind, hplaced, -, hproven⟩ := placedKind_cons hrefs
  rw [hplaced, Option.some_inj, hproven proven hkind]
  refine and_iff_right fun q hq => ?_
  obtain ⟨-, e', he', hnames', rfl⟩ := mem_referring.mp (hrefs ▸ hq)
  exact hagree e' (List.perm_middle.mem_iff.mpr he') hnames'

/-- **The order of the edges.**  With a classifier that keeps no state, the boundary and the
confidence of every placeholder are the same in every order of the edges exactly when, for each
endpoint whose edges agree on a proven boundary, all of these edges carry evidence or none
does. -/
theorem edge_order_iff (t : Texts) (nodes : List (Node Json)) (edges : List (Edge Json))
    (fallbackExtractor : String) (labelOf : String → String)
    (classify : String → Edge Json → Option Boundary) :
    (∀ edges', edges.Perm edges' → ∀ id,
      verdict t nodes fallbackExtractor labelOf classify edges' id
        = verdict t nodes fallbackExtractor labelOf classify edges id)
    ↔ ∀ id ∉ nodes.map Node.id, ∀ kind, (kind = "external" ∨ kind = "internal") →
      (∀ e ∈ edges, Names e id → (judged t classify id e).kind = kind) →
      (∀ e ∈ edges, Names e id → edgeEvidence e ≠ [])
        ∨ ∀ e ∈ edges, Names e id → edgeEvidence e = [] := by
  constructor
  · intro hall id hnew kind hkind hagree
    by_contra hmixed
    rw [not_or] at hmixed
    obtain ⟨hbare, hcited⟩ := hmixed
    push Not at hbare hcited
    -- one order has a bare edge first, another a cited one
    obtain ⟨e₁, he₁, hnames₁, hnone⟩ := hbare
    obtain ⟨e₂, he₂, hnames₂, hsome⟩ := hcited
    obtain ⟨edges₁, hperm₁, hplaced₁⟩ := placed_first hnew hkind hagree he₁ hnames₁
    obtain ⟨edges₂, hperm₂, hplaced₂⟩ := placed_first hnew hkind hagree he₂ hnames₂
    rw [verdict_eq_iff.mp (hall edges₁ hperm₁ id)] at hplaced₁
    rw [verdict_eq_iff.mp (hall edges₂ hperm₂ id)] at hplaced₂
    exact hplaced₁.mp (hplaced₂.mpr hsome) hnone
  · intro hevidence edges' hperm id
    rw [verdict_eq_iff]
    -- both orders have the same references
    have hmem : ∀ q, q ∈ referring t nodes classify edges' id
        ↔ q ∈ referring t nodes classify edges id := by
      intro q
      simp only [mem_referring, hperm.mem_iff]
    cases hrefs : referring t nodes classify edges id with
    | nil =>
      have hnone : referring t nodes classify edges' id = [] := by
        refine List.eq_nil_iff_forall_not_mem.mpr fun q hq => ?_
        rw [hmem, hrefs] at hq
        exact List.not_mem_nil hq
      rw [placedKind_none hrefs, placedKind_none hnone]
    | cons r rest =>
      cases hrefs' : referring t nodes classify edges' id with
      | nil =>
        have hr := (hmem r).mpr (hrefs ▸ List.mem_cons_self)
        rw [hrefs'] at hr
        exact absurd hr List.not_mem_nil
      | cons r' rest' =>
        have hsame : ∀ q, q ∈ r' :: rest' ↔ q ∈ r :: rest := by
          intro q
          rw [← hrefs, ← hrefs', hmem]
        obtain ⟨kind, hplaced, hthree, hproven⟩ := placedKind_cons hrefs
        obtain ⟨kind', hplaced', hthree', hproven'⟩ := placedKind_cons hrefs'
        -- a proven kind in one order is the kind in the other
        have hiff : ∀ proven, (proven = "external" ∨ proven = "internal") →
            (kind' = proven ↔ kind = proven) := by
          intro proven hkind
          rw [hproven' proven hkind, hproven proven hkind]
          simp only [hsame]
          refine and_congr_right fun hagree => ?_
          have hedge : ∀ q ∈ r :: rest, id ∉ nodes.map Node.id
              ∧ q.edge ∈ edges ∧ Names q.edge id := by
            intro q hq
            obtain ⟨hnew, e, he, hnames, rfl⟩ := mem_referring.mp (hrefs ▸ hq)
            exact ⟨hnew, he, hnames⟩
          obtain ⟨hnew, he, hnames⟩ := hedge r List.mem_cons_self
          obtain ⟨-, he', hnames'⟩ := hedge r' ((hsame r').mp List.mem_cons_self)
          have hagree' : ∀ e ∈ edges, Names e id → (judged t classify id e).kind = proven := by
            intro e he hnames
            exact hagree ⟨id, e, judged t classify id e⟩
              (hrefs ▸ mem_referring.mpr ⟨hnew, e, he, hnames, rfl⟩)
          rcases hevidence id hnew proven hkind hagree' with hcited | hbare
          · exact iff_of_true (hcited r'.edge he' hnames') (hcited r.edge he hnames)
          · exact iff_of_false (fun h => h (hbare r'.edge he' hnames'))
              fun h => h (hbare r.edge he hnames)
        rw [hplaced, hplaced']
        refine congrArg some ?_
        -- the third kind is what is left when neither is proven
        rcases hthree with heq | heq | heq
        · exact ((hiff "external" (.inl rfl)).mpr heq).trans heq.symm
        · exact ((hiff "internal" (.inr rfl)).mpr heq).trans heq.symm
        · rcases hthree' with heq' | heq' | heq'
          · exact heq'.trans ((hiff "external" (.inl rfl)).mp heq').symm
          · exact heq'.trans ((hiff "internal" (.inr rfl)).mp heq').symm
          · exact heq'.trans heq.symm

end Order

namespace Sample

/-- The configured classification, which needs no state. -/
def external (id : String) (_ : Edge Json) : Option Boundary :=
  if id = "mod:x" then some (.external "not declared" []) else none

def bare : Edge Json := imports []

def cited : Edge Json := imports [span]

end Sample

/-- Two imports of a module that is external, one of them without evidence: the placeholder is
confirmed only when the other one comes first. -/
theorem edge_order_matters : ¬∀ (t : Texts) (nodes : List (Node Json))
    (edges edges' : List (Edge Json)) (fallbackExtractor : String) (labelOf : String → String)
    (classify : String → Edge Json → Option Boundary), edges.Perm edges' → ∀ id,
    verdict t nodes fallbackExtractor labelOf classify edges' id
      = verdict t nodes fallbackExtractor labelOf classify edges id := by
  intro hall
  have h := verdict_eq_iff.mp (hall Sample.texts [] [Sample.cited, Sample.bare]
    [Sample.bare, Sample.cited] "t0" labelForId Sample.external (List.Perm.swap _ _ []) "mod:x")
  exact absurd h (by decide)

end Placeholder

/-
Whether the overlay is a graph.

A graph has one node for an id, one edge for a source, target and label, and both ends of every
edge.  The overlay keeps its nodes distinct but not its edges, and of a gap that is filled it
takes out the edges to it but not those from it.

* `mem_fills` — the fill of a gap is the last proposal accepted for it;
* `Harmless` — no fill meets an edge, and no edge is left without an end;
* `overlay_wellFormed_iff` — the overlay of a graph is a graph exactly then;
* `overlay_repeats_edge` — a fill with a target that is linked already.
-/
import Cartograph.Semantic.Overlay

namespace Semantic

open GraphStore Investigation SortBy

/-- What no two edges of a graph share. -/
def edgeKey (e : Edge Json) : String × String × String := (e.src, e.dst, e.label)

def SemanticProposal.edgeKey (p : SemanticProposal) : String × String × String :=
  (p.sourceId, p.targetId, p.edgeLabel)

/-- One node for an id, one edge for a key, and both ends of every edge. -/
structure WellFormed (nodes : List (Node Json)) (edges : List (Edge Json)) : Prop where
  ids : (nodes.map Node.id).Nodup
  keys : (edges.map edgeKey).Nodup
  ends : ∀ e ∈ edges, e.src ∈ nodes.map Node.id ∧ e.dst ∈ nodes.map Node.id

/-- The proposal fills its gap: it is the last one accepted for it. -/
def Fills (nodes : List (Node Json)) (edges : List (Edge Json)) (approved : List SemanticProposal)
    (p : SemanticProposal) : Prop :=
  ((accepted nodes edges approved).reverse.find? fun q => q.gapId = p.gapId) = some p

/-- A node with the id is there after the filled gaps are taken out, if it was before: no gap
under it is filled, or a fill brings such a node. -/
def Stays (nodes : List (Node Json)) (edges : List (Edge Json)) (approved : List SemanticProposal)
    (id : String) : Prop :=
  id ∈ filled nodes edges approved →
    ∃ p, Fills nodes edges approved p ∧ ∃ n, p.targetNode = some n ∧ n.id = id

/-- No two fills make one edge, no fill makes an edge that is kept, and the ends of the edges that
are kept or made stay. -/
structure Harmless (nodes : List (Node Json)) (edges : List (Edge Json))
    (approved : List SemanticProposal) : Prop where
  fills : ∀ p q, Fills nodes edges approved p → Fills nodes edges approved q →
    p.edgeKey = q.edgeKey → p.gapId = q.gapId
  kept : ∀ e ∈ edges, e.dst ∉ filled nodes edges approved →
    ∀ p, Fills nodes edges approved p → edgeKey e ≠ p.edgeKey
  sources : ∀ e ∈ edges, e.dst ∉ filled nodes edges approved → Stays nodes edges approved e.src
  ends : ∀ p, Fills nodes edges approved p →
    Stays nodes edges approved p.sourceId ∧ Stays nodes edges approved p.targetId

section Exact

variable {nodes : List (Node Json)} {edges : List (Edge Json)} {approved : List SemanticProposal}
  {eval : EvalReport}

/-! ### What the overlay consists of -/

theorem mem_fills {r : String × SemanticProposal} :
    r ∈ (fills nodes edges approved).rows ↔ r.1 = r.2.gapId ∧ Fills nodes edges approved r.2 := by
  obtain ⟨gap, p⟩ := r
  show (gap, p) ∈ _ ↔ gap = p.gapId ∧ Fills nodes edges approved p
  rw [← Table.find?_eq_some_iff, fills, Table.find?_ofList, Option.map_id, id_eq, Fills]
  constructor
  · intro hfind
    have hgap : p.gapId = gap := by simpa using List.find?_some hfind
    exact ⟨hgap.symm, hgap ▸ hfind⟩
  · rintro ⟨rfl, hfind⟩
    exact hfind

theorem Fills.accepted {p : SemanticProposal} (h : Fills nodes edges approved p) :
    p ∈ accepted nodes edges approved :=
  List.mem_reverse.mp (List.mem_of_find?_eq_some h)

theorem Fills.source {p : SemanticProposal} (h : Fills nodes edges approved p) :
    ∃ e ∈ edges, e.src = p.sourceId := by
  obtain ⟨-, hslot⟩ := List.mem_filter.mp h.accepted
  obtain ⟨e, he, hslot⟩ := List.any_eq_true.mp hslot
  simp only [SemanticProposal.slot, Bool.and_eq_true, beq_iff_eq] at hslot
  exact ⟨e, he, hslot.1.1.1⟩

/-- The edges that are kept. -/
def keptEdges (nodes : List (Node Json)) (edges : List (Edge Json))
    (approved : List SemanticProposal) : List (Edge Json) :=
  edges.filter fun e => !(resolved nodes edges approved).contains e.dst

theorem mem_keptEdges {e : Edge Json} : e ∈ keptEdges nodes edges approved ↔
    e ∈ edges ∧ e.dst ∉ filled nodes edges approved := by
  rw [keptEdges, List.mem_filter, not_resolved]

theorem overlay_edges_perm : (overlay nodes edges approved eval).edges.Perm
    (keptEdges nodes edges approved
      ++ (fills nodes edges approved).rows.map fun r => r.2.asEdge eval) :=
  sortBy_perm _ _

theorem mem_overlay_edges {e : Edge Json} : e ∈ (overlay nodes edges approved eval).edges ↔
    (e ∈ edges ∧ e.dst ∉ filled nodes edges approved)
      ∨ ∃ p, Fills nodes edges approved p ∧ p.asEdge eval = e := by
  rw [overlay_edges_perm.mem_iff, List.mem_append, mem_keptEdges, List.mem_map]
  refine or_congr Iff.rfl ⟨?_, ?_⟩
  · rintro ⟨r, hr, rfl⟩
    exact ⟨r.2, (mem_fills.mp hr).2, rfl⟩
  · rintro ⟨p, hp, rfl⟩
    exact ⟨(p.gapId, p), mem_fills.mpr ⟨rfl, hp⟩, rfl⟩

theorem mem_overlay_ids {id : String} :
    id ∈ (overlay nodes edges approved eval).nodes.map Node.id ↔
      (id ∈ nodes.map Node.id ∧ id ∉ filled nodes edges approved)
        ∨ ∃ p, Fills nodes edges approved p ∧ ∃ n, p.targetNode = some n ∧ n.id = id := by
  set all := keptNodes nodes edges approved ++ targets nodes edges approved with hall
  have hids : id ∈ (overlay nodes edges approved eval).nodes.map Node.id ↔ ∃ n ∈ all, n.id = id := by
    constructor
    · intro hid
      obtain ⟨n, hn, rfl⟩ := List.mem_map.mp hid
      have hn' := (distinct_sublist Node.id (sortBy Node.id all)).subset hn
      exact ⟨n, (sortBy_perm Node.id all).mem_iff.mp hn', rfl⟩
    · rintro ⟨n, hn, rfl⟩
      have hsorted := (sortBy_perm Node.id all).mem_iff.mpr hn
      obtain ⟨n', hn', hid⟩ : ∃ n' ∈ distinct Node.id (sortBy Node.id all), n'.id = n.id :=
        distinct_covers hsorted
      exact List.mem_map.mpr ⟨n', hn', hid⟩
  rw [hids]
  constructor
  · rintro ⟨n, hn, rfl⟩
    rcases List.mem_append.mp hn with hkept | htarget
    · obtain ⟨hmem, hnot⟩ := mem_keptNodes.mp hkept
      exact .inl ⟨List.mem_map_of_mem hmem, hnot⟩
    · obtain ⟨r, hr, hnode⟩ := List.mem_filterMap.mp (List.mem_filter.mp htarget).1
      exact .inr ⟨r.2, (mem_fills.mp hr).2, n, hnode, rfl⟩
  · rintro (⟨hid, hnot⟩ | ⟨p, hp, n, hnode, rfl⟩)
    · obtain ⟨n, hn, rfl⟩ := List.mem_map.mp hid
      exact ⟨n, List.mem_append_left _ (mem_keptNodes.mpr ⟨hn, hnot⟩), rfl⟩
    · -- the node of a fill is added unless one with its id is kept
      by_cases hkept : n.id ∈ (keptNodes nodes edges approved).map Node.id
      · obtain ⟨n', hn', hid⟩ := List.mem_map.mp hkept
        exact ⟨n', List.mem_append_left _ hn', hid⟩
      · refine ⟨n, List.mem_append_right _ (List.mem_filter.mpr ⟨?_, ?_⟩), rfl⟩
        · exact List.mem_filterMap.mpr ⟨(p.gapId, p), mem_fills.mpr ⟨rfl, hp⟩, hnode⟩
        · rw [Bool.not_eq_true', ← Bool.not_eq_true, List.contains_iff_mem]
          exact hkept

theorem overlay_id_iff {id : String} (h : id ∈ nodes.map Node.id) :
    id ∈ (overlay nodes edges approved eval).nodes.map Node.id
      ↔ Stays nodes edges approved id := by
  rw [mem_overlay_ids, Stays]
  tauto

theorem overlay_ids_nodup (eval : EvalReport) :
    ((overlay nodes edges approved eval).nodes.map Node.id).Nodup :=
  distinct_nodup (sortBy_pairwise _ _)

/-! ### Edges -/

/-- The edges of the overlay have keys of their own exactly when no fill meets another or an edge
that is kept. -/
theorem overlay_keys_iff (h : (edges.map edgeKey).Nodup) :
    ((overlay nodes edges approved eval).edges.map edgeKey).Nodup ↔
      (∀ p q, Fills nodes edges approved p → Fills nodes edges approved q →
        p.edgeKey = q.edgeKey → p.gapId = q.gapId)
      ∧ ∀ e ∈ edges, e.dst ∉ filled nodes edges approved →
        ∀ p, Fills nodes edges approved p → edgeKey e ≠ p.edgeKey := by
  have hkept : ((keptEdges nodes edges approved).map edgeKey).Nodup :=
    h.sublist (List.filter_sublist.map edgeKey)
  have hrows : (fills nodes edges approved).rows.Nodup := (Table.keys_nodup _).of_map
  rw [(overlay_edges_perm.map edgeKey).nodup_iff, List.map_append, List.map_map,
    List.nodup_append, List.nodup_map_iff_inj_on hrows]
  constructor
  · rintro ⟨-, hinj, hdisjoint⟩
    refine ⟨fun p q hp hq hsame => ?_, fun e he hnot p hp hsame => ?_⟩
    · exact congrArg Prod.fst (hinj (p.gapId, p) (mem_fills.mpr ⟨rfl, hp⟩) (q.gapId, q)
        (mem_fills.mpr ⟨rfl, hq⟩) hsame)
    · refine hdisjoint (edgeKey e) (List.mem_map_of_mem (mem_keptEdges.mpr ⟨he, hnot⟩)) p.edgeKey ?_ hsame
      exact List.mem_map.mpr ⟨(p.gapId, p), mem_fills.mpr ⟨rfl, hp⟩, rfl⟩
  · rintro ⟨hfills, hmeet⟩
    refine ⟨hkept, fun r hr r' hr' hsame => ?_, fun k hk k' hk' hsame => ?_⟩
    · obtain ⟨hgap, hp⟩ := mem_fills.mp hr
      obtain ⟨hgap', hp'⟩ := mem_fills.mp hr'
      have hfst : r.1 = r'.1 := by rw [hgap, hgap', hfills _ _ hp hp' hsame]
      exact List.inj_on_of_nodup_map (Table.keys_nodup _) hr hr' hfst
    · obtain ⟨e, he, rfl⟩ := List.mem_map.mp hk
      obtain ⟨r, hr, rfl⟩ := List.mem_map.mp hk'
      obtain ⟨he, hnot⟩ := mem_keptEdges.mp he
      exact hmeet e he hnot r.2 (mem_fills.mp hr).2 hsame

/-- **When the overlay is a graph.**  Of a graph, with fills whose targets exist, the overlay is a
graph again exactly when no fill makes an edge that another makes or that is kept, and no edge
that is kept or made has an end at a gap that is taken out. -/
theorem overlay_wellFormed_iff (h : WellFormed nodes edges)
    (htargets : ∀ p, Fills nodes edges approved p →
      p.targetId ∈ nodes.map Node.id ∨ ∃ n, p.targetNode = some n ∧ n.id = p.targetId)
    (eval : EvalReport) :
    WellFormed (overlay nodes edges approved eval).nodes (overlay nodes edges approved eval).edges
      ↔ Harmless nodes edges approved := by
  constructor
  · rintro ⟨-, hkeys, hends⟩
    obtain ⟨hfills, hkept⟩ := (overlay_keys_iff h.keys).mp hkeys
    refine ⟨hfills, hkept, fun e he hnot => ?_, fun p hp => ⟨?_, ?_⟩⟩
    · have hsrc := (hends e (mem_overlay_edges.mpr (.inl ⟨he, hnot⟩))).1
      exact (overlay_id_iff (h.ends e he).1).mp hsrc
    · obtain ⟨e, he, hsrc⟩ := hp.source
      have hin := (hends _ (mem_overlay_edges.mpr (.inr ⟨p, hp, rfl⟩))).1
      have hid : p.sourceId ∈ nodes.map Node.id := hsrc ▸ (h.ends e he).1
      exact (overlay_id_iff hid).mp hin
    · intro hfilled
      rcases mem_overlay_ids.mp (hends _ (mem_overlay_edges.mpr (.inr ⟨p, hp, rfl⟩))).2 with
        ⟨-, hnot⟩ | hbrought
      · exact absurd hfilled hnot
      · exact hbrought
  · intro hharmless
    refine ⟨overlay_ids_nodup eval, (overlay_keys_iff h.keys).mpr ⟨hharmless.fills, hharmless.kept⟩,
      fun e he => ?_⟩
    rcases mem_overlay_edges.mp he with ⟨he, hnot⟩ | ⟨p, hp, rfl⟩
    · obtain ⟨hsrc, hdst⟩ := h.ends e he
      exact ⟨(overlay_id_iff hsrc).mpr (hharmless.sources e he hnot),
        mem_overlay_ids.mpr (.inl ⟨hdst, hnot⟩)⟩
    · obtain ⟨hstays, hstays'⟩ := hharmless.ends p hp
      obtain ⟨e, he, hsrc⟩ := hp.source
      have hid : p.sourceId ∈ nodes.map Node.id := hsrc ▸ (h.ends e he).1
      refine ⟨(overlay_id_iff hid).mpr hstays, ?_⟩
      rcases htargets p hp with hin | ⟨n, hnode, hid⟩
      · exact (overlay_id_iff hin).mpr hstays'
      · exact mem_overlay_ids.mpr (.inr ⟨p, hp, n, hnode, hid⟩)

end Exact

namespace Sample

def symbol (id : String) : Node Json := ⟨id, "Symbol", .obj []⟩

/-- `sym:a` calls `sym:t`, and calls something that was not resolved. -/
def linked : List (Edge Json) := [⟨"sym:a", "sym:t", "CALLS", .obj []⟩, fact "sym:a" "CALLS"]

def symbols : List (Node Json) := [symbol "sym:a", symbol "sym:t", gap]

theorem linked_wellFormed : WellFormed symbols linked := by
  refine ⟨by decide, by decide, ?_⟩
  intro e he
  rcases List.mem_cons.mp he with rfl | he
  · exact ⟨by decide, by decide⟩
  · obtain rfl := List.mem_singleton.mp he
    exact ⟨by decide, by decide⟩

theorem linked_targets (p : SemanticProposal) (hp : Fills symbols linked [proposal] p) :
    p.targetId ∈ symbols.map Node.id := by
  have hin := (List.mem_filter.mp (List.mem_filter.mp hp.accepted).1).1
  obtain rfl := List.mem_singleton.mp hin
  decide

theorem linked_repeats :
    ¬WellFormed (overlay symbols linked [proposal] eval).nodes
      (overlay symbols linked [proposal] eval).edges := by
  intro h
  have hkeys : (overlay symbols linked [proposal] eval).edges.map edgeKey
      = [("sym:a", "sym:t", "CALLS"), ("sym:a", "sym:t", "CALLS")] := by decide
  have hnodup := h.keys
  rw [hkeys] at hnodup
  exact absurd hnodup (by decide)

end Sample

theorem overlay_wellFormed_iff_linked : ¬Harmless Sample.symbols Sample.linked [Sample.proposal] := by
  intro h
  exact Sample.linked_repeats ((overlay_wellFormed_iff Sample.linked_wellFormed
    (fun p hp => .inl (Sample.linked_targets p hp)) Sample.eval).mpr h)

/-- The target of the proposal is called already, and is called twice in the overlay. -/
theorem overlay_repeats_edge : ¬∀ (nodes : List (Node Json)) (edges : List (Edge Json))
    (approved : List SemanticProposal) (eval : EvalReport), WellFormed nodes edges →
    (∀ p, Fills nodes edges approved p → p.targetId ∈ nodes.map Node.id) →
    WellFormed (overlay nodes edges approved eval).nodes
      (overlay nodes edges approved eval).edges := by
  intro hall
  exact Sample.linked_repeats (hall _ _ [Sample.proposal] Sample.eval Sample.linked_wellFormed
    Sample.linked_targets)

end Semantic

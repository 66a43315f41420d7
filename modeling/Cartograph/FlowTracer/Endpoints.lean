/-
The server flow of an endpoint.

An endpoint is traced for itself unless the flow of an anchor has a `FETCHES` hop to it.  That
flow goes on from the endpoint, unless the walk comes to it at the bound.

* `mem_rest_of_uncovered` — an endpoint that no anchor's flow fetches is a trigger;
* `fetched_comes` — the walk that takes a hop comes to where the hop leads;
* `endpoint_reported` — a hop out of an endpoint is in some flow, or a marked flow fetches the
  endpoint at the end of a path as long as the bound;
* `endpoint_lost` — an endpoint behind a row of 63 components has no flow.
-/
import Cartograph.FlowTracer.Truncation

namespace FlowTracer

open GraphStore Investigation SortBy

variable {g : Slice} {contentHash : String → Hash}

theorem mem_dedupIds : ∀ {l : List (Node Json)} {id : String},
    id ∈ (dedupIds l).map Node.id ↔ id ∈ l.map Node.id
  | [], _ => Iff.rfl
  | n :: rest, id => by
    have ih : id ∈ (dedupIds rest).map Node.id ↔ id ∈ rest.map Node.id := mem_dedupIds
    rw [dedupIds, List.map_cons, List.mem_cons, ← ih]
    cases hrest : dedupIds rest with
    | nil => simp
    | cons m rest' =>
      by_cases hsame : n.id = m.id
      · simp only [if_pos hsame, List.map_cons, List.mem_cons]
        rw [hsame]
        tauto
      · simp only [if_neg hsame, List.map_cons, List.mem_cons]

variable {trigger : Node Json}

theorem anchor_mem_trace (h : trigger ∈ g.anchors) :
    g.traceOne contentHash trigger ∈ trace contentHash g :=
  (sortBy_perm _ _).mem_iff.mpr (List.mem_append_left _ (List.mem_map_of_mem h))

/-- The endpoints that the flows of the anchors fetch. -/
def Slice.covered (g : Slice) (contentHash : String → Hash) : List String :=
  ((g.anchors.map (g.traceOne contentHash)).flatMap fun f =>
    f.hops.filter fun h => h.label == "FETCHES").map Hop.dst

theorem rest_mem_trace (h : trigger ∈ g.rest (g.covered contentHash)) :
    g.traceOne contentHash trigger ∈ trace contentHash g :=
  (sortBy_perm _ _).mem_iff.mpr (List.mem_append_right _ (List.mem_map_of_mem h))

theorem mem_covered {id : String} : id ∈ g.covered contentHash ↔
    ∃ trigger ∈ g.anchors, ∃ h ∈ (g.traceOne contentHash trigger).hops,
      h.label = "FETCHES" ∧ h.dst = id := by
  simp only [Slice.covered, List.mem_map, List.mem_flatMap, List.mem_filter, beq_iff_eq]
  constructor
  · rintro ⟨h, ⟨_, ⟨trigger, hanchor, rfl⟩, hmem, hlabel⟩, rfl⟩
    exact ⟨trigger, hanchor, h, hmem, hlabel, rfl⟩
  · rintro ⟨trigger, hanchor, h, hmem, hlabel, rfl⟩
    exact ⟨h, ⟨_, ⟨trigger, hanchor, rfl⟩, hmem, hlabel⟩, rfl⟩

theorem mem_rest_of_uncovered {n : Node Json} {covered : List String} (hn : n ∈ g.nodes)
    (hlabel : n.label = "Endpoint") (hcovered : n.id ∉ covered) :
    ∃ trigger ∈ g.rest covered, trigger.id = n.id := by
  have hid : n.id ∈ (g.rest covered).map Node.id := by
    rw [Slice.rest, mem_dedupIds, ((sortBy_perm _ _).map Node.id).mem_iff]
    refine List.mem_map_of_mem (List.mem_append_left _ (List.mem_filter.mpr ⟨hn, ?_⟩))
    simp [hlabel, hcovered]
  obtain ⟨trigger, hmem, heq⟩ := List.mem_map.mp hid
  exact ⟨trigger, hmem, heq⟩

theorem mem_visited_iff {id : String} :
    id ∈ (g.traversal contentHash trigger.id).visited ↔
      ∃ depth < MAX_DEPTH, g.Comes contentHash trigger.id id depth := by
  rw [Slice.traversal, Arcs.visited_iff (scan_finished g contentHash trigger.id)]
  simp only [comes_iff]

theorem fetched_comes {h : Hop} (hmem : h ∈ (g.traceOne contentHash trigger).hops) :
    ∃ depth, g.Comes contentHash trigger.id h.dst depth := by
  have hexplored : (g.flowArcs contentHash).Explored trigger.id
      (g.traversal contentHash trigger.id) := Arcs.explored_run _ _
  rw [(traceOne_matches g contentHash trigger).1] at hmem
  have htaken := (mem_record hmem).resolve_left List.not_mem_nil
  obtain ⟨id, hid, hgo, harc⟩ := (hexplored.taken h).mp htaken
  obtain ⟨m, depth, hwaits⟩ := Arcs.heads_waited hid hgo harc
  have hcomes := Arcs.comes_of_waiting (scan_finished g contentHash trigger.id) hwaits
  exact ⟨depth, comes_iff.mp hcomes⟩

/-- **The server flow of an endpoint.**  A walkable hop out of an endpoint is among the hops of
some flow, unless the flow of an anchor is marked as cut, fetches the endpoint, and has a path
to it without repetition whose length is the bound. -/
theorem endpoint_reported (g : Slice) (contentHash : String → Hash) {n : Node Json} {e : Edge Json}
    (hn : g.node n.id = some n) (hlabel : n.label = "Endpoint") (he : e ∈ g.edges)
    (hwalk : g.walkable e = true) (hsource : g.walkSource e = n.id) :
    (∃ flow ∈ trace contentHash g, ∃ h ∈ flow.hops, h.key = (g.edgeHop contentHash e).key)
    ∨ ∃ trigger ∈ g.anchors, (g.traceOne contentHash trigger).depthLimited = true
      ∧ (∃ h ∈ (g.traceOne contentHash trigger).hops, h.label = "FETCHES" ∧ h.dst = n.id)
      ∧ ∃ before, g.Path trigger.id before n.id ∧ before.length = MAX_DEPTH ∧ before.Nodup := by
  have hgo : g.isGap (g.walkSource e) = false := by
    rw [hsource, Slice.isGap, hn, Option.any_some, hlabel]
    decide
  -- a walk that comes to the endpoint before the bound has the hop
  have hexpanded : ∀ {trigger : Node Json} {depth : ℕ}, depth < MAX_DEPTH →
      g.Comes contentHash trigger.id n.id depth →
      ∃ h ∈ (g.traceOne contentHash trigger).hops, h.key = (g.edgeHop contentHash e).key := by
    intro trigger depth hlt hcomes
    have hvisited : g.walkSource e ∈ (g.traversal contentHash trigger.id).visited :=
      hsource ▸ mem_visited_iff.mpr ⟨depth, hlt, hcomes⟩
    exact recorded_of_visited he hwalk hgo hvisited
  by_cases hcovered : n.id ∈ g.covered contentHash
  · obtain ⟨trigger, hanchor, h, hmem, hfetches, hdst⟩ := mem_covered.mp hcovered
    obtain ⟨depth, hcomes⟩ := fetched_comes hmem
    rw [hdst] at hcomes
    by_cases hlt : depth < MAX_DEPTH
    · exact .inl ⟨_, anchor_mem_trace hanchor, hexpanded hlt hcomes⟩
    · have hge : MAX_DEPTH ≤ depth := Nat.le_of_not_lt hlt
      have harc : g.edgeHop contentHash e ∈ g.next contentHash n.id :=
        mem_next.mpr ⟨e, he, hwalk, hsource, rfl⟩
      have hle : depth ≤ MAX_DEPTH := Arcs.comes_le (comes_iff.mpr hcomes)
      obtain ⟨before, htrail, hlength, hnodup⟩ := (comes_iff.mpr hcomes).trail
      refine .inr ⟨trigger, hanchor, ?_, ⟨h, hmem, hfetches, hdst⟩, before, trail_iff.mp htrail,
        by omega, hnodup⟩
      exact depthLimited_iff.mpr ⟨n.id, depth, hcomes, hge, List.ne_nil_of_mem harc⟩
  · have hmem : n ∈ g.nodes := List.mem_reverse.mp (List.mem_of_find?_eq_some hn)
    obtain ⟨trigger, hrest, hid⟩ := mem_rest_of_uncovered hmem hlabel hcovered
    have hcomes : g.Comes contentHash trigger.id n.id 0 := ⟨0, by rw [hid]; rfl⟩
    exact .inl ⟨_, rest_mem_trace hrest, hexpanded (by decide) hcomes⟩

namespace Sample

def endpoint : Node Json := ⟨"ep", "Endpoint", .obj []⟩

def handled : Edge Json := ⟨"ep", "handler", "HANDLES", confirmed⟩

/-- A screen, a row of 63 components, and the endpoint that the last of them fetches. -/
def farFetch : Slice where
  nodes := [first, endpoint]
  edges := ⟨inRow 63, "ep", "FETCHES", confirmed⟩ :: handled :: (List.range 63).map along

theorem farFetch_evaluated :
    ((trace noHash farFetch).all fun flow => flow.hops.all fun h => h.label != "HANDLES") = true
    ∧ farFetch.walkable handled = true ∧ farFetch.walkSource handled = "ep" := by
  decide +kernel

theorem farFetch_node : farFetch.node "ep" = some endpoint := rfl

theorem handled_mem : handled ∈ farFetch.edges := List.mem_cons_of_mem _ List.mem_cons_self

theorem farFetch_lost : ¬∃ flow ∈ trace noHash farFetch, ∃ h ∈ flow.hops,
    h.key = (farFetch.edgeHop noHash handled).key := by
  rintro ⟨flow, hflow, h, hmem, hkey⟩
  have hlabel : h.label = "HANDLES" := congrArg Prod.fst hkey
  have hother := List.all_eq_true.mp (List.all_eq_true.mp farFetch_evaluated.1 flow hflow) h hmem
  rw [hlabel] at hother
  exact absurd hother (by decide)

end Sample

/-- The flow of the screen is marked: its walk ends at the endpoint. -/
theorem endpoint_reported_farFetch : ∃ trigger ∈ Sample.farFetch.anchors,
    (Sample.farFetch.traceOne Sample.noHash trigger).depthLimited = true := by
  obtain ⟨-, hwalk, hsource⟩ := Sample.farFetch_evaluated
  have hcases := endpoint_reported Sample.farFetch Sample.noHash (n := Sample.endpoint)
    Sample.farFetch_node rfl Sample.handled_mem hwalk hsource
  obtain ⟨trigger, hanchor, hlimited, -⟩ := hcases.resolve_left Sample.farFetch_lost
  exact ⟨trigger, hanchor, hlimited⟩

/-- The hop out of an endpoint that no flow has. -/
theorem endpoint_lost : ¬∀ (g : Slice) (contentHash : String → Hash) (n : Node Json)
    (e : Edge Json), g.node n.id = some n → n.label = "Endpoint" → e ∈ g.edges →
    g.walkable e = true → g.walkSource e = n.id →
    ∃ flow ∈ trace contentHash g, ∃ h ∈ flow.hops, h.key = (g.edgeHop contentHash e).key := by
  intro hall
  obtain ⟨-, hwalk, hsource⟩ := Sample.farFetch_evaluated
  exact Sample.farFetch_lost (hall Sample.farFetch Sample.noHash Sample.endpoint _
    Sample.farFetch_node rfl Sample.handled_mem hwalk hsource)

end FlowTracer

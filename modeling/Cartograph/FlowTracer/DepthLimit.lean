/-
What the depth bound cuts.

The walk is depth-first with one set of visited nodes.  A node may be visited first at the
end of a long path; what lies behind it is then cut, also where a short path leads there.

* `Slice.Path` — a path along walkable edges that leaves no gap, by the nodes before its end;
* `depth_limit` — the hop of a walkable edge that a path leads to is in the flow, or the flow
  is marked and some node of the path ends a path of one step less than the bound;
* `near_hop_lost` — a hop two steps from its trigger that the flow does not have.
-/
import Cartograph.FlowTracer.Reachability

namespace FlowTracer

open GraphStore Investigation

/-- A path from `trigger` along walkable edges that passes no gap, by the nodes before its
end. -/
inductive Slice.Path (g : Slice) (trigger : String) : List String → String → Prop
  | trigger : Path g trigger [] trigger
  | step {before : List String} {e : Edge Json} : Path g trigger before (g.walkSource e) →
      g.isGap (g.walkSource e) = false → e ∈ g.edges → g.walkable e = true →
      Path g trigger (before ++ [g.walkSource e]) (g.walkTarget e)

variable {g : Slice} {contentHash : String → Hash}

theorem trail_iff {trigger id : String} {before : List String} :
    (g.flowArcs contentHash).Trail trigger before id ↔ g.Path trigger before id := by
  constructor
  · intro h
    induction h with
    | start => exact .trigger
    | step _ hgo ha ih =>
      obtain ⟨e, he, hwalk, rfl, rfl⟩ := mem_next.mp ha
      exact .step ih hgo he hwalk
  · intro h
    induction h with
    | trigger => exact .start
    | @step before e _ hgo he hwalk ih =>
      exact .step (a := g.edgeHop contentHash e) ih hgo (mem_next.mpr ⟨e, he, hwalk, rfl, rfl⟩)

theorem recorded_of_visited {trigger : Node Json} {e : Edge Json} (he : e ∈ g.edges)
    (hwalk : g.walkable e = true) (hgo : g.isGap (g.walkSource e) = false)
    (hvisited : g.walkSource e ∈ (g.traversal contentHash trigger.id).visited) :
    ∃ h ∈ (g.traceOne contentHash trigger).hops, h.key = (g.edgeHop contentHash e).key := by
  have hexplored : (g.flowArcs contentHash).Explored trigger.id (g.traversal contentHash trigger.id) :=
    Arcs.explored_run _ _
  have htaken : g.edgeHop contentHash e ∈ (g.traversal contentHash trigger.id).taken :=
    (hexplored.taken _).mpr ⟨g.walkSource e, hvisited, hgo, mem_next.mpr ⟨e, he, hwalk, rfl, rfl⟩⟩
  have hkey : (g.edgeHop contentHash e).key
      ∈ ((g.traceOne contentHash trigger).hops).map Hop.key := by
    rw [(traceOne_matches g contentHash trigger).1, record_keys]
    exact .inr (List.mem_map_of_mem htaken)
  obtain ⟨h, hmem, hsame⟩ := List.mem_map.mp hkey
  exact ⟨h, hmem, hsame⟩

/-- **The depth limit.**  Let a path along walkable edges that leaves no gap lead to the
source of a walkable edge.  Then the flow has a hop for the edge, or the flow is marked as
cut and some node before the source is also the end of a path without repetition that is one
step short of the bound. -/
theorem depth_limit (g : Slice) (contentHash : String → Hash) (trigger : Node Json)
    {e : Edge Json} {before : List String} (he : e ∈ g.edges) (hwalk : g.walkable e = true)
    (hpath : g.Path trigger.id before (g.walkSource e))
    (hgo : g.isGap (g.walkSource e) = false) :
    (∃ h ∈ (g.traceOne contentHash trigger).hops, h.key = (g.edgeHop contentHash e).key)
    ∨ (g.traceOne contentHash trigger).depthLimited = true
      ∧ ∃ far ∈ before, ∃ before', g.Path trigger.id before' far
        ∧ before'.length + 1 = MAX_DEPTH ∧ (before' ++ [far]).Nodup := by
  have hdepths : (g.flowArcs contentHash).Depths MAX_DEPTH trigger.id
      (g.traversal contentHash trigger.id) := Arcs.depths_run _ _
  have hdone := scan_finished g contentHash trigger.id
  rcases hdepths.expanded (by decide) hdone (trail_iff.mpr hpath) with hvisited | hcut
  · exact .inl (recorded_of_visited he hwalk hgo hvisited)
  · obtain ⟨hcut, far, hfar, before', htrail, hlength, hnodup⟩ := hcut
    refine .inr ⟨?_, far, hfar, before', trail_iff.mp htrail, hlength, hnodup⟩
    rw [(traceOne_matches g contentHash trigger).2]
    rcases hcut with hcut | hnone
    · exact hcut
    · -- the edge is an arc of its source
      have harc : g.edgeHop contentHash e ∈ (g.flowArcs contentHash).arcs (g.walkSource e) :=
        mem_next.mpr ⟨e, he, hwalk, rfl, rfl⟩
      rw [hnone] at harc
      exact absurd harc List.not_mem_nil

namespace Sample

/-- The nodes of a row, by their places. -/
def inRow (n : ℕ) : String := String.singleton (Char.ofNat (48 + n))

def first : Node Json := ⟨inRow 0, "Screen", .obj []⟩

/-- From the first node of the row to the last but two. -/
def shortcut : Edge Json := ⟨inRow 0, inRow 63, "RENDERS", confirmed⟩

def along (n : ℕ) : Edge Json := ⟨inRow n, inRow (n + 1), "RENDERS", confirmed⟩

/-- A row of 66 nodes and the shortcut, which is pushed below the way along the row. -/
def row : Slice where
  nodes := [first]
  edges := shortcut :: (List.range 65).map along

theorem along_mem {n : ℕ} (h : n < 65) : along n ∈ row.edges :=
  List.mem_cons_of_mem _ (List.mem_map_of_mem (List.mem_range.mpr h))

theorem row_evaluated :
    ((row.traceOne noHash first).hops.all fun h => h.dst != inRow 65) = true
    ∧ row.walkable shortcut = true ∧ row.walkable (along 63) = true ∧ row.walkable (along 64) = true
    ∧ row.walkSource shortcut = inRow 0 ∧ row.walkTarget shortcut = inRow 63
    ∧ row.walkSource (along 63) = inRow 63 ∧ row.walkTarget (along 63) = inRow 64
    ∧ row.walkSource (along 64) = inRow 64 ∧ row.walkTarget (along 64) = inRow 65
    ∧ row.isGap (inRow 0) = false ∧ row.isGap (inRow 63) = false ∧ row.isGap (inRow 64) = false := by
  decide +kernel

theorem row_path : row.Path first.id [inRow 0, inRow 63] (row.walkSource (along 64)) := by
  obtain ⟨-, hw0, hw63, -, hs0, ht0, hs63, ht63, hs64, -, hg0, hg63, -⟩ := row_evaluated
  have hstart : row.Path first.id [] (row.walkSource shortcut) := by
    rw [hs0]
    exact .trigger
  have hnear : row.Path first.id [inRow 0] (row.walkSource (along 63)) := by
    have hstep := hstart.step (by rwa [hs0]) List.mem_cons_self hw0
    rwa [hs0, ht0, ← hs63] at hstep
  have hstep := hnear.step (by rwa [hs63]) (along_mem (by decide)) hw63
  rwa [hs63, ht63, ← hs64] at hstep

theorem row_lost : ¬∃ h ∈ (row.traceOne noHash first).hops,
    h.key = (row.edgeHop noHash (along 64)).key := by
  rintro ⟨h, hmem, hkey⟩
  obtain ⟨hnone, -, -, -, -, -, -, -, -, htarget, -⟩ := row_evaluated
  have hdst : h.dst = row.walkTarget (along 64) :=
    congrArg (fun k : String × String × String => k.2.2) hkey
  have hother := List.all_eq_true.mp hnone h hmem
  rw [hdst, htarget] at hother
  exact absurd hother (by simp)

end Sample

/-- The last edge of the row has no hop, so the flow is marked, and a node of the short path
also ends a long one. -/
theorem depth_limit_row : (Sample.row.traceOne Sample.noHash Sample.first).depthLimited = true
    ∧ ∃ far ∈ [Sample.inRow 0, Sample.inRow 63], ∃ before',
      Sample.row.Path Sample.first.id before' far ∧ before'.length + 1 = MAX_DEPTH
        ∧ (before' ++ [far]).Nodup := by
  obtain ⟨-, -, -, hwalk, -, -, -, -, hsource, -, -, -, hgo⟩ := Sample.row_evaluated
  have hcases := depth_limit Sample.row Sample.noHash Sample.first
    (Sample.along_mem (by decide)) hwalk Sample.row_path (by rwa [hsource])
  exact hcases.resolve_left Sample.row_lost

/-- A hop whose source is two steps from the trigger and which the flow does not have: the
source was pushed only at the end of the row. -/
theorem near_hop_lost : ¬ ∀ (g : Slice) (contentHash : String → Hash) (trigger : Node Json)
    (e : Edge Json) (before : List String), e ∈ g.edges → g.walkable e = true →
    g.Path trigger.id before (g.walkSource e) → before.length < MAX_DEPTH →
    g.isGap (g.walkSource e) = false →
    ∃ h ∈ (g.traceOne contentHash trigger).hops, h.key = (g.edgeHop contentHash e).key := by
  intro hall
  obtain ⟨-, -, -, hwalk, -, -, -, -, hsource, -, -, -, hgo⟩ := Sample.row_evaluated
  exact Sample.row_lost (hall Sample.row Sample.noHash Sample.first _ _
    (Sample.along_mem (by decide)) hwalk Sample.row_path (by decide) (by rwa [hsource]))

end FlowTracer

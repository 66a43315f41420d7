/-
What a flow holds.

The walk of the tracer is a bounded traversal (`Lib/Traversal`) whose arcs are hops and
whose stop nodes are gaps, with the hops it takes recorded once each.

* `Slice.Reaches` — reachable from a trigger along walkable edges, not past a gap;
* `turn_matches` — a turn of the loop is a step of the traversal;
* `next_perm` — the hops out of a node are those of its walkable edges, in some order;
* `flow_reachability` — the hops of a flow that was not cut, and what `Verified` says.
-/
import Cartograph.FlowTracer.Trace

namespace FlowTracer

open GraphStore Investigation SortBy

/-! ### Walkable edges -/

def Slice.walkable (g : Slice) (e : Edge Json) : Bool :=
  g.forward e || e.label == "SUBSCRIBES" || e.label == "DEFINED_IN"

/-- Where a walk along `e` starts. -/
def Slice.walkSource (g : Slice) (e : Edge Json) : String := if g.forward e then e.src else e.dst

/-- Where a walk along `e` leads. -/
def Slice.walkTarget (g : Slice) (e : Edge Json) : String := if g.forward e then e.dst else e.src

/-- The hop along `e`. -/
def Slice.edgeHop (g : Slice) (contentHash : String → Hash) (e : Edge Json) : Hop :=
  g.hop contentHash e (g.walkSource e) (g.walkTarget e)

/-- Reachable from `trigger` along walkable edges, without passing a gap. -/
inductive Slice.Reaches (g : Slice) (trigger : String) : String → Prop
  | trigger : Reaches g trigger trigger
  | step {e : Edge Json} : Reaches g trigger (g.walkSource e) → g.isGap (g.walkSource e) = false →
      e ∈ g.edges → g.walkable e = true → Reaches g trigger (g.walkTarget e)

variable {g : Slice} {e : Edge Json} {contentHash : String → Hash} {h : Hop} {l hops : List Hop}

theorem forward_label (h : g.forward e = true) :
    e.label ≠ "SUBSCRIBES" ∧ e.label ≠ "DEFINED_IN" := by
  have hlabel : e.label ∈ forwardLabels ∨ e.label = "DEPENDS_ON" := by
    simp only [Slice.forward, Bool.or_eq_true, Bool.and_eq_true, List.contains_iff_mem,
      beq_iff_eq] at h
    exact h.imp id And.left
  constructor
  · intro heq
    rw [heq] at hlabel
    exact absurd hlabel (by decide)
  · intro heq
    rw [heq] at hlabel
    exact absurd hlabel (by decide)

theorem forward_iff (h : g.walkable e = true) :
    g.forward e = true ↔ ¬ (e.label = "SUBSCRIBES" ∨ e.label = "DEFINED_IN") := by
  constructor
  · intro hforward
    obtain ⟨h1, h2⟩ := forward_label hforward
    rintro (heq | heq)
    · exact h1 heq
    · exact h2 heq
  · intro hnot
    simp only [Slice.walkable, Bool.or_eq_true, beq_iff_eq] at h
    rcases h with (hforward | heq) | heq
    · exact hforward
    · exact absurd (.inl heq) hnot
    · exact absurd (.inr heq) hnot

theorem edgeHop_key_injective {e' : Edge Json} (hedges : (g.edges.map Edge.key).Nodup)
    (he : e ∈ g.edges) (he' : e' ∈ g.edges) (hwalk : g.walkable e = true)
    (hwalk' : g.walkable e' = true)
    (h : (g.edgeHop contentHash e).key = (g.edgeHop contentHash e').key) : e = e' := by
  have hkey : (e.label, g.walkSource e, g.walkTarget e)
      = (e'.label, g.walkSource e', g.walkTarget e') := h
  obtain ⟨hlabel, hends⟩ := Prod.mk.inj hkey
  obtain ⟨hsource, htarget⟩ := Prod.mk.inj hends
  have hsame : g.forward e = g.forward e' := by
    rw [Bool.eq_iff_iff, forward_iff hwalk, forward_iff hwalk', hlabel]
  rw [Slice.walkSource, Slice.walkSource, ← hsame] at hsource
  rw [Slice.walkTarget, Slice.walkTarget, ← hsame] at htarget
  refine List.inj_on_of_nodup_map hedges he he' ?_
  cases hforward : g.forward e with
  | true =>
    rw [hforward] at hsource htarget
    simp only [if_true] at hsource htarget
    rw [Edge.key, Edge.key, hsource, htarget, hlabel]
  | false =>
    rw [hforward] at hsource htarget
    simp only [Bool.false_eq_true, if_false] at hsource htarget
    rw [Edge.key, Edge.key, hsource, htarget, hlabel]

/-! ### The hops out of a node -/

/-- All hops there are. -/
def Slice.allHops (g : Slice) (contentHash : String → Hash) : List Hop :=
  (g.edges.filter g.walkable).map (g.edgeHop contentHash)

theorem next_perm (g : Slice) (contentHash : String → Hash) (id : String) :
    (g.next contentHash id).Perm
      ((g.allHops contentHash).filter fun h => decide (h.src = id)) := by
  -- the walkable edges from `id`, and the three kinds of them
  have hall : (g.allHops contentHash).filter (fun h => decide (h.src = id))
      = (g.edges.filter fun e => g.walkable e && decide (g.walkSource e = id)).map
        (g.edgeHop contentHash) := by
    rw [Slice.allHops, List.filter_map, List.filter_filter]
    refine congrArg (List.map _) (List.filter_congr fun e _ => ?_)
    rw [Bool.and_comm]
    rfl
  -- each kind of hop is the one its edge has
  have hout : (g.outEdges id).map (fun e => g.hop contentHash e e.src e.dst)
      = (g.outEdges id).map (g.edgeHop contentHash) := by
    refine List.map_congr_left fun e he => ?_
    have hforward : g.forward e = true := by
      have := List.of_mem_filter ((sortBy_perm _ _).mem_iff.mp he)
      exact (Bool.and_eq_true_iff.mp this).1
    rw [Slice.edgeHop, Slice.walkSource, Slice.walkTarget, if_pos hforward, if_pos hforward]
  have hin : (g.chanConsumers id ++ g.fileSymbols id).map (fun e => g.hop contentHash e e.dst e.src)
      = (g.chanConsumers id ++ g.fileSymbols id).map (g.edgeHop contentHash) := by
    refine List.map_congr_left fun e he => ?_
    have hlabel : e.label = "SUBSCRIBES" ∨ e.label = "DEFINED_IN" := by
      rcases List.mem_append.mp he with hchan | hfile
      · have := List.of_mem_filter ((sortBy_perm _ _).mem_iff.mp hchan)
        simp only [Bool.and_eq_true, beq_iff_eq] at this
        exact .inl this.1
      · have := List.of_mem_filter ((sortBy_perm _ _).mem_iff.mp hfile)
        simp only [Bool.and_eq_true, beq_iff_eq] at this
        exact .inr this.1
    have hforward : ¬ g.forward e = true := by
      intro hforward
      obtain ⟨h1, h2⟩ := forward_label hforward
      rcases hlabel with heq | heq
      · exact h1 heq
      · exact h2 heq
    rw [Slice.edgeHop, Slice.walkSource, Slice.walkTarget, if_neg hforward, if_neg hforward]
  rw [Slice.next, hout, hin, ← List.map_append, hall]
  refine List.Perm.map _ ?_
  -- split by direction, and the edges walked backwards by label
  set l := g.edges.filter fun e => g.walkable e && decide (g.walkSource e = id) with hl
  have hforward : l.filter g.forward = g.edges.filter fun e => g.forward e && e.src == id := by
    rw [hl, List.filter_filter]
    refine List.filter_congr fun e _ => ?_
    cases hf : g.forward e with
    | true => simp [Slice.walkable, Slice.walkSource, hf, beq_eq_decide]
    | false => rfl
  have hback : ∀ label, (label = "SUBSCRIBES" ∨ label = "DEFINED_IN") →
      ∀ e : Edge Json, (e.label == label && !g.forward e && (g.walkable e
        && decide (g.walkSource e = id))) = (e.label == label && e.dst == id) := by
    intro label hlabel e
    by_cases heq : e.label = label
    · have hf : g.forward e = false := by
        rw [Bool.eq_false_iff]
        intro hf
        obtain ⟨h1, h2⟩ := forward_label hf
        rcases hlabel with rfl | rfl
        · exact h1 heq
        · exact h2 heq
      have hw : g.walkable e = true := by
        rcases hlabel with rfl | rfl <;> simp [Slice.walkable, heq]
      simp [hf, hw, Slice.walkSource, beq_eq_decide]
    · rw [beq_eq_false_iff_ne.mpr heq]
      rfl
  have hchan : (l.filter fun e => !g.forward e).filter (fun e => e.label == "SUBSCRIBES")
      = g.edges.filter fun e => e.label == "SUBSCRIBES" && e.dst == id := by
    rw [hl, List.filter_filter, List.filter_filter]
    exact List.filter_congr fun e _ => hback _ (.inl rfl) e
  have hfile : (l.filter fun e => !g.forward e).filter (fun e => !(e.label == "SUBSCRIBES"))
      = g.edges.filter fun e => e.label == "DEFINED_IN" && e.dst == id := by
    rw [hl, List.filter_filter, List.filter_filter]
    refine List.filter_congr fun e _ => ?_
    rw [← hback _ (.inr rfl) e]
    cases hf : g.forward e with
    | true => simp
    | false =>
      cases hs : e.label == "SUBSCRIBES" with
      | true =>
        have hnot : (e.label == "DEFINED_IN") = false := by
          rw [beq_iff_eq.mp hs]
          decide
        simp [hnot]
      | false => simp [Slice.walkable, hf, hs]
  -- both splits are permutations, and sorting each part is one
  refine List.Perm.trans ?_ (List.filter_append_perm g.forward l)
  refine List.Perm.append ?_ ?_
  · rw [hforward]
    exact sortBy_perm _ _
  · refine List.Perm.trans ?_ (List.filter_append_perm (fun e => e.label == "SUBSCRIBES") _)
    rw [hchan, hfile]
    exact (sortBy_perm _ _).append (sortBy_perm _ _)

theorem mem_next {id : String} :
    h ∈ g.next contentHash id ↔ ∃ e ∈ g.edges, g.walkable e = true ∧ g.walkSource e = id
      ∧ h = g.edgeHop contentHash e := by
  rw [(next_perm g contentHash id).mem_iff, List.mem_filter, Slice.allHops, List.mem_map]
  constructor
  · rintro ⟨⟨e, he, rfl⟩, hsrc⟩
    obtain ⟨hmem, hwalk⟩ := List.mem_filter.mp he
    exact ⟨e, hmem, hwalk, of_decide_eq_true hsrc, rfl⟩
  · rintro ⟨e, he, hwalk, hsrc, rfl⟩
    exact ⟨⟨e, List.mem_filter.mpr ⟨he, hwalk⟩, rfl⟩, decide_eq_true hsrc⟩

/-! ### The walk as a traversal -/

/-- The graph of a slice, with gaps as stop nodes. -/
def Slice.flowArcs (g : Slice) (contentHash : String → Hash) : Arcs String Hop where
  arcs := g.next contentHash
  head := Hop.dst
  stop := g.isGap

/-- A walk and the traversal it makes; its hops are those taken, recorded once. -/
structure Matches (w : Walk) (t : Traversal String Hop) : Prop where
  hops : w.hops = t.taken.foldl record []
  visited : w.visited = t.visited
  stack : w.stack = t.stack
  depthLimited : w.depthLimited = t.cut

theorem next_isEmpty (g : Slice) (contentHash : String → Hash) (id : String) :
    (!(g.outEdges id).isEmpty || !(g.chanConsumers id).isEmpty || !(g.fileSymbols id).isEmpty)
      = !(g.next contentHash id).isEmpty := by
  rw [Slice.next]
  cases g.outEdges id with
  | cons e rest => rfl
  | nil =>
    cases g.chanConsumers id with
    | cons e rest => rfl
    | nil =>
      cases g.fileSymbols id with
      | cons e rest => rfl
      | nil => rfl

theorem turn_matches {w : Walk} {t : Traversal String Hop} (h : Matches w t) :
    Matches (g.turn contentHash w) ((g.flowArcs contentHash).step MAX_DEPTH t) := by
  obtain ⟨hhops, hvisited, hstack, hcut⟩ := h
  rw [Slice.turn, Arcs.step, hstack]
  cases t.stack with
  | nil => exact ⟨hhops, hvisited, hstack, hcut⟩
  | cons top rest =>
    obtain ⟨id, depth⟩ := top
    show Matches (if MAX_DEPTH ≤ depth then _ else _) (if MAX_DEPTH ≤ depth then _ else _)
    by_cases hdepth : MAX_DEPTH ≤ depth
    · rw [if_pos hdepth, if_pos hdepth]
      refine ⟨hhops, hvisited, rfl, ?_⟩
      show (w.depthLimited || _) = (t.cut || !(g.next contentHash id).isEmpty)
      rw [hcut, next_isEmpty g contentHash id]
    · rw [if_neg hdepth, if_neg hdepth, hvisited]
      by_cases hseen : id ∈ t.visited
      · rw [if_pos hseen, if_pos hseen]
        exact ⟨hhops, rfl, rfl, hcut⟩
      · rw [if_neg hseen, if_neg hseen]
        show Matches (if g.isGap id = true then _ else _) (if g.isGap id = true then _ else _)
        by_cases hgap : g.isGap id = true
        · rw [if_pos hgap, if_pos hgap]
          exact ⟨hhops, rfl, rfl, hcut⟩
        · rw [if_neg hgap, if_neg hgap]
          refine ⟨?_, rfl, rfl, hcut⟩
          show (g.next contentHash id).foldl record w.hops
            = (t.taken ++ g.next contentHash id).foldl record []
          rw [List.foldl_append, hhops]

theorem scan_matches {g : Slice} {contentHash : String → Hash} : ∀ (n : ℕ) {w : Walk}
    {t : Traversal String Hop}, Matches w t →
    Matches (g.scan contentHash n w) ((g.flowArcs contentHash).run MAX_DEPTH n t)
  | 0, _, _, h => h
  | n + 1, _, _, h => scan_matches n (turn_matches h)

/-- The traversal behind the flow from `trigger`. -/
def Slice.traversal (g : Slice) (contentHash : String → Hash) (trigger : String) :
    Traversal String Hop :=
  (g.flowArcs contentHash).run MAX_DEPTH (g.edges.length + 1) (Arcs.initial trigger)

theorem traceOne_matches (g : Slice) (contentHash : String → Hash) (trigger : Node Json) :
    (g.traceOne contentHash trigger).hops
        = (g.traversal contentHash trigger.id).taken.foldl record []
      ∧ (g.traceOne contentHash trigger).depthLimited
        = (g.traversal contentHash trigger.id).cut := by
  have hstart : Matches { stack := [(trigger.id, 0)] } (Arcs.initial trigger.id) :=
    ⟨rfl, rfl, rfl, rfl⟩
  have h : Matches (g.scan contentHash (g.edges.length + 1) { stack := [(trigger.id, 0)] })
      (g.traversal contentHash trigger.id) := scan_matches _ hstart
  exact ⟨h.hops, h.depthLimited⟩

theorem scan_finished (g : Slice) (contentHash : String → Hash) (trigger : String) :
    (g.traversal contentHash trigger).stack = [] := by
  refine Arcs.run_finished MAX_DEPTH (g.allHops contentHash) Hop.src (next_perm g contentHash) _ _ ?_
  have hhops : (Arcs.fresh (g.allHops contentHash) Hop.src
      (Arcs.initial trigger : Traversal String Hop)).length ≤ (g.allHops contentHash).length :=
    List.length_filter_le _ _
  have hall : (g.allHops contentHash).length ≤ g.edges.length := by
    rw [Slice.allHops, List.length_map]
    exact List.length_filter_le _ _
  have hstack : (Arcs.initial trigger : Traversal String Hop).stack.length = 1 := rfl
  rw [Arcs.potential, hstack]
  omega

theorem reaches_iff {trigger id : String} :
    (g.flowArcs contentHash).Reaches trigger id ↔ g.Reaches trigger id := by
  constructor
  · intro h
    induction h with
    | start => exact .trigger
    | step _ hgo ha ih =>
      obtain ⟨e, he, hwalk, rfl, rfl⟩ := mem_next.mp ha
      exact .step ih hgo he hwalk
  · intro h
    induction h with
    | trigger => exact .start
    | @step e _ hgo he hwalk ih =>
      exact .step (a := g.edgeHop contentHash e) ih hgo (mem_next.mpr ⟨e, he, hwalk, rfl, rfl⟩)

/-! ### Recorded hops -/

theorem mem_record (hmem : h ∈ l.foldl record hops) :
    h ∈ hops ∨ h ∈ l := by
  induction l generalizing hops with
  | nil => exact .inl hmem
  | cons h' rest ih =>
    rcases ih hmem with hold | hrest
    · rw [record] at hold
      split_ifs at hold
      · exact .inl hold
      · rcases List.mem_append.mp hold with hold | hnew
        · exact .inl hold
        · obtain rfl : h = h' := by simpa using hnew
          exact .inr List.mem_cons_self
    · exact .inr (List.mem_cons_of_mem _ hrest)

theorem record_keys {k : String × String × String} :
    k ∈ (l.foldl record hops).map Hop.key ↔ k ∈ hops.map Hop.key ∨ k ∈ l.map Hop.key := by
  induction l generalizing hops with
  | nil => simp
  | cons h rest ih =>
    rw [List.foldl_cons, ih, List.map_cons, List.mem_cons, record]
    by_cases hseen : (hops.any fun h' => h'.key == h.key) = true
    · rw [if_pos hseen]
      obtain ⟨h', hh', hkey⟩ := List.any_eq_true.mp hseen
      have hmem : h.key ∈ hops.map Hop.key := beq_iff_eq.mp hkey ▸ List.mem_map_of_mem hh'
      constructor
      · rintro (hold | hrest)
        · exact .inl hold
        · exact .inr (.inr hrest)
      · rintro (hold | rfl | hrest)
        · exact .inl hold
        · exact .inl hmem
        · exact .inr hrest
    · rw [if_neg hseen, List.map_append, List.mem_append, List.map_singleton, List.mem_singleton]
      tauto

theorem record_nodup (h : (hops.map Hop.key).Nodup) :
    ((l.foldl record hops).map Hop.key).Nodup := by
  induction l generalizing hops with
  | nil => exact h
  | cons h' rest ih =>
    refine ih ?_
    rw [record]
    by_cases hseen : (hops.any fun h'' => h''.key == h'.key) = true
    · rwa [if_pos hseen]
    · rw [if_neg hseen, List.map_append, List.map_singleton]
      refine List.nodup_append.mpr ⟨h, List.nodup_singleton _, ?_⟩
      rintro k hk k' hk' rfl
      obtain ⟨h'', hh'', rfl⟩ := List.mem_map.mp hk
      rw [List.mem_singleton] at hk'
      exact hseen (List.any_eq_true.mpr ⟨h'', hh'', beq_iff_eq.mpr hk'⟩)

/-! ### Flows -/

theorem mem_trace {flow : Flow} (h : flow ∈ trace contentHash g) :
    ∃ trigger, flow = g.traceOne contentHash trigger := by
  rcases List.mem_append.mp ((sortBy_perm _ _).mem_iff.mp h) with hanchor | hrest
  · obtain ⟨trigger, -, rfl⟩ := List.mem_map.mp hanchor
    exact ⟨trigger, rfl⟩
  · obtain ⟨trigger, -, rfl⟩ := List.mem_map.mp hrest
    exact ⟨trigger, rfl⟩

theorem traceOne_sound {trigger : Node Json} (hmem : h ∈ (g.traceOne contentHash trigger).hops) :
    ∃ e ∈ g.edges, g.walkable e = true ∧ g.Reaches trigger.id (g.walkSource e)
      ∧ g.isGap (g.walkSource e) = false ∧ h = g.edgeHop contentHash e := by
  have hexplored : (g.flowArcs contentHash).Explored trigger.id (g.traversal contentHash trigger.id) :=
    Arcs.explored_run _ _
  rw [(traceOne_matches g contentHash trigger).1] at hmem
  rcases mem_record hmem with hnone | htaken
  · exact absurd hnone (by simp)
  · obtain ⟨id, hid, hgo, ha⟩ := (hexplored.taken h).mp htaken
    obtain ⟨e, he, hwalk, rfl, rfl⟩ := mem_next.mp ha
    exact ⟨e, he, hwalk, reaches_iff.mp (hexplored.visited _ hid), hgo, rfl⟩

theorem traceOne_complete {trigger : Node Json} (hedges : (g.edges.map Edge.key).Nodup)
    (hcut : (g.traceOne contentHash trigger).depthLimited = false) (he : e ∈ g.edges)
    (hwalk : g.walkable e = true) (hreach : g.Reaches trigger.id (g.walkSource e))
    (hgo : g.isGap (g.walkSource e) = false) :
    g.edgeHop contentHash e ∈ (g.traceOne contentHash trigger).hops := by
  have hexplored : (g.flowArcs contentHash).Explored trigger.id (g.traversal contentHash trigger.id) :=
    Arcs.explored_run _ _
  obtain ⟨hhops, hcut'⟩ := traceOne_matches g contentHash trigger
  rw [hcut'] at hcut
  have htaken : g.edgeHop contentHash e ∈ (g.traversal contentHash trigger.id).taken :=
    (hexplored.mem_taken_iff (scan_finished g contentHash trigger.id) hcut).mpr
      ⟨g.walkSource e, reaches_iff.mpr hreach, hgo, mem_next.mpr ⟨e, he, hwalk, rfl, rfl⟩⟩
  -- some hop is recorded under the key, and a key has one edge
  have hkey : (g.edgeHop contentHash e).key
      ∈ ((g.traceOne contentHash trigger).hops).map Hop.key := by
    rw [hhops, record_keys]
    exact .inr (List.mem_map_of_mem htaken)
  obtain ⟨h, hmem, hsame⟩ := List.mem_map.mp hkey
  obtain ⟨e', he', hwalk', -, -, rfl⟩ := traceOne_sound hmem
  rwa [edgeHop_key_injective hedges he' he hwalk' hwalk hsame] at hmem

theorem edgeHop_confirmed (h : (g.edgeHop contentHash e).confidence = "Confirmed") :
    ∃ p, validProvenance e = some p ∧ p.confidenceTier = .confirmed
      ∧ (g.edgeHop contentHash e).provenance = p := by
  have hprov : (edgeProv contentHash e).confidenceTier.text = "Confirmed" := h
  cases hvalid : validProvenance e with
  | none =>
    rw [edgeProv, hvalid] at hprov
    exact absurd (show ConfidenceTier.gap.text = "Confirmed" from hprov) (by decide)
  | some p =>
    rw [edgeProv, hvalid, Option.getD_some] at hprov
    refine ⟨p, rfl, ?_, ?_⟩
    · cases htier : p.confidenceTier with
      | confirmed => rfl
      | inferredStrong | inferredWeak | gap =>
        rw [htier] at hprov
        exact absurd hprov (by decide)
    · show edgeProv contentHash e = p
      rw [edgeProv, hvalid, Option.getD_some]

theorem status_verified {depthLimited : Bool} (h : g.status hops depthLimited = .verified) :
    hops ≠ [] ∧ depthLimited = false
      ∧ ∀ hop ∈ hops, hop.confidence = "Confirmed" ∧ g.isGap hop.dst = false := by
  rw [Slice.status] at h
  split_ifs at h with hpartial hall
  simp only [Bool.or_eq_true, not_or, Bool.not_eq_true, Bool.and_eq_true, Bool.not_eq_true',
    List.all_eq_true, beq_iff_eq] at hpartial hall
  obtain ⟨⟨hgap, hempty⟩, hlimited⟩ := hpartial
  refine ⟨by simpa using hempty, hlimited, fun hop hmem => ⟨hall.2 hop hmem, ?_⟩⟩
  have hnot := List.any_eq_false.mp hgap hop hmem
  simp only [Bool.or_eq_true, not_or, Bool.not_eq_true] at hnot
  exact hnot.2

/-- **Flow reachability.**  The hops of a flow that was not cut are exactly those of the
walkable edges whose source is reachable from the trigger along walkable edges, not past a
gap, each once.  A verified flow was not cut, has hops, and each of them is confirmed by
valid provenance and leads to no gap. -/
theorem flow_reachability {contentHash : String → Hash} {g : Slice} {flow : Flow}
    (hedges : (g.edges.map Edge.key).Nodup) (h : flow ∈ trace contentHash g) :
    (flow.depthLimited = false → (flow.hops.map Hop.key).Nodup
      ∧ ∀ hop, hop ∈ flow.hops ↔ ∃ e ∈ g.edges, g.walkable e = true
        ∧ g.Reaches flow.trigger (g.walkSource e) ∧ g.isGap (g.walkSource e) = false
        ∧ hop = g.edgeHop contentHash e)
    ∧ (flow.status = .verified → flow.depthLimited = false ∧ flow.hops ≠ []
      ∧ ∀ hop ∈ flow.hops, hop.confidence = "Confirmed" ∧ g.isGap hop.dst = false
        ∧ ∃ e ∈ g.edges, hop = g.edgeHop contentHash e
          ∧ ∃ p, validProvenance e = some p ∧ p.confidenceTier = .confirmed
            ∧ hop.provenance = p) := by
  obtain ⟨trigger, rfl⟩ := mem_trace h
  refine ⟨fun hcut => ⟨?_, fun hop => ⟨traceOne_sound, ?_⟩⟩, fun hverified => ?_⟩
  · rw [(traceOne_matches g contentHash trigger).1]
    exact record_nodup List.nodup_nil
  · rintro ⟨e, he, hwalk, hreach, hgo, rfl⟩
    exact traceOne_complete hedges hcut he hwalk hreach hgo
  · obtain ⟨hsome, hlimited, hall⟩ := status_verified hverified
    refine ⟨hlimited, hsome, fun hop hmem => ?_⟩
    obtain ⟨hconfirmed, hgap⟩ := hall hop hmem
    obtain ⟨e, he, -, -, -, rfl⟩ := traceOne_sound hmem
    exact ⟨hconfirmed, hgap, e, he, rfl, edgeHop_confirmed hconfirmed⟩

namespace Sample

def confirmed : Json := .obj [("prov", Provenance.toJson
  { tier := .deterministic
    confidenceTier := .confirmed
    evidence := [⟨"o/r", "a.tsx", 0, 9, "c"⟩]
    extractorId := "ts"
    contentHash := "0000000000000000000000000000000000000000000000000000000000000000" })]

/-- A screen renders a component that calls itself. -/
def screen : Slice where
  nodes := [⟨"screen", "Screen", .obj []⟩, ⟨"list", "Component", .obj []⟩]
  edges := [⟨"screen", "list", "RENDERS", confirmed⟩, ⟨"list", "list", "CALLS", confirmed⟩]

theorem zeros_valid :
    hashValid "0000000000000000000000000000000000000000000000000000000000000000" = true := by decide

/-- Every edge has provenance here, so nothing is hashed. -/
def noHash (_ : String) : Hash :=
  ⟨"0000000000000000000000000000000000000000000000000000000000000000", zeros_valid⟩

end Sample

/-- The cycle is walked once, and both hops are confirmed. -/
theorem flow_reachability_screen : ∃ flow ∈ trace Sample.noHash Sample.screen,
    flow.status = .verified
    ∧ (∀ hop ∈ flow.hops, hop.confidence = "Confirmed")
    ∧ ∃ hop ∈ flow.hops, ∃ e ∈ Sample.screen.edges, e.label = "CALLS"
      ∧ hop = Sample.screen.edgeHop Sample.noHash e := by
  have hflow : ((trace Sample.noHash Sample.screen).head?.map fun flow =>
      (flow.status, flow.hops.map Hop.label)) = some (.verified, ["RENDERS", "CALLS"]) := by
    decide
  obtain ⟨flow, hhead, hfields⟩ := Option.map_eq_some_iff.mp hflow
  obtain ⟨hstatus, hlabels⟩ := Prod.mk.inj hfields
  have hmem := List.mem_of_mem_head? hhead
  obtain ⟨hexact, hverified⟩ := flow_reachability (by decide) hmem
  obtain ⟨hcut, -, hall⟩ := hverified hstatus
  have hcalls : "CALLS" ∈ flow.hops.map Hop.label := by
    rw [hlabels]
    decide
  obtain ⟨hop, hhop, hlabel⟩ := List.mem_map.mp hcalls
  obtain ⟨e, he, -, -, -, rfl⟩ := ((hexact hcut).2 hop).mp hhop
  exact ⟨flow, hmem, hstatus, fun hop hhop => (hall hop hhop).1, _, hhop, e, he, hlabel, rfl⟩

end FlowTracer

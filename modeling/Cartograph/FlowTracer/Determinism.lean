/-
The flows of a graph do not depend on the order of its nodes and edges.

A depth-first walk does depend on the order of siblings.  The tracer sorts every list it
expands, by a key that is unique in it when node ids and edge identities are.

* `outEdges_perm`, `inEdges_perm`, `next_eq` — the hops out of a node, in their order;
* `traceOne_perm` — one flow;
* `trace_order_independent` — all flows.
-/
import Cartograph.FlowTracer.Reachability

namespace FlowTracer

open GraphStore Investigation SortBy

/-- The nodes and edges of one graph in two orders. -/
structure Slice.Reordered (g g' : Slice) : Prop where
  nodes : g.nodes.Perm g'.nodes
  edges : g.edges.Perm g'.edges
  ids : (g.nodes.map Node.id).Nodup
  keys : (g.edges.map Edge.key).Nodup

section Reordered

variable {g g' : Slice}

section

variable (h : g.Reordered g')
include h

theorem node_perm : g.node = g'.node := by
  funext id
  have hids : (g.nodes.reverse.map Node.id).Nodup := by
    rw [List.map_reverse, List.nodup_reverse]
    exact h.ids
  exact find?_eq_of_perm ((List.reverse_perm _).trans (h.nodes.trans (List.reverse_perm _).symm))
    hids id

theorem isGap_perm : g.isGap = g'.isGap := by
  funext id
  rw [Slice.isGap, Slice.isGap, node_perm h]

theorem forward_perm : g.forward = g'.forward := by
  funext e
  rw [Slice.forward, Slice.forward, Slice.ownsExecutionGap, Slice.ownsExecutionGap, node_perm h]

theorem outEdges_perm : g.outEdges = g'.outEdges := by
  funext id
  rw [Slice.outEdges, Slice.outEdges, forward_perm h]
  refine sortBy_eq_of_perm (h.edges.filter _) ?_
  refine List.Nodup.map_on ?_ (h.keys.of_map _ |>.filter _)
  intro a ha b hb hkey
  obtain ⟨hmem, hsrc⟩ := List.mem_filter.mp ha
  obtain ⟨hmem', hsrc'⟩ := List.mem_filter.mp hb
  simp only [Bool.and_eq_true, beq_iff_eq] at hsrc hsrc'
  refine List.inj_on_of_nodup_map h.keys hmem hmem' ?_
  obtain ⟨hlabel, hdst⟩ := Prod.mk.inj (toLex_inj.mp hkey)
  rw [Edge.key, Edge.key, hsrc.2, hsrc'.2, hlabel, hdst]

theorem inEdges_perm : g.inEdges = g'.inEdges := by
  funext label id
  refine sortBy_eq_of_perm (h.edges.filter _) ?_
  refine List.Nodup.map_on ?_ (h.keys.of_map _ |>.filter _)
  intro a ha b hb hsrc
  obtain ⟨hmem, hdst⟩ := List.mem_filter.mp ha
  obtain ⟨hmem', hdst'⟩ := List.mem_filter.mp hb
  simp only [Bool.and_eq_true, beq_iff_eq] at hdst hdst'
  refine List.inj_on_of_nodup_map h.keys hmem hmem' ?_
  rw [Edge.key, Edge.key, hsrc, hdst.1, hdst.2, hdst'.1, hdst'.2]

theorem chanConsumers_perm : g.chanConsumers = g'.chanConsumers := by
  funext id
  rw [Slice.chanConsumers, Slice.chanConsumers, inEdges_perm h]

theorem fileSymbols_perm : g.fileSymbols = g'.fileSymbols := by
  funext id
  rw [Slice.fileSymbols, Slice.fileSymbols, inEdges_perm h]

end

variable {contentHash : String → Hash}

section

variable (h : g.Reordered g')
include h

theorem hop_perm : g.hop contentHash = g'.hop contentHash := by
  funext e src dst
  have hname : g.nameOf = g'.nameOf := by
    funext id
    rw [Slice.nameOf, Slice.nameOf, node_perm h]
  rw [Slice.hop, Slice.hop, hname, node_perm h]

theorem next_eq : g.next contentHash = g'.next contentHash := by
  funext id
  rw [Slice.next, Slice.next, outEdges_perm h, chanConsumers_perm h, fileSymbols_perm h, hop_perm h]

theorem turn_perm : g.turn contentHash = g'.turn contentHash := by
  funext w
  rw [Slice.turn, Slice.turn, outEdges_perm h, chanConsumers_perm h, fileSymbols_perm h,
    isGap_perm h, next_eq h]

theorem scan_perm (n : ℕ) (w : Walk) :
    g.scan contentHash n w = g'.scan contentHash n w := by
  induction n generalizing w with
  | zero => rfl
  | succ n ih => rw [Slice.scan, Slice.scan, turn_perm h, ih]

theorem traceOne_perm :
    g.traceOne contentHash = g'.traceOne contentHash := by
  funext trigger
  have hstatus : g.status = g'.status := by
    funext hops depthLimited
    rw [Slice.status, Slice.status, Slice.hasGap, Slice.hasGap, isGap_perm h]
  rw [Slice.traceOne, Slice.traceOne, h.edges.length_eq, scan_perm h, hstatus]

end

/-! ### Triggers -/

theorem anchors_perm (h : g.Reordered g') : g.anchors = g'.anchors :=
  sortBy_eq_of_perm (h.nodes.filter _) (h.ids.sublist (List.filter_sublist.map _))

theorem rest_perm (h : g.Reordered g') (covered : List String) :
    g.rest covered = g'.rest covered := by
  have hpublished : ∀ id, (g.edges.any fun e => e.label == "PUBLISHES" && e.dst == id)
      = g'.edges.any fun e => e.label == "PUBLISHES" && e.dst == id := by
    intro id
    rw [Bool.eq_iff_iff, List.any_eq_true, List.any_eq_true]
    simp only [h.edges.mem_iff]
  rw [Slice.rest, Slice.rest]
  simp only [hpublished, chanConsumers_perm h]
  refine congrArg dedupIds (sortBy_eq_of_perm ((h.nodes.filter _).append (h.nodes.filter _)) ?_)
  rw [List.map_append, List.nodup_append]
  refine ⟨h.ids.sublist (List.filter_sublist.map _), h.ids.sublist (List.filter_sublist.map _), ?_⟩
  intro id hendpoint id' hchannel heq
  subst heq
  obtain ⟨n, hn, hid⟩ := List.mem_map.mp hendpoint
  obtain ⟨m, hm, hid'⟩ := List.mem_map.mp hchannel
  obtain ⟨hmem, hlabel⟩ := List.mem_filter.mp hn
  obtain ⟨hmem', hlabel'⟩ := List.mem_filter.mp hm
  obtain rfl := List.inj_on_of_nodup_map h.ids hmem hmem' (hid.trans hid'.symm)
  simp only [Bool.and_eq_true, beq_iff_eq] at hlabel hlabel'
  rw [hlabel.1] at hlabel'
  exact absurd hlabel'.1.1 (by decide)

end Reordered

/-- **Order independence.**  A graph with unique ids and edge identities has the same flows, in
the same order and with the same hops, statuses and marks, however its nodes and edges are
ordered. -/
theorem trace_order_independent (contentHash : String → Hash) {g g' : Slice}
    (hids : (g.nodes.map Node.id).Nodup) (hkeys : (g.edges.map Edge.key).Nodup)
    (hnodes : g.nodes.Perm g'.nodes) (hedges : g.edges.Perm g'.edges) :
    trace contentHash g = trace contentHash g' := by
  have h : g.Reordered g' := ⟨hnodes, hedges, hids, hkeys⟩
  rw [trace, trace, anchors_perm h, traceOne_perm h]
  simp only [rest_perm h]

namespace Sample

/-- The edges of `screen` the other way round. -/
def screenReversed : Slice := ⟨screen.nodes.reverse, screen.edges.reverse⟩

end Sample

theorem trace_order_independent_screen :
    trace Sample.noHash Sample.screen = trace Sample.noHash Sample.screenReversed :=
  trace_order_independent Sample.noHash (by decide) (by decide) (List.reverse_perm _).symm
    (List.reverse_perm _).symm

end FlowTracer

/-
The relation of a gap in the register and in a plan.

The compiled register offers the escalation of a gap with the relation of the first edge at it, and
the planner looks up the first edge at the gap too.  The register looks among the edges that the
export shows, the planner among those that are stored.  An edge that is left out of the export, or
a decision or a drift that comes before, makes them name different relations.

* `SlotOf` — the first edge at a node, of the edges with a property;
* `register_relation_iff` — when a plan has the relation that the register lists;
* `register_relation_differs` — an edge that a verified-only export leaves out.
-/
import Cartograph.SourceSelection
import Cartograph.Spec.Compile
import Cartograph.TaskEvidence.Planning

namespace TaskEvidence

open GraphStore Investigation SortBy Spec
open FlowTracer (Flow index asStr)

/-! ### The first edge at a node -/

/-- Of the edges with a property, the least into a node, or else the least out of it. -/
inductive SlotOf (P : Edge Json → Prop) (id : String) : Option (Edge Json) → Prop
  | into (e : Edge Json) (mem : P e) (dst : e.dst = id)
      (least : ∀ e', P e' → e'.dst = id → e.key ≤ e'.key) : SlotOf P id (some e)
  | out (e : Edge Json) (mem : P e) (src : e.src = id) (noneInto : ∀ e', P e' → e'.dst ≠ id)
      (least : ∀ e', P e' → e'.src = id → e.key ≤ e'.key) : SlotOf P id (some e)
  | none (apart : ∀ e', P e' → e'.dst ≠ id ∧ e'.src ≠ id) : SlotOf P id none

section

variable {P : Edge Json → Prop} {id : String} {a b : Option (Edge Json)}

theorem SlotOf.key_eq (ha : SlotOf P id a) (hb : SlotOf P id b) :
    a.map Edge.key = b.map Edge.key := by
  cases ha with
  | into e hmem hdst hleast =>
    cases hb with
    | into e' hmem' hdst' hleast' =>
      exact congrArg some (le_antisymm (hleast e' hmem' hdst') (hleast' e hmem hdst))
    | out e' hmem' hsrc' hnone' hleast' => exact absurd hdst (hnone' e hmem)
    | none hapart => exact absurd hdst (hapart e hmem).1
  | out e hmem hsrc hnone hleast =>
    cases hb with
    | into e' hmem' hdst' hleast' => exact absurd hdst' (hnone e' hmem')
    | out e' hmem' hsrc' hnone' hleast' =>
      exact congrArg some (le_antisymm (hleast e' hmem' hsrc') (hleast' e hmem hsrc))
    | none hapart => exact absurd hsrc (hapart e hmem).2
  | none hapart =>
    cases hb with
    | into e' hmem' hdst' hleast' => exact absurd hdst' (hapart e' hmem').1
    | out e' hmem' hsrc' hnone' hleast' => exact absurd hsrc' (hapart e' hmem').2
    | none hapart' => rfl

theorem slotOf_adjacentSlot {l : List (Edge Json)} (hsorted : l.Pairwise fun a b => a.key ≤ b.key)
    (hP : ∀ e, e ∈ l ↔ P e) (id : String) : SlotOf P id (adjacentSlot l id) := by
  rw [adjacentSlot]
  cases hinto : l.find? fun e => e.dst == id with
  | some e =>
    refine .into e ((hP e).mp (List.mem_of_find?_eq_some hinto)) ?_ fun e' he' hdst' => ?_
    · simpa using List.find?_some hinto
    · exact key_le_of_find? hsorted hinto ((hP e').mpr he') (beq_iff_eq.mpr hdst')
  | none =>
    have hnone : ∀ e', P e' → e'.dst ≠ id := fun e' he' hdst' =>
      List.find?_eq_none.mp hinto e' ((hP e').mpr he') (beq_iff_eq.mpr hdst')
    cases hout : l.find? fun e => e.src == id with
    | some e =>
      refine .out e ((hP e).mp (List.mem_of_find?_eq_some hout)) ?_ hnone fun e' he' hsrc' => ?_
      · simpa using List.find?_some hout
      · exact key_le_of_find? hsorted hout ((hP e').mpr he') (beq_iff_eq.mpr hsrc')
    | none =>
      refine .none fun e' he' => ⟨hnone e' he', fun hsrc' => ?_⟩
      exact List.find?_eq_none.mp hout e' ((hP e').mpr he') (beq_iff_eq.mpr hsrc')

end

/-! ### Relations -/

/-- What the first stored edge and the first shown edge at a gap have in common.  Where one of the
two is missing, the relation that the gap names stands in for it. -/
def SameRelation (gap : Node Json) : Option (Edge Json) → Option (Edge Json) → Prop
  | some stored, some shown => stored.label = shown.label
  | some stored, none => asStr (index gap.props "edge_label") = some stored.label
  | none, some shown => (asStr (index gap.props "edge_label")).getD "CALLS" = shown.label
  | none, none => True

section

variable {gap : Node Json} {a a' b b' : Option (Edge Json)}

theorem Edge.eq_of_key {e e' : Edge Json} (h : e.key = e'.key) :
    e.src = e'.src ∧ e.dst = e'.dst ∧ e.label = e'.label := by
  obtain ⟨hsrc, hrest⟩ := Prod.mk.inj (toLex_inj.mp h)
  obtain ⟨hdst, hlabel⟩ := Prod.mk.inj (toLex_inj.mp hrest)
  exact ⟨hsrc, hdst, hlabel⟩

theorem sourceOf_congr (h : a.map Edge.key = b.map Edge.key) : sourceOf gap a = sourceOf gap b := by
  cases a with
  | none =>
    cases b with
    | none => rfl
    | some e' => cases h
  | some e =>
    cases b with
    | none => cases h
    | some e' =>
      obtain ⟨hsrc, hdst, -⟩ := Edge.eq_of_key (Option.some_inj.mp h)
      rw [sourceOf, sourceOf, hsrc, hdst]

theorem label_congr (h : a.map Edge.key = b.map Edge.key) : a.map Edge.label = b.map Edge.label := by
  cases a with
  | none =>
    cases b with
    | none => rfl
    | some e' => cases h
  | some e =>
    cases b with
    | none => cases h
    | some e' => exact congrArg some (Edge.eq_of_key (Option.some_inj.mp h)).2.2

theorem sameRelation_iff {label : String}
    (h : (a'.map Edge.label).or (asStr (index gap.props "edge_label")) = some label) :
    SameRelation gap a a' ↔ relationOf gap a = label := by
  rw [relationOf]
  cases a with
  | some stored =>
    cases a' with
    | some shown =>
      obtain rfl := Option.some_inj.mp h
      exact Iff.rfl
    | none =>
      rw [Option.map_none, Option.none_or] at h
      rw [SameRelation, h, Option.some_inj]
      exact eq_comm
  | none =>
    cases a' with
    | some shown =>
      obtain rfl := Option.some_inj.mp h
      exact Iff.rfl
    | none =>
      rw [Option.map_none, Option.none_or] at h
      refine iff_of_true trivial ?_
      rw [Option.map_none, Option.none_or, h]
      rfl

end

/-! ### Stored graphs -/

section

variable {c : Codec Json} {s : Store} {nodes : List (Node Json)} {edges : List (Edge Json)}

variable {contentHash : String → Hash} {policy : Policy} {renderObservation : Observation → String}
  {flows : List Flow} {actionId label : String} {gap : Node Json} {row : SpecAssertion}

theorem listed_gap (hread : s.readSnapshot c = .ok (nodes, edges)) (hgap : gap ∈ nodes)
    (hrow : row ∈ (compileSpec contentHash policy renderObservation nodes edges
      flows).gapRegister.assertions) (hid : row.id = "node:" ++ gap.id) :
    (nodes.find? fun n => n.id == gap.id && isGapNode n) = some gap
      ∧ row.edgeLabel
        = gapNodeEdgeLabel gap (exportedEdges contentHash policy nodes edges flows) := by
  obtain ⟨n, hn, hisgap, hnid, hlabel⟩ := register_nodeRow hrow hid
  have hids := snapshot_ids_nodup hread
  obtain rfl := List.inj_on_of_nodup_map hids (exported_gap hn hisgap) hgap hnid
  refine ⟨?_, hlabel⟩
  have hsome : (nodes.find? fun m => m.id == n.id && isGapNode m).isSome = true :=
    List.find?_isSome.mpr ⟨n, hgap, by simp [hisgap]⟩
  obtain ⟨m, hm⟩ := Option.isSome_iff_exists.mp hsome
  have hmid : m.id = n.id := by
    have hfound := List.find?_some hm
    simp only [Bool.and_eq_true, beq_iff_eq] at hfound
    exact hfound.1
  rw [hm, List.inj_on_of_nodup_map hids (List.mem_of_find?_eq_some hm) hgap hmid]

/-- **Escalation.**  A plan for a listed gap has the relation of its row exactly when the gap has a
source and the first edge at it that the export shows has the relation of the first stored one. -/
theorem register_relation_iff (hread : s.readSnapshot c = .ok (nodes, edges)) (hgap : gap ∈ nodes)
    (hrow : row ∈ (compileSpec contentHash policy renderObservation nodes edges
      flows).gapRegister.assertions) (hid : row.id = "node:" ++ gap.id)
    (hlabel : row.edgeLabel = some label) :
    (∃ p, plan c contentHash nodes edges gap.id actionId = .ok p ∧ p.edgeLabel = label) ↔
    ∃ stored shown, SlotOf (fun e => e ∈ edges) gap.id stored
      ∧ SlotOf (Shown contentHash policy nodes edges) gap.id shown
      ∧ HasSource nodes gap stored ∧ SameRelation gap stored shown := by
  obtain ⟨hfind, hshown⟩ := listed_gap hread hgap hrow hid
  have hstoredSlot : SlotOf (fun e => e ∈ edges) gap.id (adjacentSlot edges gap.id) :=
    slotOf_adjacentSlot (snapshot_edges_sorted hread) (fun e => Iff.rfl) gap.id
  have hshownSlot : SlotOf (Shown contentHash policy nodes edges) gap.id
      (adjacentSlot (exportedEdges contentHash policy nodes edges flows) gap.id) :=
    slotOf_adjacentSlot exportedEdges_sorted (fun _ => mem_exportedEdges) gap.id
  -- the row has the relation of the slot among the edges of the export
  have hslotLabel : ((adjacentSlot (exportedEdges contentHash policy nodes edges flows) gap.id).map
      Edge.label).or (asStr (index gap.props "edge_label")) = some label := by
    rw [← hlabel, hshown]
    rfl
  rw [plan_ok_iff, hfind]
  simp only [Option.some_inj, exists_eq_left']
  constructor
  · rintro ⟨hsource, hrelation⟩
    exact ⟨_, _, hstoredSlot, hshownSlot, hsource, (sameRelation_iff hslotLabel).mpr hrelation⟩
  · rintro ⟨stored, shown, hstored, hshown', hsource, hsame⟩
    have hkey := hstored.key_eq hstoredSlot
    have hlabel' : (shown.map Edge.label).or (asStr (index gap.props "edge_label")) = some label := by
      rw [label_congr (hshown'.key_eq hshownSlot), hslotLabel]
    refine ⟨?_, ?_⟩
    · rwa [HasSource, ← sourceOf_congr hkey]
    · rw [relationOf, ← label_congr hkey]
      exact (sameRelation_iff hlabel').mp hsame

end

namespace Sample

/-- Provenance of a call that was only proposed. -/
def proposed : Json := .obj [("prov", Provenance.toJson
  { tier := .agentic
    confidenceTier := .inferredWeak
    evidence := []
    extractorId := "t3"
    contentHash := "0000000000000000000000000000000000000000000000000000000000000000" })]

def gap : Node Json := ⟨"gap:1", "Gap", .obj []⟩

/-- A gap with a proposed caller and a confirmed publisher. -/
def nodes : List (Node Json) :=
  [gap, ⟨"sym:a", "Symbol", .obj []⟩, ⟨"sym:b", "Symbol", .obj []⟩]

def edges : List (Edge Json) :=
  [⟨"sym:a", "gap:1", "CALLS", proposed⟩, ⟨"sym:b", "gap:1", "PUBLISHES", FlowTracer.Sample.confirmed⟩]

/-- The texts of these values, read back. -/
def codec : Codec Json where
  toText v :=
    match v with
    | .obj [] => "none"
    | v => if confidence v = .confirmed then "confirmed" else "proposed"
  fromText text :=
    some (if text = "none" then .obj [] else if text = "confirmed" then FlowTracer.Sample.confirmed
      else proposed)
  nodeDigest n := "node-v1:" ++ n.id
  edgeDigest e := "edge-v1:" ++ e.src

def store : Store :=
  edges.foldl (fun s e => (s.putEdge codec e).1) (nodes.foldl (fun s n => (s.putNode codec n).1) .empty)

theorem store_rows :
    store.nodes.rows = [("gap:1", ⟨"Gap", "none"⟩), ("sym:a", ⟨"Symbol", "none"⟩),
      ("sym:b", ⟨"Symbol", "none"⟩)]
    ∧ store.edges.rows = [(edgeKey "sym:a" "gap:1" "CALLS", "proposed"),
      (edgeKey "sym:b" "gap:1" "PUBLISHES", "confirmed")] := by
  decide

theorem store_read : store.readSnapshot codec = .ok (nodes, edges) := by
  rw [Store.readSnapshot, Store.readNodes, Store.readEdges, store_rows.1, store_rows.2]
  rfl

def policy (mode : ExportMode) : Policy := ⟨mode, []⟩

/-- The register of an export. -/
def register (mode : ExportMode) : List SpecAssertion :=
  (compileSpec FlowTracer.Sample.noHash (policy mode) (fun _ => "") nodes edges
    []).gapRegister.assertions

theorem evaluated :
    (∃ row ∈ register .verifiedOnly, row.id = "node:" ++ gap.id ∧ row.edgeLabel = some "PUBLISHES")
    ∧ (∃ row ∈ register .bestEffort, row.id = "node:" ++ gap.id ∧ row.edgeLabel = some "CALLS")
    ∧ relationOf gap (adjacentSlot edges gap.id) = "CALLS" := by
  decide

theorem slots : ∃ stored shown, SlotOf (fun e => e ∈ edges) gap.id stored
    ∧ SlotOf (Shown FlowTracer.Sample.noHash (policy .bestEffort) nodes edges) gap.id shown
    ∧ HasSource nodes gap stored ∧ SameRelation gap stored shown := by
  have hstored := slotOf_adjacentSlot (snapshot_edges_sorted store_read) (fun e => Iff.rfl) gap.id
  have hshown : SlotOf (Shown FlowTracer.Sample.noHash (policy .bestEffort) nodes edges) gap.id
      (adjacentSlot (exportedEdges FlowTracer.Sample.noHash (policy .bestEffort) nodes edges [])
        gap.id) :=
    slotOf_adjacentSlot exportedEdges_sorted (fun _ => mem_exportedEdges) gap.id
  have hsource : HasSource nodes gap (adjacentSlot edges gap.id) :=
    ⟨"sym:a", rfl, List.mem_cons_of_mem _ List.mem_cons_self⟩
  have hlabel : ((adjacentSlot (exportedEdges FlowTracer.Sample.noHash (policy .bestEffort) nodes edges
      []) gap.id).map Edge.label).or (asStr (index gap.props "edge_label")) = some "CALLS" := by
    decide
  exact ⟨_, _, hstored, hshown, hsource, (sameRelation_iff hlabel).mpr evaluated.2.2⟩

end Sample

theorem register_relation_best_effort : ∃ p,
    plan Sample.codec FlowTracer.Sample.noHash Sample.nodes Sample.edges Sample.gap.id "action" = .ok p
      ∧ p.edgeLabel = "CALLS" := by
  obtain ⟨row, hrow, hid, hlabel⟩ := Sample.evaluated.2.1
  exact (register_relation_iff Sample.store_read List.mem_cons_self hrow hid hlabel).mpr Sample.slots

/-- A verified-only export leaves out the proposed call, and the register lists the relation of the
publisher. -/
theorem register_relation_differs : ¬∀ (c : Codec Json) (contentHash : String → Hash) (s : Store)
    (nodes : List (Node Json)) (edges : List (Edge Json)), s.readSnapshot c = .ok (nodes, edges) →
    ∀ (policy : Policy) (renderObservation : Observation → String) (flows : List Flow)
      (actionId : String), ∀ gap ∈ nodes,
      ∀ row ∈ (compileSpec contentHash policy renderObservation nodes edges
        flows).gapRegister.assertions, row.id = "node:" ++ gap.id →
      ∀ label, row.edgeLabel = some label →
        ∃ p, plan c contentHash nodes edges gap.id actionId = .ok p ∧ p.edgeLabel = label := by
  intro hall
  obtain ⟨row, hrow, hid, hlabel⟩ := Sample.evaluated.1
  have hplan := hall Sample.codec FlowTracer.Sample.noHash Sample.store Sample.nodes Sample.edges
    Sample.store_read (Sample.policy .verifiedOnly) (fun _ => "") [] "action" Sample.gap
    List.mem_cons_self row hrow hid "PUBLISHES" hlabel
  obtain ⟨gap, hgap, -, hrelation⟩ := plan_ok_iff.mp hplan
  obtain rfl : Sample.gap = gap := Option.some_inj.mp hgap
  rw [Sample.evaluated.2.2] at hrelation
  exact absurd hrelation (by decide)

end TaskEvidence

/-
The compiled specification (`crates/spec/src/workbench.rs`).

All artifacts are compiled from one projection of the graph: the facts that the export policy lets
in, without the relationships of a rule that is left out, and with the decisions, the drifts and
the security findings that are derived from what is left.

* `mem_exportedEdges` — the edges of an export are those that are `Shown`;
* `exported_gap` — a gap of an export is a gap of the graph;
* `register_nodeRow` — the row of a gap in the compiled register.
-/
import Cartograph.Spec.Bounded
import Cartograph.Spec.Flows
import Cartograph.Spec.Security

namespace Spec

open GraphStore Investigation SortBy FlowTracer

/-! ### The projection -/

/-- One of the nodes with this id is a rule. -/
def isRule (nodes : List (Node Json)) (id : String) : Bool :=
  nodes.any fun n => n.label == "BusinessRule" && n.id == id

def isVisible (nodes : List (Node Json)) (id : String) : Bool := nodes.any fun n => n.id == id

section

variable (contentHash : String → Hash) (policy : Policy)

/-- The nodes that an export derives from. -/
def baseNodes (nodes : List (Node Json)) : List (Node Json) := filterNodes contentHash policy nodes

/-- An edge at a rule is kept with both its ends. -/
def keepsRule (nodes : List (Node Json)) (e : Edge Json) : Bool :=
  !(isRule nodes e.src || isRule nodes e.dst)
    || (isVisible (baseNodes contentHash policy nodes) e.src
      && isVisible (baseNodes contentHash policy nodes) e.dst)

/-- The edges that an export derives from. -/
def baseEdges (nodes : List (Node Json)) (edges : List (Edge Json)) : List (Edge Json) :=
  (filterEdges contentHash policy edges).filter (keepsRule contentHash policy nodes)

/-- What is derived of the facts that were let in. -/
def derived (nodes : List (Node Json)) (edges : List (Edge Json)) (flows : List Flow) : AdrFacts :=
  deriveAdrFacts contentHash (baseNodes contentHash policy nodes)
    (baseEdges contentHash policy nodes edges) (projectFlows contentHash policy flows)

def exportedNodes (nodes : List (Node Json)) (edges : List (Edge Json)) (flows : List Flow) :
    List (Node Json) :=
  filterNodes contentHash policy (baseNodes contentHash policy nodes
    ++ (derived contentHash policy nodes edges flows).nodes
    ++ deriveSecurityFindings contentHash (baseNodes contentHash policy nodes)
      (baseEdges contentHash policy nodes edges))

def exportedEdges (nodes : List (Node Json)) (edges : List (Edge Json)) (flows : List Flow) :
    List (Edge Json) :=
  filterEdges contentHash policy (baseEdges contentHash policy nodes edges
    ++ (derived contentHash policy nodes edges flows).edges)

/-- The assertions of `flow_artifact`. -/
def flowAssertions (flows : List Flow) : List SpecAssertion :=
  (projectFlows contentHash policy flows).flatMap fun flow =>
    flow.hops.zipIdx.map fun h => hopAssertion flow h.1 h.2

/-- `count_gap_findings`. -/
def countGapFindings (nodes : List (Node Json)) (edges : List (Edge Json)) : ℕ :=
  let gapIds := ((nodes.filter isGapNode).map Node.id).dedup
  gapIds.length
    + (edges.filter fun e => isGapEdge e && !gapIds.contains e.src && !gapIds.contains e.dst).length

/-- The artifacts that are bounded, and the number of open findings. -/
structure SpecBundle where
  mode : ExportMode
  usTm : Artifact
  gapRegister : Artifact
  ruleEvidence : Artifact
  gapCount : ℕ

/-- `compile_spec`. -/
def compileSpec (renderObservation : Observation → String) (nodes : List (Node Json))
    (edges : List (Edge Json)) (flows : List Flow) : SpecBundle :=
  let nodes' := exportedNodes contentHash policy nodes edges flows
  let edges' := exportedEdges contentHash policy nodes edges flows
  let gapCount := countGapFindings nodes' edges'
  { mode := policy.mode
    usTm := traceabilityMatrix contentHash edges' policy.mode
    gapRegister := Spec.gapRegister contentHash nodes' edges'
      (flowAssertions contentHash policy flows) gapCount policy.mode
    ruleEvidence := inventory contentHash renderObservation nodes' edges' policy.mode
    gapCount := gapCount }

end

/-! ### What is exported -/

/-- An edge that an export shows: one of the graph that the policy and the rules let in, that of a
recovered decision, or one of a drift. -/
inductive Shown (contentHash : String → Hash) (policy : Policy) (nodes : List (Node Json))
    (edges : List (Edge Json)) (e : Edge Json) : Prop
  | stored (mem : e ∈ edges)
      (included : included policy (provenance contentHash e.props (edgeIdentity e)) = true)
      (rule : keepsRule contentHash policy nodes e = true)
  | decision (channel : Node Json) (mem : channel ∈ baseNodes contentHash policy nodes)
      (recovers : recovers (baseNodes contentHash policy nodes)
        (baseEdges contentHash policy nodes edges) channel = true)
      (edge : e = recoveredEdge contentHash (baseEdges contentHash policy nodes edges) channel)
      (included : included policy (provenance contentHash e.props (edgeIdentity e)) = true)
  | drift (adr : Node Json) (offending : Edge Json) (ps : Provenance × Provenance)
      (conflict : (adr, offending, ps) ∈ conflicts
        (projectedNodes contentHash (baseNodes contentHash policy nodes)
          (baseEdges contentHash policy nodes edges))
        (projectedEdges contentHash (baseNodes contentHash policy nodes)
          (baseEdges contentHash policy nodes edges)))
      (edge : e ∈ driftEdges contentHash (projectedNodes contentHash
          (baseNodes contentHash policy nodes) (baseEdges contentHash policy nodes edges))
        adr offending ps)
      (included : included policy (provenance contentHash e.props (edgeIdentity e)) = true)

variable {e : Edge Json} {n : Node Json}

section

variable {contentHash : String → Hash} {policy : Policy} {nodes : List (Node Json)}
  {edges : List (Edge Json)} {flows : List Flow}

theorem mem_baseEdges : e ∈ baseEdges contentHash policy nodes edges ↔
    (e ∈ edges ∧ included policy (provenance contentHash e.props (edgeIdentity e)) = true)
      ∧ keepsRule contentHash policy nodes e = true := by
  rw [baseEdges, List.mem_filter, mem_filterEdges]

theorem mem_derivedEdges :
    e ∈ (derived contentHash policy nodes edges flows).edges ↔
      (∃ channel ∈ baseNodes contentHash policy nodes,
        recovers (baseNodes contentHash policy nodes) (baseEdges contentHash policy nodes edges)
          channel = true
        ∧ e = recoveredEdge contentHash (baseEdges contentHash policy nodes edges) channel)
      ∨ ∃ c ∈ conflicts
          (projectedNodes contentHash (baseNodes contentHash policy nodes)
            (baseEdges contentHash policy nodes edges))
          (projectedEdges contentHash (baseNodes contentHash policy nodes)
            (baseEdges contentHash policy nodes edges)),
        e ∈ driftEdges contentHash (projectedNodes contentHash
          (baseNodes contentHash policy nodes) (baseEdges contentHash policy nodes edges))
          c.1 c.2.1 c.2.2 := by
  rw [derived, deriveAdrFacts, (sortBy_perm _ _).mem_iff, List.mem_append]
  refine or_congr ?_ ?_
  · simp only [recoveredAdrs, List.mem_map, List.mem_filter, and_assoc, eq_comm]
  · rw [driftFacts, List.mem_flatMap]

/-- **Exported edges.** -/
theorem mem_exportedEdges : e ∈ exportedEdges contentHash policy nodes edges flows ↔
    Shown contentHash policy nodes edges e := by
  rw [exportedEdges, mem_filterEdges, List.mem_append, mem_baseEdges, mem_derivedEdges]
  constructor
  · rintro ⟨⟨⟨hmem, hin⟩, hrule⟩ | ⟨channel, hchannel, hrecovers, rfl⟩ | ⟨⟨adr, offending, ps⟩, hc, he⟩,
      hincluded⟩
    · exact .stored hmem hin hrule
    · exact .decision channel hchannel hrecovers rfl hincluded
    · exact .drift adr offending ps hc he hincluded
  · intro h
    cases h with
    | stored hmem hin hrule => exact ⟨.inl ⟨⟨hmem, hin⟩, hrule⟩, hin⟩
    | decision channel hchannel hrecovers hedge hin =>
      exact ⟨.inr (.inl ⟨channel, hchannel, hrecovers, hedge⟩), hin⟩
    | drift adr offending ps hc hedge hin => exact ⟨.inr (.inr ⟨_, hc, hedge⟩), hin⟩

theorem exportedEdges_sorted :
    (exportedEdges contentHash policy nodes edges flows).Pairwise fun a b => a.key ≤ b.key :=
  sortBy_pairwise _ _

theorem isGapNode_derived (h : n ∈ (derived contentHash policy nodes edges flows).nodes) :
    isGapNode n = false := by
  rw [derived, deriveAdrFacts, (sortBy_perm _ _).mem_iff, List.mem_append] at h
  rcases h with h | h
  · obtain ⟨channel, -, rfl⟩ := List.mem_map.mp h
    obtain ⟨fact, hprov⟩ : ∃ fact,
        index (recoveredNode contentHash (baseEdges contentHash policy nodes edges) channel).props "prov"
          = (recoveredProvenance contentHash (baseEdges contentHash policy nodes edges) channel
            fact).toJson :=
      ⟨_, by simp only [recoveredNode, index]; rfl⟩
    have hwritten := confidence_recovered fact hprov
    rw [isGapNode, hwritten]
    rcases recoveredConfidence_cases (baseEdges contentHash policy nodes edges) channel.id
      with ⟨hconfidence, -⟩ | ⟨hconfidence, -⟩ <;> simp [recoveredNode, hconfidence]
  · obtain ⟨⟨adr, offending, ps⟩, hc, rfl⟩ := List.mem_map.mp h
    have hconflict := conflict_some (mem_conflicts.mp hc).2.2
    have hprov : index
        (driftNode contentHash (projectFlows contentHash policy flows) adr offending ps).props "prov"
          = (driftProvenance contentHash adr offending ps).toJson := by
      simp only [driftNode, index]
      rfl
    have hwritten := confidence_drift hconflict hprov
    rw [isGapNode, hwritten]
    simp [driftNode, hconflict.known]

/-- **Exported gaps.**  A gap of an export is a gap of the graph. -/
theorem exported_gap (h : n ∈ exportedNodes contentHash policy nodes edges flows)
    (hgap : isGapNode n = true) : n ∈ nodes := by
  rw [exportedNodes, mem_filterNodes, List.mem_append, List.mem_append] at h
  rcases h.1 with (hbase | hderived) | hfinding
  · exact (mem_filterNodes contentHash |>.mp hbase).1
  · rw [isGapNode_derived hderived] at hgap
    cases hgap
  · have hrests : ∃ support, RestsOn n support := by
      rcases security_findings_rest hfinding with ⟨endpoint, -, -, hrests⟩ | ⟨grant, -, -, hrests⟩
      · exact ⟨_, hrests⟩
      · exact ⟨_, hrests⟩
    obtain ⟨support, hrests⟩ := hrests
    rw [isGapNode, hrests.label, hrests.confidence] at hgap
    exact absurd (by simpa using hgap) hrests.known

theorem edgeAssertion_id_ne (e : Edge Json) (id : String) :
    (edgeAssertion contentHash e).id ≠ "node:" ++ id := by
  intro h
  have hhead := congrArg (fun s => s.toList.head?) h
  simp [edgeAssertion, String.toList_append] at hhead

theorem hopAssertion_id_ne (flow : Flow) (hop : Hop) (place : ℕ) (id : String) :
    (hopAssertion flow hop place).id ≠ "node:" ++ id := by
  intro h
  have hhead := congrArg (fun s => s.toList.head?) h
  simp [hopAssertion_id, String.toList_append] at hhead

theorem register_nodeRow {renderObservation : Observation → String} {row : SpecAssertion}
    {id : String}
    (h : row ∈ (compileSpec contentHash policy renderObservation nodes edges flows).gapRegister.assertions)
    (hid : row.id = "node:" ++ id) :
    ∃ n ∈ exportedNodes contentHash policy nodes edges flows, isGapNode n = true ∧ n.id = id
      ∧ row.edgeLabel = gapNodeEdgeLabel n (exportedEdges contentHash policy nodes edges flows) := by
  have hmem : row ∈ registerRows contentHash _ _ (flowAssertions contentHash policy flows) := h
  rw [registerRows] at hmem
  replace hmem := (sortBy_perm _ _).mem_iff.mp ((distinct_sublist _ _).subset hmem)
  rw [List.mem_append, List.mem_append] at hmem
  rcases hmem with (hnode | hedge) | hflow
  · obtain ⟨n, hn, rfl⟩ := List.mem_map.mp hnode
    obtain ⟨hexported, hgap⟩ := List.mem_filter.mp hn
    exact ⟨n, hexported, hgap, (String.append_right_inj _).mp hid, rfl⟩
  · obtain ⟨e, -, rfl⟩ := List.mem_map.mp hedge
    exact absurd hid (edgeAssertion_id_ne e id)
  · obtain ⟨flow, -, hhop⟩ := List.mem_flatMap.mp (List.mem_filter.mp hflow).1
    obtain ⟨hop, -, rfl⟩ := List.mem_map.mp hhop
    exact absurd hid (hopAssertion_id_ne flow hop.1 hop.2 id)

end

end Spec

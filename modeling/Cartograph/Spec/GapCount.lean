/-
The gap count and the gap register (`crates/spec/src/workbench.rs`).

The bundle counts its open gaps by the ends of the gap edges.  The register reads the ends off the
words of the joined identity of a row, and lists one row for an identity.

* `derivedEdge_known` — no derived edge is a gap;
* `gapCount_eq`, `laneFindings_compiled` — both numbers, from the gaps that the export lets in;
* `gapCount_eq_findings_iff` — when they are equal.
-/
import Cartograph.Spec.Compile

namespace Spec

open GraphStore Investigation SortBy FlowTracer

/-! ### Gaps that are let in -/

/-- One of these nodes is an end of the edge. -/
def touches (ids : List String) (e : Edge Json) : Bool := ids.contains e.src || ids.contains e.dst

section

variable (contentHash : String → Hash) (policy : Policy)

/-- The register reads one of these nodes off the row of the edge. -/
def readAs (ids : List String) (e : Edge Json) : Bool :=
  supportsListed ids (edgeAssertion contentHash e)

/-- The gap nodes that an export lets in. -/
def gapIds (nodes : List (Node Json)) : List String :=
  (((baseNodes contentHash policy nodes).filter isGapNode).map Node.id).dedup

/-- The gap edges that an export lets in. -/
def gapEdges (nodes : List (Node Json)) (edges : List (Edge Json)) : List (Edge Json) :=
  (baseEdges contentHash policy nodes edges).filter isGapEdge

/-- The gap edges at a gap node that the register does not read off their rows. -/
def overlooked (nodes : List (Node Json)) (edges : List (Edge Json)) : List (Edge Json) :=
  (gapEdges contentHash policy nodes edges).filter fun e =>
    touches (gapIds contentHash policy nodes) e
      && !readAs contentHash (gapIds contentHash policy nodes) e

/-- The gap edges at no gap node, off whose rows the register reads one. -/
def mistaken (nodes : List (Node Json)) (edges : List (Edge Json)) : List (Edge Json) :=
  (gapEdges contentHash policy nodes edges).filter fun e =>
    !touches (gapIds contentHash policy nodes) e
      && readAs contentHash (gapIds contentHash policy nodes) e

/-- The identities of the gap edges off whose rows no gap node is read. -/
def freeIdentities (nodes : List (Node Json)) (edges : List (Edge Json)) : List String :=
  ((gapEdges contentHash policy nodes edges).filter fun e =>
    !readAs contentHash (gapIds contentHash policy nodes) e).map edgeIdentity

/-- The rows that are lost because their edges have one identity. -/
def joined (nodes : List (Node Json)) (edges : List (Edge Json)) : ℕ :=
  (freeIdentities contentHash policy nodes edges).length
    - (freeIdentities contentHash policy nodes edges).dedup.length

end

/-! ### The count -/

variable {ids ids' : List String} {row : SpecAssertion}

section

variable {contentHash : String → Hash} {policy : Policy} {nodes : List (Node Json)}
  {edges : List (Edge Json)} {flows : List Flow}

theorem derivedEdge_known {e : Edge Json}
    (h : e ∈ (derived contentHash policy nodes edges flows).edges) : isGapEdge e = false := by
  rw [mem_derivedEdges] at h
  rcases h with ⟨channel, -, -, rfl⟩ | ⟨⟨adr, offending, ps⟩, hc, he⟩
  · have hwritten : confidence
        (recoveredEdge contentHash (baseEdges contentHash policy nodes edges) channel).props
        = recoveredConfidence (baseEdges contentHash policy nodes edges) channel.id :=
      confidence_recovered _ rfl
    rw [isGapEdge, hwritten]
    rcases recoveredConfidence_cases (baseEdges contentHash policy nodes edges) channel.id
      with ⟨hconfidence, -⟩ | ⟨hconfidence, -⟩ <;> simp [hconfidence]
  · have hconflict := conflict_some (mem_conflicts.mp hc).2.2
    obtain ⟨t, -, rfl⟩ := List.mem_map.mp he
    rw [isGapEdge, confidence_drift hconflict rfl]
    simpa using hconflict.known

variable (contentHash policy nodes edges flows) in
theorem mem_exportedGapIds (id : String) :
    id ∈ (((exportedNodes contentHash policy nodes edges flows).filter isGapNode).map Node.id).dedup
      ↔ id ∈ gapIds contentHash policy nodes := by
  simp only [gapIds, List.mem_dedup, List.mem_map, List.mem_filter]
  constructor
  · rintro ⟨n, ⟨hn, hgap⟩, rfl⟩
    refine ⟨n, ⟨(mem_filterNodes contentHash).mpr ⟨exported_gap hn hgap, ?_⟩, hgap⟩, rfl⟩
    exact ((mem_filterNodes contentHash).mp hn).2
  · rintro ⟨n, ⟨hn, hgap⟩, rfl⟩
    refine ⟨n, ⟨(mem_filterNodes contentHash).mpr ⟨?_, ((mem_filterNodes contentHash).mp hn).2⟩,
      hgap⟩, rfl⟩
    exact List.mem_append_left _ (List.mem_append_left _ hn)

theorem exportedGapEdges_perm :
    ((exportedEdges contentHash policy nodes edges flows).filter isGapEdge).Perm
      (gapEdges contentHash policy nodes edges) := by
  refine ((sortBy_perm _ _).filter _).trans (List.Perm.of_eq ?_)
  rw [List.filter_append, List.filter_append]
  have hderived : List.filter isGapEdge (List.filter
      (fun e => included policy (provenance contentHash e.props (edgeIdentity e)))
      (derived contentHash policy nodes edges flows).edges) = [] := by
    refine List.filter_eq_nil_iff.mpr fun e he => ?_
    rw [derivedEdge_known (List.mem_of_mem_filter he)]
    simp
  have hbase : List.filter
      (fun e => included policy (provenance contentHash e.props (edgeIdentity e)))
      (baseEdges contentHash policy nodes edges) = baseEdges contentHash policy nodes edges :=
    List.filter_eq_self.mpr fun e he => (mem_baseEdges.mp he).1.2
  rw [hderived, hbase, List.append_nil, gapEdges]

theorem contains_congr (h : ∀ id, id ∈ ids ↔ id ∈ ids') (id : String) :
    ids.contains id = ids'.contains id := by
  rw [Bool.eq_iff_iff, List.contains_iff_mem, List.contains_iff_mem, h]

/-- **The gap count** of a bundle. -/
theorem gapCount_eq (renderObservation : Observation → String) :
    (compileSpec contentHash policy renderObservation nodes edges flows).gapCount
      = (gapIds contentHash policy nodes).length
        + ((gapEdges contentHash policy nodes edges).filter fun e =>
          !touches (gapIds contentHash policy nodes) e).length := by
  have hids : ((((exportedNodes contentHash policy nodes edges flows).filter isGapNode).map
      Node.id).dedup).length = (gapIds contentHash policy nodes).length :=
    ((List.perm_ext_iff_of_nodup (List.nodup_dedup _) (List.nodup_dedup _)).mpr
      fun id => mem_exportedGapIds contentHash policy nodes edges flows id).length_eq
  have hedges : ((exportedEdges contentHash policy nodes edges flows).filter fun e =>
      isGapEdge e && !(gapIds contentHash policy nodes).contains e.src
        && !(gapIds contentHash policy nodes).contains e.dst)
      = ((exportedEdges contentHash policy nodes edges flows).filter isGapEdge).filter fun e =>
        !touches (gapIds contentHash policy nodes) e := by
    rw [List.filter_filter]
    refine List.filter_congr fun e _ => ?_
    rw [touches, Bool.not_or, Bool.and_comm _ (isGapEdge e), Bool.and_assoc]
  show countGapFindings (exportedNodes contentHash policy nodes edges flows)
    (exportedEdges contentHash policy nodes edges flows) = _
  simp only [countGapFindings, hids, 
    contains_congr (mem_exportedGapIds contentHash policy nodes edges flows)]
  rw [hedges, (exportedGapEdges_perm.filter _).length_eq]

/-! ### The findings -/

theorem registerRow_cases {ns : List (Node Json)} {es : List (Edge Json)} {fs : List SpecAssertion}
    (h : row ∈ registerRows contentHash ns es fs) :
    (∃ n ∈ ns, isGapNode n = true ∧ row = nodeAssertion contentHash n (gapNodeEdgeLabel n es))
      ∨ (∃ e ∈ es, isGapEdge e = true ∧ row = edgeAssertion contentHash e) ∨ row ∈ fs := by
  rw [registerRows] at h
  replace h := (sortBy_perm _ _).mem_iff.mp ((distinct_sublist _ _).subset h)
  rw [List.mem_append, List.mem_append] at h
  rcases h with (hnode | hedge) | hflow
  · obtain ⟨n, hn, rfl⟩ := List.mem_map.mp hnode
    exact .inl ⟨n, (List.mem_filter.mp hn).1, (List.mem_filter.mp hn).2, rfl⟩
  · obtain ⟨e, he, rfl⟩ := List.mem_map.mp hedge
    exact .inr (.inl ⟨e, (List.mem_filter.mp he).1, (List.mem_filter.mp he).2, rfl⟩)
  · exact .inr (.inr (List.mem_filter.mp hflow).1)

variable (contentHash) in
theorem exists_registerRow (ns : List (Node Json)) (es : List (Edge Json))
    (fs : List SpecAssertion) {a : SpecAssertion}
    (h : a ∈ ((ns.filter isGapNode).map fun n =>
        nodeAssertion contentHash n (gapNodeEdgeLabel n es))
      ++ (es.filter isGapEdge).map (edgeAssertion contentHash)
      ++ fs.filter fun a => a.provenance.confidenceTier == .gap) :
    ∃ row ∈ registerRows contentHash ns es fs, row.id = a.id :=
  distinct_covers ((sortBy_perm _ _).mem_iff.mpr h)

theorem registerRows_nodup (ns : List (Node Json)) (es : List (Edge Json))
    (fs : List SpecAssertion) :
    ((registerRows contentHash ns es fs).map SpecAssertion.id).Nodup :=
  distinct_nodup (sortBy_pairwise _ _)

@[simp] theorem isNodeRow_node (n : Node Json) (label : Option String) :
    isNodeRow (nodeAssertion contentHash n label) = true := by
  simp [isNodeRow, nodeAssertion]

@[simp] theorem isNodeRow_edge (e : Edge Json) :
    isNodeRow (edgeAssertion contentHash e) = false := by
  simp [isNodeRow, edgeAssertion, List.isPrefixOf]

@[simp] theorem isEdgeRow_edge (e : Edge Json) :
    isEdgeRow (edgeAssertion contentHash e) = true := by
  simp [isEdgeRow, edgeAssertion]

theorem rows_hop (h : row ∈ flowAssertions contentHash policy flows) :
    isNodeRow row = false ∧ isEdgeRow row = false := by
  obtain ⟨flow, -, hhop⟩ := List.mem_flatMap.mp h
  obtain ⟨hop, -, rfl⟩ := List.mem_map.mp hhop
  constructor
  · simp [isNodeRow, hopAssertion_id, List.isPrefixOf]
  · simp [isEdgeRow, hopAssertion_id, List.isPrefixOf]

section

variable (contentHash policy nodes edges flows)

/-- The rows of the compiled register. -/
def compiledRows : List SpecAssertion :=
  registerRows contentHash (exportedNodes contentHash policy nodes edges flows)
    (exportedEdges contentHash policy nodes edges flows) (flowAssertions contentHash policy flows)

end

theorem mem_listed (id : String) :
    id ∈ ((compiledRows contentHash policy nodes edges flows).filter isNodeRow).map
        SpecAssertion.subjectId ↔ id ∈ gapIds contentHash policy nodes := by
  rw [← mem_exportedGapIds contentHash policy nodes edges flows, List.mem_dedup]
  constructor
  · intro h
    obtain ⟨row, hrow, rfl⟩ := List.mem_map.mp h
    obtain ⟨hmem, hnode⟩ := List.mem_filter.mp hrow
    rcases registerRow_cases hmem with ⟨n, hn, hgap, rfl⟩ | ⟨e, -, -, rfl⟩ | hflow
    · exact List.mem_map_of_mem (List.mem_filter.mpr ⟨hn, hgap⟩)
    · rw [isNodeRow_edge] at hnode
      cases hnode
    · rw [(rows_hop hflow).1] at hnode
      cases hnode
  · intro h
    obtain ⟨n, hn, rfl⟩ := List.mem_map.mp h
    obtain ⟨row, hrow, hid⟩ := exists_registerRow contentHash
      (exportedNodes contentHash policy nodes edges flows)
      (exportedEdges contentHash policy nodes edges flows)
      (flowAssertions contentHash policy flows) (List.mem_append_left _ (List.mem_append_left _ (List.mem_map_of_mem hn)))
    -- the row that stands for the gap has its id, and so its subject
    rcases registerRow_cases hrow with ⟨m, hm, hgap, rfl⟩ | ⟨e, -, -, rfl⟩ | hflow
    · have hsame : m.id = n.id := (String.append_right_inj _).mp hid
      refine List.mem_map.mpr ⟨_, List.mem_filter.mpr ⟨hrow, isNodeRow_node m _⟩, hsame⟩
    · exact absurd hid (edgeAssertion_id_ne e n.id)
    · obtain ⟨flow, -, hhop⟩ := List.mem_flatMap.mp hflow
      obtain ⟨hop, -, rfl⟩ := List.mem_map.mp hhop
      exact absurd hid (hopAssertion_id_ne flow hop.1 hop.2 n.id)

theorem supportsListed_congr (h : ∀ id, id ∈ ids ↔ id ∈ ids') (a : SpecAssertion) :
    supportsListed ids a = supportsListed ids' a := by
  simp only [supportsListed, contains_congr h]

theorem isFinding_edge (e : Edge Json) :
    isFinding (compiledRows contentHash policy nodes edges flows) (edgeAssertion contentHash e)
      = !readAs contentHash (gapIds contentHash policy nodes) e := by
  rw [isFinding, isNodeRow_edge, isEdgeRow_edge, supportsListed_congr mem_listed,
    Bool.false_or, Bool.true_and, readAs]

theorem mem_findingIds {id : String} :
    id ∈ (laneFindings (compiledRows contentHash policy nodes edges flows)).1.map SpecAssertion.id ↔
      id ∈ (gapIds contentHash policy nodes).map ("node:" ++ ·)
        ++ (freeIdentities contentHash policy nodes edges).dedup.map ("edge:" ++ ·) := by
  rw [List.mem_append]
  constructor
  · intro h
    obtain ⟨row, hrow, rfl⟩ := List.mem_map.mp h
    obtain ⟨hmem, hfinding⟩ := List.mem_filter.mp hrow
    rcases registerRow_cases hmem with ⟨n, hn, hgap, rfl⟩ | ⟨e, he, hgap, rfl⟩ | hflow
    · refine .inl (List.mem_map_of_mem ((mem_listed _).mp (List.mem_map.mpr ⟨_, List.mem_filter.mpr ⟨hmem, isNodeRow_node n _⟩, rfl⟩)))
    · rw [isFinding_edge] at hfinding
      refine .inr (List.mem_map_of_mem (List.mem_dedup.mpr (List.mem_map_of_mem
        (List.mem_filter.mpr ⟨exportedGapEdges_perm.mem_iff.mp (List.mem_filter.mpr ⟨he, hgap⟩),
          hfinding⟩))))
    · rw [isFinding, (rows_hop hflow).1, (rows_hop hflow).2] at hfinding
      cases hfinding
  · rintro (h | h)
    · obtain ⟨id, hid, rfl⟩ := List.mem_map.mp h
      obtain ⟨row, hrow, rfl⟩ := List.mem_map.mp
        ((mem_listed id).mpr hid)
      obtain ⟨hmem, hnode⟩ := List.mem_filter.mp hrow
      refine List.mem_map.mpr ⟨row, List.mem_filter.mpr ⟨hmem, by rw [isFinding, hnode]; rfl⟩, ?_⟩
      rcases registerRow_cases hmem with ⟨n, hn, hgap, rfl⟩ | ⟨e, he, hgap, rfl⟩ | hflow
      · rfl
      · rw [isNodeRow_edge] at hnode
        cases hnode
      · rw [(rows_hop hflow).1] at hnode
        cases hnode
    · obtain ⟨identity, hidentity, rfl⟩ := List.mem_map.mp h
      obtain ⟨e, he, rfl⟩ := List.mem_map.mp (List.mem_dedup.mp hidentity)
      obtain ⟨hgap, hfree⟩ := List.mem_filter.mp he
      obtain ⟨row, hrow, hid⟩ := exists_registerRow contentHash
        (exportedNodes contentHash policy nodes edges flows)
        (exportedEdges contentHash policy nodes edges flows)
        (flowAssertions contentHash policy flows) (List.mem_append_left _ (List.mem_append_right _ (List.mem_map_of_mem
          (exportedGapEdges_perm.mem_iff.mpr hgap))))
      refine List.mem_map.mpr ⟨row, List.mem_filter.mpr ⟨hrow, ?_⟩, hid⟩
      rcases registerRow_cases hrow with ⟨n, -, -, rfl⟩ | ⟨e', -, -, rfl⟩ | hflow
      · exact absurd hid.symm (edgeAssertion_id_ne e n.id)
      · -- an edge with the same identity reads the same words
        have hsame : edgeIdentity e' = edgeIdentity e := (String.append_right_inj _).mp hid
        rw [isFinding_edge, readAs, supportsListed, show (edgeAssertion contentHash e').subjectId
          = (edgeAssertion contentHash e).subjectId from hsame]
        exact hfree
      · obtain ⟨flow, -, hhop⟩ := List.mem_flatMap.mp hflow
        obtain ⟨hop, -, rfl⟩ := List.mem_map.mp hhop
        have hhead := congrArg (fun s => s.toList.head?) hid
        simp [hopAssertion_id, edgeAssertion, String.toList_append] at hhead

/-- **The findings** of the compiled register. -/
theorem findings_length (renderObservation : Observation → String) :
    (laneFindings (compileSpec contentHash policy renderObservation nodes edges
        flows).gapRegister.assertions).1.length
      = (gapIds contentHash policy nodes).length
        + (freeIdentities contentHash policy nodes edges).dedup.length := by
  show (laneFindings (compiledRows contentHash policy nodes edges flows)).1.length = _
  have hfindings : ((laneFindings (compiledRows contentHash policy nodes edges flows)).1.map
      SpecAssertion.id).Nodup :=
    (registerRows_nodup _ _ _).sublist ((List.filter_sublist).map _)
  have hgaps : ((gapIds contentHash policy nodes).map ("node:" ++ ·)
      ++ (freeIdentities contentHash policy nodes edges).dedup.map ("edge:" ++ ·)).Nodup := by
    refine List.Nodup.append ((List.nodup_dedup _).map fun a b => (String.append_right_inj _).mp)
      ((List.nodup_dedup _).map fun a b => (String.append_right_inj _).mp) fun x hx hx' => ?_
    obtain ⟨id, -, rfl⟩ := List.mem_map.mp hx
    obtain ⟨identity, -, h⟩ := List.mem_map.mp hx'
    have hhead := congrArg (fun s => s.toList.head?) h
    simp [String.toList_append] at hhead
  have hsame := ((List.perm_ext_iff_of_nodup hfindings hgaps).mpr fun _ => mem_findingIds).length_eq
  simpa only [List.length_map, List.length_append] using hsame

/-! ### Both -/

theorem length_filter_split {α : Type} (p q : α → Bool) (l : List α) :
    (l.filter p).length
      = (l.filter fun a => q a && p a).length + (l.filter fun a => !q a && p a).length := by
  rw [← List.filter_filter, ← List.filter_filter]
  exact List.length_eq_length_filter_add q

/-- **Count and findings.**  The gap count is the number of the findings exactly when as many gap
edges at a gap node are read as edges at none as are read the other way round or are lost to
another edge of the same identity. -/
theorem gapCount_eq_findings_iff (contentHash : String → Hash) (policy : Policy)
    (renderObservation : Observation → String) (nodes : List (Node Json))
    (edges : List (Edge Json)) (flows : List Flow) :
    (compileSpec contentHash policy renderObservation nodes edges flows).gapCount
        = (laneFindings (compileSpec contentHash policy renderObservation nodes edges
          flows).gapRegister.assertions).1.length
      ↔ (overlooked contentHash policy nodes edges).length
        = (mistaken contentHash policy nodes edges).length
          + joined contentHash policy nodes edges := by
  rw [gapCount_eq, findings_length]
  have huntouched := length_filter_split
    (fun e => !touches (gapIds contentHash policy nodes) e)
    (fun e => readAs contentHash (gapIds contentHash policy nodes) e)
    (gapEdges contentHash policy nodes edges)
  have hunread := length_filter_split
    (fun e => !readAs contentHash (gapIds contentHash policy nodes) e)
    (fun e => touches (gapIds contentHash policy nodes) e)
    (gapEdges contentHash policy nodes edges)
  have hfree : (freeIdentities contentHash policy nodes edges).length
      = ((gapEdges contentHash policy nodes edges).filter fun e =>
        !readAs contentHash (gapIds contentHash policy nodes) e).length := List.length_map ..
  have hle : (freeIdentities contentHash policy nodes edges).dedup.length
      ≤ (freeIdentities contentHash policy nodes edges).length := (List.dedup_sublist _).length_le
  have hneither : ((gapEdges contentHash policy nodes edges).filter fun e =>
      !touches (gapIds contentHash policy nodes) e
        && !readAs contentHash (gapIds contentHash policy nodes) e)
      = (gapEdges contentHash policy nodes edges).filter fun e =>
        !readAs contentHash (gapIds contentHash policy nodes) e
          && !touches (gapIds contentHash policy nodes) e :=
    List.filter_congr fun e _ => Bool.and_comm _ _
  have hmistaken : mistaken contentHash policy nodes edges
      = (gapEdges contentHash policy nodes edges).filter fun e =>
        readAs contentHash (gapIds contentHash policy nodes) e
          && !touches (gapIds contentHash policy nodes) e :=
    List.filter_congr fun e _ => Bool.and_comm _ _
  rw [hneither] at hunread
  rw [hmistaken, overlooked, joined]
  omega

/-! ### Words -/

end

namespace Sample

/-- A gap whose id has a blank, and an edge to it that is a gap as well. -/
def spacedGap : List (Node Json) := [⟨"gap:a b", "Gap", .obj []⟩]

def toSpacedGap : List (Edge Json) := [⟨"sym:f", "gap:a b", "CALLS", .obj []⟩]

end Sample

/-- The edge is a finding of its own, and is not counted. -/
theorem spaced_gap_uncounted : ¬∀ (contentHash : String → Hash) (policy : Policy)
    (renderObservation : Observation → String) (nodes : List (Node Json))
    (edges : List (Edge Json)) (flows : List Flow),
    (nodes.map Node.id).Nodup → (edges.map Edge.key).Nodup →
    (compileSpec contentHash policy renderObservation nodes edges flows).gapCount
      = (laneFindings (compileSpec contentHash policy renderObservation nodes edges
          flows).gapRegister.assertions).1.length := by
  intro hall
  have hsame := hall FlowTracer.Sample.noHash ⟨.bestEffort, []⟩ (fun _ => "") Sample.spacedGap
    Sample.toSpacedGap [] (by decide) (by decide)
  rw [gapCount_eq, findings_length] at hsame
  revert hsame
  decide

end Spec

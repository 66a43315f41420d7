/-
Planning of the evidence requests for a gap (`src-tauri/src/task_evidence/planning.rs`).

A gap has a slot: the first edge into it, or else the first out of it.  The source is what the slot
leads to, and the relation to be proposed is that of the slot.  Evidence is requested for the
source, for the gap, and for the nodes around the gap that have some, up to a limit.

* `plan_ok_iff` — when a plan is made, and with which relation;
* `Planned` — what is said of the requests of a plan.
-/
import Cartograph.Agents.SourceBasis
import Cartograph.Semantic.Context
import Cartograph.SourceStore
import Cartograph.Spec.Facts

namespace TaskEvidence

open GraphStore Investigation Agents
open FlowTracer (index asStr)

def MAX_REQUESTS : ℕ := 64
def MAX_CANDIDATES : ℕ := 8

structure EvidenceRequest where
  fact : FactKey
  factDigest : String
  reference : Option EvidenceRef
  candidate : Option AgentCandidate
  deriving DecidableEq

structure TaskPlan where
  actionId : String
  gapId : String
  sourceId : String
  edgeLabel : String
  requests : List EvidenceRequest
  slot : Option (FactKey × String)
  unplannedCandidates : ℕ
  deriving DecidableEq

/-- `FactKey::from_edge`. -/
def edgeFact (e : Edge Json) : FactKey := .edge e.src e.label e.dst

/-- The first edge into a node, or else the first out of it. -/
def adjacentSlot (edges : List (Edge Json)) (id : String) : Option (Edge Json) :=
  (edges.find? fun e => e.dst == id).or (edges.find? fun e => e.src == id)

/-- The other end of the slot of a gap, or else what the gap names as its source. -/
def sourceOf (gap : Node Json) (slot : Option (Edge Json)) : Option String :=
  match slot with
  | some e => some (if e.dst = gap.id then e.src else e.dst)
  | none => asStr (index gap.props "source_id")

/-- The relation to be proposed. -/
def relationOf (gap : Node Json) (slot : Option (Edge Json)) : String :=
  ((slot.map Edge.label).or (asStr (index gap.props "edge_label"))).getD "CALLS"

section

variable (c : Codec Json) (contentHash : String → Hash)

def request (n : Node Json) (candidate : Bool) : EvidenceRequest where
  fact := .node n.id
  factDigest := c.nodeDigest n
  reference := (Spec.provenance contentHash n.props n.id).evidence.head?
  candidate :=
    if candidate then
      some ⟨n.id, n.label, n.label ++ ": "
        ++ ((asStr (index n.props "name")).or (asStr (index n.props "path"))).getD n.id, []⟩
    else none

/-- Whether evidence of a node around the gap may be requested. -/
def isCandidate (inContext : String → Bool) (sourceId gapId : String) (n : Node Json) : Bool :=
  n.id != sourceId && n.id != gapId && inContext n.id && !Spec.isGapNode n
    && !(Spec.confidence n.props == .gap)
    && !(Spec.provenance contentHash n.props n.id).evidence.isEmpty

/-- One turn of the loop over the nodes. -/
def planNode (inContext : String → Bool) (sourceId gapId : String)
    (planned : List EvidenceRequest × ℕ) (n : Node Json) : List EvidenceRequest × ℕ :=
  if isCandidate contentHash inContext sourceId gapId n then
    if planned.1.length = MAX_REQUESTS then (planned.1, planned.2 + 1)
    else (planned.1 ++ [request c contentHash n true], planned.2)
  else planned

def plan (nodes : List (Node Json)) (edges : List (Edge Json)) (gapId actionId : String) :
    Except String TaskPlan :=
  match nodes.find? fun n => n.id == gapId && Spec.isGapNode n with
  | none => .error "The selected gap is unavailable; refresh recovery."
  | some gap =>
    match sourceOf gap (adjacentSlot edges gapId) with
    | none => .error "The selected gap has no source fact."
    | some sourceId =>
      match nodes.find? fun n => n.id == sourceId with
      | none => .error "The selected gap's source fact is unavailable."
      | some source =>
        let subgraph := Semantic.khopSubgraph nodes edges gapId 2
        let inContext := fun id => subgraph.nodes.any fun m => m.2.id == id
        let planned := nodes.foldl (planNode c contentHash inContext sourceId gapId)
          ([request c contentHash source false, request c contentHash gap false], 0)
        .ok {
          actionId := actionId
          gapId := gapId
          sourceId := sourceId
          edgeLabel := relationOf gap (adjacentSlot edges gapId)
          requests := planned.1
          slot := (adjacentSlot edges gapId).map fun e => (edgeFact e, c.edgeDigest e)
          unplannedCandidates := planned.2 }

end

/-! ### Plans -/

section

variable {c : Codec Json} {contentHash : String → Hash} {nodes : List (Node Json)}
  {edges : List (Edge Json)} {gapId actionId : String} {p : TaskPlan}

/-- The source of a gap is a node. -/
def HasSource (nodes : List (Node Json)) (gap : Node Json) (slot : Option (Edge Json)) : Prop :=
  ∃ sourceId, sourceOf gap slot = some sourceId ∧ sourceId ∈ nodes.map Node.id

theorem find?_id_isSome {id : String} :
    (nodes.find? fun n => n.id == id).isSome = true ↔ id ∈ nodes.map Node.id := by
  rw [List.find?_isSome, List.mem_map]
  simp only [beq_iff_eq]

/-- **Plans.**  A plan is made for a gap node with a source, with the relation of its slot. -/
theorem plan_ok_iff {label : String} :
    (∃ p, plan c contentHash nodes edges gapId actionId = .ok p ∧ p.edgeLabel = label) ↔
    ∃ gap, (nodes.find? fun n => n.id == gapId && Spec.isGapNode n) = some gap
      ∧ HasSource nodes gap (adjacentSlot edges gapId)
      ∧ relationOf gap (adjacentSlot edges gapId) = label := by
  rw [plan]
  cases hgap : nodes.find? fun n => n.id == gapId && Spec.isGapNode n with
  | none =>
    constructor
    · rintro ⟨p, h, -⟩
      cases h
    · rintro ⟨gap, h, -⟩
      cases h
  | some gap =>
    simp only [Option.some_inj, exists_eq_left', HasSource]
    cases hsource : sourceOf gap (adjacentSlot edges gapId) with
    | none =>
      constructor
      · rintro ⟨p, h, -⟩
        cases h
      · rintro ⟨⟨id, h, -⟩, -⟩
        cases h
    | some sourceId =>
      simp only [Option.some_inj, exists_eq_left', ← find?_id_isSome]
      cases hnode : nodes.find? fun n => n.id == sourceId with
      | none =>
        constructor
        · rintro ⟨p, h, -⟩
          cases h
        · rintro ⟨h, -⟩
          cases h
      | some source =>
        constructor
        · rintro ⟨p, hp, rfl⟩
          obtain rfl := Except.ok.inj hp
          exact ⟨rfl, rfl⟩
        · rintro ⟨-, rfl⟩
          exact ⟨_, rfl, rfl⟩

/-- What is said of the requests of a plan: they are made of nodes, and all but two, of the source and
of the gap, are of candidates. -/
structure Planned (c : Codec Json) (nodes : List (Node Json)) (p : TaskPlan) : Prop where
  length : p.requests.length ≤ MAX_REQUESTS
  facts : ∀ r ∈ p.requests, ∃ n ∈ nodes, r.fact = .node n.id ∧ r.factDigest = c.nodeDigest n
  bare : (p.requests.filter fun r => r.candidate.isNone).length = 2
  candidates : ∀ r ∈ p.requests, ∀ x, r.candidate = some x →
    r.fact = .node x.nodeId ∧ x.evidenceIds = []

theorem planNode_eq (c : Codec Json) (contentHash : String → Hash) (inContext : String → Bool)
    (sourceId gapId : String) (planned : List EvidenceRequest × ℕ) (n : Node Json) :
    (planNode c contentHash inContext sourceId gapId planned n).1 = planned.1
      ∨ planned.1.length ≠ MAX_REQUESTS ∧ (planNode c contentHash inContext sourceId gapId planned n).1
        = planned.1 ++ [request c contentHash n true] := by
  rw [planNode]
  split_ifs with hcandidate hfull
  · exact .inl rfl
  · exact .inr ⟨hfull, rfl⟩
  · exact .inl rfl

theorem foldl_planNode (c : Codec Json) (contentHash : String → Hash) (inContext : String → Bool)
    (sourceId gapId : String) (l : List (Node Json)) (planned : List EvidenceRequest × ℕ)
    (hlength : planned.1.length ≤ MAX_REQUESTS) :
    ∃ rest, (l.foldl (planNode c contentHash inContext sourceId gapId) planned).1 = planned.1 ++ rest
      ∧ (l.foldl (planNode c contentHash inContext sourceId gapId) planned).1.length ≤ MAX_REQUESTS
      ∧ ∀ r ∈ rest, ∃ n ∈ l, r = request c contentHash n true := by
  induction l generalizing planned with
  | nil => exact ⟨[], (List.append_nil _).symm, hlength, fun r hr => nomatch hr⟩
  | cons n l ih =>
    rw [List.foldl_cons]
    have hstep := planNode_eq c contentHash inContext sourceId gapId planned n
    generalize planNode c contentHash inContext sourceId gapId planned n = next at hstep ⊢
    rcases hstep with hsame | ⟨hroom, hmore⟩
    · obtain ⟨rest, heq, hle, hrest⟩ := ih next (by rw [hsame]; exact hlength)
      rw [hsame] at heq
      exact ⟨rest, heq, hle, fun r hr => (hrest r hr).imp fun n hn => ⟨List.mem_cons_of_mem _ hn.1, hn.2⟩⟩
    · have hnext : next.1.length ≤ MAX_REQUESTS := by
        rw [hmore, List.length_append, List.length_singleton]
        omega
      obtain ⟨rest, heq, hle, hrest⟩ := ih next hnext
      rw [hmore, List.append_assoc, List.singleton_append] at heq
      refine ⟨request c contentHash n true :: rest, heq, hle, fun r hr => ?_⟩
      rcases List.mem_cons.mp hr with rfl | hr
      · exact ⟨n, List.mem_cons_self, rfl⟩
      · exact (hrest r hr).imp fun n hn => ⟨List.mem_cons_of_mem _ hn.1, hn.2⟩

theorem plan_planned (h : plan c contentHash nodes edges gapId actionId = .ok p) :
    Planned c nodes p
      ∧ p.slot = (adjacentSlot edges gapId).map fun e => (edgeFact e, c.edgeDigest e) := by
  rw [plan] at h
  split at h
  · cases h
  next gap hgap =>
  split at h
  · cases h
  next sourceId hsourceId =>
  split at h
  · cases h
  next source hsource =>
  simp only [Except.ok.injEq] at h
  generalize hcontext : (fun id => (Semantic.khopSubgraph nodes edges gapId 2).nodes.any
    fun m => m.2.id == id) = inContext at h
  obtain ⟨rest, hrequests, hlength, hrest⟩ := foldl_planNode c contentHash inContext
    sourceId gapId nodes ([request c contentHash source false, request c contentHash gap false], 0)
    (by show 2 ≤ 64; omega)
  obtain rfl := h
  have hmem : ∀ r, r ∈ request c contentHash source false :: request c contentHash gap false :: rest →
      (∃ n ∈ nodes, r = request c contentHash n false) ∨ ∃ n ∈ nodes, r = request c contentHash n true := by
    intro r hr
    rcases List.mem_cons.mp hr with rfl | hr
    · exact .inl ⟨source, List.mem_of_find?_eq_some hsource, rfl⟩
    rcases List.mem_cons.mp hr with rfl | hr
    · exact .inl ⟨gap, List.mem_of_find?_eq_some hgap, rfl⟩
    · exact .inr (hrest r hr)
  have hcandidates : (rest.filter fun r => r.candidate.isNone) = [] := by
    refine List.filter_eq_nil_iff.mpr fun r hr => ?_
    obtain ⟨n, -, rfl⟩ := hrest r hr
    exact Bool.false_ne_true
  refine ⟨⟨hlength, fun r hr => ?_, ?_, fun r hr x hx => ?_⟩, rfl⟩
  · rw [show _ = _ from hrequests] at hr
    rcases hmem r hr with ⟨n, hn, rfl⟩ | ⟨n, hn, rfl⟩ <;> exact ⟨n, hn, rfl, rfl⟩
  · rw [show _ = _ from hrequests]
    show (_ :: _ :: rest.filter fun r => r.candidate.isNone).length = 2
    rw [hcandidates]
    rfl
  · rw [show _ = _ from hrequests] at hr
    rcases hmem r hr with ⟨n, hn, rfl⟩ | ⟨n, hn, rfl⟩
    · cases hx
    · obtain rfl := Option.some_inj.mp hx
      exact ⟨rfl, rfl⟩

end

end TaskEvidence

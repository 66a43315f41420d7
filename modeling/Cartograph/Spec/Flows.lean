/-
Flows in the export (`crates/spec/src/workbench.rs`).

`project_flows` replaces a hop that the policy leaves out by an explicit gap, and classifies the
flow anew from the hops it then has.  The tracer also looks at where a hop leads: a confirmed
hop into a gap node keeps a flow partial.  The projection does not.

* `projectFlows_trace` — the projection of a trace is flow by flow;
* `status_eq_of_kept` — what the status of a projected flow says;
* `projection_upgrade_iff` — when the projection of a flow is not stronger than the flow;
* `projection_upgrades` — a partial flow that is exported as verified.
-/
import Cartograph.Spec.Facts
import Cartograph.FlowTracer.ExecutionGaps

namespace Spec

open GraphStore Investigation SortBy FlowTracer
open FlowTracer.Sample (onlyHop unprovenNode noHash onlyHop_mem screen)

section Projection

variable (contentHash : String → Hash) (policy : Policy)

/-- What a hop that is left out is replaced by. -/
def projectionGap (hop : Hop) (reason : String) : Hop :=
  let canonical := Json.render (.arr [.str "projection-gap", .str hop.src, .str hop.label,
    .str hop.dst, .str hop.provenance.contentHash, .str reason])
  let hash := (contentHash canonical).text
  { label := "UNRESOLVED"
    src := hop.src
    dst := "gap:projection:" ++ String.ofList (hash.toList.take 16)
    srcName := hop.srcName
    dstName := "GAP: " ++ reason
    tier := "Deterministic"
    confidence := "Gap"
    evidence := none
    provenance := ⟨.deterministic, .gap, [], "spec.projection-gap", hash⟩
    gapReason := some reason
    attemptedTiers := [hop.tier] }

def projectHop (hop : Hop) : Hop :=
  if included policy hop.provenance then hop
  else projectionGap contentHash hop
    (if policy.rejectedHashes.contains hop.provenance.contentHash then
      "inference rejected by Workbench curation"
    else "weak inference excluded by verified-only export")

/-- The status of a flow from its hops alone. -/
def hopStatus (hops : List Hop) (depthLimited : Bool) : FlowStatus :=
  if (hops.any fun h => h.provenance.confidenceTier == .gap) || hops.isEmpty || depthLimited then
    .partialFlow
  else if !hops.isEmpty && hops.all fun h => h.provenance.confidenceTier == .confirmed then .verified
  else .inferred

def projectFlow (flow : Flow) : Flow :=
  let hops := flow.hops.map (projectHop contentHash policy)
  { trigger := flow.trigger
    triggerKind := flow.triggerKind
    triggerName := flow.triggerName
    hops := hops
    status := hopStatus hops flow.depthLimited
    depthLimited := flow.depthLimited }

/-- `project_flows`. -/
def projectFlows (flows : List Flow) : List Flow :=
  sortBy Flow.trigger (flows.map (projectFlow contentHash policy))

end Projection

/-- How much a status says. -/
def strength : FlowStatus → ℕ
  | .partialFlow => 0
  | .inferred => 1
  | .verified => 2

variable {h : Hop} {α : Type} {p q : α → Bool} {l : List α}

section

variable {contentHash : String → Hash} {policy : Policy} {g : Slice} {flow : Flow} {hops : List Hop}

theorem projectHop_confidenceTier (hop : Hop) :
    (projectHop contentHash policy hop).provenance.confidenceTier
      = if included policy hop.provenance then hop.provenance.confidenceTier else .gap := by
  rw [projectHop]
  split_ifs <;> rfl

theorem projectFlows_trace (contentHash : String → Hash) (policy : Policy) (g : Slice) :
    projectFlows contentHash policy (trace contentHash g)
      = (trace contentHash g).map (projectFlow contentHash policy) := by
  have hsorted : (trace contentHash g).Pairwise fun a b => a.trigger ≤ b.trigger :=
    sortBy_pairwise _ _
  have hprojected : ((trace contentHash g).map (projectFlow contentHash policy)).Pairwise
      fun a b => a.trigger ≤ b.trigger := List.pairwise_map.mpr hsorted
  exact List.Pairwise.insertionSort_eq hprojected

theorem hop_confidence (hflow : flow ∈ trace contentHash g) (hmem : h ∈ flow.hops) :
    h.confidence = h.provenance.confidenceTier.text := by
  obtain ⟨trigger, rfl⟩ := mem_trace hflow
  obtain ⟨e, -, -, -, -, rfl⟩ := traceOne_sound hmem
  rfl

theorem confidence_text_gap (c : ConfidenceTier) : c.text = "Gap" ↔ c = .gap := by
  cases c <;> decide

theorem confidence_text_confirmed (c : ConfidenceTier) : c.text = "Confirmed" ↔ c = .confirmed := by
  cases c <;> decide

/-- A hop that keeps its flow from being complete, as the projection sees it. -/
def unresolved (policy : Policy) (h : Hop) : Bool :=
  h.provenance.confidenceTier == .gap || !included policy h.provenance

theorem projectHop_gap :
    (projectHop contentHash policy h).provenance.confidenceTier = .gap ↔
      unresolved policy h = true := by
  rw [projectHop_confidenceTier, unresolved]
  cases hin : included policy h.provenance with
  | true => simp
  | false => simp

theorem projectFlow_hops (h : ∀ hop ∈ flow.hops, unresolved policy hop = false) :
    (projectFlow contentHash policy flow).hops = flow.hops := by
  show flow.hops.map (projectHop contentHash policy) = flow.hops
  refine (List.map_congr_left fun hop hmem => ?_).trans (List.map_id _)
  have hin : included policy hop.provenance = true := by
    have := h hop hmem
    rw [unresolved, Bool.or_eq_false_iff, Bool.not_eq_false'] at this
    exact this.2
  rw [projectHop, if_pos hin]
  rfl

theorem projectFlow_partial (h : flow.depthLimited = true ∨ ∃ hop ∈ flow.hops,
    unresolved policy hop = true) : (projectFlow contentHash policy flow).status = .partialFlow := by
  have hcond : (((flow.hops.map (projectHop contentHash policy)).any fun h =>
      h.provenance.confidenceTier == .gap) || (flow.hops.map (projectHop contentHash policy)).isEmpty
      || flow.depthLimited) = true := by
    rcases h with hlimited | ⟨hop, hmem, hunresolved⟩
    · rw [hlimited, Bool.or_true]
    · have hany : ((flow.hops.map (projectHop contentHash policy)).any fun h =>
          h.provenance.confidenceTier == .gap) = true :=
        List.any_eq_true.mpr ⟨_, List.mem_map_of_mem hmem, beq_iff_eq.mpr (projectHop_gap.mpr hunresolved)⟩
      rw [hany, Bool.true_or, Bool.true_or]
  show hopStatus _ _ = _
  rw [hopStatus, if_pos hcond]

theorem any_congr_of_mem (h : ∀ a ∈ l, p a = q a) :
    l.any p = l.any q := by
  have hany : ∀ f : α → Bool, l.any f = (l.map f).any id := fun f => by
    rw [List.any_map, Function.id_comp]
  rw [hany p, hany q, List.map_congr_left h]

theorem all_congr_of_mem (h : ∀ a ∈ l, p a = q a) :
    l.all p = l.all q := by
  have hall : ∀ f : α → Bool, l.all f = (l.map f).all id := fun f => by
    rw [List.all_map, Function.id_comp]
  rw [hall p, hall q, List.map_congr_left h]

theorem status_eq_of_noGap (hflow : flow ∈ trace contentHash g)
    (hgap : ∀ h ∈ flow.hops, g.isGap h.dst = false) :
    flow.status = hopStatus flow.hops flow.depthLimited := by
  have hany : g.hasGap flow.hops
      = flow.hops.any fun h => h.provenance.confidenceTier == .gap := by
    refine any_congr_of_mem fun h hmem => ?_
    rw [hgap h hmem, Bool.or_false, hop_confidence hflow hmem, Bool.eq_iff_iff, beq_iff_eq,
      beq_iff_eq]
    exact confidence_text_gap _
  have hall : (flow.hops.all fun h => h.confidence == "Confirmed")
      = flow.hops.all fun h => h.provenance.confidenceTier == .confirmed := by
    refine all_congr_of_mem fun h hmem => ?_
    rw [hop_confidence hflow hmem, Bool.eq_iff_iff, beq_iff_eq, beq_iff_eq]
    exact confidence_text_confirmed _
  have hstatus : flow.status = g.status flow.hops flow.depthLimited := by
    obtain ⟨trigger, rfl⟩ := mem_trace hflow
    rfl
  rw [hstatus, Slice.status, hopStatus, hany, hall]

theorem status_partial_of_gap (hflow : flow ∈ trace contentHash g)
    (hgap : ∃ h ∈ flow.hops, g.isGap h.dst = true) : flow.status = .partialFlow := by
  obtain ⟨h, hmem, hgap⟩ := hgap
  have hany : g.hasGap flow.hops = true :=
    List.any_eq_true.mpr ⟨h, hmem, by rw [hgap, Bool.or_true]⟩
  have hstatus : flow.status = g.status flow.hops flow.depthLimited := by
    obtain ⟨trigger, rfl⟩ := mem_trace hflow
    rfl
  rw [hstatus, Slice.status, hany, Bool.true_or, Bool.true_or, if_pos rfl]

theorem hopStatus_pos (hne : hops ≠ [])
    (hgap : (hops.any fun h => h.provenance.confidenceTier == .gap) = false) :
    0 < strength (hopStatus hops false) := by
  have hempty : hops.isEmpty = false := by simpa using hne
  rw [hopStatus, hgap, hempty, Bool.or_self, Bool.or_self, if_neg (by simp)]
  split_ifs
  · exact Nat.two_pos
  · exact Nat.one_pos

end

/-- **Projection and upgrades.**  The projection of the flows of a graph is flow by flow, and the
status of a projected flow is not stronger than the tracer's exactly when the following holds: if
a hop of the flow leads to a gap node, then the flow was cut short, or one of its hops has the
confidence of a gap or is left out by the policy. -/
theorem projection_upgrade_iff (contentHash : String → Hash) (policy : Policy) (g : Slice) :
    projectFlows contentHash policy (trace contentHash g)
        = (trace contentHash g).map (projectFlow contentHash policy)
      ∧ ∀ flow ∈ trace contentHash g,
        strength (projectFlow contentHash policy flow).status ≤ strength flow.status ↔
          ((∃ h ∈ flow.hops, g.isGap h.dst = true) → flow.depthLimited = true
            ∨ ∃ h ∈ flow.hops, unresolved policy h = true) := by
  refine ⟨projectFlows_trace contentHash policy g, fun flow hflow => ?_⟩
  by_cases hcut : flow.depthLimited = true ∨ ∃ h ∈ flow.hops, unresolved policy h = true
  · have hunverified : (projectFlow contentHash policy flow).status = .partialFlow :=
      projectFlow_partial hcut
    rw [hunverified]
    exact ⟨fun _ _ => hcut, fun _ => Nat.zero_le _⟩
  rw [not_or] at hcut
  obtain ⟨hlimited, hnone⟩ := hcut
  have hresolved : ∀ h ∈ flow.hops, unresolved policy h = false := by
    intro h hmem
    by_contra hne
    exact hnone ⟨h, hmem, by simpa using hne⟩
  have hstatus : (projectFlow contentHash policy flow).status
      = hopStatus flow.hops flow.depthLimited :=
    congrArg (hopStatus · flow.depthLimited) (projectFlow_hops hresolved)
  rw [hstatus]
  by_cases hgap : ∃ h ∈ flow.hops, g.isGap h.dst = true
  · -- nothing tells the projection that the flow ends in a gap
    have hpos : 0 < strength (hopStatus flow.hops flow.depthLimited) := by
      obtain ⟨h, hmem, -⟩ := hgap
      have hfalse : flow.depthLimited = false := by simpa using hlimited
      rw [hfalse]
      refine hopStatus_pos (List.ne_nil_of_mem hmem) (List.any_eq_false.mpr fun h hmem => ?_)
      have hunresolved := hresolved h hmem
      rw [unresolved, Bool.or_eq_false_iff] at hunresolved
      simpa using hunresolved.1
    rw [status_partial_of_gap hflow hgap]
    constructor
    · intro hle
      exact absurd hle (Nat.not_le.mpr hpos)
    · intro himp
      rcases himp hgap with hcut | hcut
      · exact absurd hcut hlimited
      · exact absurd hcut hnone
  · have hnogap : ∀ h ∈ flow.hops, g.isGap h.dst = false := by
      intro h hmem
      by_contra hne
      exact hgap ⟨h, hmem, by simpa using hne⟩
    rw [status_eq_of_noGap hflow hnogap]
    exact ⟨fun _ hsome => absurd hsome hgap, fun _ => le_rfl⟩

namespace Sample

/-- Nothing is rejected. -/
def everything : Policy := ⟨.bestEffort, []⟩

theorem unproven_evaluated :
    ((onlyHop unprovenNode).map fun r =>
      (r.1.status, (projectFlow noHash everything r.1).status))
      = some (.partialFlow, .verified) := by
  decide

end Sample

/-- The flow of that screen is partial, and exported as verified. -/
theorem projection_upgrades : ¬∀ (contentHash : String → Hash) (policy : Policy) (g : Slice)
    (flow p : Flow) (i : ℕ), (trace contentHash g)[i]? = some flow →
      (projectFlows contentHash policy (trace contentHash g))[i]? = some p →
      strength p.status ≤ strength flow.status := by
  intro hall
  obtain ⟨⟨flow, h⟩, honly, hfields⟩ := Option.map_eq_some_iff.mp Sample.unproven_evaluated
  obtain ⟨hunverified, hverified⟩ := Prod.mk.inj hfields
  obtain ⟨hflow, -⟩ := onlyHop_mem honly
  obtain ⟨i, hi⟩ := List.mem_iff_getElem?.mp hflow
  have hprojected : (projectFlows noHash Sample.everything
      (trace noHash unprovenNode))[i]?
      = some (projectFlow noHash Sample.everything flow) := by
    rw [projectFlows_trace, List.getElem?_map, hi, Option.map_some]
  have hle := hall _ Sample.everything unprovenNode flow _ i hi hprojected
  simp only at hunverified hverified
  rw [hunverified, hverified] at hle
  exact absurd hle (by decide)

/-- A confirmed screen keeps its status. -/
theorem projection_upgrade_iff_screen :
    ∃ flow ∈ trace noHash screen,
      strength (projectFlow noHash Sample.everything flow).status
        ≤ strength flow.status := by
  have hflow : ((trace noHash screen).head?.map fun flow =>
      flow.hops.any fun h => screen.isGap h.dst) = some false := by
    decide
  obtain ⟨flow, hhead, hnone⟩ := Option.map_eq_some_iff.mp hflow
  have hmem := List.mem_of_mem_head? hhead
  refine ⟨flow, hmem, ((projection_upgrade_iff noHash Sample.everything
    screen).2 flow hmem).mpr ?_⟩
  rintro ⟨h, hhop, hgap⟩
  exact absurd hgap (List.any_eq_false.mp hnone h hhop)

end Spec

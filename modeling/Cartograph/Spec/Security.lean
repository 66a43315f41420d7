/-
Security findings in the export (`crates/spec/src/security.rs`).

An endpoint that is explicitly not authenticated and a grant with a wildcard are reported as
findings.  A finding has the confidence and the evidence of the one fact it rests on, and a fact
that is a gap, or that has no evidence, supports none.

* `RestsOn` — what a finding is made of;
* `security_findings_rest` — every finding rests on a fact, and is no gap.
-/
import Cartograph.Spec.Decisions
import Cartograph.Placeholder.Closure

namespace Spec

open GraphStore Investigation SortBy FlowTracer
open Placeholder (asBool)

/-! ### Facts that support a finding -/

/-- What a node says of its authentication, if it says anything. -/
def explicitAuthState (n : Node Json) : Option Bool :=
  ((asBool (index n.props "authenticated")).or
    (asBool (index (index n.props "auth") "authenticated"))).or <|
    (asStr (index n.props "auth")).bind fun state =>
      if ["none", "public", "unauthenticated"].contains state.toLower then some false
      else if ["required", "authenticated", "protected"].contains state.toLower then some true
      else none

/-- The texts of a value, in order. -/
def strings (value : Json) : List String :=
  distinct id (sortBy id
    (((asArray value).getD []).filterMap asStr ++ (asStr value).toList))

def endpointName (n : Node Json) : String :=
  match asStr (index n.props "method"), asStr (index n.props "path") with
  | some method, some path => method ++ " " ++ path
  | _, _ => n.id

def grantActions (grant : Edge Json) : List String := strings (index grant.props "actions")

/-- A grant that names no scope is of its destination. -/
def grantScopes (grant : Edge Json) : List String :=
  let scopes := strings (index grant.props "resource_scopes")
  if scopes.isEmpty then [grant.dst] else scopes

def hasWildcard (texts : List String) : Bool := texts.any fun text => text.toList.contains '*'

def overBroad (grant : Edge Json) : Bool :=
  grant.label == "GRANTS" && (hasWildcard (grantActions grant) || hasWildcard (grantScopes grant))

/-! ### Findings -/

def findingTier (support : Provenance) : Tier :=
  match support.confidenceTier with
  | .confirmed => support.tier
  | .inferredStrong | .inferredWeak | .gap => .semantic

def findingExtractor : Tier → String
  | .deterministic => "t0.security-projection"
  | .dynamic => "t1.security-projection"
  | .semantic | .agentic => "t2.security-projection"

section

variable (contentHash : String → Hash)

def findingProvenance (support : Provenance) (canonical : String) : Option Provenance :=
  if support.confidenceTier = .gap ∨ support.evidence.isEmpty = true then none
  else (Provenance.make contentHash (findingTier support) support.confidenceTier support.evidence
    (findingExtractor (findingTier support)) canonical).toOption

def findingNode (p : Provenance) (title category acId subjectId : String)
    (resourceScope actions : List String) : Node Json where
  id := "finding:security:" ++ String.ofList (p.contentHash.toList.take 16)
  label := "Finding"
  props := .obj [
    ("kind", .str "security"),
    ("category", .str category),
    ("severity", .str "high"),
    ("title", .str title),
    ("subject_id", .str subjectId),
    ("resource_scope", .arr (resourceScope.map Json.str)),
    ("actions", .arr (actions.map Json.str)),
    ("us_id", .str "US-0015"),
    ("ac_id", .str acId),
    ("prov", p.toJson)]

/-- The finding on an endpoint. -/
def endpointFinding (endpoint : Node Json) : Option (Node Json) :=
  if endpoint.label == "Endpoint" && explicitAuthState endpoint == some false then do
    let support ← typedProvenance endpoint.props
    let name := endpointName endpoint
    let p ← findingProvenance contentHash support
      (Json.render (.arr [.str "unauthenticated-endpoint", .str endpoint.id, .str name]))
    some (findingNode p ("Unauthenticated endpoint: " ++ name) "unauthenticated_endpoint" "AC-0041"
      endpoint.id [name] [])
  else none

/-- The finding on a grant. -/
def grantFinding (grant : Edge Json) : Option (Node Json) :=
  if overBroad grant then do
    let support ← typedProvenance grant.props
    let actions := grantActions grant
    let scopes := grantScopes grant
    let p ← findingProvenance contentHash support
      (Json.render (.arr [.str "over-broad-grant", .str grant.src, .str grant.dst,
        .arr (actions.map Json.str), .arr (scopes.map Json.str)]))
    some (findingNode p
      ("Over-broad IAM grant: " ++ grant.src ++ " → " ++ String.intercalate ", " scopes)
      "over_broad_grant" "AC-0042" (grant.src ++ " GRANTS " ++ grant.dst) scopes actions)
  else none

/-- `derive_security_findings`. -/
def deriveSecurityFindings (nodes : List (Node Json)) (edges : List (Edge Json)) :
    List (Node Json) :=
  distinct Node.id (sortBy Node.id
    (nodes.filterMap (endpointFinding contentHash) ++ edges.filterMap (grantFinding contentHash)))

end

/-! ### What a finding rests on -/

/-- A finding rests on the fact with these properties. -/
structure RestsOn (finding : Node Json) (support : Json) : Prop where
  label : finding.label = "Finding"
  confidence : confidence finding.props = confidence support
  known : Spec.confidence support ≠ .gap

section

variable {contentHash : String → Hash} {support p : Provenance} {canonical : String}

theorem findingProvenance_some (h : findingProvenance contentHash support canonical = some p) :
    support.confidenceTier ≠ .gap ∧ p.confidenceTier = support.confidenceTier
      ∧ p.evidence = support.evidence
      ∧ confidenceAboveCeiling p.tier p.confidenceTier = false := by
  rw [findingProvenance] at h
  split_ifs at h with hunusable
  rw [Provenance.make] at h
  split_ifs at h with hceiling
  · cases h
  · obtain rfl := Option.some_inj.mp h
    exact ⟨fun hgap => hunusable (.inl hgap), rfl, rfl, by simpa using hceiling⟩

theorem restsOn_findingNode {props : Json} (htyped : typedProvenance props = some support)
    (h : findingProvenance contentHash support canonical = some p)
    (title category acId subjectId : String) (resourceScope actions : List String) :
    RestsOn (findingNode p title category acId subjectId resourceScope actions) props := by
  obtain ⟨hknown, hconfidence, hevidence, hceiling⟩ := findingProvenance_some h
  have hwritten : confidence (findingNode p title category acId subjectId resourceScope actions).props
      = p.confidenceTier := by
    refine confidence_written ?_ ?_ hceiling
    · change index (.obj _) "prov" = p.toJson
      simp [index]
    rw [hevidence]
    exact fits_of_typed htyped
  have hsupport : confidence props = support.confidenceTier := confidence_of_typed htyped
  exact ⟨rfl, hwritten.trans (hconfidence.trans hsupport.symm), by rwa [hsupport]⟩

theorem endpointFinding_some {endpoint finding : Node Json}
    (h : endpointFinding contentHash endpoint = some finding) :
    explicitAuthState endpoint = some false ∧ RestsOn finding endpoint.props := by
  rw [endpointFinding] at h
  split_ifs at h with hcond
  simp only [Option.bind_eq_bind, Option.bind_eq_some_iff, Option.some_inj] at h
  obtain ⟨support, htyped, p, hp, rfl⟩ := h
  simp only [Bool.and_eq_true, beq_iff_eq] at hcond
  exact ⟨hcond.2, restsOn_findingNode htyped hp ..⟩

theorem grantFinding_some {grant : Edge Json} {finding : Node Json}
    (h : grantFinding contentHash grant = some finding) :
    overBroad grant = true ∧ RestsOn finding grant.props := by
  rw [grantFinding] at h
  split_ifs at h with hcond
  simp only [Option.bind_eq_bind, Option.bind_eq_some_iff, Option.some_inj] at h
  obtain ⟨support, htyped, p, hp, rfl⟩ := h
  exact ⟨hcond, restsOn_findingNode htyped hp ..⟩

/-- **Security findings.**  Every finding rests on an endpoint that says it is not authenticated, or
on a grant with a wildcard. -/
theorem security_findings_rest {nodes : List (Node Json)} {edges : List (Edge Json)}
    {finding : Node Json} (h : finding ∈ deriveSecurityFindings contentHash nodes edges) :
    (∃ endpoint ∈ nodes, explicitAuthState endpoint = some false ∧ RestsOn finding endpoint.props)
      ∨ ∃ grant ∈ edges, overBroad grant = true ∧ RestsOn finding grant.props := by
  have hmem := (sortBy_perm _ _).mem_iff.mp ((distinct_sublist _ _).subset h)
  rcases List.mem_append.mp hmem with hnode | hedge
  · obtain ⟨endpoint, hendpoint, hsome⟩ := List.mem_filterMap.mp hnode
    exact .inl ⟨endpoint, hendpoint, endpointFinding_some hsome⟩
  · obtain ⟨grant, hgrant, hsome⟩ := List.mem_filterMap.mp hedge
    exact .inr ⟨grant, hgrant, grantFinding_some hsome⟩

end

end Spec

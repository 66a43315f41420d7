/-
Facts in the official export (`crates/spec/src/workbench.rs`).

Every artifact is compiled from the facts that the export policy lets in.  A fact without
valid provenance counts as an explicit gap.  An inferred fact is left out when its content
hash was rejected, a weak one also by a verified-only export.

* `mem_filterNodes`, `mem_filterEdges` — what the export policy lets in;
* `gapNodeEdgeLabel` — the relation an escalation of a gap would propose.
-/
import Cartograph.FlowTracer.Trace

namespace Spec

open GraphStore Investigation SortBy FlowTracer

/-- What an export shows. -/
inductive ExportMode
  | verifiedOnly | bestEffort
  deriving DecidableEq

/-- The policy of one export: its mode, and the content hashes that were rejected. -/
structure Policy where
  mode : ExportMode
  rejectedHashes : List String

/-! ### Provenance -/

section Provenance

variable (contentHash : String → Hash)

/-- `fallback_provenance`. -/
def fallbackProvenance (identity : String) : Provenance where
  tier := .deterministic
  confidenceTier := .gap
  evidence := []
  extractorId := "spec.invalid-provenance"
  contentHash := (contentHash identity).text

/-- `typed_provenance`: provenance that is well formed and within the ceiling of its tier. -/
def typedProvenance (props : Json) : Option Provenance :=
  (Provenance.fromValue (index props "prov")).filter fun p =>
    !confidenceAboveCeiling p.tier p.confidenceTier

/-- The provenance of a fact. -/
def provenance (props : Json) (identity : String) : Provenance :=
  (typedProvenance props).getD (fallbackProvenance contentHash identity)

/-- The confidence of a fact does not depend on how it is identified. -/
def confidence (props : Json) : ConfidenceTier :=
  ((typedProvenance props).map Provenance.confidenceTier).getD .gap

def isInferred : ConfidenceTier → Bool
  | .inferredStrong | .inferredWeak => true
  | .confirmed | .gap => false

/-- Whether a fact with this provenance is in the export. -/
def included (policy : Policy) (p : Provenance) : Bool :=
  if isInferred p.confidenceTier && policy.rejectedHashes.contains p.contentHash then false
  else match p.confidenceTier with
    | .confirmed | .inferredStrong | .gap => true
    | .inferredWeak => policy.mode == .bestEffort

/-- `edge_identity`. -/
def edgeIdentity (e : Edge Json) : String := e.src ++ " " ++ e.label ++ " " ++ e.dst

/-- `filter_nodes`. -/
def filterNodes (policy : Policy) (nodes : List (Node Json)) : List (Node Json) :=
  sortBy Node.id (nodes.filter fun n => included policy (provenance contentHash n.props n.id))

/-- `filter_edges`. -/
def filterEdges (policy : Policy) (edges : List (Edge Json)) : List (Edge Json) :=
  sortBy Edge.key
    (edges.filter fun e => included policy (provenance contentHash e.props (edgeIdentity e)))

theorem mem_filterNodes {policy : Policy} {nodes : List (Node Json)} {n : Node Json} :
    n ∈ filterNodes contentHash policy nodes ↔
      n ∈ nodes ∧ included policy (provenance contentHash n.props n.id) = true := by
  rw [filterNodes, (sortBy_perm _ _).mem_iff, List.mem_filter]

theorem mem_filterEdges {policy : Policy} {edges : List (Edge Json)} {e : Edge Json} :
    e ∈ filterEdges contentHash policy edges ↔
      e ∈ edges ∧ included policy (provenance contentHash e.props (edgeIdentity e)) = true := by
  rw [filterEdges, (sortBy_perm _ _).mem_iff, List.mem_filter]

end Provenance

/-! ### Gaps and drift -/

/-- `is_gap_node`. -/
def isGapNode (n : Node Json) : Bool := n.label == "Gap" || confidence n.props == .gap

/-- `is_gap_edge`. -/
def isGapEdge (e : Edge Json) : Bool := confidence e.props == .gap

/-! ### Assertions -/

/-- One graph-backed assertion. -/
structure SpecAssertion where
  id : String
  subjectId : String
  subjectKind : String
  summary : String
  provenance : Provenance
  edgeLabel : Option String
  deriving DecidableEq

/-- `text_prop`: the first of the members that is a text. -/
def textProp (n : Node Json) (keys : List String) : Option String :=
  keys.findSome? fun key => asStr (index n.props key)

def nodeName (n : Node Json) : String :=
  let named := (textProp n
    ["title", "name", "identity", "logical_id", "route", "path", "reason"]).getD n.id
  if n.label = "Endpoint" then
    match asStr (index n.props "method"), asStr (index n.props "path") with
    | some method, some path => method ++ " " ++ path
    | _, _ => named
  else named

/-- The relation an escalation of a gap node would propose: that of the first edge into the node,
else of the first edge out of it, else what the node itself says. -/
def gapNodeEdgeLabel (n : Node Json) (edges : List (Edge Json)) : Option String :=
  (((edges.find? fun e => e.dst == n.id).or (edges.find? fun e => e.src == n.id)).map Edge.label).or
    (asStr (index n.props "edge_label"))

section Assertions

variable (contentHash : String → Hash)

def nodeAssertion (n : Node Json) (edgeLabel : Option String) : SpecAssertion where
  id := "node:" ++ n.id
  subjectId := n.id
  subjectKind := n.label
  summary := n.label ++ ": " ++ nodeName n
  provenance := provenance contentHash n.props ("node:" ++ n.id)
  edgeLabel := edgeLabel

/-- A gap edge is summed up by its reason, any other by its identity. -/
def edgeSummary (e : Edge Json) : String :=
  if confidence e.props = .gap then
    match asStr (index e.props "reason") with
    | some reason => e.label ++ ": " ++ reason
    | none => edgeIdentity e
  else edgeIdentity e

def edgeAssertion (e : Edge Json) : SpecAssertion where
  id := "edge:" ++ edgeIdentity e
  subjectId := edgeIdentity e
  subjectKind := e.label
  summary := edgeSummary e
  provenance := provenance contentHash e.props ("edge:" ++ edgeIdentity e)
  edgeLabel := some e.label

/-- The hop of a flow at a place. -/
def hopAssertion (flow : Flow) (hop : Hop) (place : ℕ) : SpecAssertion where
  id := "flow:" ++ flow.trigger ++ ":" ++ toString place ++ ":" ++ hop.label ++ ":" ++ hop.dst
  subjectId := hop.src ++ " " ++ hop.label ++ " " ++ hop.dst
  subjectKind := "FlowHop"
  summary := hop.label ++ ": " ++ hop.srcName ++ " → " ++ hop.dstName
  provenance := hop.provenance
  edgeLabel := none

theorem hopAssertion_id (flow : Flow) (hop : Hop) (place : ℕ) :
    (hopAssertion flow hop place).id
      = "flow:" ++ flow.trigger ++ ":" ++ toString place ++ ":" ++ hop.label ++ ":" ++ hop.dst := rfl

end Assertions

end Spec

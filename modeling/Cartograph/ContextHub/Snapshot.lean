/-
Context snapshots (`crates/context-hub/src/lib.rs`).

A snapshot owns the facts of a recovered graph in a fixed order, nodes by id and then
edges by source, label and destination, under an identity of their complete content.
The identity is a hash of the canonical text, taken before provenance is separated from
the properties of a fact.

A query selects facts by scope, kind and label, and returns a page of them.  The page
grows fact by fact while its own text fits the budget.
-/
import Cartograph.Lib.OrderedSet
import Cartograph.Lib.JsonText
import Cartograph.Lib.SortBy
import Cartograph.Properties
import Cartograph.Provenance

/-- A `serde_json` value: names within an object are distinct, and numbers are written as
such. -/
structure Json.Value where
  json : Json
  distinct : json.Distinct
  numeric : json.Numeric

namespace ContextHub

open Checked GraphStore Investigation SortBy

def MAX_FACTS : ℕ := 500
def MAX_RESPONSE_BYTES : ℕ := 1024 * 1024
def MAX_NEIGHBORHOOD_HOPS : ℕ := 3

/-! ### Facts -/

inductive FactKind
  | node | edge
  deriving DecidableEq

def FactKind.text : FactKind → String
  | .node => "node"
  | .edge => "edge"

inductive FactReference
  | node (id : String)
  | edge (source label destination : String)
  deriving DecidableEq

namespace FactReference

def kind : FactReference → FactKind
  | .node _ => .node
  | .edge _ _ _ => .edge

/-- The derived order: nodes before edges, then field by field. -/
def key : FactReference → Bool ×ₗ String ×ₗ String ×ₗ String
  | .node id => toLex (false, toLex (id, toLex ("", "")))
  | .edge source label destination => toLex (true, toLex (source, toLex (label, destination)))

def toJson : FactReference → Json
  | .node id => .obj [("kind", .str "node"), ("id", .str id)]
  | .edge source label destination =>
    .obj [("kind", .str "edge"), ("source", .str source), ("label", .str label),
      ("destination", .str destination)]

end FactReference

/-- Why a fact's primary provenance is not authoritative. -/
inductive ProvenanceProblem
  | missing | malformed | aboveCeiling
  deriving DecidableEq

def ProvenanceProblem.text : ProvenanceProblem → String
  | .missing => "missing"
  | .malformed => "malformed"
  | .aboveCeiling => "above_ceiling"

structure ContextFact where
  reference : FactReference
  label : String
  properties : Json
  provenance : Option Provenance
  provenanceProblem : Option ProvenanceProblem
  confidenceTier : ConfidenceTier

/-- `Map::remove` of an insertion-ordered map: the last member takes the free place. -/
def swapRemove (name : String) : List (String × Json) → Option (Json × List (String × Json))
  | [] => none
  | (k, v) :: rest =>
    if k = name then
      some (v, match rest.getLast? with
        | some last => last :: rest.dropLast
        | none => [])
    else (swapRemove name rest).map fun r => (r.1, (k, v) :: r.2)

/-- The primary provenance, and what remains of the properties. -/
def takeProvenance : Json → Option Json × Json
  | .obj members =>
    match swapRemove "prov" members with
    | some (prov, rest) => (some prov, .obj rest)
    | none => (none, .obj members)
  | other => (none, other)

def validated (raw : Option Json) : Except ProvenanceProblem Provenance :=
  match raw with
  | none => .error .missing
  | some value =>
    match Provenance.fromValue value with
    | none => .error .malformed
    | some provenance =>
      match provenance.validate with
      | .error _ => .error .aboveCeiling
      | .ok () => .ok provenance

namespace ContextFact

/-- `ContextFact::new`. -/
def make (reference : FactReference) (label : String) (properties : Json) : ContextFact :=
  let (raw, properties) := takeProvenance properties
  match validated raw with
  | .ok provenance =>
    ⟨reference, label, properties, some provenance, none, provenance.confidenceTier⟩
  | .error problem => ⟨reference, label, properties, none, some problem, .gap⟩

def toJson (f : ContextFact) : Json :=
  .obj [("reference", f.reference.toJson), ("label", .str f.label), ("properties", f.properties),
    ("provenance", .opt Provenance.toJson f.provenance),
    ("provenance_problem", .opt (fun p => .str p.text) f.provenanceProblem),
    ("confidence_tier", .str f.confidenceTier.text)]

end ContextFact

/-! ### Requests and responses -/

inductive QueryScope
  | all
  | neighborhood (anchor : String) (hops : ℕ)
  deriving DecidableEq

def QueryScope.toJson : QueryScope → Json
  | .all => .obj [("type", .str "all")]
  | .neighborhood anchor hops =>
    .obj [("type", .str "neighborhood"), ("anchor", .str anchor), ("hops", .nat hops)]

/-- A continuation, bound to a snapshot and a normalized selection. -/
structure QueryCursor where
  snapshotId : String
  selectionId : String
  offset : ℕ
  deriving DecidableEq

def QueryCursor.toJson (c : QueryCursor) : Json :=
  .obj [("snapshot_id", .str c.snapshotId), ("selection_id", .str c.selectionId),
    ("offset", .nat c.offset)]

structure QueryRequest where
  scope : QueryScope := .all
  kind : Option FactKind := none
  labels : List String := []
  maxFacts : ℕ := MAX_FACTS
  maxBytes : ℕ := MAX_RESPONSE_BYTES
  cursor : Option QueryCursor := none

structure QueryResponse where
  snapshotId : String
  totalSelected : ℕ
  facts : List ContextFact
  nextCursor : Option QueryCursor

def QueryResponse.toJson (r : QueryResponse) : Json :=
  .obj [("snapshot_id", .str r.snapshotId), ("view", .str "recovered_graph"),
    ("total_selected", .nat r.totalSelected), ("facts", .arr (r.facts.map ContextFact.toJson)),
    ("next_cursor", .opt QueryCursor.toJson r.nextCursor)]

/-- Failures.  Writing a value of these types as JSON is not one of them. -/
inductive ContextError
  | duplicateNode (id : String)
  | duplicateEdge (reference : FactReference)
  | invalidLimit (name : String) (requested maximum : ℕ)
  | unknownAnchor (anchor : String)
  | cursorSnapshotMismatch
  | cursorSelectionMismatch
  | invalidCursorOffset (offset totalSelected : ℕ)
  | responseBudgetExceeded (maxBytes requiredBytes : ℕ)
  deriving DecidableEq

def validateLimit (name : String) (requested maximum : ℕ) : Except ContextError Unit :=
  ensure (¬ (requested = 0 ∨ maximum < requested)) (.invalidLimit name requested maximum)

def QueryScope.validateLimits : QueryScope → Except ContextError Unit
  | .all => .ok ()
  | .neighborhood _ hops => validateLimit "hops" hops MAX_NEIGHBORHOOD_HOPS

def QueryRequest.validateLimits (r : QueryRequest) : Except ContextError Unit := do
  validateLimit "max_facts" r.maxFacts MAX_FACTS
  validateLimit "max_bytes" r.maxBytes MAX_RESPONSE_BYTES
  r.scope.validateLimits

/-- What a request selects; labels are a set, written in order. -/
structure Selection where
  scope : QueryScope
  kind : Option FactKind
  labels : OrderedSet String

def Selection.toJson (s : Selection) : Json :=
  .obj [("scope", s.scope.toJson), ("kind", .opt (fun k => .str k.text) s.kind),
    ("labels", .arr (s.labels.elements.map Json.str))]

def QueryRequest.selection (r : QueryRequest) : Selection := ⟨r.scope, r.kind, .ofList r.labels⟩

/-! ### Identities -/

/-- The text that is hashed. -/
def identityText (version : String) (content : Json) : String :=
  Json.render (.arr [.str version, canonicalize content])

/-- `content_identity`, over the hash of a text in hexadecimal. -/
def contentIdentity (hash : String → String) (version : String) (content : Json) : String :=
  version ++ ":" ++ hash (identityText version content)

def nodeJson (n : Node Json.Value) : Json :=
  .obj [("id", .str n.id), ("label", .str n.label), ("props", n.props.json)]

def edgeJson (e : Edge Json.Value) : Json :=
  .obj [("src", .str e.src), ("dst", .str e.dst), ("label", .str e.label), ("props", e.props.json)]

def graphJson (nodes : List (Node Json.Value)) (edges : List (Edge Json.Value)) : Json :=
  .arr [.arr (nodes.map nodeJson), .arr (edges.map edgeJson)]

def selectionId (hash : String → String) (s : Selection) : String :=
  contentIdentity hash "selection-v1" s.toJson

/-! ### Snapshots -/

structure ContextSnapshot where
  id : String
  facts : List ContextFact
  nodeIds : OrderedSet String
  neighbors : Table String (OrderedSet String)

/-- The order of edges: source, label, destination. -/
def edgeOrder (e : Edge Json.Value) : String ×ₗ String ×ₗ String :=
  toLex (e.src, toLex (e.label, e.dst))

def edgeReference (e : Edge Json.Value) : FactReference := .edge e.src e.label e.dst

def sortNodes (nodes : List (Node Json.Value)) : List (Node Json.Value) :=
  sortBy Node.id nodes

def sortEdges (edges : List (Edge Json.Value)) : List (Edge Json.Value) :=
  sortBy edgeOrder edges

def addNeighbor (neighbors : Table String (OrderedSet String)) (source destination : String) :
    Table String (OrderedSet String) :=
  neighbors.put source (((neighbors.find? source).getD .empty).insert destination)

/-- An edge between nodes of the graph connects them both ways. -/
def connect (nodeIds : OrderedSet String) (neighbors : Table String (OrderedSet String))
    (e : Edge Json.Value) : Table String (OrderedSet String) :=
  if nodeIds.contains e.src && nodeIds.contains e.dst then
    addNeighbor (addNeighbor neighbors e.src e.dst) e.dst e.src
  else neighbors

def nodeFact (n : Node Json.Value) : ContextFact := .make (.node n.id) n.label n.props.json

def edgeFact (e : Edge Json.Value) : ContextFact := .make (edgeReference e) e.label e.props.json

namespace ContextSnapshot

/-- `ContextSnapshot::new`. -/
def new (hash : String → String) (nodes : List (Node Json.Value))
    (edges : List (Edge Json.Value)) : Except ContextError ContextSnapshot :=
  match firstDuplicate Node.id (sortNodes nodes) with
  | some n => .error (.duplicateNode n.id)
  | none =>
    match firstDuplicate edgeOrder (sortEdges edges) with
    | some e => .error (.duplicateEdge (edgeReference e))
    | none =>
      let nodes := sortNodes nodes
      let edges := sortEdges edges
      let nodeIds := OrderedSet.ofList (nodes.map Node.id)
      .ok {
        id := contentIdentity hash "context-v1" (graphJson nodes edges)
        facts := nodes.map nodeFact ++ edges.map edgeFact
        nodeIds := nodeIds
        neighbors := edges.foldl (connect nodeIds) Table.empty }

/-! ### Queries -/

/-- One neighbour: whether it is new. -/
def meet (state : OrderedSet String × OrderedSet String) (neighbor : String) :
    OrderedSet String × OrderedSet String :=
  if state.1.contains neighbor then state
  else (state.1.insert neighbor, state.2.insert neighbor)

/-- One node of the frontier: its neighbours in order. -/
def visit (s : ContextSnapshot) (state : OrderedSet String × OrderedSet String) (node : String) :
    OrderedSet String × OrderedSet String :=
  match s.neighbors.find? node with
  | some neighbors => neighbors.elements.foldl meet state
  | none => state

/-- The loop over the hops; an empty frontier ends it. -/
def spread (s : ContextSnapshot) : ℕ → OrderedSet String → OrderedSet String → OrderedSet String
  | 0, visited, _ => visited
  | hops + 1, visited, frontier =>
    let state := frontier.elements.foldl s.visit (visited, .empty)
    if state.2.rows = [] then state.1 else s.spread hops state.1 state.2

def neighborhood (s : ContextSnapshot) (anchor : String) (hops : ℕ) : OrderedSet String :=
  s.spread hops (.ofList [anchor]) (.ofList [anchor])

/-- The nodes in scope, when they are restricted. -/
def scopeNodes (s : ContextSnapshot) : QueryScope → Except ContextError (Option (OrderedSet String))
  | .all => .ok none
  | .neighborhood anchor hops =>
    if s.nodeIds.contains anchor then .ok (some (s.neighborhood anchor hops))
    else .error (.unknownAnchor anchor)

def inScope (ids : OrderedSet String) : FactReference → Bool
  | .node id => ids.contains id
  | .edge source _ destination => ids.contains source && ids.contains destination

def selects (selection : Selection) (neighborhood : Option (OrderedSet String)) (f : ContextFact) :
    Bool :=
  selection.kind.all (fun kind => f.reference.kind == kind)
    && (selection.labels.rows.isEmpty || selection.labels.contains f.label)
    && neighborhood.all fun ids => inScope ids f.reference

def selected (s : ContextSnapshot) (selection : Selection)
    (neighborhood : Option (OrderedSet String)) : List ContextFact :=
  s.facts.filter (selects selection neighborhood)

/-- Where the page starts. -/
def startOffset (s : ContextSnapshot) (selectionId : String) (total : ℕ) :
    Option QueryCursor → Except ContextError ℕ
  | none => .ok 0
  | some cursor => do
    ensure (cursor.snapshotId = s.id) .cursorSnapshotMismatch
    ensure (cursor.selectionId = selectionId) .cursorSelectionMismatch
    ensure (cursor.offset ≤ total) (.invalidCursorOffset cursor.offset total)
    return cursor.offset

def cursorAt (s : ContextSnapshot) (selectionId : String) (total offset : ℕ) :
    Option QueryCursor :=
  if offset < total then some ⟨s.id, selectionId, offset⟩ else none

/-- The page from `offset` that holds `facts`. -/
def page (s : ContextSnapshot) (selectionId : String) (total offset : ℕ)
    (facts : List ContextFact) : QueryResponse :=
  ⟨s.id, total, facts, s.cursorAt selectionId total (offset + facts.length)⟩

/-- The loop: `facts` fit, and `rest` may follow. -/
def fill (s : ContextSnapshot) (selectionId : String) (total offset maxBytes : ℕ) :
    List ContextFact → List ContextFact → Except ContextError QueryResponse
  | facts, [] => do
    let response := s.page selectionId total offset facts
    let bytes := response.toJson.size
    ensure (bytes ≤ maxBytes) (.responseBudgetExceeded maxBytes bytes)
    return response
  | facts, fact :: rest =>
    let bytes := (s.page selectionId total offset (facts ++ [fact])).toJson.size
    if maxBytes < bytes then
      if facts = [] then .error (.responseBudgetExceeded maxBytes bytes)
      else .ok (s.page selectionId total offset facts)
    else fill s selectionId total offset maxBytes (facts ++ [fact]) rest

/-- `ContextSnapshot::query`. -/
def query (s : ContextSnapshot) (hash : String → String) (request : QueryRequest) :
    Except ContextError QueryResponse := do
  request.validateLimits
  let selection := request.selection
  let neighborhood ← s.scopeNodes selection.scope
  let id := selectionId hash selection
  let selected := s.selected selection neighborhood
  let offset ← s.startOffset id selected.length request.cursor
  s.fill id selected.length offset request.maxBytes [] ((selected.drop offset).take request.maxFacts)

end ContextSnapshot

end ContextHub

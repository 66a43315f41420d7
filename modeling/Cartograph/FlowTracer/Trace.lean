/-
The flow tracer (`crates/flowtracer/src/lib.rs`).

A flow starts at a trigger and walks the graph along flow edges: forward along six labels
and into execution gaps, backward along `SUBSCRIBES` and `DEFINED_IN`.  A gap node ends its
branch.  The walk is a depth-first one with a stack, a set of visited nodes and a depth
bound; each edge it takes becomes a hop, once.

`scan` is the loop of the source with the number of steps it may take; `trace_one` needs at
most one for the trigger and one for each edge (`scan_finished`).  The score of a flow, a
mean of floating-point weights, is left out.
-/
import Cartograph.Lib.SortBy
import Cartograph.Lib.Traversal
import Cartograph.Properties
import Cartograph.Provenance

namespace FlowTracer

open GraphStore Investigation SortBy

/-- Traversal bound. -/
def MAX_DEPTH : ℕ := 64

/-! ### Values -/

/-- `Value::index`: anything missing is `null`. -/
def index (j : Json) (name : String) : Json :=
  match j with
  | .obj members => ((members.find? fun m => m.1 == name).map Prod.snd).getD .null
  | _ => .null

def asStr : Json → Option String
  | .str s => some s
  | _ => none

def asArray : Json → Option (List Json)
  | .arr items => some items
  | _ => none

def isTrue : Json → Bool
  | .bool true => true
  | _ => false

/-! ### Graph slices -/

/-- The nodes and edges of a trace. -/
structure Slice where
  nodes : List (Node Json)
  edges : List (Edge Json)

/-- `by_id`: of several nodes with one id, the last. -/
def Slice.node (g : Slice) (id : String) : Option (Node Json) :=
  g.nodes.reverse.find? fun n => n.id == id

def Slice.isGap (g : Slice) (id : String) : Bool :=
  (g.node id).any fun n => n.label == "Gap"

def ruleScoped (props : Json) : Bool := isTrue (index props "rule_evidence_gap")

/-- A `DEPENDS_ON` into a gap that stands for code its owner runs. -/
def Slice.ownsExecutionGap (g : Slice) (e : Edge Json) : Bool :=
  let isGap := match g.node e.dst with
    | some n => n.label == "Gap"
    | none => e.dst.startsWith "gap:"
  isGap && !ruleScoped e.props && !(g.node e.dst).any fun n => ruleScoped n.props

def forwardLabels : List String := ["RENDERS", "FETCHES", "HANDLES", "ENTRY", "CALLS", "PUBLISHES"]

/-- Walked from source to destination. -/
def Slice.forward (g : Slice) (e : Edge Json) : Bool :=
  forwardLabels.contains e.label || (e.label == "DEPENDS_ON" && g.ownsExecutionGap e)

def Slice.outEdges (g : Slice) (id : String) : List (Edge Json) :=
  sortBy (fun e => toLex (e.label, e.dst)) (g.edges.filter fun e => g.forward e && e.src == id)

/-- The edges with this label into `id`, by source. -/
def Slice.inEdges (g : Slice) (label id : String) : List (Edge Json) :=
  sortBy Edge.src (g.edges.filter fun e => e.label == label && e.dst == id)

def Slice.chanConsumers (g : Slice) (id : String) : List (Edge Json) := g.inEdges "SUBSCRIBES" id

def Slice.fileSymbols (g : Slice) (id : String) : List (Edge Json) := g.inEdges "DEFINED_IN" id

/-! ### Names and provenance -/

/-- The part after the last `#`. -/
def lastSegment (id : String) : String :=
  String.ofList (id.toList.reverse.takeWhile (fun c => c != '#')).reverse

def contextDetail (p : Json) : Option String :=
  match (asArray (index p "entries")).bind fun entries => entries.head?.bind asStr with
  | some detail => some detail
  | none => (asStr (index p "title")).filter fun title => title != ""

def displayName (n : Node Json) : String :=
  let text := fun name => asStr (index n.props name)
  if n.label = "Screen" then ((text "route").map fun r => "Screen " ++ r).getD n.id
  else if n.label = "Endpoint" then
    match text "method", text "path" with
    | some m, some path => m ++ " " ++ path
    | _, _ => n.id
  else if n.label = "Symbol" ∨ n.label = "Component" then (text "name").getD (lastSegment n.id)
  else if n.label = "Channel" then
    match text "kind", text "identity" with
    | some k, some i => k ++ ":" ++ i
    | _, _ => n.id
  else if n.label = "ExtensionContext" then
    let kind := (text "kind").getD "context"
    match contextDetail n.props with
    | some detail => kind ++ " · " ++ detail
    | none => kind
  else if n.label = "Command" then ((text "name").map fun name => "Command " ++ name).getD n.id
  else if n.label = "Gap" then "GAP: " ++ (text "reason").getD "unresolved"
  else if n.label = "File" then (text "path").getD n.id
  else n.id

def Slice.nameOf (g : Slice) (id : String) : String := ((g.node id).map displayName).getD id

/-- The provenance of an edge, when it is well formed and within the ceiling of its tier. -/
def validProvenance (e : Edge Json) : Option Provenance :=
  (Provenance.fromValue (index e.props "prov")).filter fun p =>
    !confidenceAboveCeiling p.tier p.confidenceTier

/-- The provenance a hop shows; without a valid one it is a gap. -/
def edgeProv (contentHash : String → Hash) (e : Edge Json) : Provenance :=
  (validProvenance e).getD
    { tier := .deterministic
      confidenceTier := .gap
      evidence := []
      extractorId := "flowtracer.invalid-provenance"
      contentHash := (contentHash (Json.render (.arr [.str e.src, .str e.label, .str e.dst]))).text }

def evidenceText (e : EvidenceRef) : String :=
  e.path ++ " bytes " ++ toString e.byteStart ++ ".." ++ toString e.byteEnd

def gapContext (n : Option (Node Json)) : Option String × List String :=
  match n.filter fun n => n.label == "Gap" with
  | none => (none, [])
  | some n =>
    (asStr (index n.props "reason"),
      ((asArray (index n.props "attempted_tiers")).getD []).filterMap asStr)

/-! ### Hops -/

structure Hop where
  label : String
  src : String
  dst : String
  srcName : String
  dstName : String
  tier : String
  confidence : String
  evidence : Option String
  provenance : Provenance
  gapReason : Option String
  attemptedTiers : List String
  deriving DecidableEq

/-- What a hop is recorded under. -/
def Hop.key (h : Hop) : String × String × String := (h.label, h.src, h.dst)

/-- The hop along `e` from `src` to `dst`. -/
def Slice.hop (g : Slice) (contentHash : String → Hash) (e : Edge Json) (src dst : String) : Hop :=
  let provenance := edgeProv contentHash e
  let gap := gapContext (g.node dst)
  { label := e.label
    src := src
    dst := dst
    srcName := g.nameOf src
    dstName := g.nameOf dst
    tier := provenance.tier.text
    confidence := provenance.confidenceTier.text
    evidence := provenance.evidence.head?.map evidenceText
    provenance := provenance
    gapReason := gap.1
    attemptedTiers := gap.2 }

/-- The hops out of a node, in the order of the narrative. -/
def Slice.next (g : Slice) (contentHash : String → Hash) (id : String) : List Hop :=
  (g.outEdges id).map (fun e => g.hop contentHash e e.src e.dst)
    ++ (g.chanConsumers id ++ g.fileSymbols id).map (fun e => g.hop contentHash e e.dst e.src)

/-- `seen_hops`: a hop is recorded once. -/
def record (hops : List Hop) (h : Hop) : List Hop :=
  if hops.any fun h' => h'.key == h.key then hops else hops ++ [h]

/-! ### The walk -/

structure Walk where
  hops : List Hop := []
  visited : List String := []
  stack : List (String × ℕ) := []
  depthLimited : Bool := false

/-- One turn of the loop. -/
def Slice.turn (g : Slice) (contentHash : String → Hash) (w : Walk) : Walk :=
  match w.stack with
  | [] => w
  | (id, depth) :: rest =>
    if MAX_DEPTH ≤ depth then
      let goesOn := !(g.outEdges id).isEmpty || !(g.chanConsumers id).isEmpty
        || !(g.fileSymbols id).isEmpty
      { w with stack := rest, depthLimited := w.depthLimited || goesOn }
    else if id ∈ w.visited then { w with stack := rest }
    else if g.isGap id then { w with visited := id :: w.visited, stack := rest }
    else
      let next := g.next contentHash id
      { w with
        hops := next.foldl record w.hops
        visited := id :: w.visited
        stack := next.map (fun h => (h.dst, depth + 1)) ++ rest }

def Slice.scan (g : Slice) (contentHash : String → Hash) : ℕ → Walk → Walk
  | 0, w => w
  | n + 1, w => g.scan contentHash n (g.turn contentHash w)

/-! ### Flows -/

inductive FlowStatus
  | verified | partialFlow | inferred
  deriving DecidableEq

structure Flow where
  trigger : String
  triggerKind : String
  triggerName : String
  hops : List Hop
  status : FlowStatus
  depthLimited : Bool
  deriving DecidableEq

def Slice.hasGap (g : Slice) (hops : List Hop) : Bool :=
  hops.any fun h => h.confidence == "Gap" || g.isGap h.dst

def Slice.status (g : Slice) (hops : List Hop) (depthLimited : Bool) : FlowStatus :=
  if g.hasGap hops || hops.isEmpty || depthLimited then .partialFlow
  else if !hops.isEmpty && hops.all fun h => h.confidence == "Confirmed" then .verified
  else .inferred

/-- `trace_one`. -/
def Slice.traceOne (g : Slice) (contentHash : String → Hash) (trigger : Node Json) : Flow :=
  let w := g.scan contentHash (g.edges.length + 1) { stack := [(trigger.id, 0)] }
  { trigger := trigger.id
    triggerKind := trigger.label
    triggerName := displayName trigger
    hops := w.hops
    status := g.status w.hops w.depthLimited
    depthLimited := w.depthLimited }

/-- The user-action anchors, by id. -/
def Slice.anchors (g : Slice) : List (Node Json) :=
  sortBy Node.id (g.nodes.filter fun n =>
    n.label == "Screen" || n.label == "ExtensionContext" || n.label == "Command")

/-- Of neighbours with one id, the first. -/
def dedupIds : List (Node Json) → List (Node Json)
  | [] => []
  | n :: rest =>
    match dedupIds rest with
    | [] => [n]
    | m :: rest' => if n.id = m.id then n :: rest' else n :: m :: rest'

/-- The endpoints no anchor's flow reached, and the channels only others publish to. -/
def Slice.rest (g : Slice) (covered : List String) : List (Node Json) :=
  let endpoints := g.nodes.filter fun n => n.label == "Endpoint" && !covered.contains n.id
  let channels := g.nodes.filter fun n => n.label == "Channel"
    && !(g.edges.any fun e => e.label == "PUBLISHES" && e.dst == n.id)
    && !(g.chanConsumers n.id).isEmpty
  dedupIds (sortBy Node.id (endpoints ++ channels))

/-- `trace`. -/
def trace (contentHash : String → Hash) (g : Slice) : List Flow :=
  let flows := g.anchors.map (g.traceOne contentHash)
  let covered := (flows.flatMap fun f => f.hops.filter fun h => h.label == "FETCHES").map Hop.dst
  sortBy Flow.trigger (flows ++ (g.rest covered).map (g.traceOne contentHash))

end FlowTracer

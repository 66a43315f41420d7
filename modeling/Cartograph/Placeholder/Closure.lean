/-
Placeholders for the endpoints that no node declares (`crates/core-graph/src/placeholder.rs`).

`close_over_endpoints` goes through the edges once.  It asks the classifier about each endpoint
without a node, at each edge that names it, and holds one edge and one classification for each
such id; at the end it adds a placeholder for each id, in the order the ids were first named.
The classifier may keep a state of its own.

* `foldl_hold_proven`, `foldl_hold_agrees` — a proven classification is held exactly when all
  edges agree on it;
* `closed_ids`, `closed_complete` — what is added, and that nothing is left open;
* `endpoint_closure` — the whole;
* `cited_elsewhere` — evidence of a placeholder that is of no edge.
-/
import Cartograph.Lib.Grouped
import Cartograph.Provenance
import Cartograph.GraphStore

namespace Placeholder

open GraphStore Investigation Grouped

/-! ### Values -/

/-- `Value::get`. -/
def get (j : Json) (name : String) : Option Json :=
  match j with
  | .obj members => (members.find? fun m => m.1 == name).map Prod.snd
  | _ => none

def asStr : Json → Option String
  | .str s => some s
  | _ => none

def asBool : Json → Option Bool
  | .bool b => some b
  | _ => none

/-! ### Boundaries -/

/-- How an adapter classifies an endpoint that no parsed declaration defines. -/
inductive Boundary
  | external (reason : String) (evidence : List EvidenceRef)
  | internal (reason : String) (evidence : List EvidenceRef)
  | unresolved (reason : String)
  deriving DecidableEq

def Boundary.kind : Boundary → String
  | .external _ _ => "external"
  | .internal _ _ => "internal"
  | .unresolved _ => "unresolved"

def Boundary.reason : Boundary → String
  | .external reason _ | .internal reason _ | .unresolved reason => reason

/-- The evidence beyond that of the referencing edge. -/
def Boundary.evidence : Boundary → List EvidenceRef
  | .external _ evidence | .internal _ evidence => evidence
  | .unresolved _ => []

def Boundary.confidence : Boundary → ConfidenceTier
  | .external _ _ | .internal _ _ => .confirmed
  | .unresolved _ => .gap

def Boundary.proven : Boundary → Bool
  | .unresolved _ => false
  | _ => true

/-- The part of an id before its first colon. -/
def scheme (id : String) : String := String.ofList (id.toList.takeWhile fun c => c != ':')

def labelForId (id : String) : String :=
  match scheme id with
  | "file" => "File"
  | "sym" => "Symbol"
  | "mod" => "Module"
  | "ep" => "Endpoint"
  | "res" => "Resource"
  | "chan" => "Channel"
  | "gap" => "Gap"
  | "screen" => "Screen"
  | _ => "Unknown"

/-- The hash of a text, and `to_lowercase`. -/
structure Texts where
  contentHash : String → Hash
  lowercase : String → String

section Nodes

variable (t : Texts)

def unresolvedReason (e : Edge Json) : String :=
  match e.label with
  | "IMPORTS" => "unresolved import target"
  | "CALLS" => "unresolved call target"
  | "RENDERS" => "unresolved render target"
  | "HANDLES" => "unresolved handler target"
  | "DEFINED_IN" => "unresolved definition target"
  | "DEPENDS_ON" => "unresolved dependency target"
  | other => "unresolved "
      ++ String.ofList ((t.lowercase other).toList.map fun c => if c = '_' then ' ' else c)
      ++ " target"

/-! ### Placeholder nodes -/

def edgeProvenance (e : Edge Json) : Option Provenance :=
  (get e.props "prov").bind Provenance.fromValue

/-- The evidence an edge can be cited with. -/
def edgeEvidence (e : Edge Json) : List EvidenceRef :=
  ((edgeProvenance e).map Provenance.evidence).getD []

def mintedProvenance (id label : String) (boundary : Boundary) (evidence : List EvidenceRef)
    (extractorId : String) : Provenance where
  tier := .deterministic
  confidenceTier := boundary.confidence
  evidence := evidence ++ boundary.evidence
  extractorId := extractorId
  contentHash :=
    (t.contentHash (label ++ " " ++ id ++ " " ++ boundary.kind ++ ": " ++ boundary.reason)).text

def mint (id label : String) (boundary : Boundary) (evidence : List EvidenceRef)
    (extractorId : String) : Node Json where
  id := id
  label := label
  props := .obj ([("placeholder", .bool true), ("boundary", .str boundary.kind),
    ("reason", .str boundary.reason),
    ("prov", (mintedProvenance t id label boundary evidence extractorId).toJson)]
    ++ if boundary.confidence = .gap then [("attempted_tiers", .arr [.str "T0"])] else [])

/-- A proven boundary without evidence is an unresolved one. -/
def citable (e : Edge Json) (boundary : Boundary) : Boundary :=
  if boundary.proven = true ∧ edgeEvidence e = [] then .unresolved (unresolvedReason t e)
  else boundary

def placeholderNode (id label : String) (e : Edge Json) (boundary : Boundary)
    (fallbackExtractor : String) : Node Json :=
  mint t id label (citable t e boundary) (edgeEvidence e)
    (((edgeProvenance e).map Provenance.extractorId).getD fallbackExtractor)

/-! ### The closure -/

/-- One classified reference to an endpoint without a node. -/
structure Reference where
  id : String
  edge : Edge Json
  boundary : Boundary

/-- The endpoints without a node, at each edge that names them. -/
def endpoints (nodes : List (Node Json)) (edges : List (Edge Json)) : List (String × Edge Json) :=
  edges.flatMap fun e =>
    ([e.src, e.dst].filter fun id => !(nodes.map Node.id).contains id).map fun id => (id, e)

/-- The answers of the classifier, in the order it is asked. -/
def classified {σ : Type} (classify : σ → String → Edge Json → Option Boundary × σ) :
    σ → List (String × Edge Json) → List Reference
  | _, [] => []
  | s, (id, e) :: rest =>
    ⟨id, e, (classify s id e).1.getD (.unresolved (unresolvedReason t e))⟩
      :: classified classify (classify s id e).2 rest

/-- What is held for an id after one more reference to it. -/
def hold (held : Edge Json × Boundary) (r : Reference) : Edge Json × Boundary :=
  match held.2, r.boundary with
  | .unresolved _, _ => held
  | _, .unresolved _ => (r.edge, r.boundary)
  | _, _ =>
    if held.2.kind ≠ r.boundary.kind then
      (held.1, .unresolved "references disagree on the boundary")
    else held

/-- `order` and `pending`. -/
def pending (refs : List Reference) : List (String × Edge Json × Boundary) :=
  groups Reference.id (fun r => (r.edge, r.boundary)) hold refs

def closeOverEndpoints {σ : Type} (nodes : List (Node Json)) (edges : List (Edge Json))
    (fallbackExtractor : String) (labelOf : String → String)
    (classify : σ → String → Edge Json → Option Boundary × σ) (s : σ) : List (Node Json) :=
  nodes ++ (pending (classified t classify s (endpoints nodes edges))).map fun held =>
    placeholderNode t held.1 (labelOf held.1) held.2.1 held.2.2 fallbackExtractor

end Nodes

variable {t : Texts}

/-! ### What is held -/

variable {b : Boundary}

theorem proven_iff : b.proven = true ↔ b.kind = "external" ∨ b.kind = "internal" := by
  cases b <;> simp [Boundary.proven, Boundary.kind]

theorem hold_cases (held : Edge Json × Boundary) (r : Reference) :
    (held.2.proven = true ∧ r.boundary.kind = held.2.kind ∧ hold held r = held)
      ∨ (hold held r).2.proven = false := by
  obtain ⟨e, b⟩ := held
  obtain ⟨id, e', b'⟩ := r
  cases b <;> cases b' <;> simp [hold, Boundary.kind, Boundary.proven]

variable {held : Edge Json × Boundary}

theorem foldl_hold_proven {rest : List Reference} (h : (rest.foldl hold held).2.proven = true) :
    rest.foldl hold held = held ∧ ∀ r ∈ rest, r.boundary.kind = held.2.kind := by
  induction rest generalizing held with
  | nil => exact ⟨rfl, fun r hr => absurd hr List.not_mem_nil⟩
  | cons r rest ih =>
    obtain ⟨hsame, hkinds⟩ := ih h
    rw [List.foldl_cons] at h ⊢
    rw [hsame] at h ⊢
    rcases hold_cases held r with ⟨-, hkind, heq⟩ | hlost
    · rw [heq] at hkinds ⊢
      refine ⟨rfl, fun r' hr' => ?_⟩
      rcases List.mem_cons.mp hr' with rfl | hr'
      · exact hkind
      · exact hkinds r' hr'
    · rw [hlost] at h
      exact absurd h (by simp)

theorem foldl_hold_agrees {rest : List Reference} (hproven : held.2.proven = true)
    (h : ∀ r ∈ rest, r.boundary.kind = held.2.kind) :
    rest.foldl hold held = held := by
  induction rest with
  | nil => rfl
  | cons r rest ih =>
    have hkind : r.boundary.kind = held.2.kind := h r List.mem_cons_self
    have hhold : hold held r = held := by
      rcases hold_cases held r with ⟨-, -, heq⟩ | hlost
      · exact heq
      · obtain ⟨e, b⟩ := held
        obtain ⟨id, e', b'⟩ := r
        cases b <;> cases b' <;> simp_all [hold, Boundary.kind, Boundary.proven]
    rw [List.foldl_cons, hhold]
    exact ih fun r' hr' => h r' (List.mem_cons_of_mem _ hr')

theorem mem_pending {refs : List Reference} {id : String} {e : Edge Json} :
    (id, e, b) ∈ pending refs ↔ ∃ r rest, (refs.filter fun r => decide (r.id = id)) = r :: rest
      ∧ (e, b) = rest.foldl hold (r.edge, r.boundary) :=
  mem_groups

/-! ### What is added -/

section Closed

variable {σ : Type} {nodes : List (Node Json)} {edges : List (Edge Json)}
  {classify : σ → String → Edge Json → Option Boundary × σ} {s : σ}

theorem map_classified (l : List (String × Edge Json)) :
    (classified t classify s l).map (fun r => (r.id, r.edge)) = l := by
  induction l generalizing s with
  | nil => rfl
  | cons top rest ih => rw [classified, List.map_cons, ih]

theorem ids_classified (l : List (String × Edge Json)) :
    (classified t classify s l).map Reference.id = l.map Prod.fst := by
  have h := congrArg (List.map Prod.fst) (@map_classified t σ classify s l)
  rwa [List.map_map] at h

theorem endpoints_ids (nodes : List (Node Json)) (edges : List (Edge Json)) :
    (endpoints nodes edges).map Prod.fst
      = (edges.flatMap fun e => [e.src, e.dst]).filter fun id =>
          !(nodes.map Node.id).contains id := by
  rw [endpoints, List.map_flatMap, List.filter_flatMap]
  refine List.flatMap_congr fun e _ => ?_
  rw [List.map_map]
  exact List.map_id _

/-- The references to endpoints, as the classifier answered. -/
abbrev references (t : Texts) (classify : σ → String → Edge Json → Option Boundary × σ) (s : σ)
    (nodes : List (Node Json)) (edges : List (Edge Json)) : List Reference :=
  classified t classify s (endpoints nodes edges)

theorem pending_ids : (pending (references t classify s nodes edges)).map Prod.fst
    = ((edges.flatMap fun e => [e.src, e.dst]).filter fun id =>
        !(nodes.map Node.id).contains id).eraseDups := by
  rw [pending, keys_groups, ids_classified, endpoints_ids]

theorem mem_endpoints_iff {id : String} : id ∈ (edges.flatMap fun e => [e.src, e.dst]).filter
    (fun id => !(nodes.map Node.id).contains id)
      ↔ (∃ e ∈ edges, e.src = id ∨ e.dst = id) ∧ id ∉ nodes.map Node.id := by
  have hknown : (!(nodes.map Node.id).contains id) = true ↔ id ∉ nodes.map Node.id := by
    rw [Bool.not_eq_true', ← Bool.not_eq_true, List.contains_iff_mem]
  rw [List.mem_filter, hknown, List.mem_flatMap]
  refine and_congr_left fun _ => exists_congr fun e => and_congr_right fun _ => ?_
  rw [List.mem_cons, List.mem_singleton, eq_comm, eq_comm (a := id)]

theorem citable_proven {e : Edge Json} (h : (citable t e b).proven = true) :
    citable t e b = b ∧ b.proven = true ∧ edgeEvidence e ≠ [] := by
  unfold citable at h ⊢
  split_ifs at h ⊢ with hbare
  · exact absurd h (by simp [Boundary.proven])
  · exact ⟨rfl, h, fun hnone => hbare ⟨h, hnone⟩⟩

/-- **Endpoint closure.**  The nodes stay as they are, and a placeholder is added for each
endpoint without a node, in the order they are first named; then no endpoint is without a node.
A placeholder is a confirmed boundary only if all references to it are classified as that kind,
and it cites the evidence of the edge of one of them, with what the classification adds. -/
theorem endpoint_closure (t : Texts) (nodes : List (Node Json)) (edges : List (Edge Json))
    (fallbackExtractor : String) (labelOf : String → String)
    (classify : σ → String → Edge Json → Option Boundary × σ) (s : σ) :
    ∃ added, closeOverEndpoints t nodes edges fallbackExtractor labelOf classify s = nodes ++ added
      ∧ added.map Node.id = ((edges.flatMap fun e => [e.src, e.dst]).filter fun id =>
          !(nodes.map Node.id).contains id).eraseDups
      ∧ (∀ e ∈ edges, e.src ∈ (nodes ++ added).map Node.id ∧ e.dst ∈ (nodes ++ added).map Node.id)
      ∧ ∀ n ∈ added, get n.props "placeholder" = some (.bool true)
        ∧ ∃ (b : Boundary) (p : Provenance), get n.props "boundary" = some (.str b.kind)
          ∧ get n.props "prov" = some p.toJson ∧ p.confidenceTier = b.confidence
          ∧ (b.proven = true →
            (∀ r ∈ references t classify s nodes edges, r.id = n.id → r.boundary.kind = b.kind)
            ∧ ∃ r ∈ references t classify s nodes edges, r.id = n.id ∧ edgeEvidence r.edge ≠ []
              ∧ p.evidence = edgeEvidence r.edge ++ r.boundary.evidence) := by
  set added := (pending (references t classify s nodes edges)).map fun held =>
    placeholderNode t held.1 (labelOf held.1) held.2.1 held.2.2 fallbackExtractor with hadded
  have hids : added.map Node.id = ((edges.flatMap fun e => [e.src, e.dst]).filter fun id =>
      !(nodes.map Node.id).contains id).eraseDups := by
    rw [← @pending_ids t σ nodes edges classify s, hadded, List.map_map]
    rfl
  refine ⟨added, rfl, hids, fun e he => ?_, fun n hn => ⟨?_, ?_⟩⟩
  · have hclosed : ∀ id, (e.src = id ∨ e.dst = id) → id ∈ (nodes ++ added).map Node.id := by
      intro id hid
      rw [List.map_append, List.mem_append]
      -- an endpoint with a node, or one of the added
      by_cases hknown : id ∈ nodes.map Node.id
      · exact .inl hknown
      · rw [hids, List.mem_eraseDups, mem_endpoints_iff]
        exact .inr ⟨⟨e, he, hid⟩, hknown⟩
    exact ⟨hclosed e.src (.inl rfl), hclosed e.dst (.inr rfl)⟩
  · obtain ⟨held, -, rfl⟩ := List.mem_map.mp hn
    rfl
  · obtain ⟨⟨id, e, b⟩, hheld, rfl⟩ := List.mem_map.mp hn
    obtain ⟨r, rest, hfilter, hfold⟩ := mem_pending.mp hheld
    refine ⟨citable t e b, mintedProvenance t id (labelOf id) (citable t e b) (edgeEvidence e)
      (((edgeProvenance e).map Provenance.extractorId).getD fallbackExtractor), rfl, rfl, rfl, ?_⟩
    intro hproven
    obtain ⟨hsame, hb, hevidence⟩ := citable_proven hproven
    have hlast : (rest.foldl hold (r.edge, r.boundary)).2.proven = true := by rwa [← hfold]
    obtain ⟨hfirst, hkinds⟩ := foldl_hold_proven hlast
    -- the first reference is held to the end
    obtain ⟨rfl, rfl⟩ := Prod.mk.inj (hfold.trans hfirst)
    have hmem : ∀ r', r' ∈ references t classify s nodes edges ∧ r'.id = id ↔ r' ∈ r :: rest := by
      intro r'
      rw [← hfilter, List.mem_filter, decide_eq_true_eq]
    refine ⟨fun r' hr' hid => ?_, r, ((hmem r).mpr List.mem_cons_self).1,
      ((hmem r).mpr List.mem_cons_self).2, hevidence, ?_⟩
    · rw [hsame]
      rcases List.mem_cons.mp ((hmem r').mp ⟨hr', hid⟩) with rfl | hr'
      · rfl
      · exact hkinds r' hr'
    · show edgeEvidence r.edge ++ (citable t r.edge r.boundary).evidence = _
      rw [hsame]

end Closed

namespace Sample

theorem zeros_valid :
    hashValid "0000000000000000000000000000000000000000000000000000000000000000" = true := by decide

def texts : Texts :=
  ⟨fun _ => ⟨"0000000000000000000000000000000000000000000000000000000000000000", zeros_valid⟩, id⟩

def span : EvidenceRef := ⟨"r", "a.java", 3, 9, "c"⟩

/-- The file that decides how the import is classified. -/
def config : EvidenceRef := ⟨"r", "pom.xml", 0, 4, "c"⟩

def imports (evidence : List EvidenceRef) : Edge Json where
  src := "file:a.java"
  dst := "mod:x"
  label := "IMPORTS"
  props := .obj [("prov", Provenance.toJson ⟨.deterministic, .confirmed, evidence, "t0",
    "0000000000000000000000000000000000000000000000000000000000000000"⟩)]

/-- Modules are external, for a reason found in the configuration. -/
def configured (_ : Unit) (id : String) (_ : Edge Json) : Option Boundary × Unit :=
  (if id = "mod:x" then some (.external "not declared" [config]) else none, ())

end Sample

/-- The evidence of a confirmed placeholder need not be that of an edge: the classifier may add
to it. -/
theorem cited_elsewhere : ¬∀ (t : Texts) (nodes : List (Node Json)) (edges : List (Edge Json))
    (fallbackExtractor : String) (labelOf : String → String)
    (classify : Unit → String → Edge Json → Option Boundary × Unit) (added : List (Node Json)),
    closeOverEndpoints t nodes edges fallbackExtractor labelOf classify () = nodes ++ added →
    ∀ n ∈ added, ∀ p : Provenance, get n.props "prov" = some p.toJson →
      p.confidenceTier = .confirmed →
      ∃ e ∈ edges, (e.src = n.id ∨ e.dst = n.id) ∧ ∀ x ∈ p.evidence, x ∈ edgeEvidence e := by
  intro hall
  have hevidence : edgeEvidence (Sample.imports [Sample.span]) = [Sample.span] := by decide
  obtain ⟨e, he, -, hcited⟩ := hall Sample.texts [] [Sample.imports [Sample.span]] "t0" labelForId
    Sample.configured _ rfl _ (List.mem_cons_of_mem _ List.mem_cons_self) _ rfl (by decide)
  obtain rfl := List.mem_singleton.mp he
  have hconfig := hcited Sample.config (by decide)
  rw [hevidence] at hconfig
  exact absurd hconfig (by decide)

end Placeholder

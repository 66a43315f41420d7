/-
The gap register (`crates/spec/src/workbench.rs`).

The register lists every gap of the export: gap nodes, gap edges and the gaps on flows.  A gap
edge at a listed node, and a gap on a flow, support a finding instead of being one.  Up to a
limit the prose is one table.  Past it the findings are shown by cause.

* `laneFindings_perm` — a row is a finding or supports one;
* `register_index` — the index lists every row;
* `register_addsUp` — the counts of the prose.
-/
import Cartograph.Spec.Matrix

namespace Spec

open GraphStore Investigation SortBy FlowTracer

def GAP_REGISTER_FLAT_LIMIT : ℕ := 12
def GAP_REGISTER_MAX_CLASSES : ℕ := 50
def GAP_CLASS_REPRESENTATIVES : ℕ := 5
def GAP_CAUSE_MAX_CHARS : ℕ := 240

/-! ### Rows -/

section

variable (contentHash : String → Hash)

/-- The rows of the register. -/
def registerRows (nodes : List (Node Json)) (edges : List (Edge Json))
    (flowAssertions : List SpecAssertion) : List SpecAssertion :=
  distinct SpecAssertion.id (sortBy SpecAssertion.id
    (((nodes.filter isGapNode).map fun n => nodeAssertion contentHash n (gapNodeEdgeLabel n edges))
      ++ (edges.filter isGapEdge).map (edgeAssertion contentHash)
      ++ flowAssertions.filter fun a => a.provenance.confidenceTier == .gap))

end

/-! ### Findings -/

def isNodeRow (a : SpecAssertion) : Bool := "node:".toList.isPrefixOf a.id.toList

def isEdgeRow (a : SpecAssertion) : Bool := "edge:".toList.isPrefixOf a.id.toList

/-- Whether one of the ends of an edge is a listed node.  The ends are read off the words of the
subject. -/
def supportsListed (listed : List String) (a : SpecAssertion) : Bool :=
  let words := (a.subjectId.toList.splitOn ' ').map String.ofList
  listed.contains (words.getD 0 "") || listed.contains (words.getD 2 "")

def isFinding (rows : List SpecAssertion) (a : SpecAssertion) : Bool :=
  isNodeRow a || (isEdgeRow a
    && !supportsListed ((rows.filter isNodeRow).map SpecAssertion.subjectId) a)

/-- `lane_findings`: the findings, and the ids of the rows that support them. -/
def laneFindings (rows : List SpecAssertion) : List SpecAssertion × List String :=
  (rows.filter (isFinding rows),
    (rows.filter fun a => !isFinding rows a).map SpecAssertion.id)

theorem laneFindings_perm (rows : List SpecAssertion) :
    ((laneFindings rows).2 ++ (laneFindings rows).1.map SpecAssertion.id).Perm
      (rows.map SpecAssertion.id) := by
  rw [laneFindings, ← List.map_append]
  exact (List.perm_append_comm.trans (List.filter_append_perm (isFinding rows) rows)).map _

theorem laneFindings_length (rows : List SpecAssertion) :
    (laneFindings rows).1.length + (laneFindings rows).2.length = rows.length := by
  have h := (laneFindings_perm rows).length_eq
  simp only [List.length_append, List.length_map] at h
  omega

/-! ### Classes -/

/-- The rung of escalation after a tier. -/
def nextTier (p : Provenance) : String :=
  match p.tier with
  | .dynamic => "T2"
  | .semantic | .agentic => "T3"
  | .deterministic => "T1"

def gapCause (a : SpecAssertion) : String :=
  if a.subjectKind = "Gap" then
    match a.summary.toList.dropPrefix? "Gap: ".toList with
    | some cause => String.ofList cause
    | none => a.summary
  else "unresolved " ++ a.subjectKind ++ " edge"

/-- Cause and extractor of a gap. -/
def gapClass (a : SpecAssertion) : String ×ₗ String := toLex (gapCause a, a.provenance.extractorId)

/-- `gap_classes`. -/
def gapClasses (findings : List SpecAssertion) : List ((String ×ₗ String) × List SpecAssertion) :=
  largestGroups gapClass findings

/-- The rung of a class is that of its first member. -/
def classTier (members : List SpecAssertion) : String :=
  ((members.head?).map fun a => nextTier a.provenance).getD ""

def classId (place : ℕ) : String := "C-" ++ twoDigits (place + 1)

def shortCause (cause : String) : String :=
  if cause.toList.length ≤ GAP_CAUSE_MAX_CHARS then cause
  else String.ofList (cause.toList.take GAP_CAUSE_MAX_CHARS) ++ "…"

/-! ### The register -/

def registerRow (a : SpecAssertion) : String :=
  "| `" ++ markdownSafe a.subjectId ++ "` | " ++ markdownSafe a.summary ++ " |\n"

/-- The register as one table. -/
def flatRegister (rows : List SpecAssertion) : String :=
  "| Subject | Reason |\n|---|---|\n" ++ String.join (rows.map registerRow)
    ++ (if rows.isEmpty then "| — | No unresolved facts |\n" else "") ++ appendAssertions rows

/-- The excerpt that the prose details. -/
def registerExcerpt (rows : List SpecAssertion) : Excerpt (String ×ₗ String) SpecAssertion :=
  Excerpt.of GAP_REGISTER_MAX_CLASSES GAP_CLASS_REPRESENTATIVES (gapClasses (laneFindings rows).1)

def registerSection (part : Excerpt.Part (String ×ₗ String) SpecAssertion) (place : ℕ) : String :=
  "\n## " ++ classId place ++ " — " ++ markdownSafe (shortCause (ofLex part.key).1) ++ " ("
    ++ toString part.total ++ " instances)\n\n| Subject | Reason |\n|---|---|\n"
    ++ String.join (part.shown.map registerRow)
    ++ if 0 < part.more then
        "\n… " ++ toString part.more
          ++ " more instances in this class — listed in `gap_register.json` under `"
          ++ classId place ++ "`.\n"
      else ""

/-- The prose of a register. -/
def registerProse (x : Excerpt (String ×ₗ String) SpecAssertion)
    (openFindings rows findings classes supporting : ℕ) : String :=
  toString openFindings ++ " open findings · " ++ toString rows ++ " register rows: "
    ++ toString findings ++ " findings in " ++ toString classes
    ++ " cause classes (stop reason × extractor), largest first, plus " ++ toString supporting
    ++ " supporting rows that restate a listed gap. Each class lists up to "
    ++ toString GAP_CLASS_REPRESENTATIVES
    ++ " representative instances; `gap_register.json` lists every instance by class, and each "
    ++ "instance keeps its inline provenance in the bundle's assertions.\n\n"
    ++ "| Class | Cause | Extractor | Next tier | Instances |\n|---|---|---|---|---|\n"
    ++ String.join (x.parts.zipIdx.map fun p =>
      "| " ++ classId p.2 ++ " | " ++ markdownSafe (shortCause (ofLex p.1.key).1) ++ " | `"
        ++ markdownSafe (ofLex p.1.key).2 ++ "` | " ++ classTier p.1.shown ++ " | "
        ++ toString p.1.total ++ " |\n")
    ++ (if 0 < x.hiddenGroups then
        "| … | " ++ toString x.hiddenGroups
          ++ " more classes, not detailed here — listed in `gap_register.json` | — | — | "
          ++ toString x.hiddenItems ++ " |\n"
      else "")
    ++ String.join (x.parts.zipIdx.map fun p => registerSection p.1 p.2)
    ++ appendAssertions x.representatives
    ++ "\nInline provenance is shown for the " ++ toString x.representatives.length
    ++ " representative instances above; the other " ++ toString (rows - x.representatives.length)
    ++ " carry theirs in the bundle's structured assertions.\n"

def registerClassJson (c : (String ×ₗ String) × List SpecAssertion) (place : ℕ) : Json :=
  .obj [("id", .str (classId place)), ("cause", .str (ofLex c.1).1),
    ("extractor", .str (ofLex c.1).2), ("next_tier", .str (classTier c.2)),
    ("instances", .nat c.2.length),
    ("members", .arr ((c.2.map SpecAssertion.id).map Json.str))]

def registerIndex (rows : List SpecAssertion) (openFindings : ℕ) (mode : ExportMode) : Json :=
  .obj [("schema", .str "cartograph.gap-register-index/v1"), ("mode", .str mode.text),
    ("findings", .nat openFindings), ("instances", .nat rows.length),
    ("supporting", .arr ((laneFindings rows).2.map Json.str)),
    ("classes", .arr ((gapClasses (laneFindings rows).1).zipIdx.map fun c =>
      registerClassJson c.1 c.2))]

/-- `render_gap_register`: the prose of the rows. -/
def registerContent (rows : List SpecAssertion) (openFindings : ℕ) : String :=
  "# Gap register\n\n" ++
    if rows.length ≤ GAP_REGISTER_FLAT_LIMIT then flatRegister rows
    else registerProse (registerExcerpt rows) openFindings rows.length (laneFindings rows).1.length
      (gapClasses (laneFindings rows).1).length (laneFindings rows).2.length

/-- `gap_register`. -/
def gapRegister (contentHash : String → Hash) (nodes : List (Node Json)) (edges : List (Edge Json))
    (flowAssertions : List SpecAssertion) (openFindings : ℕ) (mode : ExportMode) : Artifact where
  content := registerContent (registerRows contentHash nodes edges flowAssertions) openFindings
  index := registerIndex (registerRows contentHash nodes edges flowAssertions) openFindings mode
  assertions := registerRows contentHash nodes edges flowAssertions

/-! ### What is accounted for -/

theorem register_index (rows : List SpecAssertion) (openFindings : ℕ) (mode : ExportMode) :
    (indexedIds "supporting" "classes" ["members"] (registerIndex rows openFindings mode)).Perm
      (rows.map SpecAssertion.id) := by
  have hlisted : indexedIds "supporting" "classes" ["members"]
      (registerIndex rows openFindings mode)
      = (laneFindings rows).2
        ++ (gapClasses (laneFindings rows).1).flatMap fun c => c.2.map SpecAssertion.id := by
    rw [indexedIds_eq registerClassJson fun c => c.2.map SpecAssertion.id]
    · have hown : FlowTracer.index (registerIndex rows openFindings mode) "supporting"
          = .arr ((laneFindings rows).2.map Json.str) := by
        simp [registerIndex, index_cons]
      rw [listed_eq hown]
    · simp [registerIndex, index_cons]
    · intro c place
      rw [List.flatMap_singleton]
      exact listed_eq (by simp [registerClassJson, index_cons])
  rw [hlisted, ← List.map_flatMap]
  exact (((largestGroups_perm gapClass (laneFindings rows).1).map _).append_left _).trans
    (laneFindings_perm rows)

/-- **The register.** -/
theorem register_addsUp (rows : List SpecAssertion) :
    AddsUp (registerExcerpt rows) (gapClasses (laneFindings rows).1).length
      (laneFindings rows).1.length := by
  have h := addsUp_of GAP_REGISTER_MAX_CLASSES GAP_CLASS_REPRESENTATIVES
    (gapClasses (laneFindings rows).1)
  rwa [gapClasses, length_largestGroups] at h

theorem register_representatives_le (rows : List SpecAssertion) :
    (registerExcerpt rows).representatives.length ≤ rows.length := by
  refine (Excerpt.representatives_le ..).trans ?_
  rw [gapClasses, length_largestGroups]
  exact List.length_filter_le _ _

end Spec

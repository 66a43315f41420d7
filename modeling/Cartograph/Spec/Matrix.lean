/-
The traceability matrix (`crates/spec/src/workbench.rs`).

Up to a limit the matrix is one table.  Past it the prose details the largest classes of links
with a few links each, and counts the rest; the index lists every link under its class.

* `largestGroups_perm` — grouping loses nothing;
* `indexedIds_eq` — what an index lists;
* `addsUp_of` — the counts of an excerpt;
* `matrix_index`, `matrix_addsUp` — for the matrix.
-/
import Cartograph.Lib.Excerpt
import Cartograph.Lib.Grouped
import Cartograph.Spec.Facts

namespace Spec

open GraphStore Investigation SortBy FlowTracer

/-! ### Groups -/

/-- `largest_groups`: the largest group first, ties in the order of keys. -/
def largestGroups {κ α : Type} [LinearOrder κ] (key : α → κ) (items : List α) :
    List (κ × List α) :=
  sortBy (fun g => toLex (OrderDual.toDual g.2.length, g.1))
    (Grouped.groups key (fun a => [a]) (fun members a => members ++ [a]) items)

variable {κ α : Type} {j : Json}

theorem largestGroups_perm [LinearOrder κ] (key : α → κ) (items : List α) :
    (Excerpt.items (largestGroups key items)).Perm items :=
  ((sortBy_perm _ _).flatMap_right _).trans (Grouped.members_perm items)

theorem length_largestGroups [LinearOrder κ] (key : α → κ) (items : List α) :
    (Excerpt.items (largestGroups key items)).length = items.length :=
  (largestGroups_perm key items).length_eq

/-! ### Markdown -/

/-- `markdown_safe`. -/
def markdownSafe (value : String) : String :=
  String.join (value.toList.map fun c =>
    if c = '|' then "\\|" else if c = '\r' ∨ c = '\n' then " " else String.singleton c)

def evidenceText (p : Provenance) : String :=
  if p.evidence.isEmpty then "—"
  else String.intercalate "; " (p.evidence.map fun e =>
    e.repo ++ ":" ++ e.path ++ " bytes " ++ toString e.byteStart ++ ".." ++ toString e.byteEnd
      ++ " @ " ++ e.commitSha)

/-- `append_assertions`. -/
def appendAssertions (assertions : List SpecAssertion) : String :=
  "\n## Assertions and inline provenance\n\n" ++
  if assertions.isEmpty then "No graph-backed assertions were recovered for this artifact.\n"
  else "| Assertion | Tier | Confidence | Evidence | Extractor | Content hash |\n|---|---|---|---|---|---|\n"
    ++ String.join (assertions.map fun a =>
      "| " ++ markdownSafe a.summary ++ " | " ++ a.provenance.tier.text ++ " | "
        ++ a.provenance.confidenceTier.text ++ " | " ++ markdownSafe (evidenceText a.provenance)
        ++ " | `" ++ markdownSafe a.provenance.extractorId ++ "` | `"
        ++ markdownSafe a.provenance.contentHash ++ "` |\n")

/-- A number of at least two digits. -/
def twoDigits (n : ℕ) : String := if n < 10 then "0" ++ toString n else toString n

def ExportMode.text : ExportMode → String
  | .verifiedOnly => "verified-only"
  | .bestEffort => "best-effort"

/-! ### Bounded artifacts -/

/-- An artifact with its index, and every assertion it makes. -/
structure Artifact where
  content : String
  index : Json
  assertions : List SpecAssertion

/-- The file of the index. -/
def Artifact.sidecar (a : Artifact) : String := a.index.render ++ "\n"

/-- The texts of an array under a name. -/
def listed (name : String) (j : Json) : List String :=
  ((asArray (index j name)).getD []).filterMap asStr

/-- The assertion ids of an index: those it lists itself, and those of its groups. -/
def indexedIds (own groups : String) (names : List String) (j : Json) : List String :=
  listed own j
    ++ ((asArray (index j groups)).getD []).flatMap fun g => names.flatMap fun name => listed name g

theorem index_cons (k name : String) (v : Json) (members : List (String × Json)) :
    FlowTracer.index (.obj ((k, v) :: members)) name
      = if k = name then v else FlowTracer.index (.obj members) name := by
  rw [FlowTracer.index, List.find?_cons]
  by_cases h : k = name
  · rw [if_pos h, beq_iff_eq.mpr h]
    rfl
  · rw [if_neg h, beq_eq_false_iff_ne.mpr h]
    rfl

theorem index_nil (name : String) : FlowTracer.index (.obj []) name = .null := rfl

theorem listed_eq {name : String} {ids : List String}
    (h : FlowTracer.index j name = .arr (ids.map Json.str)) : listed name j = ids := by
  rw [listed, h]
  show (ids.map Json.str).filterMap asStr = ids
  rw [List.filterMap_map]
  exact List.filterMap_some

theorem listed_none {name : String} (h : FlowTracer.index j name = .null) :
    listed name j = [] := by
  rw [listed, h]
  rfl

theorem flatMap_zipIdx {β : Type} (f : α → List β) (l : List α) (start : ℕ) :
    ((l.zipIdx start).flatMap fun p => f p.1) = l.flatMap f := by
  induction l generalizing start with
  | nil => rfl
  | cons a rest ih => rw [List.zipIdx_cons, List.flatMap_cons, List.flatMap_cons, ih]

theorem indexedIds_eq {γ : Type} {own groups : String} {names : List String} {gs : List γ}
    (toJson : γ → ℕ → Json) (ids : γ → List String)
    (hgroups : FlowTracer.index j groups = .arr (gs.zipIdx.map fun g => toJson g.1 g.2))
    (hids : ∀ g place, (names.flatMap fun name => listed name (toJson g place)) = ids g) :
    indexedIds own groups names j = listed own j ++ gs.flatMap ids := by
  rw [indexedIds, hgroups, ← flatMap_zipIdx ids gs 0]
  show listed own j ++ (gs.zipIdx.map fun g => toJson g.1 g.2).flatMap _ = _
  rw [List.flatMap_map]
  exact congrArg (listed own j ++ List.flatMap · gs.zipIdx) (funext fun g => hids g.1 g.2)

/-- What the counts of an excerpt say of so many items in so many groups. -/
structure AddsUp {κ α : Type} (x : Excerpt κ α) (groups items : ℕ) : Prop where
  groups : x.parts.length + x.hiddenGroups = groups
  totals : (x.parts.map Excerpt.Part.total).sum + x.hiddenItems = items
  parts : ∀ p ∈ x.parts, p.shown.length + p.more = p.total
  items : x.representatives.length + (x.parts.map Excerpt.Part.more).sum + x.hiddenItems = items

theorem addsUp_of (maxGroups maxShown : ℕ) (groups : List (κ × List α)) :
    AddsUp (Excerpt.of maxGroups maxShown groups) groups.length (Excerpt.items groups).length where
  groups := Excerpt.parts_add_hidden ..
  totals := Excerpt.totals_add_hidden ..
  parts p hp := (Excerpt.shown_add_more maxGroups maxShown groups p hp).1
  items := Excerpt.representatives_add ..

/-! ### The matrix -/

def US_TM_FLAT_LIMIT : ℕ := 200
def US_TM_MAX_CLASSES : ℕ := 50
def US_TM_CLASS_REPRESENTATIVES : ℕ := 5

def TRACE_LABELS : List String :=
  ["REALIZES", "STEP_OF", "GOVERNS", "MAPS_TO", "DECIDES", "TRIGGERED_BY", "PERFORMED_BY"]

section

variable (contentHash : String → Hash)

/-- A link with its assertion. -/
abbrev Link := Edge Json × SpecAssertion

/-- `relevant`. -/
def relevantLinks (edges : List (Edge Json)) : List Link :=
  (edges.filter fun e => TRACE_LABELS.contains e.label && !isGapEdge e).map fun e =>
    (e, edgeAssertion contentHash e)

/-- Relation and target of a link. -/
def linkClass (l : Link) : String ×ₗ String := toLex (l.1.label, l.1.dst)

def matrixClasses (edges : List (Edge Json)) : List ((String ×ₗ String) × List Link) :=
  largestGroups linkClass (relevantLinks contentHash edges)

def matrixClassId (place : ℕ) : String := "M-" ++ twoDigits (place + 1)

def matrixRow (e : Edge Json) : String :=
  "| `" ++ markdownSafe e.src ++ "` | " ++ e.label ++ " | `" ++ markdownSafe e.dst ++ "` |\n"

def matrixTable (links : List Link) : String :=
  "| Source | Relation | Target |\n|---|---|---|\n" ++ String.join (links.map fun l => matrixRow l.1)

/-- The matrix as one table. -/
def flatMatrix (links : List Link) : String :=
  matrixTable links ++ (if links.isEmpty then "| — | No recovered mappings | — |\n" else "")
    ++ appendAssertions (links.map Prod.snd)

/-- The excerpt that the prose details. -/
def matrixExcerpt (edges : List (Edge Json)) : Excerpt (String ×ₗ String) Link :=
  Excerpt.of US_TM_MAX_CLASSES US_TM_CLASS_REPRESENTATIVES (matrixClasses contentHash edges)

def matrixSection (part : Excerpt.Part (String ×ₗ String) Link) (place : ℕ) : String :=
  "\n## " ++ matrixClassId place ++ " — " ++ (ofLex part.key).1 ++ " `"
    ++ markdownSafe (ofLex part.key).2 ++ "` (" ++ toString part.total ++ " links)\n\n"
    ++ matrixTable part.shown
    ++ if 0 < part.more then
        "\n… " ++ toString part.more ++ " more links in this class — listed in `US-TM.json` under `"
          ++ matrixClassId place ++ "`.\n"
      else ""

/-- The prose of `total` links in `classes` classes. -/
def matrixProse (x : Excerpt (String ×ₗ String) Link) (classes total : ℕ) : String :=
  toString total ++ " recovered links in " ++ toString classes
    ++ " relation × target classes, largest first. Each class lists up to "
    ++ toString US_TM_CLASS_REPRESENTATIVES
    ++ " representative links; `US-TM.json` lists every link by class, and each link keeps its inline "
    ++ "provenance in the bundle's assertions.\n\n"
    ++ "| Class | Relation | Target | Links |\n|---|---|---|---|\n"
    ++ String.join (x.parts.zipIdx.map fun p =>
      "| " ++ matrixClassId p.2 ++ " | " ++ (ofLex p.1.key).1 ++ " | `"
        ++ markdownSafe (ofLex p.1.key).2 ++ "` | " ++ toString p.1.total ++ " |\n")
    ++ (if 0 < x.hiddenGroups then
        "| … | " ++ toString x.hiddenGroups
          ++ " more classes, not detailed here — listed in `US-TM.json` | — | "
          ++ toString x.hiddenItems ++ " |\n"
      else "")
    ++ String.join (x.parts.zipIdx.map fun p => matrixSection p.1 p.2)
    ++ appendAssertions (x.representatives.map Prod.snd)
    ++ "\nInline provenance is shown for the " ++ toString x.representatives.length
    ++ " representative links above; the other " ++ toString (total - x.representatives.length)
    ++ " carry theirs in the bundle's structured assertions.\n"

def matrixClassJson (c : (String ×ₗ String) × List Link) (place : ℕ) : Json :=
  .obj [("id", .str (matrixClassId place)), ("relation", .str (ofLex c.1).1),
    ("target", .str (ofLex c.1).2), ("links", .nat c.2.length),
    ("members", .arr ((c.2.map fun l => l.2.id).map Json.str))]

def matrixIndex (edges : List (Edge Json)) (mode : ExportMode) : Json :=
  .obj [("schema", .str "cartograph.us-tm-index/v1"), ("mode", .str mode.text),
    ("links", .nat (relevantLinks contentHash edges).length),
    ("classes", .arr ((matrixClasses contentHash edges).zipIdx.map fun c =>
      matrixClassJson c.1 c.2))]

/-- `traceability_matrix`. -/
def traceabilityMatrix (edges : List (Edge Json)) (mode : ExportMode) : Artifact where
  content := "# Recovered US traceability matrix\n\n" ++
    if (relevantLinks contentHash edges).length ≤ US_TM_FLAT_LIMIT then
      flatMatrix (relevantLinks contentHash edges)
    else
      matrixProse (matrixExcerpt contentHash edges) (matrixClasses contentHash edges).length
        (relevantLinks contentHash edges).length
  index := matrixIndex contentHash edges mode
  assertions := (relevantLinks contentHash edges).map Prod.snd

end

/-! ### What is accounted for -/

theorem matrix_index (contentHash : String → Hash) (edges : List (Edge Json)) (mode : ExportMode) :
    (indexedIds "" "classes" ["members"] (matrixIndex contentHash edges mode)).Perm
      ((relevantLinks contentHash edges).map fun l => l.2.id) := by
  have hclasses : indexedIds "" "classes" ["members"] (matrixIndex contentHash edges mode)
      = (matrixClasses contentHash edges).flatMap fun c => c.2.map fun l => l.2.id := by
    rw [indexedIds_eq matrixClassJson fun c => c.2.map fun l => l.2.id]
    · rw [listed_none (by simp [matrixIndex, index_cons, index_nil]), List.nil_append]
    · simp [matrixIndex, index_cons]
    · intro c place
      rw [List.flatMap_singleton]
      exact listed_eq (by simp [matrixClassJson, index_cons])
  rw [hclasses, ← List.map_flatMap]
  exact (largestGroups_perm linkClass (relevantLinks contentHash edges)).map _

/-- **The matrix.** -/
theorem matrix_addsUp (contentHash : String → Hash) (edges : List (Edge Json)) :
    AddsUp (matrixExcerpt contentHash edges) (matrixClasses contentHash edges).length
      (relevantLinks contentHash edges).length := by
  rw [← length_largestGroups linkClass (relevantLinks contentHash edges)]
  exact addsUp_of ..

end Spec

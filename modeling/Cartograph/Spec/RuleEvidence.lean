/-
The inventory of source rules (`crates/spec/src/rules.rs`).

Every rule of the export is one observation.  It asserts itself and, where its payload can be
read, its relationships; a relationship is asserted once across the inventory.  Up to a limit
every observation is shown in full.  Past it the observations are shown by the file of their
exit.  The text of one observation is a parameter.

* `rule_index` — the index lists every observation and every relationship;
* `rule_addsUp` — the counts of the prose.
-/
import Cartograph.Rules.Decode
import Cartograph.Spec.Matrix

namespace Spec

open GraphStore Investigation SortBy FlowTracer Rules

def RULE_EVIDENCE_FLAT_LIMIT : ℕ := 50
def RULE_EVIDENCE_MAX_FILES : ℕ := 50
def RULE_EVIDENCE_REPRESENTATIVES : ℕ := 3

/-- An observation with what it asserts: first itself, then relationships. -/
structure Observation where
  node : Node Json
  rule : Option GuardedExitEvidence
  own : SpecAssertion
  related : List SpecAssertion

namespace Observation

def assertions (o : Observation) : List SpecAssertion := o.own :: o.related

/-- The file of the exit; without a payload there is none. -/
def file (o : Observation) : WithBot (String ×ₗ String) :=
  o.rule.map fun rule => toLex (rule.exitSource.repo, rule.exitSource.path)

end Observation

/-- `relationships`: what a rule governs and what it depends on, of what the export shows. -/
def relationships (n : Node Json) (edges : List (Edge Json)) (visible : List String) :
    List (Edge Json) :=
  sortBy (fun e => toLex (e.label, e.dst))
    (edges.filter fun e => e.src == n.id && (e.label == "GOVERNS" || e.label == "DEPENDS_ON")
      && visible.contains e.dst)

section

variable (contentHash : String → Hash)

def relationshipAssertion (e : Edge Json) : SpecAssertion where
  id := "edge:" ++ edgeIdentity e
  subjectId := edgeIdentity e
  subjectKind := e.label
  summary := "Source-rule " ++ e.label ++ " relationship"
  provenance := provenance contentHash e.props (edgeIdentity e)
  edgeLabel := some e.label

def observationAssertion (n : Node Json) (rule : Option GuardedExitEvidence) : SpecAssertion where
  id := "node:" ++ n.id
  subjectId := n.id
  subjectKind := "BusinessRule"
  summary := if rule.isSome then
      "Guarded local exit observation; behavioral interpretation not established"
    else "Source-rule payload unavailable: malformed or unsupported schema"
  provenance := provenance contentHash n.props n.id
  edgeLabel := none

/-- The relationships that are not asserted yet, and what is asserted with them. -/
def assertNew (asserted : List String) : List (Edge Json) → List SpecAssertion × List String
  | [] => ([], asserted)
  | e :: rest =>
    if asserted.contains (edgeIdentity e) then assertNew asserted rest
    else
      let later := assertNew (edgeIdentity e :: asserted) rest
      (relationshipAssertion contentHash e :: later.1, later.2)

/-- `observations`. -/
def observations (edges : List (Edge Json)) (visible : List String) (asserted : List String) :
    List (Node Json) → List Observation
  | [] => []
  | n :: rest =>
    let rule := (fromValue (FlowTracer.index n.props "rule")).toOption
    let related := assertNew contentHash asserted
      (if rule.isSome then relationships n edges visible else [])
    ⟨n, rule, observationAssertion contentHash n rule, related.1⟩
      :: observations edges visible related.2 rest

/-- The observations of the inventory. -/
def ruleObservations (nodes : List (Node Json)) (edges : List (Edge Json)) : List Observation :=
  observations contentHash edges (nodes.map Node.id) []
    (sortBy Node.id (nodes.filter fun n => n.label == "BusinessRule"))

end

/-! ### The inventory -/

/-- The `text` of `rules.rs`: markup in it is escaped. -/
def escapedText (value : String) : String :=
  String.join (value.toList.map fun c =>
    if c = '&' then "&amp;" else if c = '<' then "&lt;" else if c = '>' then "&gt;"
    else if c = '\r' then "" else if c = '\n' then " ⏎ "
    else if "\\`*_[]|#!".toList.contains c then String.ofList ['\\', c]
    else String.singleton c)

def fileId (place : ℕ) : String := "R-" ++ twoDigits (place + 1)

def fileLabel (file : WithBot (String ×ₗ String)) : String :=
  match file with
  | some f => escapedText ((ofLex f).1 ++ ":" ++ (ofLex f).2)
  | none => "Source-rule payload unavailable"

/-- Headings are nested one level deeper. -/
def nestHeadings (rendered : String) : String :=
  String.ofList ((('\n' :: rendered.toList).zip rendered.toList).flatMap fun c =>
    if c.1 = '\n' ∧ c.2 = '#' then ['#', '#'] else [c.2])

def ruleFiles (os : List Observation) : List (WithBot (String ×ₗ String) × List Observation) :=
  largestGroups Observation.file os

/-- Everything the observations assert. -/
def allAssertions (os : List Observation) : List SpecAssertion :=
  os.flatMap Observation.assertions

section

variable (renderObservation : Observation → String)

/-- Every observation in full. -/
def flatInventory (os : List Observation) : String :=
  String.join (os.map renderObservation) ++ appendAssertions (allAssertions os)

/-- The excerpt that the prose details. -/
def ruleExcerpt (os : List Observation) : Excerpt (WithBot (String ×ₗ String)) Observation :=
  Excerpt.of RULE_EVIDENCE_MAX_FILES RULE_EVIDENCE_REPRESENTATIVES (ruleFiles os)

def fileSection (part : Excerpt.Part (WithBot (String ×ₗ String)) Observation) (place : ℕ) :
    String :=
  "\n## " ++ fileId place ++ " — " ++ fileLabel part.key ++ " (" ++ toString part.total
    ++ " observations)\n\n"
    ++ String.join (part.shown.map fun o => nestHeadings (renderObservation o))
    ++ if 0 < part.more then
        "… " ++ toString part.more
          ++ " more observations from this file — listed in `rule-evidence.json` under `"
          ++ fileId place ++ "`.\n"
      else ""

/-- The prose of `total` observations in `files` files, with `assertions` assertions. -/
def inventoryProse (x : Excerpt (WithBot (String ×ₗ String)) Observation)
    (files total assertions : ℕ) : String :=
  toString total ++ " observations from " ++ toString files
    ++ " source files, largest first. Each file lists up to "
    ++ toString RULE_EVIDENCE_REPRESENTATIVES
    ++ " representative observations in full; `rule-evidence.json` lists every observation and "
    ++ "relationship by file, and each keeps its inline provenance in the bundle's assertions.\n\n"
    ++ "| File | Source file | Observations |\n|---|---|---|\n"
    ++ String.join (x.parts.zipIdx.map fun p =>
      "| " ++ fileId p.2 ++ " | " ++ fileLabel p.1.key ++ " | " ++ toString p.1.total ++ " |\n")
    ++ (if 0 < x.hiddenGroups then
        "| … | " ++ toString x.hiddenGroups
          ++ " more files, not detailed here — listed in `rule-evidence.json` | "
          ++ toString x.hiddenItems ++ " |\n"
      else "")
    ++ String.join (x.parts.zipIdx.map fun p => fileSection renderObservation p.1 p.2)
    ++ appendAssertions (allAssertions x.representatives)
    ++ "\nInline provenance is shown for the "
    ++ toString (allAssertions x.representatives).length
    ++ " assertions of the representative observations above; the other "
    ++ toString (assertions - (allAssertions x.representatives).length)
    ++ " carry theirs in the bundle's structured assertions.\n"

end

/-- `RuleFileIndex`. -/
def ruleFileJson (f : WithBot (String ×ₗ String) × List Observation) (place : ℕ) : Json :=
  let part (name : String ×ₗ String → String) : Json :=
    match f.1 with
    | some file => .str (name file)
    | none => .null
  .obj [("id", .str (fileId place)), ("repo", part fun file => (ofLex file).1),
    ("path", part fun file => (ofLex file).2), ("observations", .nat f.2.length),
    ("members", .arr ((f.2.map fun o => o.own.id).map Json.str)),
    ("relationships", .arr ((f.2.flatMap fun o => o.related.map SpecAssertion.id).map Json.str))]

def ruleIndex (os : List Observation) (mode : ExportMode) : Json :=
  .obj [("schema", .str "cartograph.rule-evidence-index/v1"), ("mode", .str mode.text),
    ("observations", .nat os.length), ("assertions", .nat (allAssertions os).length),
    ("files", .arr ((ruleFiles os).zipIdx.map fun f => ruleFileJson f.1 f.2))]

def RULE_PREAMBLE : String :=
  "# Source rule evidence\n\nThese are guarded local exit observations from stored source "
    ++ "evidence. A complete execution predicate and the consumer effect are not established. "
    ++ "Source order is lexical, not runtime order. Coverage is limited to the facts in this "
    ++ "export.\n\n"

def inventoryContent (renderObservation : Observation → String) (os : List Observation) : String :=
  RULE_PREAMBLE
    ++ (if os.isEmpty then "No source-rule observations are available in this export.\n" else "")
    ++ if os.length ≤ RULE_EVIDENCE_FLAT_LIMIT then flatInventory renderObservation os
      else inventoryProse renderObservation (ruleExcerpt os) (ruleFiles os).length os.length
        (allAssertions os).length

/-- `inventory`. -/
def inventory (contentHash : String → Hash) (renderObservation : Observation → String)
    (nodes : List (Node Json)) (edges : List (Edge Json)) (mode : ExportMode) : Artifact where
  content := inventoryContent renderObservation (ruleObservations contentHash nodes edges)
  index := ruleIndex (ruleObservations contentHash nodes edges) mode
  assertions := allAssertions (ruleObservations contentHash nodes edges)

/-! ### What is accounted for -/

section

variable (os : List Observation)
include os

theorem file_ids_perm :
    (os.map (fun o => o.own.id) ++ os.flatMap fun o => o.related.map SpecAssertion.id).Perm
      ((allAssertions os).map SpecAssertion.id) := by
  rw [allAssertions, List.map_flatMap]
  induction os with
  | nil => exact .refl _
  | cons o rest ih =>
    simp only [List.map_cons, List.flatMap_cons, Observation.assertions, List.cons_append]
    refine List.Perm.cons _ ?_
    -- the relationships of the first move before the observations of the rest
    refine (List.perm_append_comm_assoc _ _ _).trans ?_
    exact ih.append_left _

theorem rule_index (mode : ExportMode) :
    (indexedIds "" "files" ["members", "relationships"] (ruleIndex os mode)).Perm
      ((allAssertions os).map SpecAssertion.id) := by
  have hlisted : indexedIds "" "files" ["members", "relationships"] (ruleIndex os mode)
      = (ruleFiles os).flatMap fun f =>
        f.2.map (fun o => o.own.id) ++ f.2.flatMap fun o => o.related.map SpecAssertion.id := by
    rw [indexedIds_eq ruleFileJson fun f =>
      f.2.map (fun o => o.own.id) ++ f.2.flatMap fun o => o.related.map SpecAssertion.id]
    · rw [listed_none (by simp [ruleIndex, index_cons, index_nil]), List.nil_append]
    · simp [ruleIndex, index_cons]
    · intro f place
      rw [List.flatMap_cons, List.flatMap_singleton]
      exact congrArg₂ (· ++ ·) (listed_eq (by simp [ruleFileJson, index_cons]))
        (listed_eq (by simp [ruleFileJson, index_cons]))
  have hfiles : ∀ files : List (WithBot (String ×ₗ String) × List Observation),
      (files.flatMap fun f => f.2.map (fun o => o.own.id)
        ++ f.2.flatMap fun o => o.related.map SpecAssertion.id).Perm
      ((allAssertions (Excerpt.items files)).map SpecAssertion.id) := by
    intro files
    induction files with
    | nil => exact .refl _
    | cons f rest ih =>
      rw [List.flatMap_cons, Excerpt.items, List.flatMap_cons, allAssertions, List.flatMap_append,
        List.map_append]
      exact (file_ids_perm f.2).append ih
  rw [hlisted]
  exact (hfiles _).trans (((largestGroups_perm Observation.file os).flatMap_right _).map _)

/-- **The inventory.** -/
theorem rule_addsUp :
    AddsUp (ruleExcerpt os) (ruleFiles os).length os.length := by
  have h := addsUp_of RULE_EVIDENCE_MAX_FILES RULE_EVIDENCE_REPRESENTATIVES (ruleFiles os)
  rwa [ruleFiles, length_largestGroups] at h

theorem rule_representatives_le :
    (allAssertions (ruleExcerpt os).representatives).length ≤ (allAssertions os).length := by
  have hshown : (ruleExcerpt os).representatives.Sublist (Excerpt.items (ruleFiles os)) :=
    Excerpt.representatives_sublist ..
  calc (allAssertions (ruleExcerpt os).representatives).length
      ≤ (allAssertions (Excerpt.items (ruleFiles os))).length :=
        (hshown.flatMap _).length_le
    _ = (allAssertions os).length :=
        ((largestGroups_perm Observation.file os).flatMap_right _).length_eq

end

end Spec

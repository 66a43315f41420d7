/-
The validation of source-rule evidence (`GuardedExitEvidence::validate`).

A rule of version 1 has its spans and identities checked.  In version 2 all collections are
bounded, every reference is in the source of the exit, the initializer of each local definition is
an arena that is read from its root (`arena`), and every use of a definition is justified by a
dependency (`links`).

The arena is read with the walk of `IndexTree`: a node is checked when it is visited, and the
state of the walk holds the dependencies that were used.
-/
import Cartograph.Lib.IndexTree
import Cartograph.Rules.Evidence

namespace Rules

open Investigation Checked IndexTree

def MAX_LOCAL_DEFINITIONS : ℕ := 16

def MAX_DEFINITION_NODES : ℕ := 64

def MAX_INITIALIZER_DEPENDENCIES : ℕ := 128

/-- The depth of an expression, its root counting as one. -/
def MAX_DEFINITION_EXPRESSION_DEPTH : ℕ := 8

/-- The length of a chain of definitions, the first counting as one. -/
def MAX_DEFINITION_CHAIN_DEPTH : ℕ := 4

def MAX_RULE_PAYLOAD_BYTES : ℕ := 64 * 1024

def MAX_TEXT_BYTES : ℕ := 8 * 1024

def MAX_ID_BYTES : ℕ := 4096

def MAX_USES : ℕ := 256

inductive RuleValidationError
  | malformedPayload
  | unsupportedVersion (version : ℕ)
  | invalidSourceSpan (field : String)
  | emptyIdentity (field : String)
  | missingWithholdingReason
  | inconsistentCapture
  | limit (field : String)
  | invalidDefinition (field : String)
  deriving DecidableEq

def invalid (field : String) : RuleValidationError := .invalidDefinition field

def limit (field : String) : RuleValidationError := .limit field

abbrev Validation := Except RuleValidationError

/-! ### Both versions -/

def identity (value field : String) : Validation Unit :=
  ensure (value.isEmpty = false) (.emptyIdentity field)

def span (source : EvidenceRef) (field : String) : Validation Unit :=
  ensure (source.byteStart < source.byteEnd) (.invalidSourceSpan field)

def withholding (capture : ExpressionCapture) : Option LiteralEvidence → Validation Unit
  | some (.withheld _ reasons) => do
    ensure (reasons.isEmpty = false) .missingWithholdingReason
    ensure (capture ≠ .completeSyntax) .inconsistentCapture
  | _ => pure ()

def expression (value : SourceExpression) : Validation Unit := do
  span value.source "expression.source"
  withholding value.capture value.literal

/-- The returned or thrown expression. -/
def LocalExit.value? : LocalExit → Option SourceExpression
  | .return value => value
  | .throw value => some value

def resolution : DependencyResolution → Validation Unit
  | .binding bindingId declaration => do
    identity bindingId "binding_id"
    span declaration "binding.declaration"
  | .target nodeId => identity nodeId "target.node_id"
  | .unresolved gapId => identity gapId "dependency.gap_id"

def conditionSpans (condition : BranchCondition) : Validation Unit := do
  span condition.branchSource "branch_source"
  expression condition.expression

def dependencySpans (dependency : RuleDependency) : Validation Unit := do
  span dependency.source "dependency.source"
  resolution dependency.resolution

/-! ### Version 2 -/

def collectionBounds (rule : GuardedExitEvidence) : Validation Unit := do
  let definitions ← orFail rule.localDefinitions (invalid "local_definitions")
  ensure (definitions.length ≤ MAX_LOCAL_DEFINITIONS ∧ rule.conditions.length ≤ 32
    ∧ rule.dependencies.length ≤ 128 ∧ rule.redactions.length ≤ 1024
    ∧ rule.interpretation.gapIds.length ≤ 128) (limit "rule_collections")
  ensure ((definitions.map fun d => d.expression.nodes.length).sum ≤ MAX_DEFINITION_NODES
    ∧ (definitions.map fun d => d.dependencies.length).sum ≤ MAX_INITIALIZER_DEPENDENCIES
    ∧ (definitions.map fun d => d.uses.length).sum ≤ MAX_USES) (limit "definition_collections")

/-- `char::is_control`. -/
def isControl (c : Char) : Bool := c.toNat < 0x20 || (0x7f ≤ c.toNat && c.toNat ≤ 0x9f)

def boundedId (value : String) : Validation Unit :=
  ensure (value.isEmpty = false ∧ value.utf8ByteSize ≤ MAX_ID_BYTES
    ∧ value.toList.any isControl = false) (invalid "identity")

def sameSource (a b : EvidenceRef) : Bool :=
  a.repo == b.repo && a.path == b.path && a.commitSha == b.commitSha

def contains (parent child : EvidenceRef) : Bool :=
  sameSource parent child && decide (parent.byteStart ≤ child.byteStart)
    && decide (child.byteEnd ≤ parent.byteEnd)

def checkedSource (reference primary : EvidenceRef) : Validation Unit := do
  span reference "definition.source"
  [reference.repo, reference.path, reference.commitSha].forM boundedId
  ensure (sameSource reference primary = true) (invalid "source_identity")

def literalBounds : Option LiteralEvidence → Validation Unit
  | some (.known (.string value)) =>
    ensure (value.utf8ByteSize ≤ MAX_TEXT_BYTES) (limit "literal_text")
  | some (.withheld _ reasons) => ensure (reasons.length ≤ 16) (limit "literal_reasons")
  | _ => pure ()

def checkedExpression (value : SourceExpression) (primary : EvidenceRef) : Validation Unit := do
  expression value
  checkedSource value.source primary
  ensure (value.syntaxKind.isEmpty = false ∧ value.syntaxKind.utf8ByteSize ≤ 64
    ∧ value.display.text.utf8ByteSize ≤ MAX_TEXT_BYTES) (limit "expression_text")
  literalBounds value.literal

def checkedResolution (value : DependencyResolution) (primary : EvidenceRef)
    (gaps : List String) : Validation Unit :=
  match value with
  | .binding bindingId declaration => do
    boundedId bindingId
    checkedSource declaration primary
  | .target nodeId => boundedId nodeId
  | .unresolved gapId => do
    boundedId gapId
    ensure (gaps.contains gapId = true) (invalid "gap_reference")

def checkCondition (primary : EvidenceRef) (condition : BranchCondition) : Validation Unit := do
  checkedSource condition.branchSource primary
  checkedExpression condition.expression primary
  ensure (contains condition.branchSource condition.expression.source = true)
    (invalid "condition_span")

def checkDependency (primary : EvidenceRef) (gaps : List String) (dependency : RuleDependency) :
    Validation Unit := do
  checkedSource dependency.source primary
  checkedResolution dependency.resolution primary gaps

/-! ### The arena of an initializer -/

/-- The parser's name for the syntax of a node. -/
def syntaxOk (kind : DefinitionExpressionKind) (syntaxKind : String) : Bool :=
  match kind with
  | .literal => ["true", "false", "null", "string", "number"].contains syntaxKind
  | .identifier _ => ["identifier", "shorthand_property_identifier", "this"].contains syntaxKind
  | .propertyName => ["property_identifier", "identifier"].contains syntaxKind
  | .member _ _ computed _ _ =>
    syntaxKind == if computed then "subscript_expression" else "member_expression"
  | .parenthesized _ => syntaxKind == "parenthesized_expression"
  | .unary _ _ => syntaxKind == "unary_expression"
  | .binary _ _ _ | .logical _ _ _ => syntaxKind == "binary_expression"
  | .unsupported _ => true

def literalCoherent (literal : Option LiteralEvidence) (syntaxKind : String) : Bool :=
  match literal with
  | some (.known (.boolean true)) => syntaxKind == "true"
  | some (.known (.boolean false)) => syntaxKind == "false"
  | some (.known (.string _)) => syntaxKind == "string"
  | some (.known (.number _)) => syntaxKind == "number"
  | some (.known .null) => syntaxKind == "null"
  | some (.withheld .boolean _) => ["true", "false"].contains syntaxKind
  | some (.withheld .string _) => syntaxKind == "string"
  | some (.withheld .number _) => syntaxKind == "number"
  | some (.withheld .null _) => syntaxKind == "null"
  | none => false

section Arena

variable (definition : LocalDefinition) (primary : EvidenceRef) (gaps : List String)

/-- One more dependency is used, at the node that it occurs at. -/
def takeDependency (node : DefinitionExpressionNode) (used : List ℕ) (index : ℕ) :
    Validation (DefinitionDependency × List ℕ) := do
  ensure (used.contains index = false) (invalid "reused_dependency")
  let dependency ← orFail definition.dependencies[index]? (invalid "dependency_index")
  ensure (dependency.source = node.expression.source) (invalid "dependency_occurrence")
  pure (dependency, index :: used)

/-- What is checked of a node beside its operands; the dependencies used so far. -/
def checkKind (node : DefinitionExpressionNode) (used : List ℕ) : Validation (List ℕ) :=
  match node.kind with
  | .literal => do
    ensure (literalCoherent node.expression.literal node.expression.syntaxKind = true)
      (invalid "literal_node")
    pure used
  | .identifier index => do
    let input ← takeDependency definition node used index
    ensure (node.expression.syntaxKind = "this" → input.1.resolution.isUnresolved = true)
      (invalid "runtime_input")
    pure input.2
  | .member _ property computed _ index => do
    let input ← takeDependency definition node used index
    ensure (input.1.resolution.isUnresolved = true) (invalid "member_value")
    let propertyNode ← orFail definition.expression.nodes[property]? (invalid "property_index")
    ensure (computed ≠ propertyNode.kind.isPropertyName) (invalid "property_kind")
    pure input.2
  | .unsupported gapId => do
    boundedId gapId
    ensure (gaps.contains gapId = true) (invalid "unsupported_gap")
    pure used
  | _ => pure used

/-- The operands lie in the node, one after the other. -/
def checkChildren (node : DefinitionExpressionNode) : Option ℕ → List ℕ → Validation Unit
  | _, [] => pure ()
  | previousEnd, index :: rest => do
    let child ← orFail definition.expression.nodes[index]? (invalid "arena_index")
    ensure (contains node.expression.source child.expression.source = true
      ∧ ∀ e ∈ previousEnd, e ≤ child.expression.source.byteStart) (invalid "child_span")
    checkChildren node (some child.expression.source.byteEnd) rest

/-- The visit of a node: its operands, and the dependencies used so far. -/
def visitNode (used : List ℕ) (index : ℕ) : Validation (List ℕ × List ℕ) := do
  let node ← orFail definition.expression.nodes[index]? (invalid "arena_index")
  checkedExpression node.expression primary
  ensure (syntaxOk node.kind node.expression.syntaxKind = true) (invalid "expression_kind")
  let used ← checkKind definition gaps node used
  checkChildren definition node none node.kind.children
  pure (node.kind.children, used)

/-- The loop of `arena`; it takes at most one step for each node, one for each mark and one for
each operand (`arena_drained`). -/
def readArena : Validation (Walk (List ℕ)) :=
  run MAX_DEFINITION_EXPRESSION_DEPTH (limit "expression_depth") (invalid "arena_cycle_or_reuse")
    (visitNode definition primary gaps) (3 * definition.expression.nodes.length + 1)
    (start definition.expression.root [])

def arena : Validation Unit := do
  ensure ((definition.expression.nodes[definition.expression.root]?).any fun node =>
    decide (node.expression = definition.initializer)) (invalid "initializer_root")
  let walk ← readArena definition primary gaps
  ensure (walk.visited.length = definition.expression.nodes.length)
    (invalid "unreachable_expression")
  ensure (walk.state.length = definition.dependencies.length) (invalid "unused_dependency")

end Arena

/-! ### Definitions and their uses -/

/-- The keys of two uses, compared as the source does. -/
def notAfter (key prior : ℕ × ℕ) : Bool :=
  decide (key.1 < prior.1) || (key.1 == prior.1 && decide (key.2 ≤ prior.2))

def checkUses (declaration primary : EvidenceRef) :
    Option (ℕ × ℕ) → List EvidenceRef → Validation Unit
  | _, [] => pure ()
  | previous, usage :: rest => do
    checkedSource usage primary
    ensure (previous.any (notAfter (usage.byteStart, usage.byteEnd)) = false
      ∧ declaration.byteEnd ≤ usage.byteStart) (invalid "definition_uses")
    checkUses declaration primary (some (usage.byteStart, usage.byteEnd)) rest

/-- A prerequisite of an initializer. -/
def checkInput (initializer : SourceExpression) (primary : EvidenceRef) (gaps : List String)
    (dependency : DefinitionDependency) : Validation Unit := do
  checkedSource dependency.source primary
  ensure (contains initializer.source dependency.source = true) (invalid "dependency_span")
  checkedResolution dependency.resolution primary gaps

/-- What is checked of a definition once it is known to be new. -/
def checkDefinition (definition : LocalDefinition) (primary : EvidenceRef)
    (gaps : List String) : Validation Unit := do
  checkedSource definition.declaration primary
  checkedExpression definition.initializer primary
  ensure (contains definition.declaration definition.initializer.source = true)
    (invalid "initializer_span")
  ensure (definition.uses.isEmpty = false) (invalid "definition_uses")
  checkUses definition.declaration primary none definition.uses
  definition.dependencies.forM (checkInput definition.initializer primary gaps)
  arena definition primary gaps

/-- The loop over the definitions, with the ids and the declarations so far. -/
def checkDefinitions (primary : EvidenceRef) (gaps : List String) :
    List String → List (ℕ × ℕ) → List LocalDefinition → Validation Unit
  | _, _, [] => pure ()
  | ids, declarations, definition :: rest => do
    boundedId definition.bindingId
    ensure (ids.contains definition.bindingId = false ∧ declarations.contains
      (definition.declaration.byteStart, definition.declaration.byteEnd) = false)
      (invalid "duplicate_definition")
    checkDefinition definition primary gaps
    checkDefinitions primary gaps (definition.bindingId :: ids)
      ((definition.declaration.byteStart, definition.declaration.byteEnd) :: declarations) rest

/-- What the dependencies say about the definitions: the spans each one is used at, and from
which definition or condition. -/
structure Links where
  uses : List (ℕ × ℕ × ℕ)
  edges : List (ℕ × ℕ)
  seeds : List ℕ

/-- `observe`: one dependency of a condition or of the definition at `parent`. -/
def observe (definitions : List LocalDefinition) (links : Links)
    (event : Option ℕ × EvidenceRef × DependencyResolution) : Validation Links :=
  match event with
  | (parent, source, .binding bindingId declaration) =>
    match definitions.zipIdx.find? fun d => d.1.bindingId == bindingId with
    | some (definition, index) => do
      ensure (declaration = definition.declaration) (invalid "binding_declaration")
      -- a use that was not admitted does not link anything
      if definition.uses.contains source then
        pure
          { uses := (index, source.byteStart, source.byteEnd) :: links.uses
            edges := (parent.map fun parent => (parent, index)).toList ++ links.edges
            seeds := if parent.isNone then index :: links.seeds else links.seeds }
      else pure links
    | none => pure links
  | _ => pure links

def events (rule : GuardedExitEvidence) (definitions : List LocalDefinition) :
    List (Option ℕ × EvidenceRef × DependencyResolution) :=
  ((rule.dependencies.filter fun d => decide (d.role = .condition)).map fun d =>
    (none, d.source, d.resolution))
  ++ definitions.zipIdx.flatMap fun d => d.1.dependencies.map fun dependency =>
    (some d.2, dependency.source, dependency.resolution)

/-- The definitions used from one, in order. -/
def usedFrom (links : Links) (count index : ℕ) : List ℕ :=
  (List.range count).filter fun child => links.edges.contains (index, child)

/-- The loop over the chains of definitions, as a recursion: each path is followed to its end,
the last definition first. -/
def chains (links : Links) (count : ℕ) : ℕ → List ℕ → ℕ → Validation (List ℕ)
  | room, path, index => do
    ensure (path.contains index = false) (invalid "definition_cycle")
    match room with
    | 0 => .error (limit "definition_chain")
    | room + 1 => do
      let below ← (usedFrom links count index).reverse.mapM (chains links count room (path ++ [index]))
      pure (index :: below.flatten)

def links (rule : GuardedExitEvidence) (definitions : List LocalDefinition) :
    Validation Unit := do
  let links ← (events rule definitions).foldlM (observe definitions) ⟨[], [], []⟩
  definitions.zipIdx.forM fun d =>
    ensure ((d.1.uses.all fun usage =>
        links.uses.contains (d.2, usage.byteStart, usage.byteEnd))
      ∧ links.uses.all fun u => u.1 != d.2 || d.1.uses.any fun usage =>
        (usage.byteStart, usage.byteEnd) == u.2) (invalid "unjustified_use")
  let seeds := (List.range definitions.length).filter links.seeds.contains
  let seen ← seeds.reverse.mapM (chains links definitions.length MAX_DEFINITION_CHAIN_DEPTH [])
  ensure (((List.range definitions.length).all seen.flatten.contains) = true)
    (invalid "unreachable_definition")

def collectGaps : List String → List String → Validation (List String)
  | gaps, [] => pure gaps
  | gaps, gap :: rest => do
    boundedId gap
    ensure (gaps.contains gap = false) (invalid "duplicate_gap")
    collectGaps (gap :: gaps) rest

def serializedBound (rule : GuardedExitEvidence) : Validation Unit :=
  ensure (rule.toJson.size ≤ MAX_RULE_PAYLOAD_BYTES) (limit "payload_bytes")

/-- `definitions::validate`. -/
def validateDefinitions (rule : GuardedExitEvidence) : Validation Unit := do
  collectionBounds rule
  boundedId rule.ownerId
  checkedSource rule.exitSource rule.exitSource
  let gaps ← collectGaps [] rule.interpretation.gapIds
  rule.conditions.forM (checkCondition rule.exitSource)
  rule.effect.value?.toList.forM fun value => checkedExpression value rule.exitSource
  rule.dependencies.forM (checkDependency rule.exitSource gaps)
  rule.redactions.forM fun redaction => checkedSource redaction.source rule.exitSource
  let definitions ← orFail rule.localDefinitions (invalid "local_definitions")
  checkDefinitions rule.exitSource gaps [] [] definitions
  links rule definitions
  serializedBound rule

def version (rule : GuardedExitEvidence) : Validation Unit :=
  match rule.schemaVersion with
  | 1 => ensure (rule.localDefinitions.isNone = true) .malformedPayload
  | 2 => collectionBounds rule
  | other => .error (.unsupportedVersion other)

def validate (rule : GuardedExitEvidence) : Validation Unit := do
  version rule
  identity rule.ownerId "owner_id"
  span rule.exitSource "exit_source"
  rule.conditions.forM conditionSpans
  rule.effect.value?.toList.forM expression
  rule.dependencies.forM dependencySpans
  rule.interpretation.gapIds.forM fun gapId => identity gapId "interpretation.gap_id"
  rule.redactions.forM fun redaction => span redaction.source "redaction.source"
  if rule.schemaVersion = 2 then validateDefinitions rule

/-! ### What a valid rule has passed -/

/-- What `validateDefinitions` asks for. -/
structure Passed (rule : GuardedExitEvidence) (definitions : List LocalDefinition)
    (gaps : List String) : Prop where
  stored : rule.localDefinitions = some definitions
  bounds : collectionBounds rule = .ok ()
  owner : boundedId rule.ownerId = .ok ()
  exit : checkedSource rule.exitSource rule.exitSource = .ok ()
  collected : collectGaps [] rule.interpretation.gapIds = .ok gaps
  conditions : ∀ condition ∈ rule.conditions, checkCondition rule.exitSource condition = .ok ()
  effect : ∀ value ∈ rule.effect.value?.toList, checkedExpression value rule.exitSource = .ok ()
  dependencies : ∀ dependency ∈ rule.dependencies,
    checkDependency rule.exitSource gaps dependency = .ok ()
  redactions : ∀ redaction ∈ rule.redactions,
    checkedSource redaction.source rule.exitSource = .ok ()
  checked : checkDefinitions rule.exitSource gaps [] [] definitions = .ok ()
  links : links rule definitions = .ok ()
  size : serializedBound rule = .ok ()

variable {rule : GuardedExitEvidence}

theorem validateDefinitions_ok :
    validateDefinitions rule = .ok () ↔ ∃ definitions gaps, Passed rule definitions gaps := by
  simp only [validateDefinitions, bind_eq_ok, orFail_eq_ok]
  constructor
  · rintro ⟨⟨⟩, hbounds, ⟨⟩, howner, ⟨⟩, hexit, gaps, hgaps, ⟨⟩, hconditions, ⟨⟩, heffect, ⟨⟩,
      hdependencies, ⟨⟩, hredactions, definitions, hstored, ⟨⟩, hdefinitions, ⟨⟩, hlinks, hsize⟩
    exact ⟨definitions, gaps, hstored, hbounds, howner, hexit, hgaps, forM_eq_ok.mp hconditions,
      forM_eq_ok.mp heffect, forM_eq_ok.mp hdependencies, forM_eq_ok.mp hredactions, hdefinitions,
      hlinks, hsize⟩
  · rintro ⟨definitions, gaps, h⟩
    exact ⟨(), h.bounds, (), h.owner, (), h.exit, gaps, h.collected, (),
      forM_eq_ok.mpr h.conditions, (), forM_eq_ok.mpr h.effect, (), forM_eq_ok.mpr h.dependencies,
      (), forM_eq_ok.mpr h.redactions, definitions, h.stored, (), h.checked, (), h.links,
      h.size⟩

/-- What `checkDefinition` asks for. -/
structure CheckedDefinition (definition : LocalDefinition) (primary : EvidenceRef)
    (gaps : List String) : Prop where
  declaration : checkedSource definition.declaration primary = .ok ()
  initializer : checkedExpression definition.initializer primary = .ok ()
  inside : contains definition.declaration definition.initializer.source = true
  used : definition.uses.isEmpty = false
  uses : checkUses definition.declaration primary none definition.uses = .ok ()
  inputs : ∀ input ∈ definition.dependencies,
    checkInput definition.initializer primary gaps input = .ok ()
  arena : arena definition primary gaps = .ok ()

variable {primary : EvidenceRef} {gaps : List String}

theorem checkDefinition_ok {definition : LocalDefinition} :
    checkDefinition definition primary gaps = .ok () ↔
      CheckedDefinition definition primary gaps := by
  simp only [checkDefinition, bind_eq_ok, ensure_eq_ok]
  constructor
  · rintro ⟨⟨⟩, hdeclaration, ⟨⟩, hinitializer, ⟨⟩, hinside, ⟨⟩, hused, ⟨⟩, huses, ⟨⟩, hinputs,
      harena⟩
    exact ⟨hdeclaration, hinitializer, hinside, hused, huses, forM_eq_ok.mp hinputs, harena⟩
  · intro h
    exact ⟨(), h.declaration, (), h.initializer, (), h.inside, (), h.used, (), h.uses, (),
      forM_eq_ok.mpr h.inputs, h.arena⟩

theorem checked_of_checkDefinitions :
    ∀ {l : List LocalDefinition} {ids : List String} {declarations : List (ℕ × ℕ)},
      checkDefinitions primary gaps ids declarations l = .ok () → ∀ d ∈ l,
      boundedId d.bindingId = .ok () ∧ CheckedDefinition d primary gaps
  | [], _, _, _, _, hd => absurd hd List.not_mem_nil
  | first :: rest, _, _, h, d, hd => by
    obtain ⟨⟨⟩, hid, h⟩ := bind_eq_ok.mp h
    obtain ⟨⟨⟩, -, h⟩ := bind_eq_ok.mp h
    obtain ⟨⟨⟩, hfirst, hrest⟩ := bind_eq_ok.mp h
    rcases List.mem_cons.mp hd with rfl | hd
    · exact ⟨hid, checkDefinition_ok.mp hfirst⟩
    · exact checked_of_checkDefinitions hrest d hd

theorem checked_of_checkUses {declaration primary : EvidenceRef} :
    ∀ {l : List EvidenceRef} {previous : Option (ℕ × ℕ)},
      checkUses declaration primary previous l = .ok () →
      ∀ usage ∈ l, checkedSource usage primary = .ok ()
  | [], _, _, _, husage => absurd husage List.not_mem_nil
  | first :: rest, _, h, usage, husage => by
    obtain ⟨⟨⟩, hsource, h⟩ := bind_eq_ok.mp h
    obtain ⟨⟨⟩, -, hrest⟩ := bind_eq_ok.mp h
    rcases List.mem_cons.mp husage with rfl | husage
    · exact hsource
    · exact checked_of_checkUses hrest usage husage

theorem bounded_of_collectGaps : ∀ {l gaps gaps' : List String},
    collectGaps gaps l = .ok gaps' → ∀ gap ∈ l, boundedId gap = .ok ()
  | [], _, _, _, _, hgap => absurd hgap List.not_mem_nil
  | first :: rest, _, _, h, gap, hgap => by
    obtain ⟨⟨⟩, hfirst, h⟩ := bind_eq_ok.mp h
    obtain ⟨⟨⟩, -, hrest⟩ := bind_eq_ok.mp h
    rcases List.mem_cons.mp hgap with rfl | hgap
    · exact hfirst
    · exact bounded_of_collectGaps hrest gap hgap

/-- What `validate` asks for in both versions. -/
structure Shaped (rule : GuardedExitEvidence) : Prop where
  version : version rule = .ok ()
  owner : identity rule.ownerId "owner_id" = .ok ()
  exit : span rule.exitSource "exit_source" = .ok ()
  conditions : ∀ condition ∈ rule.conditions, conditionSpans condition = .ok ()
  effect : ∀ value ∈ rule.effect.value?.toList, expression value = .ok ()
  dependencies : ∀ dependency ∈ rule.dependencies, dependencySpans dependency = .ok ()
  gaps : ∀ gapId ∈ rule.interpretation.gapIds, identity gapId "interpretation.gap_id" = .ok ()
  redactions : ∀ redaction ∈ rule.redactions, span redaction.source "redaction.source" = .ok ()

theorem version_ok : version rule = .ok () ↔
    (rule.schemaVersion = 1 ∧ rule.localDefinitions.isNone = true)
      ∨ (rule.schemaVersion = 2 ∧ collectionBounds rule = .ok ()) := by
  unfold version
  split
  case h_1 hv => simp [hv, ensure_eq_ok]
  case h_2 hv => simp [hv]
  case h_3 hone htwo =>
    refine iff_of_false (fun h => by cases h) ?_
    rintro (⟨hv, -⟩ | ⟨hv, -⟩)
    · exact hone hv
    · exact htwo hv

theorem validate_ok : validate rule = .ok () ↔
    Shaped rule ∧ (rule.schemaVersion = 2 → validateDefinitions rule = .ok ()) := by
  have hlast : (if rule.schemaVersion = 2 then validateDefinitions rule else pure ()) = .ok ()
      ↔ (rule.schemaVersion = 2 → validateDefinitions rule = .ok ()) := by
    by_cases hv : rule.schemaVersion = 2
    · rw [if_pos hv]
      exact ⟨fun h _ => h, fun h => h hv⟩
    · rw [if_neg hv]
      exact iff_of_true rfl fun h => absurd h hv
  simp only [validate, bind_eq_ok]
  constructor
  · rintro ⟨⟨⟩, hversion, ⟨⟩, howner, ⟨⟩, hexit, ⟨⟩, hconditions, ⟨⟩, heffect, ⟨⟩, hdependencies,
      ⟨⟩, hgaps, ⟨⟩, hredactions, h⟩
    exact ⟨⟨hversion, howner, hexit, forM_eq_ok.mp hconditions, forM_eq_ok.mp heffect,
      forM_eq_ok.mp hdependencies, forM_eq_ok.mp hgaps, forM_eq_ok.mp hredactions⟩, hlast.mp h⟩
  · rintro ⟨h, hdefinitions⟩
    exact ⟨(), h.version, (), h.owner, (), h.exit, (), forM_eq_ok.mpr h.conditions, (),
      forM_eq_ok.mpr h.effect, (), forM_eq_ok.mpr h.dependencies, (), forM_eq_ok.mpr h.gaps, (),
      forM_eq_ok.mpr h.redactions, hlast.mpr hdefinitions⟩

end Rules

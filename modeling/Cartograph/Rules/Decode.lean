/-
Reading a rule from its payload (`GuardedExitEvidence::from_value`).

A payload of version 2 is looked over before anything is allocated (`preflight`): its nesting, the
number of values, the lengths of texts and arrays and the shape of source references.  Then it is
read member by member, and the rule that was read is validated.

A reader takes a value as the derived code does: members are found by name, an unknown member is
refused, and a number must fit its type.  A variant is read by its name only.
-/
import Cartograph.Lib.JsonTree
import Cartograph.Rules.Validate

namespace Rules

open Investigation Checked Json

/-! ### Members -/

def text : Json → Option String
  | .str s => some s
  | _ => none

def boolean : Json → Option Bool
  | .bool b => some b
  | _ => none

/-- An unsigned integer below `bound`. -/
def natural (bound : ℕ) : Json → Option ℕ
  | .num digits =>
    if digits.toList ≠ [] ∧ digits.toList.all Char.isDigit = true
        ∧ Nat.ofDigitChars 10 digits.toList 0 < bound then
      some (Nat.ofDigitChars 10 digits.toList 0)
    else none
  | _ => none

def U32 : ℕ := 2 ^ 32

def U64 : ℕ := 2 ^ 64

def items {α : Type} (read : Json → Option α) : Json → Option (List α)
  | .arr items => items.mapM read
  | _ => none

/-- A member that may be missing or null. -/
def optional {α : Type} (read : Json → Option α) : Option Json → Option (Option α)
  | none | some .null => some none
  | some value => (read value).map some

/-- A unit variant, by its name. -/
def variant {α : Type} (all : List α) (name : α → String) (value : Json) : Option α := do
  let found ← text value
  all.find? fun a => name a == found

/-! ### Expressions -/

def readEvidence (value : Json) : Option EvidenceRef := do
  let repo ← (value.field "repo").bind text
  let path ← (value.field "path").bind text
  let byteStart ← (value.field "byte_start").bind (natural U64)
  let byteEnd ← (value.field "byte_end").bind (natural U64)
  let commitSha ← (value.field "commit_sha").bind text
  pure ⟨repo, path, byteStart, byteEnd, commitSha⟩

def readCapture : Json → Option ExpressionCapture :=
  variant [.completeSyntax, .redacted, .unsupported] ExpressionCapture.text

def readLiteralKind : Json → Option LiteralKind :=
  variant [.boolean, .string, .number, .null] LiteralKind.text

def readReason : Json → Option RedactionReason :=
  variant [.privateKey, .providerToken, .bearerToken, .awsAccessKey, .credentialValue,
    .tokenShaped, .unsupportedDecoding, .unsupportedSyntax, .removedComment] RedactionReason.text

def readKnown (value : Json) : Option KnownLiteral := do
  guard (value.closed ["kind", "value"] = true)
  let kind ← (value.field "kind").bind readLiteralKind
  match kind, value.field "value" with
  | .boolean, some (.bool b) => pure (.boolean b)
  | .string, some (.str s) => pure (.string s)
  | .number, some (.num digits) => pure (.number digits)
  | .null, none => pure .null
  | .null, some .null => pure .null
  | _, _ => none

def readLiteral (value : Json) : Option LiteralEvidence := do
  let status ← (value.field "status").bind text
  match status with
  | "known" => do
    guard (value.closed ["status", "value"] = true)
    let known ← (value.field "value").bind readKnown
    pure (.known known)
  | "withheld" => do
    guard (value.closed ["status", "kind", "reasons"] = true)
    let kind ← (value.field "kind").bind readLiteralKind
    let reasons ← (value.field "reasons").bind (items readReason)
    pure (.withheld kind reasons)
  | _ => none

def readExpression (value : Json) : Option SourceExpression := do
  guard (value.closed ["source", "syntax_kind", "display", "capture", "literal"] = true)
  let source ← (value.field "source").bind readEvidence
  let syntaxKind ← (value.field "syntax_kind").bind text
  let display ← (value.field "display").bind text
  let capture ← (value.field "capture").bind readCapture
  let literal ← optional readLiteral (value.field "literal")
  pure ⟨source, syntaxKind, ⟨display⟩, capture, literal⟩

/-! ### Conditions, effects and dependencies -/

def readPolarity : Json → Option BranchPolarity :=
  variant [.truthyBranch, .falsyBranch] BranchPolarity.text

def readCondition (value : Json) : Option BranchCondition := do
  guard (value.closed ["branch_source", "expression", "polarity"] = true)
  let branchSource ← (value.field "branch_source").bind readEvidence
  let expression ← (value.field "expression").bind readExpression
  let polarity ← (value.field "polarity").bind readPolarity
  pure ⟨branchSource, expression, polarity⟩

def readEffect (value : Json) : Option LocalExit := do
  guard (value.closed ["kind", "value"] = true)
  let kind ← (value.field "kind").bind text
  match kind with
  | "return" => do
    let result ← optional readExpression (value.field "value")
    pure (.return result)
  | "throw" => do
    let result ← (value.field "value").bind readExpression
    pure (.throw result)
  | _ => none

def readResolution (value : Json) : Option DependencyResolution := do
  let kind ← (value.field "kind").bind text
  match kind with
  | "binding" => do
    guard (value.closed ["kind", "binding_id", "declaration"] = true)
    let bindingId ← (value.field "binding_id").bind text
    let declaration ← (value.field "declaration").bind readEvidence
    pure (.binding bindingId declaration)
  | "target" => do
    guard (value.closed ["kind", "node_id"] = true)
    let nodeId ← (value.field "node_id").bind text
    pure (.target nodeId)
  | "unresolved" => do
    guard (value.closed ["kind", "gap_id"] = true)
    let gapId ← (value.field "gap_id").bind text
    pure (.unresolved gapId)
  | _ => none

def readRole : Json → Option DependencyRole :=
  variant [.condition, .exitValue, .controlFlow] DependencyRole.text

def readDependency (value : Json) : Option RuleDependency := do
  guard (value.closed ["role", "source", "resolution"] = true)
  let role ← (value.field "role").bind readRole
  let source ← (value.field "source").bind readEvidence
  let resolution ← (value.field "resolution").bind readResolution
  pure ⟨role, source, resolution⟩

/-! ### Local definitions -/

def readUnary : Json → Option UnaryOperator :=
  variant [.not, .plus, .minus, .bitwiseNot, .typeof, .void] UnaryOperator.text

def readBinary : Json → Option BinaryOperator :=
  variant [.looseEqual, .looseNotEqual, .strictEqual, .strictNotEqual, .lessThan,
    .lessThanOrEqual, .greaterThan, .greaterThanOrEqual, .add, .subtract, .multiply, .divide,
    .remainder, .exponent, .leftShift, .rightShift, .unsignedRightShift, .bitwiseAnd, .bitwiseOr,
    .bitwiseXor, .in, .instanceof] BinaryOperator.text

def readLogical : Json → Option LogicalOperator :=
  variant [.and, .or, .nullish] LogicalOperator.text

def readKind (value : Json) : Option DefinitionExpressionKind := do
  let kind ← (value.field "kind").bind text
  let index (name : String) := (value.field name).bind (natural U32)
  match kind with
  -- a variant without members takes any others
  | "literal" => pure .literal
  | "property_name" => pure .propertyName
  | "identifier" => do
    guard (value.closed ["kind", "dependency"] = true)
    let dependency ← index "dependency"
    pure (.identifier dependency)
  | "member" => do
    guard (value.closed ["kind", "object", "property", "computed", "optional", "dependency"] = true)
    let object ← index "object"
    let property ← index "property"
    let computed ← (value.field "computed").bind boolean
    let optional ← (value.field "optional").bind boolean
    let dependency ← index "dependency"
    pure (.member object property computed optional dependency)
  | "parenthesized" => do
    guard (value.closed ["kind", "value"] = true)
    let inner ← index "value"
    pure (.parenthesized inner)
  | "unary" => do
    guard (value.closed ["kind", "operator", "operand"] = true)
    let operator ← (value.field "operator").bind readUnary
    let operand ← index "operand"
    pure (.unary operator operand)
  | "binary" => do
    guard (value.closed ["kind", "operator", "left", "right"] = true)
    let operator ← (value.field "operator").bind readBinary
    let left ← index "left"
    let right ← index "right"
    pure (.binary operator left right)
  | "logical" => do
    guard (value.closed ["kind", "operator", "left", "right"] = true)
    let operator ← (value.field "operator").bind readLogical
    let left ← index "left"
    let right ← index "right"
    pure (.logical operator left right)
  | "unsupported" => do
    guard (value.closed ["kind", "gap_id"] = true)
    let gapId ← (value.field "gap_id").bind text
    pure (.unsupported gapId)
  | _ => none

def readNode (value : Json) : Option DefinitionExpressionNode := do
  guard (value.closed ["expression", "kind"] = true)
  let expression ← (value.field "expression").bind readExpression
  let kind ← (value.field "kind").bind readKind
  pure ⟨expression, kind⟩

def readArenaExpression (value : Json) : Option DefinitionExpression := do
  guard (value.closed ["root", "nodes"] = true)
  let root ← (value.field "root").bind (natural U32)
  let nodes ← (value.field "nodes").bind (items readNode)
  pure ⟨root, nodes⟩

def readInput (value : Json) : Option DefinitionDependency := do
  guard (value.closed ["source", "resolution"] = true)
  let source ← (value.field "source").bind readEvidence
  let resolution ← (value.field "resolution").bind readResolution
  pure ⟨source, resolution⟩

def readDefinition (value : Json) : Option LocalDefinition := do
  guard (value.closed ["binding_id", "declaration", "uses", "initializer", "expression",
    "dependencies"] = true)
  let bindingId ← (value.field "binding_id").bind text
  let declaration ← (value.field "declaration").bind readEvidence
  let uses ← (value.field "uses").bind (items readEvidence)
  let initializer ← (value.field "initializer").bind readExpression
  let expression ← (value.field "expression").bind readArenaExpression
  let dependencies ← (value.field "dependencies").bind (items readInput)
  pure ⟨bindingId, declaration, uses, initializer, expression, dependencies⟩

/-! ### Rules -/

def readStatus : Json → Option InterpretationStatus :=
  variant [.notEstablished] InterpretationStatus.text

def readInterpretation (value : Json) : Option Interpretation := do
  guard (value.closed ["execution_predicate", "consumer_effect", "gap_ids"] = true)
  let executionPredicate ← (value.field "execution_predicate").bind readStatus
  let consumerEffect ← (value.field "consumer_effect").bind readStatus
  let gapIds ← (value.field "gap_ids").bind (items text)
  pure ⟨executionPredicate, consumerEffect, gapIds⟩

def readRedaction (value : Json) : Option SourceRedaction := do
  guard (value.closed ["source", "reason"] = true)
  let source ← (value.field "source").bind readEvidence
  let reason ← (value.field "reason").bind readReason
  pure ⟨source, reason⟩

/-- `present_definitions`: a null is not an absent member. -/
def presentDefinitions : Option Json → Option (Option (List LocalDefinition))
  | none => some none
  | some value => (items readDefinition value).map some

def readRule (value : Json) : Option GuardedExitEvidence := do
  guard (value.closed ["schema_version", "kind", "owner_id", "exit_source", "source_order",
    "conditions", "effect", "dependencies", "interpretation", "redactions",
    "local_definitions"] = true)
  let schemaVersion ← (value.field "schema_version").bind (natural U32)
  let kind ← (value.field "kind").bind (variant [RuleKind.guardedExit] RuleKind.text)
  let ownerId ← (value.field "owner_id").bind text
  let exitSource ← (value.field "exit_source").bind readEvidence
  let sourceOrder ← (value.field "source_order").bind (natural U32)
  let conditions ← (value.field "conditions").bind (items readCondition)
  let effect ← (value.field "effect").bind readEffect
  let dependencies ← (value.field "dependencies").bind (items readDependency)
  let interpretation ← (value.field "interpretation").bind readInterpretation
  let redactions ← (value.field "redactions").bind (items readRedaction)
  let localDefinitions ← presentDefinitions (value.field "local_definitions")
  pure ⟨schemaVersion, kind, ownerId, exitSource, sourceOrder, conditions, effect, dependencies,
    interpretation, redactions, localDefinitions⟩

/-! ### Preflight -/

def MAX_WIRE_VALUES : ℕ := 16384

def MAX_WIRE_DEPTH : ℕ := 32

/-- An object with one bound of a span is a source reference. -/
def sourceWire (fields : List (String × Json)) : Bool :=
  let has (name : String) := fields.any fun f => f.1 == name
  !(has "byte_start" || has "byte_end")
    || (fields.length == 5 && ["repo", "path", "byte_start", "byte_end", "commit_sha"].all has)

/-- The loop of `preflight`.  `room` values may still be visited; the last pending value is taken
first. -/
def look : ℕ → List (Json × ℕ) → Validation Unit
  | _, [] => pure ()
  | 0, _ :: _ => .error (limit "wire_shape")
  | room + 1, (value, depth) :: pending => do
    ensure (depth ≤ MAX_WIRE_DEPTH) (limit "wire_shape")
    match value with
    | .str s => do
      ensure (s.utf8ByteSize ≤ MAX_TEXT_BYTES) (limit "wire_text")
      look room pending
    | .arr values => do
      ensure (values.length ≤ 1024 ∧ pending.length + values.length ≤ room) (limit "wire_shape")
      look room ((values.map fun value => (value, depth + 1)).reverse ++ pending)
    | .obj fields => do
      ensure (fields.length ≤ 64 ∧ ∀ f ∈ fields, f.1.utf8ByteSize ≤ 128) (limit "wire_shape")
      ensure (sourceWire fields = true) (invalid "source_wire")
      look room ((fields.map fun f => (f.2, depth + 1)).reverse ++ pending)
    | _ => look room pending

def elements : Json → Option (List Json)
  | .arr items => some items
  | _ => none

/-- The length of an array that may be missing. -/
def lengthOf (value : Option Json) : ℕ := ((value.bind elements).map List.length).getD 0

def preflight (value : Json) : Validation Unit := do
  look MAX_WIRE_VALUES [(value, 0)]
  let definitions ← orFail ((value.field "local_definitions").bind elements)
    (invalid "local_definitions")
  ensure (definitions.length ≤ MAX_LOCAL_DEFINITIONS) (limit "definitions")
  let nodes := (definitions.map fun d => lengthOf ((d.field "expression").bind (·.field "nodes"))).sum
  let dependencies := (definitions.map fun d => lengthOf (d.field "dependencies")).sum
  let uses := (definitions.map fun d => lengthOf (d.field "uses")).sum
  ensure (nodes ≤ MAX_DEFINITION_NODES ∧ dependencies ≤ MAX_INITIALIZER_DEPENDENCIES
    ∧ uses ≤ MAX_USES) (limit "definition_collections")
  ensure (value.size ≤ MAX_RULE_PAYLOAD_BYTES) (limit "payload_bytes")

def fromValue (value : Json) : Validation GuardedExitEvidence := do
  let version ← orFail ((value.field "schema_version").bind (natural U32)) .malformedPayload
  match version with
  | 1 => ensure ((value.field "local_definitions").isNone = true) .malformedPayload
  | 2 => preflight value
  | other => .error (.unsupportedVersion other)
  let rule ← orFail (readRule value) .malformedPayload
  validate rule
  pure rule

/-- `to_value`: the members of an object are sorted. -/
def GuardedExitEvidence.toValue (rule : GuardedExitEvidence) : Json :=
  GraphStore.canonicalize rule.toJson

end Rules

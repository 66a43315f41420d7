/-
Source-rule evidence (`crates/core-graph/src/rules.rs` and `rules/definitions.rs`).

A rule is one guarded exit of a callable, with the branch conditions around it and, from version 2
on, the local definitions its conditions use.  The initializer of a definition is an arena of
expression nodes that refer to each other by index.  `toJson` is the payload as it is written.
-/
import Cartograph.Investigation.Records

namespace Rules

open Investigation

/-! ### Expressions -/

structure SanitizedDisplay where
  text : String
  deriving DecidableEq

/-- How much source syntax survived. -/
inductive ExpressionCapture
  | completeSyntax
  | redacted
  | unsupported
  deriving DecidableEq

def ExpressionCapture.text : ExpressionCapture → String
  | .completeSyntax => "complete_syntax"
  | .redacted => "redacted"
  | .unsupported => "unsupported"

inductive LiteralKind
  | boolean
  | string
  | number
  | null
  deriving DecidableEq

def LiteralKind.text : LiteralKind → String
  | .boolean => "boolean"
  | .string => "string"
  | .number => "number"
  | .null => "null"

inductive RedactionReason
  | privateKey | providerToken | bearerToken | awsAccessKey | credentialValue | tokenShaped
  | unsupportedDecoding | unsupportedSyntax | removedComment
  deriving DecidableEq

def RedactionReason.text : RedactionReason → String
  | .privateKey => "private_key"
  | .providerToken => "provider_token"
  | .bearerToken => "bearer_token"
  | .awsAccessKey => "aws_access_key"
  | .credentialValue => "credential_value"
  | .tokenShaped => "token_shaped"
  | .unsupportedDecoding => "unsupported_decoding"
  | .unsupportedSyntax => "unsupported_syntax"
  | .removedComment => "removed_comment"

/-- A known scalar; a number is the text it is written as. -/
inductive KnownLiteral
  | boolean (b : Bool)
  | string (s : String)
  | number (text : String)
  | null
  deriving DecidableEq

def KnownLiteral.toJson : KnownLiteral → Json
  | .boolean b => .obj [("kind", .str "boolean"), ("value", .bool b)]
  | .string s => .obj [("kind", .str "string"), ("value", .str s)]
  | .number text => .obj [("kind", .str "number"), ("value", .num text)]
  | .null => .obj [("kind", .str "null")]

/-- A literal, known or withheld. -/
inductive LiteralEvidence
  | known (value : KnownLiteral)
  | withheld (kind : LiteralKind) (reasons : List RedactionReason)
  deriving DecidableEq

def LiteralEvidence.toJson : LiteralEvidence → Json
  | .known value => .obj [("status", .str "known"), ("value", value.toJson)]
  | .withheld kind reasons => .obj [("status", .str "withheld"), ("kind", .str kind.text),
      ("reasons", .arr (reasons.map fun r => .str r.text))]

structure SourceExpression where
  source : EvidenceRef
  syntaxKind : String
  display : SanitizedDisplay
  capture : ExpressionCapture
  literal : Option LiteralEvidence
  deriving DecidableEq

def SourceExpression.toJson (e : SourceExpression) : Json :=
  .obj [("source", e.source.toJson), ("syntax_kind", .str e.syntaxKind),
    ("display", .str e.display.text), ("capture", .str e.capture.text),
    ("literal", .opt LiteralEvidence.toJson e.literal)]

/-! ### Conditions, effects and dependencies -/

inductive BranchPolarity
  | truthyBranch
  | falsyBranch

def BranchPolarity.text : BranchPolarity → String
  | .truthyBranch => "truthy_branch"
  | .falsyBranch => "falsy_branch"

structure BranchCondition where
  branchSource : EvidenceRef
  expression : SourceExpression
  polarity : BranchPolarity

def BranchCondition.toJson (c : BranchCondition) : Json :=
  .obj [("branch_source", c.branchSource.toJson), ("expression", c.expression.toJson),
    ("polarity", .str c.polarity.text)]

inductive LocalExit
  | return (value : Option SourceExpression)
  | throw (value : SourceExpression)

def LocalExit.toJson : LocalExit → Json
  | .return value => .obj [("kind", .str "return"), ("value", .opt SourceExpression.toJson value)]
  | .throw value => .obj [("kind", .str "throw"), ("value", value.toJson)]

/-- What source analysis established about one dependency. -/
inductive DependencyResolution
  | binding (bindingId : String) (declaration : EvidenceRef)
  | target (nodeId : String)
  | unresolved (gapId : String)

def DependencyResolution.toJson : DependencyResolution → Json
  | .binding bindingId declaration => .obj [("kind", .str "binding"),
      ("binding_id", .str bindingId), ("declaration", declaration.toJson)]
  | .target nodeId => .obj [("kind", .str "target"), ("node_id", .str nodeId)]
  | .unresolved gapId => .obj [("kind", .str "unresolved"), ("gap_id", .str gapId)]

def DependencyResolution.isUnresolved : DependencyResolution → Bool
  | .unresolved _ => true
  | _ => false

inductive DependencyRole
  | condition
  | exitValue
  | controlFlow
  deriving DecidableEq

def DependencyRole.text : DependencyRole → String
  | .condition => "condition"
  | .exitValue => "exit_value"
  | .controlFlow => "control_flow"

structure RuleDependency where
  role : DependencyRole
  source : EvidenceRef
  resolution : DependencyResolution

def RuleDependency.toJson (d : RuleDependency) : Json :=
  .obj [("role", .str d.role.text), ("source", d.source.toJson),
    ("resolution", d.resolution.toJson)]

/-! ### Local definitions -/

inductive UnaryOperator
  | not | plus | minus | bitwiseNot | typeof | void

def UnaryOperator.text : UnaryOperator → String
  | .not => "not"
  | .plus => "plus"
  | .minus => "minus"
  | .bitwiseNot => "bitwise_not"
  | .typeof => "typeof"
  | .void => "void"

inductive BinaryOperator
  | looseEqual | looseNotEqual | strictEqual | strictNotEqual
  | lessThan | lessThanOrEqual | greaterThan | greaterThanOrEqual
  | add | subtract | multiply | divide | remainder | exponent
  | leftShift | rightShift | unsignedRightShift | bitwiseAnd | bitwiseOr | bitwiseXor
  | in | instanceof

def BinaryOperator.text : BinaryOperator → String
  | .looseEqual => "loose_equal"
  | .looseNotEqual => "loose_not_equal"
  | .strictEqual => "strict_equal"
  | .strictNotEqual => "strict_not_equal"
  | .lessThan => "less_than"
  | .lessThanOrEqual => "less_than_or_equal"
  | .greaterThan => "greater_than"
  | .greaterThanOrEqual => "greater_than_or_equal"
  | .add => "add"
  | .subtract => "subtract"
  | .multiply => "multiply"
  | .divide => "divide"
  | .remainder => "remainder"
  | .exponent => "exponent"
  | .leftShift => "left_shift"
  | .rightShift => "right_shift"
  | .unsignedRightShift => "unsigned_right_shift"
  | .bitwiseAnd => "bitwise_and"
  | .bitwiseOr => "bitwise_or"
  | .bitwiseXor => "bitwise_xor"
  | .in => "in"
  | .instanceof => "instanceof"

inductive LogicalOperator
  | and | or | nullish

def LogicalOperator.text : LogicalOperator → String
  | .and => "and"
  | .or => "or"
  | .nullish => "nullish"

/-- The supported source forms; operands and prerequisites are given by their index. -/
inductive DefinitionExpressionKind
  | literal
  | identifier (dependency : ℕ)
  | propertyName
  | member (object property : ℕ) (computed optional : Bool) (dependency : ℕ)
  | parenthesized (value : ℕ)
  | unary (operator : UnaryOperator) (operand : ℕ)
  | binary (operator : BinaryOperator) (left right : ℕ)
  | logical (operator : LogicalOperator) (left right : ℕ)
  | unsupported (gapId : String)

namespace DefinitionExpressionKind

def toJson : DefinitionExpressionKind → Json
  | literal => .obj [("kind", .str "literal")]
  | identifier dependency => .obj [("kind", .str "identifier"), ("dependency", .nat dependency)]
  | propertyName => .obj [("kind", .str "property_name")]
  | member object property computed optional dependency => .obj [("kind", .str "member"),
      ("object", .nat object), ("property", .nat property), ("computed", .bool computed),
      ("optional", .bool optional), ("dependency", .nat dependency)]
  | parenthesized value => .obj [("kind", .str "parenthesized"), ("value", .nat value)]
  | unary operator operand => .obj [("kind", .str "unary"), ("operator", .str operator.text),
      ("operand", .nat operand)]
  | binary operator left right => .obj [("kind", .str "binary"), ("operator", .str operator.text),
      ("left", .nat left), ("right", .nat right)]
  | logical operator left right => .obj [("kind", .str "logical"),
      ("operator", .str operator.text), ("left", .nat left), ("right", .nat right)]
  | unsupported gapId => .obj [("kind", .str "unsupported"), ("gap_id", .str gapId)]

/-- The operands, in source order. -/
def children : DefinitionExpressionKind → List ℕ
  | member object property _ _ _ => [object, property]
  | parenthesized value => [value]
  | unary _ operand => [operand]
  | binary _ left right | logical _ left right => [left, right]
  | _ => []

/-- The prerequisite of an identifier or a member read. -/
def dependency? : DefinitionExpressionKind → Option ℕ
  | identifier dependency => some dependency
  | member _ _ _ _ dependency => some dependency
  | _ => none

def isPropertyName : DefinitionExpressionKind → Bool
  | propertyName => true
  | _ => false

end DefinitionExpressionKind

structure DefinitionExpressionNode where
  expression : SourceExpression
  kind : DefinitionExpressionKind

def DefinitionExpressionNode.toJson (n : DefinitionExpressionNode) : Json :=
  .obj [("expression", n.expression.toJson), ("kind", n.kind.toJson)]

/-- A flat arena of expression nodes. -/
structure DefinitionExpression where
  root : ℕ
  nodes : List DefinitionExpressionNode

def DefinitionExpression.toJson (e : DefinitionExpression) : Json :=
  .obj [("root", .nat e.root), ("nodes", .arr (e.nodes.map DefinitionExpressionNode.toJson))]

structure DefinitionDependency where
  source : EvidenceRef
  resolution : DependencyResolution

def DefinitionDependency.toJson (d : DefinitionDependency) : Json :=
  .obj [("source", d.source.toJson), ("resolution", d.resolution.toJson)]

structure LocalDefinition where
  bindingId : String
  declaration : EvidenceRef
  uses : List EvidenceRef
  initializer : SourceExpression
  expression : DefinitionExpression
  dependencies : List DefinitionDependency

def LocalDefinition.toJson (d : LocalDefinition) : Json :=
  .obj [("binding_id", .str d.bindingId), ("declaration", d.declaration.toJson),
    ("uses", .arr (d.uses.map EvidenceRef.toJson)), ("initializer", d.initializer.toJson),
    ("expression", d.expression.toJson),
    ("dependencies", .arr (d.dependencies.map DefinitionDependency.toJson))]

/-! ### Rules -/

inductive InterpretationStatus
  | notEstablished

def InterpretationStatus.text : InterpretationStatus → String
  | .notEstablished => "not_established"

structure Interpretation where
  executionPredicate : InterpretationStatus
  consumerEffect : InterpretationStatus
  gapIds : List String

def Interpretation.toJson (i : Interpretation) : Json :=
  .obj [("execution_predicate", .str i.executionPredicate.text),
    ("consumer_effect", .str i.consumerEffect.text), ("gap_ids", .arr (i.gapIds.map .str))]

structure SourceRedaction where
  source : EvidenceRef
  reason : RedactionReason

def SourceRedaction.toJson (r : SourceRedaction) : Json :=
  .obj [("source", r.source.toJson), ("reason", .str r.reason.text)]

inductive RuleKind
  | guardedExit

def RuleKind.text : RuleKind → String
  | .guardedExit => "guarded_exit"

/-- An observed guarded local exit. -/
structure GuardedExitEvidence where
  schemaVersion : ℕ
  kind : RuleKind
  ownerId : String
  exitSource : EvidenceRef
  sourceOrder : ℕ
  conditions : List BranchCondition
  effect : LocalExit
  dependencies : List RuleDependency
  interpretation : Interpretation
  redactions : List SourceRedaction
  localDefinitions : Option (List LocalDefinition)

/-- The payload; without local definitions it has no such member. -/
def GuardedExitEvidence.toJson (r : GuardedExitEvidence) : Json :=
  .obj ([("schema_version", .nat r.schemaVersion), ("kind", .str r.kind.text),
    ("owner_id", .str r.ownerId), ("exit_source", r.exitSource.toJson),
    ("source_order", .nat r.sourceOrder),
    ("conditions", .arr (r.conditions.map BranchCondition.toJson)), ("effect", r.effect.toJson),
    ("dependencies", .arr (r.dependencies.map RuleDependency.toJson)),
    ("interpretation", r.interpretation.toJson),
    ("redactions", .arr (r.redactions.map SourceRedaction.toJson))]
    ++ (r.localDefinitions.toList.map fun definitions =>
      ("local_definitions", .arr (definitions.map LocalDefinition.toJson))))

end Rules

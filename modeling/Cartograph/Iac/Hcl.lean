/-
Terraform source (`crates/iac/src/lib.rs`, `crates/iac/src/registry.rs`).

What the extraction reads of a parsed file: blocks with their labels and attributes, and in
an expression its traversals, strings and object items.  The parser is `hcl_edit`'s; every
other kind of expression is only walked through.

References and static strings are sets; here they are collected in lists, and become sets
where the source iterates them.
-/
import Mathlib

namespace Iac

/-! ### Syntax -/

mutual

inductive Expression
  | string (value : String)
  | variable (name : String)
  | traversal (root : Expression) (operators : List Operator)
  | object (items : List ObjectItem)
  | other (parts : List Expression)

inductive Operator
  | getAttr (name : String)
  | index (e : Expression)
  | splat

/-- An item whose key is an identifier, or an expression. -/
inductive ObjectItem
  | ident (key : String) (value : Expression)
  | expr (key value : Expression)

end

structure Attribute where
  key : String
  value : Expression

/-- A block; its labels as `label_text` gives them. -/
inductive Block
  | mk (ident : String) (labels : List String) (span : Option (ℕ × ℕ))
      (attributes : List Attribute) (blocks : List Block)

namespace Block

def ident : Block → String
  | mk ident _ _ _ _ => ident

def labels : Block → List String
  | mk _ labels _ _ _ => labels

def span : Block → Option (ℕ × ℕ)
  | mk _ _ span _ _ => span

def attributes : Block → List Attribute
  | mk _ _ _ attributes _ => attributes

def blocks : Block → List Block
  | mk _ _ _ _ blocks => blocks

end Block

/-! ### References -/

/-- The attributes a traversal begins with. -/
def leadingAttrs : List Operator → List String
  | .getAttr name :: rest => name :: leadingAttrs rest
  | _ => []

/-- The address a traversal names, unless it is a variable, a local or a builtin. -/
def traversalAddress (root : Expression) (operators : List Operator) : Option String :=
  match root with
  | .variable root =>
    let attrs := leadingAttrs operators
    if ["var", "local", "each", "count", "path", "terraform", "self"].contains root then none
    else if root = "module" then attrs.head?.map fun m => "module." ++ m
    else if root = "data" then
      match attrs with
      | a :: b :: _ => some ("data." ++ a ++ "." ++ b)
      | _ => none
    else if '_' ∈ root.toList then attrs.head?.map fun name => root ++ "." ++ name
    else none
  | _ => none

mutual

/-- `RefCollector`. -/
def Expression.refs : Expression → List String
  | .string _ => []
  | .variable _ => []
  | .traversal root operators =>
    (traversalAddress root operators).toList ++ root.refs ++ refsOfOperators operators
  | .object items => refsOfItems items
  | .other parts => refsOfParts parts

def refsOfOperators : List Operator → List String
  | [] => []
  | .index e :: rest => e.refs ++ refsOfOperators rest
  | .getAttr _ :: rest => refsOfOperators rest
  | .splat :: rest => refsOfOperators rest

def refsOfItems : List ObjectItem → List String
  | [] => []
  | .ident _ value :: rest => value.refs ++ refsOfItems rest
  | .expr key value :: rest => key.refs ++ value.refs ++ refsOfItems rest

def refsOfParts : List Expression → List String
  | [] => []
  | e :: rest => e.refs ++ refsOfParts rest

end

mutual

/-- `refs_in_body`. -/
def Block.refs : Block → List String
  | .mk _ _ _ attributes blocks => attributes.flatMap (fun a => a.value.refs) ++ refsOfBlocks blocks

def refsOfBlocks : List Block → List String
  | [] => []
  | b :: rest => b.refs ++ refsOfBlocks rest

end

/-- `refs_for_attr`: in the attribute of this name, or else in the first such block. -/
def Block.refsForAttr (b : Block) (name : String) : List String :=
  match b.attributes.find? fun a => a.key == name with
  | some a => a.value.refs
  | none => ((b.blocks.find? fun nested => nested.ident == name).map Block.refs).getD []

/-! ### Strings -/

def Expression.asStr : Expression → Option String
  | .string value => some value
  | _ => none

mutual

/-- `StaticStringCollector`. -/
def Expression.strings : Expression → List String
  | .string value => [value]
  | .variable _ => []
  | .traversal root operators => root.strings ++ stringsOfOperators operators
  | .object items => stringsOfItems items
  | .other parts => stringsOfParts parts

def stringsOfOperators : List Operator → List String
  | [] => []
  | .index e :: rest => e.strings ++ stringsOfOperators rest
  | .getAttr _ :: rest => stringsOfOperators rest
  | .splat :: rest => stringsOfOperators rest

def stringsOfItems : List ObjectItem → List String
  | [] => []
  | .ident _ value :: rest => value.strings ++ stringsOfItems rest
  | .expr key value :: rest => key.strings ++ value.strings ++ stringsOfItems rest

def stringsOfParts : List Expression → List String
  | [] => []
  | e :: rest => e.strings ++ stringsOfParts rest

end

/-- ASCII letters in either case. -/
def eqIgnoreAsciiCase (a b : String) : Bool :=
  a.toList.map Char.toLower == b.toList.map Char.toLower

def actionName (name : String) : Bool :=
  eqIgnoreAsciiCase name "action" || eqIgnoreAsciiCase name "actions"

mutual

/-- `IamActionCollector`: the strings under action keys. -/
def Expression.actions : Expression → List String
  | .string _ => []
  | .variable _ => []
  | .traversal root operators => root.actions ++ actionsOfOperators operators
  | .object items => actionsOfItems items
  | .other parts => actionsOfParts parts

def actionsOfOperators : List Operator → List String
  | [] => []
  | .index e :: rest => e.actions ++ actionsOfOperators rest
  | .getAttr _ :: rest => actionsOfOperators rest
  | .splat :: rest => actionsOfOperators rest

def actionsOfItems : List ObjectItem → List String
  | [] => []
  | .ident key value :: rest =>
    (if actionName key then value.strings else value.actions) ++ actionsOfItems rest
  | .expr key value :: rest =>
    (if key.asStr.any actionName then value.strings else value.actions) ++ actionsOfItems rest

def actionsOfParts : List Expression → List String
  | [] => []
  | e :: rest => e.actions ++ actionsOfParts rest

end

/-- `string_attr`. -/
def Block.stringAttr (b : Block) (name : String) : Option String :=
  (b.attributes.find? fun a => a.key == name).bind fun a => a.value.asStr

/-! ### Paths through nested blocks -/

/-- A leading `*` of the selector stands for any beginning. -/
def blockNameMatches (actual selector : String) : Bool :=
  match selector.toList with
  | '*' :: suffix => suffix.isSuffixOf actual.toList
  | _ => actual == selector

def Block.dynamicMatches (b : Block) (selector : String) : Bool :=
  b.ident == "dynamic" && b.labels.head?.any fun name => blockNameMatches name selector

/-- The blocks a segment of a path selects; of a dynamic block, its contents. -/
def selectBlocks (blocks : List Block) (segment : String) : List Block :=
  blocks.flatMap fun nested =>
    if blockNameMatches nested.ident segment then [nested]
    else if nested.dynamicMatches segment then
      nested.blocks.filter fun content => content.ident == "content"
    else []

/-- `refs_for_path`. -/
def refsForPath (attributes : List Attribute) (blocks : List Block) : List String → List String
  | [] => []
  | [head] =>
    (attributes.filter fun a => a.key == head).flatMap (fun a => a.value.refs)
      ++ (selectBlocks blocks head).flatMap Block.refs
  | head :: tail =>
    (selectBlocks blocks head).flatMap fun nested =>
      refsForPath nested.attributes nested.blocks tail

/-- `static_strings_for_path`. -/
def staticStringsForPath (attributes : List Attribute) (blocks : List Block) :
    List String → List String
  | [] => []
  | [head] => (attributes.filter fun a => a.key == head).flatMap fun a => a.value.strings
  | head :: tail =>
    (selectBlocks blocks head).flatMap fun nested =>
      staticStringsForPath nested.attributes nested.blocks tail

/-! ### The capability registry -/

inductive CapabilityKind
  | triggers | routes | subscribes

def CapabilityKind.edgeLabel : CapabilityKind → String
  | .triggers => "TRIGGERS"
  | .routes => "ROUTES"
  | .subscribes => "SUBSCRIBES"

inductive EndpointSelector
  | resource
  | path (segments : List String)

structure Capability where
  resourceType : String
  kind : CapabilityKind
  source : EndpointSelector
  target : EndpointSelector

def REGISTRY_VERSION : String := "aws-2026.07.1"

def AWS_CAPABILITIES : List Capability :=
  [⟨"aws_lambda_event_source_mapping", .triggers, .path ["event_source_arn"],
      .path ["function_name"]⟩,
    ⟨"aws_cloudwatch_event_target", .triggers, .path ["rule"], .path ["arn"]⟩,
    ⟨"aws_sns_topic_subscription", .subscribes, .path ["endpoint"], .path ["topic_arn"]⟩,
    ⟨"aws_lb_listener", .routes, .path ["load_balancer_arn"], .path ["default_action"]⟩,
    ⟨"aws_lb_target_group_attachment", .routes, .path ["target_group_arn"], .path ["target_id"]⟩,
    ⟨"aws_api_gateway_integration", .routes, .path ["rest_api_id"], .path ["uri"]⟩,
    ⟨"aws_lambda_permission", .triggers, .path ["source_arn"], .path ["function_name"]⟩,
    ⟨"aws_cloudfront_distribution", .triggers, .resource,
      .path ["*cache_behavior", "lambda_function_association", "lambda_arn"]⟩,
    ⟨"aws_pipes_pipe", .triggers, .path ["source"], .path ["target"]⟩]

def capabilitiesFor (resourceType : String) : List Capability :=
  AWS_CAPABILITIES.filter fun c => c.resourceType == resourceType

/-- `refs_for_selector`. -/
def Block.refsForSelector (b : Block) (selector : EndpointSelector) (address : String) :
    List String :=
  match selector with
  | .resource => [address]
  | .path segments => refsForPath b.attributes b.blocks segments

end Iac

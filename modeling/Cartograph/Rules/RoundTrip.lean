/-
Reading inverts writing.

A rule is read back from its payload, in which the members of every object are sorted.  The
integers of a rule are those of its types (`Fits`); nothing else is asked of it.

* `items_value`, `optional_value`, `variant_text` — the readers of arrays, options and variants;
* `readRule_value` — the reader of rules.
-/
import Cartograph.Rules.Decode

namespace Rules

open Investigation Checked Json
open GraphStore (canonicalize)
open DefinitionExpressionKind (children)

/-! ### Values of the source's types -/

/-- The integers of a reference fit their type. -/
def RefFits (e : EvidenceRef) : Prop := e.byteStart < U64 ∧ e.byteEnd < U64

/-- A number is written with some digits. -/
def LiteralEvidence.Fits : LiteralEvidence → Prop
  | .known (.number digits) => 0 < digits.utf8ByteSize
  | _ => True

def SourceExpression.Fits (e : SourceExpression) : Prop :=
  RefFits e.source ∧ ∀ literal ∈ e.literal, literal.Fits

def BranchCondition.Fits (c : BranchCondition) : Prop :=
  RefFits c.branchSource ∧ c.expression.Fits

def LocalExit.Fits (effect : LocalExit) : Prop := ∀ value ∈ effect.value?, value.Fits

def DependencyResolution.Fits : DependencyResolution → Prop
  | .binding _ declaration => RefFits declaration
  | _ => True

def DefinitionExpressionKind.Fits (kind : DefinitionExpressionKind) : Prop :=
  (∀ index ∈ kind.children, index < U32) ∧ ∀ index ∈ kind.dependency?, index < U32

def DefinitionExpression.Fits (e : DefinitionExpression) : Prop :=
  e.root < U32 ∧ ∀ node ∈ e.nodes, node.expression.Fits ∧ node.kind.Fits

def LocalDefinition.Fits (d : LocalDefinition) : Prop :=
  RefFits d.declaration ∧ (∀ usage ∈ d.uses, RefFits usage) ∧ d.initializer.Fits
    ∧ d.expression.Fits
    ∧ ∀ dependency ∈ d.dependencies, RefFits dependency.source ∧ dependency.resolution.Fits

/-- All integers of a rule fit their types, `u32` and `u64`. -/
structure GuardedExitEvidence.Fits (rule : GuardedExitEvidence) : Prop where
  version : rule.schemaVersion < U32
  exit : RefFits rule.exitSource
  order : rule.sourceOrder < U32
  conditions : ∀ condition ∈ rule.conditions, condition.Fits
  effect : rule.effect.Fits
  dependencies : ∀ dependency ∈ rule.dependencies,
    RefFits dependency.source ∧ dependency.resolution.Fits
  redactions : ∀ redaction ∈ rule.redactions, RefFits redaction.source
  definitions : ∀ definitions ∈ rule.localDefinitions, ∀ d ∈ definitions, d.Fits

/-! ### Readers of parts -/

theorem natural_nat {bound n : ℕ} (h : n < bound) : natural bound (.nat n) = some n := by
  obtain ⟨hne, hall, hvalue⟩ := Json.toString_digits n
  show natural bound (.num (toString n)) = _
  rw [natural, hvalue, if_pos ⟨hne, hall, h⟩]

variable {α : Type} {read : Json → Option α} {toJson : α → Json}

theorem items_value {l : List α} (h : ∀ x ∈ l, read (canonicalize (toJson x)) = some x) :
    items read (.arr (l.map (canonicalize ∘ toJson))) = some l := by
  rw [items]
  induction l with
  | nil => rfl
  | cons x rest ih =>
    rw [List.map_cons, List.mapM_cons, Function.comp_apply, h x List.mem_cons_self,
      ih fun y hy => h y (List.mem_cons_of_mem _ hy)]
    rfl

theorem optional_value {o : Option α} (hobject : ∀ x, ∃ fields, toJson x = .obj fields)
    (h : ∀ x ∈ o, read (canonicalize (toJson x)) = some x) :
    optional read (some (canonicalize (.opt toJson o))) = some o := by
  cases o with
  | none =>
    show optional read (some (canonicalize .null)) = _
    rw [canonicalize_null, optional]
  | some x =>
    show optional read (some (canonicalize (toJson x))) = _
    have hread := h x rfl
    obtain ⟨fields, hfields⟩ := hobject x
    rw [hfields, canonicalize] at hread ⊢
    rw [optional, hread, Option.map_some]
    simp

theorem variant_text {all : List α} {name : α → String} (h : (all.map name).Nodup) {a : α}
    (ha : a ∈ all) : variant all name (.str (name a)) = some a := by
  show all.find? (fun b => name b == name a) = some a
  rw [List.find?_eq_some_iff_getElem]
  obtain ⟨i, hi, rfl⟩ := List.mem_iff_getElem.mp ha
  refine ⟨by simp, i, hi, rfl, fun j hj => ?_⟩
  -- names are distinct, so an earlier variant has another one
  have hne : name all[j] ≠ name all[i] := by
    intro hsame
    have hpairs := List.pairwise_iff_getElem.mp h j i (by simpa using hj.trans hi)
      (by simpa using hi) hj
    exact hpairs (by simpa using hsame)
  simpa using hne

/-! ### Reading inverts writing -/

theorem readEvidence_value {e : EvidenceRef} (h : RefFits e) :
    readEvidence (canonicalize e.toJson) = some e := by
  simp [readEvidence, EvidenceRef.toJson, field_canonicalize, text, natural_nat h.1,
    natural_nat h.2]

theorem readCapture_text (c : ExpressionCapture) : readCapture (.str c.text) = some c :=
  variant_text (by decide) (by cases c <;> decide)

theorem readLiteralKind_text (k : LiteralKind) : readLiteralKind (.str k.text) = some k :=
  variant_text (by decide) (by cases k <;> decide)

theorem readReason_text (r : RedactionReason) : readReason (.str r.text) = some r :=
  variant_text (by decide) (by cases r <;> decide)

theorem readKnown_value (known : KnownLiteral) :
    readKnown (canonicalize known.toJson) = some known := by
  have hkind := readLiteralKind_text
  cases known with
  | boolean _ | string _ | number _ | null =>
    simp [readKnown, KnownLiteral.toJson, field_canonicalize, closed_canonicalize, guard,
      show readLiteralKind (.str "boolean") = some .boolean from hkind .boolean,
      show readLiteralKind (.str "string") = some .string from hkind .string,
      show readLiteralKind (.str "number") = some .number from hkind .number,
      show readLiteralKind (.str "null") = some .null from hkind .null]

theorem readLiteral_value (literal : LiteralEvidence) :
    readLiteral (canonicalize literal.toJson) = some literal := by
  cases literal with
  | known value =>
    simp [readLiteral, LiteralEvidence.toJson, field_canonicalize, closed_canonicalize, guard, text,
      readKnown_value value]
  | withheld kind reasons =>
    have hreasons : items readReason
        (.arr (reasons.map (canonicalize ∘ fun r => Json.str r.text))) = some reasons := by
      refine items_value fun r _ => ?_
      rw [canonicalize_str]
      exact readReason_text r
    simp [readLiteral, LiteralEvidence.toJson, field_canonicalize, closed_canonicalize, guard, text,
      readLiteralKind_text kind, hreasons]

theorem readExpression_value {e : SourceExpression} (h : e.Fits) :
    readExpression (canonicalize e.toJson) = some e := by
  have hliteral : optional readLiteral (some (canonicalize (.opt LiteralEvidence.toJson e.literal)))
      = some e.literal := by
    refine optional_value (fun literal => ?_) fun literal _ => readLiteral_value literal
    cases literal <;> exact ⟨_, rfl⟩
  simp [readExpression, SourceExpression.toJson, field_canonicalize, closed_canonicalize, guard,
    text, readEvidence_value h.1, readCapture_text, hliteral]

theorem readPolarity_text (p : BranchPolarity) : readPolarity (.str p.text) = some p :=
  variant_text (by decide) (by cases p <;> simp)

theorem readCondition_value {c : BranchCondition} (h : c.Fits) :
    readCondition (canonicalize c.toJson) = some c := by
  simp [readCondition, BranchCondition.toJson, field_canonicalize, closed_canonicalize, guard,
    readEvidence_value h.1, readExpression_value h.2, readPolarity_text]

theorem readEffect_value {effect : LocalExit} (h : effect.Fits) :
    readEffect (canonicalize effect.toJson) = some effect := by
  cases effect with
  | «return» value =>
    have hvalue : optional readExpression
        (some (canonicalize (.opt SourceExpression.toJson value))) = some value :=
      optional_value (fun e => ⟨_, rfl⟩) fun e he => readExpression_value (h e he)
    simp [readEffect, LocalExit.toJson, field_canonicalize, closed_canonicalize, guard, text,
      hvalue]
  | throw value =>
    simp [readEffect, LocalExit.toJson, field_canonicalize, closed_canonicalize, guard, text,
      readExpression_value (h value rfl)]

theorem readResolution_value {r : DependencyResolution} (h : r.Fits) :
    readResolution (canonicalize r.toJson) = some r := by
  cases r with
  | binding bindingId declaration =>
    simp [readResolution, DependencyResolution.toJson, field_canonicalize, closed_canonicalize,
      guard, text, readEvidence_value h]
  | target nodeId | unresolved gapId =>
    simp [readResolution, DependencyResolution.toJson, field_canonicalize, closed_canonicalize,
      guard, text]

theorem readRole_text (r : DependencyRole) : readRole (.str r.text) = some r :=
  variant_text (by decide) (by cases r <;> simp)

theorem readDependency_value {d : RuleDependency} (hsource : RefFits d.source)
    (hresolution : d.resolution.Fits) : readDependency (canonicalize d.toJson) = some d := by
  simp [readDependency, RuleDependency.toJson, field_canonicalize, closed_canonicalize, guard,
    readRole_text, readEvidence_value hsource, readResolution_value hresolution]

theorem readUnary_text (o : UnaryOperator) : readUnary (.str o.text) = some o :=
  variant_text (by decide) (by cases o <;> simp)

theorem readBinary_text (o : BinaryOperator) : readBinary (.str o.text) = some o :=
  variant_text (by decide) (by cases o <;> simp)

theorem readLogical_text (o : LogicalOperator) : readLogical (.str o.text) = some o :=
  variant_text (by decide) (by cases o <;> simp)

theorem readKind_value {kind : DefinitionExpressionKind} (h : kind.Fits) :
    readKind (canonicalize kind.toJson) = some kind := by
  obtain ⟨hchildren, hdependency⟩ := h
  have hindex : ∀ {n : ℕ}, n < U32 → natural U32 (.nat n) = some n := natural_nat
  cases kind with
  | literal | propertyName | unsupported _ =>
    simp [readKind, DefinitionExpressionKind.toJson, field_canonicalize, closed_canonicalize,
      guard, text]
  | identifier dependency =>
    simp [readKind, DefinitionExpressionKind.toJson, field_canonicalize, closed_canonicalize,
      guard, text, hindex (hdependency dependency rfl)]
  | member object property computed isOptional dependency =>
    simp [readKind, DefinitionExpressionKind.toJson, field_canonicalize, closed_canonicalize,
      guard, text, boolean, hindex (hdependency dependency rfl),
      hindex (hchildren object (by simp [children])),
      hindex (hchildren property (by simp [children]))]
  | parenthesized value =>
    simp [readKind, DefinitionExpressionKind.toJson, field_canonicalize, closed_canonicalize,
      guard, text, hindex (hchildren value (by simp [children]))]
  | unary operator operand =>
    simp [readKind, DefinitionExpressionKind.toJson, field_canonicalize, closed_canonicalize,
      guard, text, readUnary_text,
      hindex (hchildren operand (by simp [children]))]
  | binary operator left right | logical operator left right =>
    simp [readKind, DefinitionExpressionKind.toJson, field_canonicalize, closed_canonicalize,
      guard, text, readBinary_text, readLogical_text,
      hindex (hchildren left (by simp [children])),
      hindex (hchildren right (by simp [children]))]

theorem readNode_value {node : DefinitionExpressionNode} (hexpression : node.expression.Fits)
    (hkind : node.kind.Fits) : readNode (canonicalize node.toJson) = some node := by
  simp [readNode, DefinitionExpressionNode.toJson, field_canonicalize, closed_canonicalize, guard,
    readExpression_value hexpression, readKind_value hkind]

theorem readArenaExpression_value {e : DefinitionExpression} (h : e.Fits) :
    readArenaExpression (canonicalize e.toJson) = some e := by
  have hnodes : items readNode
      (.arr (e.nodes.map (canonicalize ∘ DefinitionExpressionNode.toJson))) = some e.nodes :=
    items_value fun node hnode => readNode_value (h.2 node hnode).1 (h.2 node hnode).2
  simp [readArenaExpression, DefinitionExpression.toJson, field_canonicalize, closed_canonicalize,
    guard, natural_nat h.1, hnodes]

theorem readInput_value {d : DefinitionDependency} (hsource : RefFits d.source)
    (hresolution : d.resolution.Fits) : readInput (canonicalize d.toJson) = some d := by
  simp [readInput, DefinitionDependency.toJson, field_canonicalize, closed_canonicalize, guard,
    readEvidence_value hsource, readResolution_value hresolution]

theorem readDefinition_value {d : LocalDefinition} (h : d.Fits) :
    readDefinition (canonicalize d.toJson) = some d := by
  obtain ⟨hdeclaration, huses, hinitializer, hexpression, hdependencies⟩ := h
  have huses' : items readEvidence (.arr (d.uses.map (canonicalize ∘ EvidenceRef.toJson)))
      = some d.uses := items_value fun usage hmem => readEvidence_value (huses usage hmem)
  have hdependencies' : items readInput
      (.arr (d.dependencies.map (canonicalize ∘ DefinitionDependency.toJson)))
      = some d.dependencies := by
    refine items_value fun dependency hmem => ?_
    exact readInput_value (hdependencies dependency hmem).1 (hdependencies dependency hmem).2
  simp [readDefinition, LocalDefinition.toJson, field_canonicalize, closed_canonicalize, guard,
    text, readEvidence_value hdeclaration, readExpression_value hinitializer,
    readArenaExpression_value hexpression, huses', hdependencies']

theorem readStatus_text (s : InterpretationStatus) : readStatus (.str s.text) = some s :=
  variant_text (by decide) (by cases s; simp)

theorem readInterpretation_value (i : Interpretation) :
    readInterpretation (canonicalize i.toJson) = some i := by
  have hgaps : items text (.arr (i.gapIds.map (canonicalize ∘ Json.str))) = some i.gapIds := by
    refine items_value fun gap _ => ?_
    rw [canonicalize_str]
    rfl
  simp [readInterpretation, Interpretation.toJson, field_canonicalize, closed_canonicalize, guard,
    readStatus_text, hgaps]

theorem readRedaction_value {r : SourceRedaction} (h : RefFits r.source) :
    readRedaction (canonicalize r.toJson) = some r := by
  simp [readRedaction, SourceRedaction.toJson, field_canonicalize, closed_canonicalize, guard,
    readEvidence_value h, readReason_text]

/-- **Reading inverts writing**, for every rule whose integers fit their types. -/
theorem readRule_value {rule : GuardedExitEvidence} (h : rule.Fits) :
    readRule rule.toValue = some rule := by
  have hkind : variant [RuleKind.guardedExit] RuleKind.text (.str rule.kind.text)
      = some rule.kind := variant_text (by decide) (by cases rule.kind; simp)
  have hconditions : items readCondition
      (.arr (rule.conditions.map (canonicalize ∘ BranchCondition.toJson)))
      = some rule.conditions :=
    items_value fun c hc => readCondition_value (h.conditions c hc)
  have hdependencies : items readDependency
      (.arr (rule.dependencies.map (canonicalize ∘ RuleDependency.toJson)))
      = some rule.dependencies := by
    refine items_value fun d hd => ?_
    exact readDependency_value (h.dependencies d hd).1 (h.dependencies d hd).2
  have hredactions : items readRedaction
      (.arr (rule.redactions.map (canonicalize ∘ SourceRedaction.toJson)))
      = some rule.redactions := items_value fun r hr => readRedaction_value (h.redactions r hr)
  cases hlocal : rule.localDefinitions with
  | none =>
    have hrule : rule = { rule with localDefinitions := none } := by rw [← hlocal]
    simp [readRule, GuardedExitEvidence.toValue, GuardedExitEvidence.toJson, hlocal,
      field_canonicalize, closed_canonicalize, guard, text, presentDefinitions,
      natural_nat h.version, hkind, readEvidence_value h.exit, natural_nat h.order, hconditions,
      readEffect_value h.effect, hdependencies, readInterpretation_value, hredactions]
    exact hrule.symm
  | some definitions =>
    have hdefinitions : items readDefinition
        (.arr (definitions.map (canonicalize ∘ LocalDefinition.toJson))) = some definitions :=
      items_value fun d hd => readDefinition_value (h.definitions definitions hlocal d hd)
    have hrule : rule = { rule with localDefinitions := some definitions } := by rw [← hlocal]
    simp [readRule, GuardedExitEvidence.toValue, GuardedExitEvidence.toJson, hlocal,
      field_canonicalize, closed_canonicalize, guard, text, presentDefinitions,
      natural_nat h.version, hkind, readEvidence_value h.exit, natural_nat h.order, hconditions,
      readEffect_value h.effect, hdependencies, readInterpretation_value, hredactions,
      hdefinitions]
    exact hrule.symm

end Rules

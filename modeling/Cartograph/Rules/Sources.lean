/-
The source references of a rule (`GuardedExitEvidence::visit_sources_mut`).

On the wire a reference is an object with a byte offset, and there is no other one.  Visiting a
rule goes to each of them once: the references of the payload before and after are the arguments
and the results of the calls, and without them the two payloads are the same.

* `citations`, `blank` — the references of a payload, and the payload without them;
* `sweep_rule` — what visiting a rule does to its payload.
-/
import Cartograph.Rules.Evidence

namespace Rules

open Investigation

/-! ### References on the wire -/

/-- An object with a byte offset is a reference. -/
def isReference (fields : List (String × Json)) : Bool :=
  fields.any fun f => f.1 == "byte_start" || f.1 == "byte_end"

mutual

/-- The references in a value, as they are written. -/
def citations : Json → List Json
  | .arr items => itemsCitations items
  | .obj fields => if isReference fields then [.obj fields] else fieldsCitations fields
  | _ => []

def itemsCitations : List Json → List Json
  | [] => []
  | j :: rest => citations j ++ itemsCitations rest

def fieldsCitations : List (String × Json) → List Json
  | [] => []
  | (_, j) :: rest => citations j ++ fieldsCitations rest

end

mutual

/-- A value with nothing in place of its references. -/
def blank : Json → Json
  | .arr items => .arr (itemsBlank items)
  | .obj fields => if isReference fields then .null else .obj (fieldsBlank fields)
  | .null => .null
  | .bool b => .bool b
  | .num text => .num text
  | .str s => .str s

def itemsBlank : List Json → List Json
  | [] => []
  | j :: rest => blank j :: itemsBlank rest

def fieldsBlank : List (String × Json) → List (String × Json)
  | [] => []
  | (k, j) :: rest => (k, blank j) :: fieldsBlank rest

end

/-! ### Visiting -/

section Visit

variable {σ : Type} (visitor : EvidenceRef → StateM σ EvidenceRef)

def SourceExpression.visit (e : SourceExpression) : StateM σ SourceExpression := do
  let source ← visitor e.source
  pure { e with source := source }

def BranchCondition.visit (c : BranchCondition) : StateM σ BranchCondition := do
  let branchSource ← visitor c.branchSource
  let expression ← c.expression.visit visitor
  pure { c with branchSource := branchSource, expression := expression }

def LocalExit.visit : LocalExit → StateM σ LocalExit
  | .return none => pure (.return none)
  | .return (some value) => do
    let value ← value.visit visitor
    pure (.return (some value))
  | .throw value => do
    let value ← value.visit visitor
    pure (.throw value)

def DependencyResolution.visit : DependencyResolution → StateM σ DependencyResolution
  | .binding bindingId declaration => do
    let declaration ← visitor declaration
    pure (.binding bindingId declaration)
  | other => pure other

def RuleDependency.visit (d : RuleDependency) : StateM σ RuleDependency := do
  let source ← visitor d.source
  let resolution ← d.resolution.visit visitor
  pure { d with source := source, resolution := resolution }

def DefinitionDependency.visit (d : DefinitionDependency) : StateM σ DefinitionDependency := do
  let source ← visitor d.source
  let resolution ← d.resolution.visit visitor
  pure { d with source := source, resolution := resolution }

def DefinitionExpressionNode.visit (n : DefinitionExpressionNode) :
    StateM σ DefinitionExpressionNode := do
  let expression ← n.expression.visit visitor
  pure { n with expression := expression }

def DefinitionExpression.visit (e : DefinitionExpression) : StateM σ DefinitionExpression := do
  let nodes ← e.nodes.mapM (DefinitionExpressionNode.visit visitor)
  pure { e with nodes := nodes }

def LocalDefinition.visit (d : LocalDefinition) : StateM σ LocalDefinition := do
  let declaration ← visitor d.declaration
  let uses ← d.uses.mapM visitor
  let initializer ← d.initializer.visit visitor
  let expression ← d.expression.visit visitor
  let dependencies ← d.dependencies.mapM (DefinitionDependency.visit visitor)
  pure { d with
    declaration := declaration
    uses := uses
    initializer := initializer
    expression := expression
    dependencies := dependencies }

def visitDefinitions : Option (List LocalDefinition) → StateM σ (Option (List LocalDefinition))
  | none => pure none
  | some definitions => do
    let definitions ← definitions.mapM (LocalDefinition.visit visitor)
    pure (some definitions)

def SourceRedaction.visit (r : SourceRedaction) : StateM σ SourceRedaction := do
  let source ← visitor r.source
  pure { r with source := source }

/-- `visit_sources_mut`: the local definitions come before the redactions. -/
def GuardedExitEvidence.visitSourcesMut (rule : GuardedExitEvidence) :
    StateM σ GuardedExitEvidence := do
  let exitSource ← visitor rule.exitSource
  let conditions ← rule.conditions.mapM (BranchCondition.visit visitor)
  let effect ← rule.effect.visit visitor
  let dependencies ← rule.dependencies.mapM (RuleDependency.visit visitor)
  let localDefinitions ← visitDefinitions visitor rule.localDefinitions
  let redactions ← rule.redactions.mapM (SourceRedaction.visit visitor)
  pure { rule with
    exitSource := exitSource
    conditions := conditions
    effect := effect
    dependencies := dependencies
    localDefinitions := localDefinitions
    redactions := redactions }

/-- The calls of the visitor, from one state to another: what it was called with, and what it
left in its place. -/
def Calls : σ → List (EvidenceRef × EvidenceRef) → σ → Prop
  | s, [], s' => s' = s
  | s, call :: rest, s' => ∃ s₁, visitor call.1 s = (call.2, s₁) ∧ Calls s₁ rest s'

end Visit

/-! ### Sweeping a payload -/

/-- The references of two payloads are the two sides of the calls, and apart from them the
payloads are the same. -/
structure Sweep (calls : List (EvidenceRef × EvidenceRef)) (old new : Json) : Prop where
  references : ∃ pairs : List (EvidenceRef × EvidenceRef), pairs.Perm calls
    ∧ citations old = pairs.map (fun p => p.1.toJson)
    ∧ citations new = pairs.map fun p => p.2.toJson
  frame : blank new = blank old

structure SweepFields (calls : List (EvidenceRef × EvidenceRef))
    (old new : List (String × Json)) : Prop where
  references : ∃ pairs : List (EvidenceRef × EvidenceRef), pairs.Perm calls
    ∧ fieldsCitations old = pairs.map (fun p => p.1.toJson)
    ∧ fieldsCitations new = pairs.map fun p => p.2.toJson
  frame : fieldsBlank new = fieldsBlank old
  plain : isReference old = false ∧ isReference new = false

section Sweep

variable {calls calls' : List (EvidenceRef × EvidenceRef)} {old new : Json}
  {fields fields' : List (String × Json)}

theorem Sweep.perm (h : Sweep calls old new) (hperm : calls.Perm calls') : Sweep calls' old new := by
  obtain ⟨⟨pairs, hpairs, hold, hnew⟩, hframe⟩ := h
  exact ⟨⟨pairs, hpairs.trans hperm, hold, hnew⟩, hframe⟩

theorem sweep_reference (r r' : EvidenceRef) : Sweep [(r, r')] r.toJson r'.toJson :=
  ⟨⟨[(r, r')], .refl _, rfl, rfl⟩, rfl⟩

theorem sweep_same {j : Json} (h : citations j = []) : Sweep [] j j :=
  ⟨⟨[], .nil, h, h⟩, rfl⟩

theorem sweepFields_nil : SweepFields [] [] [] := ⟨⟨[], .nil, rfl, rfl⟩, rfl, rfl, rfl⟩

theorem SweepFields.cons (k : String) (hk : (k == "byte_start" || k == "byte_end") = false)
    (h : Sweep calls old new) (hrest : SweepFields calls' fields fields') :
    SweepFields (calls ++ calls') ((k, old) :: fields) ((k, new) :: fields') := by
  obtain ⟨⟨pairs, hpairs, hold, hnew⟩, hframe⟩ := h
  obtain ⟨⟨pairs', hpairs', hold', hnew'⟩, hframe', hplain, hplain'⟩ := hrest
  refine ⟨⟨pairs ++ pairs', hpairs.append hpairs', ?_, ?_⟩, ?_, ?_, ?_⟩
  · rw [fieldsCitations, hold, hold', List.map_append]
  · rw [fieldsCitations, hnew, hnew', List.map_append]
  · rw [fieldsBlank, fieldsBlank, hframe, hframe']
  · rw [isReference, List.any_cons, hk]
    exact hplain
  · rw [isReference, List.any_cons, hk]
    exact hplain'

theorem SweepFields.same (k : String) {j : Json}
    (hk : (k == "byte_start" || k == "byte_end") = false) (h : citations j = [])
    (hrest : SweepFields calls fields fields') :
    SweepFields calls ((k, j) :: fields) ((k, j) :: fields') := hrest.cons k hk (sweep_same h)

theorem SweepFields.obj (h : SweepFields calls fields fields') :
    Sweep calls (.obj fields) (.obj fields') := by
  obtain ⟨⟨pairs, hpairs, hold, hnew⟩, hframe, hplain, hplain'⟩ := h
  refine ⟨⟨pairs, hpairs, ?_, ?_⟩, ?_⟩
  · rw [citations, hplain]
    exact hold
  · rw [citations, hplain']
    exact hnew
  · rw [blank, blank, hplain, hplain', hframe]

end Sweep

/-! ### Visits sweep -/

/-- A visit of a part of a rule calls the visitor on the references of its payload. -/
def Sweeps {σ α : Type} (visitor : EvidenceRef → StateM σ EvidenceRef) (visit : StateM σ α)
    (old : Json) (wire : α → Json) : Prop :=
  ∀ s, ∃ calls, Calls visitor s calls (visit s).2 ∧ Sweep calls old (wire (visit s).1)

section Sweeps

variable {σ : Type} {visitor : EvidenceRef → StateM σ EvidenceRef}

theorem Calls.append : ∀ {calls calls' : List (EvidenceRef × EvidenceRef)} {s s1 s2 : σ},
    Calls visitor s calls s1 → Calls visitor s1 calls' s2 → Calls visitor s (calls ++ calls') s2
  | [], _, _, _, _, h, h' => h ▸ h'
  | _ :: _, _, _, _, _, ⟨s, hfirst, hrest⟩, h' => ⟨s, hfirst, hrest.append h'⟩

theorem calls_one (r : EvidenceRef) (s : σ) :
    Calls visitor s [(r, (visitor r s).1)] (visitor r s).2 := ⟨_, rfl, rfl⟩

theorem sweeps_mapM {α : Type} {visit : α → StateM σ α} {wire : α → Json}
    (h : ∀ a, Sweeps visitor (visit a) (wire a) wire) (l : List α) :
    Sweeps visitor (l.mapM visit) (.arr (l.map wire)) fun l' => .arr (l'.map wire) := by
  have hitems : ∀ (l : List α) (s : σ), ∃ calls pairs : List (EvidenceRef × EvidenceRef),
      Calls visitor s calls (l.mapM visit s).2 ∧ pairs.Perm calls
      ∧ itemsCitations (l.map wire) = pairs.map (fun p => p.1.toJson)
      ∧ itemsCitations ((l.mapM visit s).1.map wire) = pairs.map (fun p => p.2.toJson)
      ∧ itemsBlank ((l.mapM visit s).1.map wire) = itemsBlank (l.map wire) := by
    intro l
    induction l with
    | nil => exact fun s => ⟨[], [], rfl, .nil, rfl, rfl, rfl⟩
    | cons a rest ih =>
      intro s
      obtain ⟨calls, hcalls, ⟨pairs, hpairs, hold, hnew⟩, hframe⟩ := h a s
      obtain ⟨calls', pairs', hcalls', hpairs', hold', hnew', hframe'⟩ := ih (visit a s).2
      have hcons : (a :: rest).mapM visit s = ((visit a s).1 :: (rest.mapM visit (visit a s).2).1,
          (rest.mapM visit (visit a s).2).2) := by
        rw [List.mapM_cons]
        rfl
      rw [hcons]
      refine ⟨calls ++ calls', pairs ++ pairs', hcalls.append hcalls', hpairs.append hpairs',
        ?_, ?_, ?_⟩
      · rw [List.map_cons, itemsCitations, hold, hold', List.map_append]
      · rw [List.map_cons, itemsCitations, hnew, hnew', List.map_append]
      · rw [List.map_cons, List.map_cons, itemsBlank, itemsBlank, hframe, hframe']
  intro s
  obtain ⟨calls, pairs, hcalls, hpairs, hold, hnew, hframe⟩ := hitems l s
  refine ⟨calls, hcalls, ⟨pairs, hpairs, ?_, ?_⟩, ?_⟩
  · rw [citations, hold]
  · rw [citations, hnew]
  · rw [blank, blank, hframe]

theorem itemsCitations_texts {α : Type} (text : α → String) (l : List α) :
    itemsCitations (l.map fun a => .str (text a)) = [] := by
  induction l with
  | nil => rfl
  | cons a rest ih => exact ih

theorem citations_literal (literal : Option LiteralEvidence) :
    citations (.opt LiteralEvidence.toJson literal) = [] := by
  cases literal with
  | none => rfl
  | some literal =>
    cases literal with
    | known value => cases value <;> rfl
    | withheld kind reasons =>
      show [] ++ ([] ++ (itemsCitations _ ++ [])) = []
      rw [itemsCitations_texts]
      rfl

theorem citations_kind (kind : DefinitionExpressionKind) : citations kind.toJson = [] := by
  cases kind <;> rfl

theorem citations_interpretation (i : Interpretation) : citations i.toJson = [] := by
  have hgaps : itemsCitations (i.gapIds.map .str) = [] := itemsCitations_texts (fun gap => gap) _
  show [] ++ ([] ++ (itemsCitations (i.gapIds.map .str) ++ [])) = []
  rw [hgaps]
  rfl

variable (visitor)

theorem SourceExpression.sweeps (e : SourceExpression) :
    Sweeps visitor (e.visit visitor) e.toJson SourceExpression.toJson := by
  intro s
  refine ⟨[(e.source, (visitor e.source s).1)], calls_one e.source s, ?_⟩
  have htail := ((((sweepFields_nil.same "literal" rfl (citations_literal e.literal)).same "capture"
    (j := .str e.capture.text) rfl rfl).same "display" (j := .str e.display.text) rfl rfl).same
    "syntax_kind" (j := .str e.syntaxKind) rfl rfl)
  exact (htail.cons "source" rfl (sweep_reference _ _)).obj

theorem BranchCondition.sweeps (c : BranchCondition) :
    Sweeps visitor (c.visit visitor) c.toJson BranchCondition.toJson := by
  intro s
  obtain ⟨calls, hcalls, hsweep⟩ := c.expression.sweeps visitor (visitor c.branchSource s).2
  refine ⟨_, (calls_one c.branchSource s).append hcalls, ?_⟩
  have htail := (sweepFields_nil.same "polarity" (j := .str c.polarity.text) rfl rfl).cons
    "expression" rfl hsweep
  exact ((htail.cons "branch_source" rfl (sweep_reference _ _)).obj).perm
    (.of_eq (congrArg _ (List.append_nil _)))

theorem LocalExit.sweeps (effect : LocalExit) :
    Sweeps visitor (effect.visit visitor) effect.toJson LocalExit.toJson := by
  intro s
  cases effect with
  | «return» value =>
    cases value with
    | none => exact ⟨[], rfl, sweep_same rfl⟩
    | some value =>
      obtain ⟨calls, hcalls, hsweep⟩ := value.sweeps visitor s
      refine ⟨calls, hcalls, ?_⟩
      exact (((sweepFields_nil.cons "value" rfl hsweep).same "kind" (j := .str "return") rfl
        rfl).obj).perm (.of_eq (List.append_nil _))
  | throw value =>
    obtain ⟨calls, hcalls, hsweep⟩ := value.sweeps visitor s
    refine ⟨calls, hcalls, ?_⟩
    exact (((sweepFields_nil.cons "value" rfl hsweep).same "kind" (j := .str "throw") rfl
      rfl).obj).perm (.of_eq (List.append_nil _))

theorem DependencyResolution.sweeps (resolution : DependencyResolution) :
    Sweeps visitor (resolution.visit visitor) resolution.toJson DependencyResolution.toJson := by
  intro s
  cases resolution with
  | binding bindingId declaration =>
    refine ⟨_, calls_one declaration s, ?_⟩
    exact (((sweepFields_nil.cons "declaration" rfl (sweep_reference _ _)).same "binding_id"
      (j := .str bindingId) rfl rfl).same "kind" (j := .str "binding") rfl rfl).obj
  | target nodeId | unresolved gapId => exact ⟨[], rfl, sweep_same rfl⟩

theorem RuleDependency.sweeps (d : RuleDependency) :
    Sweeps visitor (d.visit visitor) d.toJson RuleDependency.toJson := by
  intro s
  obtain ⟨calls, hcalls, hsweep⟩ := d.resolution.sweeps visitor (visitor d.source s).2
  refine ⟨_, (calls_one d.source s).append hcalls, ?_⟩
  exact ((((sweepFields_nil.cons "resolution" rfl hsweep).cons "source" rfl
    (sweep_reference _ _)).same "role" (j := .str d.role.text) rfl rfl).obj).perm
    (.of_eq (congrArg _ (List.append_nil _)))

theorem DefinitionDependency.sweeps (d : DefinitionDependency) :
    Sweeps visitor (d.visit visitor) d.toJson DefinitionDependency.toJson := by
  intro s
  obtain ⟨calls, hcalls, hsweep⟩ := d.resolution.sweeps visitor (visitor d.source s).2
  refine ⟨_, (calls_one d.source s).append hcalls, ?_⟩
  exact (((sweepFields_nil.cons "resolution" rfl hsweep).cons "source" rfl
    (sweep_reference _ _)).obj).perm (.of_eq (congrArg _ (List.append_nil _)))

theorem DefinitionExpressionNode.sweeps (n : DefinitionExpressionNode) :
    Sweeps visitor (n.visit visitor) n.toJson DefinitionExpressionNode.toJson := by
  intro s
  obtain ⟨calls, hcalls, hsweep⟩ := n.expression.sweeps visitor s
  refine ⟨calls, hcalls, ?_⟩
  exact (((sweepFields_nil.same "kind" rfl (citations_kind n.kind)).cons "expression" rfl
    hsweep).obj).perm (.of_eq (List.append_nil _))

theorem DefinitionExpression.sweeps (e : DefinitionExpression) :
    Sweeps visitor (e.visit visitor) e.toJson DefinitionExpression.toJson := by
  intro s
  obtain ⟨calls, hcalls, hsweep⟩ := sweeps_mapM (DefinitionExpressionNode.sweeps visitor) e.nodes s
  refine ⟨calls, hcalls, ?_⟩
  exact (((sweepFields_nil.cons "nodes" rfl hsweep).same "root" (j := .nat e.root) rfl
    rfl).obj).perm (.of_eq (List.append_nil _))

theorem LocalDefinition.sweeps (d : LocalDefinition) :
    Sweeps visitor (d.visit visitor) d.toJson LocalDefinition.toJson := by
  intro s
  have huse : ∀ r, Sweeps visitor (visitor r) r.toJson EvidenceRef.toJson := fun r s =>
    ⟨_, calls_one r s, sweep_reference _ _⟩
  obtain ⟨uses, huses, hsweepUses⟩ := sweeps_mapM huse d.uses (visitor d.declaration s).2
  obtain ⟨initializer, hinitializer, hsweepInitializer⟩ :=
    d.initializer.sweeps visitor _
  obtain ⟨expression, hexpression, hsweepExpression⟩ :=
    d.expression.sweeps visitor _
  obtain ⟨dependencies, hdependencies, hsweepDependencies⟩ :=
    sweeps_mapM (DefinitionDependency.sweeps visitor) d.dependencies _
  refine ⟨_, (calls_one d.declaration s).append (huses.append (hinitializer.append
    (hexpression.append hdependencies))), ?_⟩
  have htail := ((((sweepFields_nil.cons "dependencies" rfl hsweepDependencies).cons "expression"
    rfl hsweepExpression).cons "initializer" rfl hsweepInitializer).cons "uses" rfl
    hsweepUses).cons "declaration" rfl
    (sweep_reference d.declaration (visitor d.declaration s).1)
  exact ((htail.same "binding_id" (j := .str d.bindingId) rfl rfl).obj).perm
    (.of_eq (by rw [List.append_nil]))

theorem SourceRedaction.sweeps (r : SourceRedaction) :
    Sweeps visitor (r.visit visitor) r.toJson SourceRedaction.toJson := by
  intro s
  refine ⟨_, calls_one r.source s, ?_⟩
  exact ((sweepFields_nil.same "reason" (j := .str r.reason.text) rfl rfl).cons "source" rfl
    (sweep_reference _ _)).obj

theorem sweep_definitions (o : Option (List LocalDefinition)) (s : σ) :
    ∃ calls, Calls visitor s calls (visitDefinitions visitor o s).2
      ∧ SweepFields calls
        (o.toList.map fun definitions =>
          ("local_definitions", .arr (definitions.map LocalDefinition.toJson)))
        ((visitDefinitions visitor o s).1.toList.map fun definitions =>
          ("local_definitions", .arr (definitions.map LocalDefinition.toJson))) := by
  cases o with
  | none => exact ⟨[], rfl, sweepFields_nil⟩
  | some definitions =>
    obtain ⟨calls, hcalls, hsweep⟩ := sweeps_mapM (LocalDefinition.sweeps visitor) definitions s
    refine ⟨calls ++ [], ?_, sweepFields_nil.cons "local_definitions" rfl hsweep⟩
    rw [List.append_nil]
    exact hcalls

/-- **A visit of a rule.**  The visitor is called once on each reference of the payload, in turn,
and leaves its results in their places and nothing else changed. -/
theorem sweep_rule (rule : GuardedExitEvidence) :
    Sweeps visitor (rule.visitSourcesMut visitor) rule.toJson GuardedExitEvidence.toJson := by
  intro s
  obtain ⟨conditions, hconditions, hsweepConditions⟩ :=
    sweeps_mapM (BranchCondition.sweeps visitor) rule.conditions (visitor rule.exitSource s).2
  obtain ⟨effect, heffect, hsweepEffect⟩ := rule.effect.sweeps visitor _
  obtain ⟨dependencies, hdependencies, hsweepDependencies⟩ :=
    sweeps_mapM (RuleDependency.sweeps visitor) rule.dependencies _
  obtain ⟨definitions, hdefinitions, hsweepDefinitions⟩ :=
    sweep_definitions visitor rule.localDefinitions _
  obtain ⟨redactions, hredactions, hsweepRedactions⟩ :=
    sweeps_mapM (SourceRedaction.sweeps visitor) rule.redactions _
  refine ⟨_, (calls_one rule.exitSource s).append (hconditions.append (heffect.append
    (hdependencies.append (hdefinitions.append hredactions)))), ?_⟩
  have htail := (((((((hsweepDefinitions.cons "redactions" rfl hsweepRedactions).same
    "interpretation" rfl (citations_interpretation rule.interpretation)).cons "dependencies" rfl
    hsweepDependencies).cons "effect" rfl hsweepEffect).cons "conditions" rfl
    hsweepConditions).same "source_order" (j := .nat rule.sourceOrder) rfl rfl).cons "exit_source"
    rfl (sweep_reference rule.exitSource (visitor rule.exitSource s).1))
  refine ((((htail.same "owner_id" (j := .str rule.ownerId) rfl rfl).same "kind"
    (j := .str rule.kind.text) rfl rfl).same "schema_version" (j := .nat rule.schemaVersion) rfl
    rfl).obj).perm ?_
  -- on the wire the redactions come before the definitions
  refine List.Perm.cons _ (List.Perm.append_left _ (List.Perm.append_left _
    (List.Perm.append_left _ ?_)))
  exact List.perm_append_comm.append_left _

end Sweeps

end Rules

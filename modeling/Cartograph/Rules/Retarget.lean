/-
Retargeting a rule to another commit.

A visitor without a state maps every reference.  When it sets the commit, no reference keeps the
old one, and all checks of the validator are passed again: they look at spans, at equal references
and at references in one source, and in a valid rule of version 2 all references have one commit.

* `visitSourcesMut_pure` — a visitor without a state;
* `validate_retarget` — a valid rule stays valid;
* `sources_visited` — the whole.
-/
import Cartograph.Rules.Arena
import Cartograph.Rules.Sources

namespace Rules

open Investigation Checked IndexTree

/-! ### Visitors without a state -/

section Map

variable (f : EvidenceRef → EvidenceRef)

def SourceExpression.map (e : SourceExpression) : SourceExpression :=
  { e with source := f e.source }

def BranchCondition.map (c : BranchCondition) : BranchCondition :=
  { c with branchSource := f c.branchSource, expression := c.expression.map f }

def LocalExit.map : LocalExit → LocalExit
  | .return value => .return (value.map (SourceExpression.map f))
  | .throw value => .throw (value.map f)

def DependencyResolution.map : DependencyResolution → DependencyResolution
  | .binding bindingId declaration => .binding bindingId (f declaration)
  | other => other

def RuleDependency.map (d : RuleDependency) : RuleDependency :=
  { d with source := f d.source, resolution := d.resolution.map f }

def DefinitionDependency.map (d : DefinitionDependency) : DefinitionDependency :=
  { d with source := f d.source, resolution := d.resolution.map f }

def DefinitionExpressionNode.map (n : DefinitionExpressionNode) : DefinitionExpressionNode :=
  { n with expression := n.expression.map f }

def DefinitionExpression.map (e : DefinitionExpression) : DefinitionExpression :=
  { e with nodes := e.nodes.map (DefinitionExpressionNode.map f) }

def LocalDefinition.map (d : LocalDefinition) : LocalDefinition :=
  { d with
    declaration := f d.declaration
    uses := d.uses.map f
    initializer := d.initializer.map f
    expression := d.expression.map f
    dependencies := d.dependencies.map (DefinitionDependency.map f) }

def SourceRedaction.map (r : SourceRedaction) : SourceRedaction :=
  { r with source := f r.source }

def GuardedExitEvidence.map (rule : GuardedExitEvidence) : GuardedExitEvidence :=
  { rule with
    exitSource := f rule.exitSource
    conditions := rule.conditions.map (BranchCondition.map f)
    effect := rule.effect.map f
    dependencies := rule.dependencies.map (RuleDependency.map f)
    localDefinitions := rule.localDefinitions.map (List.map (LocalDefinition.map f))
    redactions := rule.redactions.map (SourceRedaction.map f) }

end Map

theorem mapM_of_pure {σ α : Type} {visit : α → StateM σ α} {g : α → α}
    (h : ∀ a, visit a = pure (g a)) (l : List α) : l.mapM visit = pure (l.map g) := by
  rw [show visit = fun a => pure (g a) from funext h]
  exact List.mapM_pure

section Pure

variable (σ : Type) (f : EvidenceRef → EvidenceRef)

/-- The visitor that maps. -/
def mapping (r : EvidenceRef) : StateM σ EvidenceRef := pure (f r)

variable {σ}

theorem mapping_eq (r : EvidenceRef) : mapping σ f r = pure (f r) := rfl

theorem BranchCondition.visit_pure (c : BranchCondition) :
    c.visit (mapping σ f) = pure (c.map f) := rfl

theorem LocalExit.visit_pure (effect : LocalExit) :
    effect.visit (mapping σ f) = pure (effect.map f) := by
  cases effect with
  | «return» value => cases value <;> rfl
  | throw value => rfl

theorem DependencyResolution.visit_pure (resolution : DependencyResolution) :
    resolution.visit (mapping σ f) = pure (resolution.map f) := by
  cases resolution <;> rfl

theorem RuleDependency.visit_pure (d : RuleDependency) :
    d.visit (mapping σ f) = pure (d.map f) := by
  rw [RuleDependency.visit, DependencyResolution.visit_pure]
  rfl

theorem DefinitionDependency.visit_pure (d : DefinitionDependency) :
    d.visit (mapping σ f) = pure (d.map f) := by
  rw [DefinitionDependency.visit, DependencyResolution.visit_pure]
  rfl

theorem DefinitionExpressionNode.visit_pure (n : DefinitionExpressionNode) :
    n.visit (mapping σ f) = pure (n.map f) := rfl

theorem SourceRedaction.visit_pure (r : SourceRedaction) :
    r.visit (mapping σ f) = pure (r.map f) := rfl

theorem DefinitionExpression.visit_pure (e : DefinitionExpression) :
    e.visit (mapping σ f) = pure (e.map f) := by
  rw [DefinitionExpression.visit, mapM_of_pure (DefinitionExpressionNode.visit_pure f)]
  rfl

theorem LocalDefinition.visit_pure (d : LocalDefinition) :
    d.visit (mapping σ f) = pure (d.map f) := by
  rw [LocalDefinition.visit, mapM_of_pure (mapping_eq f), DefinitionExpression.visit_pure,
    mapM_of_pure (DefinitionDependency.visit_pure f)]
  rfl

theorem visitDefinitions_pure (o : Option (List LocalDefinition)) :
    visitDefinitions (mapping σ f) o
      = pure (o.map (List.map (LocalDefinition.map f))) := by
  cases o with
  | none => rfl
  | some definitions =>
    rw [visitDefinitions, mapM_of_pure (LocalDefinition.visit_pure f)]
    rfl

/-- **A visitor without a state** maps the references. -/
theorem visitSourcesMut_pure (rule : GuardedExitEvidence) :
    rule.visitSourcesMut (mapping σ f) = pure (rule.map f) := by
  rw [GuardedExitEvidence.visitSourcesMut, mapM_of_pure (BranchCondition.visit_pure f),
    LocalExit.visit_pure, mapM_of_pure (RuleDependency.visit_pure f), visitDefinitions_pure,
    mapM_of_pure (SourceRedaction.visit_pure f)]
  rfl

end Pure

/-! ### Another commit -/

/-- The reference, in another commit. -/
def moved (commit : String) (r : EvidenceRef) : EvidenceRef := { r with commitSha := commit }

/-- A rule whose references are all set to one commit. -/
def GuardedExitEvidence.retarget (commit : String) (rule : GuardedExitEvidence) :
    GuardedExitEvidence := (rule.visitSourcesMut (mapping Unit (moved commit)) ()).1

theorem retarget_eq (commit : String) (rule : GuardedExitEvidence) :
    rule.retarget commit = rule.map (moved commit) := by
  rw [GuardedExitEvidence.retarget, visitSourcesMut_pure]
  rfl

variable {a b : EvidenceRef} {used : List ℕ} {definitions : List LocalDefinition}
  {rule : GuardedExitEvidence} {primary : EvidenceRef}

theorem moved_inj {commit : String} (ha : sameSource a primary = true)
    (hb : sameSource b primary = true) (h : moved commit a = moved commit b) : a = b := by
  obtain ⟨repo, path, start, stop, sha⟩ := a
  obtain ⟨repo', path', start', stop', sha'⟩ := b
  simp only [sameSource, Bool.and_eq_true, beq_iff_eq] at ha hb
  simp only [moved, EvidenceRef.mk.injEq, and_true] at h ⊢
  obtain ⟨hrepo, hpath, hstart, hstop⟩ := h
  exact ⟨hrepo, hpath, hstart, hstop, ha.2.trans hb.2.symm⟩

variable {reference : EvidenceRef} {value : SourceExpression} {node : DefinitionExpressionNode}
  {used' : List ℕ} {index : ℕ} {f : EvidenceRef → EvidenceRef}

section Moved

variable {commit : String}

/-! ### Checks that are passed again -/

theorem sameSource_moved (h : sameSource a b = true) :
    sameSource (moved commit a) (moved commit b) = true := by
  simp only [sameSource, Bool.and_eq_true, beq_iff_eq] at h ⊢
  exact ⟨h.1, rfl⟩

theorem contains_moved (h : contains a b = true) :
    contains (moved commit a) (moved commit b) = true := by
  simp only [contains, Bool.and_eq_true] at h ⊢
  exact ⟨⟨sameSource_moved h.1.1, h.1.2⟩, h.2⟩

theorem sameSource_of_checked (h : checkedSource reference primary = .ok ()) :
    sameSource reference primary = true:= by
  obtain ⟨⟨⟩, -, h⟩ := bind_eq_ok.mp h
  obtain ⟨⟨⟩, -, h⟩ := bind_eq_ok.mp h
  exact ensure_eq_ok.mp h

theorem resolution_moved (r : DependencyResolution) :
    resolution (r.map (moved commit)) = resolution r := by
  cases r <;> rfl

variable {gaps : List String}

section

variable (hid : boundedId commit = .ok ())
include hid

theorem checkedSource_moved (h : checkedSource reference primary = .ok ()) :
    checkedSource (moved commit reference) (moved commit primary) = .ok () := by
  have hsame := sameSource_of_checked h
  obtain ⟨⟨⟩, hspan, h⟩ := bind_eq_ok.mp h
  obtain ⟨⟨⟩, hids, -⟩ := bind_eq_ok.mp h
  refine bind_eq_ok.mpr ⟨(), hspan, bind_eq_ok.mpr ⟨(), forM_eq_ok.mpr ?_,
    ensure_of (sameSource_moved hsame) _⟩⟩
  have hids' := forM_eq_ok.mp hids
  intro value hvalue
  simp only [moved, List.mem_cons, List.not_mem_nil, or_false] at hvalue
  rcases hvalue with rfl | rfl | rfl
  · exact hids' _ (by simp)
  · exact hids' _ (by simp)
  · exact hid

theorem checkedExpression_moved (h : checkedExpression value primary = .ok ()) :
    checkedExpression (value.map (moved commit)) (moved commit primary) = .ok () := by
  obtain ⟨⟨⟩, hexpression, h⟩ := bind_eq_ok.mp h
  obtain ⟨⟨⟩, hsource, h⟩ := bind_eq_ok.mp h
  exact bind_eq_ok.mpr ⟨(), hexpression, bind_eq_ok.mpr ⟨(), checkedSource_moved hid hsource, h⟩⟩

theorem checkedResolution_moved {value : DependencyResolution}
    (h : checkedResolution value primary gaps = .ok ()) :
    checkedResolution (value.map (moved commit)) (moved commit primary) gaps = .ok () := by
  cases value with
  | binding bindingId declaration =>
    obtain ⟨⟨⟩, hbinding, h⟩ := bind_eq_ok.mp h
    exact bind_eq_ok.mpr ⟨(), hbinding, checkedSource_moved hid h⟩
  | target nodeId => exact h
  | unresolved gapId => exact h

theorem checkCondition_moved {condition : BranchCondition}
    (h : checkCondition primary condition = .ok ()) :
    checkCondition (moved commit primary) (condition.map (moved commit)) = .ok () := by
  obtain ⟨⟨⟩, hsource, h⟩ := bind_eq_ok.mp h
  obtain ⟨⟨⟩, hexpression, h⟩ := bind_eq_ok.mp h
  exact bind_eq_ok.mpr ⟨(), checkedSource_moved hid hsource, bind_eq_ok.mpr
    ⟨(), checkedExpression_moved hid hexpression, ensure_of (contains_moved (ensure_eq_ok.mp h)) _⟩⟩

theorem checkDependency_moved {dependency : RuleDependency}
    (h : checkDependency primary gaps dependency = .ok ()) :
    checkDependency (moved commit primary) gaps (dependency.map (moved commit)) = .ok () := by
  obtain ⟨⟨⟩, hsource, h⟩ := bind_eq_ok.mp h
  exact bind_eq_ok.mpr ⟨(), checkedSource_moved hid hsource, checkedResolution_moved hid h⟩

theorem checkInput_moved {initializer : SourceExpression}
    {dependency : DefinitionDependency}
    (h : checkInput initializer primary gaps dependency = .ok ()) :
    checkInput (initializer.map (moved commit)) (moved commit primary) gaps
      (dependency.map (moved commit)) = .ok () := by
  obtain ⟨⟨⟩, hsource, h⟩ := bind_eq_ok.mp h
  obtain ⟨⟨⟩, hspan, h⟩ := bind_eq_ok.mp h
  exact bind_eq_ok.mpr ⟨(), checkedSource_moved hid hsource, bind_eq_ok.mpr
    ⟨(), ensure_of (contains_moved (ensure_eq_ok.mp hspan)) _, checkedResolution_moved hid h⟩⟩

theorem checkUses_moved {declaration primary : EvidenceRef} :
    ∀ {l : List EvidenceRef} {previous : Option (ℕ × ℕ)},
      checkUses declaration primary previous l = .ok () →
      checkUses (moved commit declaration) (moved commit primary) previous
        (l.map (moved commit)) = .ok ()
  | [], _, _ => rfl
  | usage :: rest, _, h => by
    obtain ⟨⟨⟩, hsource, h⟩ := bind_eq_ok.mp h
    obtain ⟨⟨⟩, horder, h⟩ := bind_eq_ok.mp h
    exact bind_eq_ok.mpr ⟨(), checkedSource_moved hid hsource,
      bind_eq_ok.mpr ⟨(), horder, checkUses_moved h⟩⟩

end

/-! ### The arena -/

section Arena

variable {definition : LocalDefinition}

theorem getElem?_moved (i : ℕ) : (definition.map (moved commit)).expression.nodes[i]?
    = (definition.expression.nodes[i]?).map (DefinitionExpressionNode.map (moved commit)) :=
  List.getElem?_map

theorem takeDependency_moved {input : DefinitionDependency}
    (h : takeDependency definition node used index = .ok (input, used')) :
    takeDependency (definition.map (moved commit)) (node.map (moved commit)) used index
      = .ok (input.map (moved commit), used') := by
  obtain ⟨⟨⟩, hnew, h⟩ := bind_eq_ok.mp h
  obtain ⟨input', hfound, h⟩ := bind_eq_ok.mp h
  obtain ⟨⟨⟩, hsource, h⟩ := bind_eq_ok.mp h
  obtain ⟨rfl, rfl⟩ := Prod.mk.inj (pure_eq_ok.mp h)
  have hmoved : (definition.map (moved commit)).dependencies[index]?
      = some (input'.map (moved commit)) := by
    rw [LocalDefinition.map, List.getElem?_map, orFail_eq_ok.mp hfound]
    rfl
  refine bind_eq_ok.mpr ⟨(), hnew, bind_eq_ok.mpr ⟨_, orFail_eq_ok.mpr hmoved,
    bind_eq_ok.mpr ⟨(), ensure_of ?_ _, rfl⟩⟩⟩
  exact congrArg (moved commit) (ensure_eq_ok.mp hsource)

theorem isUnresolved_map (f : EvidenceRef → EvidenceRef) (r : DependencyResolution) :
    (r.map f).isUnresolved = r.isUnresolved := by
  cases r <;> rfl

theorem checkKind_moved (h : checkKind definition gaps node used = .ok used') :
    checkKind (definition.map (moved commit)) gaps (node.map (moved commit)) used = .ok used' := by
  obtain ⟨e, kind⟩ := node
  cases kind with
  | identifier index =>
    obtain ⟨⟨input, used1⟩, htake, h⟩ := bind_eq_ok.mp h
    obtain ⟨⟨⟩, hruntime, h⟩ := bind_eq_ok.mp h
    refine bind_eq_ok.mpr ⟨_, takeDependency_moved htake, bind_eq_ok.mpr ⟨(), ensure_of ?_ _, h⟩⟩
    intro hthis
    exact (isUnresolved_map _ _).trans (ensure_eq_ok.mp hruntime hthis)
  | member object property computed optional index =>
    obtain ⟨⟨input, used1⟩, htake, h⟩ := bind_eq_ok.mp h
    obtain ⟨⟨⟩, hvalue, h⟩ := bind_eq_ok.mp h
    obtain ⟨propertyNode, hfound, h⟩ := bind_eq_ok.mp h
    refine bind_eq_ok.mpr ⟨_, takeDependency_moved htake, bind_eq_ok.mpr ⟨(), ensure_of ?_ _,
      bind_eq_ok.mpr ⟨propertyNode.map (moved commit), orFail_eq_ok.mpr ?_, h⟩⟩⟩
    · exact (isUnresolved_map _ _).trans (ensure_eq_ok.mp hvalue)
    · rw [getElem?_moved, orFail_eq_ok.mp hfound]
      rfl
  | _ => exact h

theorem checkChildren_moved {node : DefinitionExpressionNode} : ∀ {l : List ℕ} {e : Option ℕ},
    checkChildren definition node e l = .ok () →
    checkChildren (definition.map (moved commit)) (node.map (moved commit)) e l = .ok ()
  | [], _, _ => rfl
  | index :: rest, _, h => by
    obtain ⟨child, hfound, h⟩ := bind_eq_ok.mp h
    obtain ⟨⟨⟩, hinside, h⟩ := bind_eq_ok.mp h
    obtain ⟨hcontains, hafter⟩ := ensure_eq_ok.mp hinside
    refine bind_eq_ok.mpr ⟨child.map (moved commit), orFail_eq_ok.mpr ?_, bind_eq_ok.mpr
      ⟨(), ensure_of ⟨contains_moved hcontains, hafter⟩ _, checkChildren_moved h⟩⟩
    rw [getElem?_moved, orFail_eq_ok.mp hfound]
    rfl

theorem visitNode_moved (hid : boundedId commit = .ok ()) {result : List ℕ × List ℕ}
    (h : visitNode definition primary gaps used index = .ok result) :
    visitNode (definition.map (moved commit)) (moved commit primary) gaps used index
      = .ok result := by
  obtain ⟨node, hfound, h⟩ := bind_eq_ok.mp h
  obtain ⟨⟨⟩, hexpression, h⟩ := bind_eq_ok.mp h
  obtain ⟨⟨⟩, hsyntax, h⟩ := bind_eq_ok.mp h
  obtain ⟨used1, hkind, h⟩ := bind_eq_ok.mp h
  obtain ⟨⟨⟩, hchildren, h⟩ := bind_eq_ok.mp h
  refine bind_eq_ok.mpr ⟨node.map (moved commit), orFail_eq_ok.mpr ?_,
    bind_eq_ok.mpr ⟨(), checkedExpression_moved hid hexpression, bind_eq_ok.mpr ⟨(), hsyntax,
      bind_eq_ok.mpr ⟨used1, checkKind_moved hkind,
        bind_eq_ok.mpr ⟨(), checkChildren_moved hchildren, h⟩⟩⟩⟩⟩
  rw [getElem?_moved, orFail_eq_ok.mp hfound]
  rfl

theorem arena_moved (hid : boundedId commit = .ok ()) (h : arena definition primary gaps = .ok ()) :
    arena (definition.map (moved commit)) (moved commit primary) gaps = .ok () := by
  obtain ⟨⟨⟩, hroot, h⟩ := bind_eq_ok.mp h
  obtain ⟨w, hread, h⟩ := bind_eq_ok.mp h
  obtain ⟨⟨⟩, hreached, hused⟩ := bind_eq_ok.mp h
  have hlength : (definition.map (moved commit)).expression.nodes.length
      = definition.expression.nodes.length := List.length_map _
  refine bind_eq_ok.mpr ⟨(), ensure_of ?_ _, bind_eq_ok.mpr ⟨w, ?_, bind_eq_ok.mpr ⟨(), ?_, ?_⟩⟩⟩
  · obtain ⟨node, hnode, hsame⟩ := (Option.any_eq_true _ _).mp (ensure_eq_ok.mp hroot)
    have hfound := @getElem?_moved commit definition definition.expression.root
    rw [hnode] at hfound
    refine (Option.any_eq_true _ _).mpr ⟨_, hfound, decide_eq_true ?_⟩
    exact congrArg (SourceExpression.map (moved commit)) (of_decide_eq_true hsame)
  · rw [readArena, hlength]
    exact run_mono (fun s i r hvisit => visitNode_moved hid hvisit) hread
  · rw [hlength]
    exact hreached
  · have hlength : (definition.map (moved commit)).dependencies.length
        = definition.dependencies.length := List.length_map _
    rw [hlength]
    exact hused

end Arena

/-! ### Definitions -/

theorem checkDefinition_moved (hid : boundedId commit = .ok ()) {definition : LocalDefinition}
    (h : checkDefinition definition primary gaps = .ok ()) :
    checkDefinition (definition.map (moved commit)) (moved commit primary) gaps = .ok () := by
  have h := checkDefinition_ok.mp h
  refine checkDefinition_ok.mpr ?_
  exact {
    declaration := checkedSource_moved hid h.declaration
    initializer := checkedExpression_moved hid h.initializer
    inside := contains_moved h.inside
    used := List.isEmpty_map.trans h.used
    uses := checkUses_moved hid h.uses
    inputs := fun input hinput => by
      obtain ⟨input, hmem, rfl⟩ := List.mem_map.mp hinput
      exact checkInput_moved hid (h.inputs input hmem)
    arena := arena_moved hid h.arena }

theorem checkDefinitions_moved (hid : boundedId commit = .ok ()) :
    ∀ {l : List LocalDefinition} {ids : List String} {declarations : List (ℕ × ℕ)},
      checkDefinitions primary gaps ids declarations l = .ok () →
      checkDefinitions (moved commit primary) gaps ids declarations
        (l.map (LocalDefinition.map (moved commit))) = .ok ()
  | [], _, _, _ => rfl
  | definition :: rest, _, _, h => by
    obtain ⟨⟨⟩, hbinding, h⟩ := bind_eq_ok.mp h
    obtain ⟨⟨⟩, hnew, h⟩ := bind_eq_ok.mp h
    obtain ⟨⟨⟩, hfirst, h⟩ := bind_eq_ok.mp h
    exact bind_eq_ok.mpr ⟨(), hbinding, bind_eq_ok.mpr ⟨(), hnew, bind_eq_ok.mpr
      ⟨(), checkDefinition_moved hid hfirst, checkDefinitions_moved hid h⟩⟩⟩

/-! ### Links -/

theorem zipIdx_moved (definitions : List LocalDefinition) :
    (definitions.map (LocalDefinition.map (moved commit))).zipIdx
      = definitions.zipIdx.map (Prod.map (LocalDefinition.map (moved commit)) id) :=
  List.zipIdx_map ..

/-- A dependency that was observed, in another commit. -/
def movedEvent (commit : String) (event : Option ℕ × EvidenceRef × DependencyResolution) :
    Option ℕ × EvidenceRef × DependencyResolution :=
  (event.1, moved commit event.2.1, event.2.2.map (moved commit))

theorem observe_moved {l l' : Links} {event : Option ℕ × EvidenceRef × DependencyResolution}
    (huses : ∀ d ∈ definitions, ∀ usage ∈ d.uses, sameSource usage primary = true)
    (hsource : sameSource event.2.1 primary = true) (h : observe definitions l event = .ok l') :
    observe (definitions.map (LocalDefinition.map (moved commit))) l (movedEvent commit event)
      = .ok l' := by
  obtain ⟨parent, source, value⟩ := event
  cases value with
  | target nodeId => exact h
  | unresolved gapId => exact h
  | binding bindingId declaration =>
    -- moving keeps the ids that a binding is found by
    have hfind : (definitions.map (LocalDefinition.map (moved commit))).zipIdx.find?
        (fun d => d.1.bindingId == bindingId)
        = (definitions.zipIdx.find? fun d => d.1.bindingId == bindingId).map
          (Prod.map (LocalDefinition.map (moved commit)) id) := by
      rw [zipIdx_moved, List.find?_map]
      rfl
    unfold observe at h
    show observe _ l (parent, moved commit source, .binding bindingId (moved commit declaration)) = _
    unfold observe
    simp only [hfind]
    cases hfound : definitions.zipIdx.find? fun d => d.1.bindingId == bindingId with
    | none =>
      simp only [hfound] at h
      exact h
    | some found =>
      obtain ⟨definition, index⟩ := found
      simp only [hfound] at h
      obtain ⟨⟨⟩, hsame, h⟩ := bind_eq_ok.mp h
      have hmem : definition ∈ definitions :=
        List.fst_mem_of_mem_zipIdx (List.mem_of_find?_eq_some hfound)
      -- within one source, moving is injective
      have hadmitted : (definition.uses.map (moved commit)).contains (moved commit source)
          = definition.uses.contains source := by
        rw [Bool.eq_iff_iff, List.contains_iff_mem, List.contains_iff_mem, List.mem_map]
        constructor
        · rintro ⟨usage, husage, heq⟩
          have hsame' : usage = source := moved_inj (huses definition hmem usage husage) hsource heq
          exact hsame' ▸ husage
        · exact fun husage => ⟨source, husage, rfl⟩
      refine bind_eq_ok.mpr ⟨(), ensure_of (congrArg (moved commit) (ensure_eq_ok.mp hsame)) _, ?_⟩
      show (if (definition.uses.map (moved commit)).contains (moved commit source) = true then _
        else _) = _
      rw [hadmitted]
      exact h

theorem foldlM_observe_moved {definitions : List LocalDefinition}
    (huses : ∀ d ∈ definitions, ∀ usage ∈ d.uses, sameSource usage primary = true) :
    ∀ {l : List (Option ℕ × EvidenceRef × DependencyResolution)} {s s' : Links},
      (∀ event ∈ l, sameSource event.2.1 primary = true) →
      l.foldlM (observe definitions) s = .ok s' →
      (l.map (movedEvent commit)).foldlM
        (observe (definitions.map (LocalDefinition.map (moved commit)))) s = .ok s'
  | [], _, _, _, h => h
  | event :: rest, _, _, hsources, h => by
    obtain ⟨s1, hfirst, hrest⟩ := bind_eq_ok.mp h
    obtain ⟨hsource, hsources⟩ := List.forall_mem_cons.mp hsources
    exact bind_eq_ok.mpr ⟨s1, observe_moved huses hsource hfirst,
      foldlM_observe_moved huses hsources hrest⟩

theorem events_moved (rule : GuardedExitEvidence) (definitions : List LocalDefinition) :
    events (rule.map (moved commit)) (definitions.map (LocalDefinition.map (moved commit)))
      = (events rule definitions).map (movedEvent commit) := by
  rw [events, events, List.map_append, zipIdx_moved, List.flatMap_map, List.map_flatMap]
  congr 1
  · rw [GuardedExitEvidence.map, List.filter_map, List.map_map, List.map_map]
    rfl
  · refine List.flatMap_congr fun d _ => ?_
    show ((d.1.dependencies.map (DefinitionDependency.map (moved commit))).map _) = _
    rw [List.map_map, List.map_map]
    rfl

theorem links_moved (huses : ∀ d ∈ definitions, ∀ usage ∈ d.uses, sameSource usage primary = true)
    (hevents : ∀ event ∈ events rule definitions, sameSource event.2.1 primary = true)
    (h : links rule definitions = .ok ()) :
    links (rule.map (moved commit)) (definitions.map (LocalDefinition.map (moved commit)))
      = .ok () := by
  obtain ⟨l, hobserved, h⟩ := bind_eq_ok.mp h
  obtain ⟨⟨⟩, hjustified, h⟩ := bind_eq_ok.mp h
  have hlength : (definitions.map (LocalDefinition.map (moved commit))).length
      = definitions.length := List.length_map _
  refine bind_eq_ok.mpr ⟨l, ?_, bind_eq_ok.mpr ⟨(), forM_eq_ok.mpr ?_, ?_⟩⟩
  · rw [events_moved]
    exact foldlM_observe_moved huses hevents hobserved
  · intro d hd
    rw [zipIdx_moved] at hd
    obtain ⟨d, hmem, rfl⟩ := List.mem_map.mp hd
    have hd := ensure_eq_ok.mp (forM_eq_ok.mp hjustified d hmem)
    have hmoved : (Prod.map (LocalDefinition.map (moved commit)) id d).1.uses
        = d.1.uses.map (moved commit) := rfl
    refine ensure_of ?_ _
    simp only [hmoved, List.all_map, List.any_map]
    exact hd
  · rw [hlength]
    exact h

/-! ### The rule -/

theorem checkDefinitions_sameSource {l : List LocalDefinition} {ids : List String}
    {declarations : List (ℕ × ℕ)} (h : checkDefinitions primary gaps ids declarations l = .ok ())
    {d : LocalDefinition} (hd : d ∈ l) : (∀ usage ∈ d.uses, sameSource usage primary = true)
      ∧ ∀ input ∈ d.dependencies, sameSource input.source primary = true := by
  obtain ⟨-, hchecked⟩ := checked_of_checkDefinitions h d hd
  refine ⟨fun usage husage => ?_, fun input hinput => ?_⟩
  · exact sameSource_of_checked (checked_of_checkUses hchecked.uses usage husage)
  · obtain ⟨⟨⟩, hsource, -⟩ := bind_eq_ok.mp (hchecked.inputs input hinput)
    exact sameSource_of_checked hsource

theorem collectionBounds_moved (h : collectionBounds rule = .ok ()) :
    collectionBounds (rule.map (moved commit)) = .ok () := by
  obtain ⟨definitions, hstored, h⟩ := bind_eq_ok.mp h
  obtain ⟨⟨⟩, hcounts, h⟩ := bind_eq_ok.mp h
  have hstored' : (rule.map (moved commit)).localDefinitions
      = some (definitions.map (LocalDefinition.map (moved commit))) := by
    rw [GuardedExitEvidence.map, orFail_eq_ok.mp hstored]
    rfl
  refine bind_eq_ok.mpr ⟨_, orFail_eq_ok.mpr hstored', bind_eq_ok.mpr ⟨(), ensure_of ?_ _, ?_⟩⟩
  · simp only [GuardedExitEvidence.map, List.length_map]
    exact ensure_eq_ok.mp hcounts
  · have hnodes : (definitions.map (LocalDefinition.map (moved commit))).map
        (fun d => d.expression.nodes.length) = definitions.map fun d => d.expression.nodes.length := by
      rw [List.map_map]
      exact List.map_congr_left fun d _ => List.length_map _
    have hinputs : (definitions.map (LocalDefinition.map (moved commit))).map
        (fun d => d.dependencies.length) = definitions.map fun d => d.dependencies.length := by
      rw [List.map_map]
      exact List.map_congr_left fun d _ => List.length_map _
    have huses : (definitions.map (LocalDefinition.map (moved commit))).map
        (fun d => d.uses.length) = definitions.map fun d => d.uses.length := by
      rw [List.map_map]
      exact List.map_congr_left fun d _ => List.length_map _
    rw [hnodes, hinputs, huses]
    exact h

theorem mem_value_map {effect : LocalExit} (h : value ∈ (effect.map f).value?.toList) :
    ∃ value' ∈ effect.value?.toList, value'.map f = value := by
  have hmap : (effect.map f).value? = effect.value?.map (SourceExpression.map f) := by
    cases effect <;> rfl
  rw [hmap, Option.mem_toList] at h
  obtain ⟨value', hvalue', rfl⟩ := Option.map_eq_some_iff.mp h
  exact ⟨value', Option.mem_toList.mpr hvalue', rfl⟩

theorem passed_moved (hid : boundedId commit = .ok ()) (h : Passed rule definitions gaps)
    (hsize : serializedBound (rule.map (moved commit)) = .ok ()) :
    Passed (rule.map (moved commit)) (definitions.map (LocalDefinition.map (moved commit)))
      gaps where
  stored := by
    rw [GuardedExitEvidence.map, h.stored]
    rfl
  bounds := collectionBounds_moved h.bounds
  owner := h.owner
  exit := checkedSource_moved hid h.exit
  collected := h.collected
  conditions condition hcondition := by
    obtain ⟨condition, hmem, rfl⟩ := List.mem_map.mp hcondition
    exact checkCondition_moved hid (h.conditions condition hmem)
  effect value hvalue := by
    obtain ⟨value, hmem, rfl⟩ := mem_value_map hvalue
    exact checkedExpression_moved hid (h.effect value hmem)
  dependencies dependency hdependency := by
    obtain ⟨dependency, hmem, rfl⟩ := List.mem_map.mp hdependency
    exact checkDependency_moved hid (h.dependencies dependency hmem)
  redactions redaction hredaction := by
    obtain ⟨redaction, hmem, rfl⟩ := List.mem_map.mp hredaction
    exact checkedSource_moved hid (h.redactions redaction hmem)
  checked := checkDefinitions_moved hid h.checked
  links := by
    refine links_moved (fun d hd => (checkDefinitions_sameSource h.checked hd).1) ?_ h.links
    intro event hevent
    rcases List.mem_append.mp hevent with hcondition | hinput
    · obtain ⟨dependency, hmem, rfl⟩ := List.mem_map.mp hcondition
      obtain ⟨⟨⟩, hsource, -⟩ :=
        bind_eq_ok.mp (h.dependencies dependency (List.mem_filter.mp hmem).1)
      exact sameSource_of_checked hsource
    · obtain ⟨d, hd, hmem⟩ := List.mem_flatMap.mp hinput
      obtain ⟨input, hin, rfl⟩ := List.mem_map.mp hmem
      exact (checkDefinitions_sameSource h.checked (List.fst_mem_of_mem_zipIdx hd)).2 input hin
  size := hsize

theorem shaped_moved (h : Shaped rule) :
    Shaped (rule.map (moved commit)) where
  version := by
    refine version_ok.mpr ((version_ok.mp h.version).imp (fun hone => ⟨hone.1, ?_⟩)
      fun htwo => ⟨htwo.1, collectionBounds_moved htwo.2⟩)
    exact Option.isNone_map.trans hone.2
  owner := h.owner
  exit := h.exit
  conditions condition hcondition := by
    obtain ⟨condition, hmem, rfl⟩ := List.mem_map.mp hcondition
    exact h.conditions condition hmem
  effect value hvalue := by
    obtain ⟨value, hmem, rfl⟩ := mem_value_map hvalue
    exact h.effect value hmem
  dependencies dependency hdependency := by
    obtain ⟨dependency, hmem, rfl⟩ := List.mem_map.mp hdependency
    rw [dependencySpans, RuleDependency.map, resolution_moved]
    exact h.dependencies dependency hmem
  gaps := h.gaps
  redactions redaction hredaction := by
    obtain ⟨redaction, hmem, rfl⟩ := List.mem_map.mp hredaction
    exact h.redactions redaction hmem

end Moved

/-- **A valid rule stays valid** in another commit, if its id is valid and the payload still fits. -/
theorem validate_retarget {commit : String} (hvalid : validate rule = .ok ())
    (hcommit : rule.schemaVersion = 2 → boundedId commit = .ok ()
      ∧ serializedBound (rule.retarget commit) = .ok ()) :
    validate (rule.retarget commit) = .ok () := by
  obtain ⟨hshaped, hpassed⟩ := validate_ok.mp hvalid
  rw [retarget_eq] at hcommit ⊢
  refine validate_ok.mpr ⟨shaped_moved hshaped, fun hversion => ?_⟩
  obtain ⟨hid, hsize⟩ := hcommit hversion
  obtain ⟨definitions, gaps, h⟩ := validateDefinitions_ok.mp (hpassed hversion)
  exact validateDefinitions_ok.mpr ⟨_, gaps, passed_moved hid h hsize⟩

theorem calls_mapping {σ : Type} :
    ∀ {calls : List (EvidenceRef × EvidenceRef)} {s s' : σ}, Calls (mapping σ f) s calls s' →
      ∀ call ∈ calls, call.2 = f call.1
  | [], _, _, _, _, hcall => absurd hcall List.not_mem_nil
  | first :: rest, _, _, ⟨_, hfirst, hrest⟩, call, hcall => by
    rcases List.mem_cons.mp hcall with rfl | hcall
    · exact (Prod.mk.inj hfirst).1.symm
    · exact calls_mapping hrest call hcall

/-- **Every source reference is visited.**  Visiting a rule calls the visitor once on every
reference in its payload, leaves the results in their places and changes nothing else; so when
the visitor sets the commit, every reference has the new one, and a valid rule stays valid as long
as the new id is valid and the payload fits. -/
theorem sources_visited {σ : Type} (visitor : EvidenceRef → StateM σ EvidenceRef)
    (rule : GuardedExitEvidence) (s : σ) (commit : String) :
    (∃ calls, Calls visitor s calls (rule.visitSourcesMut visitor s).2
      ∧ Sweep calls rule.toJson (rule.visitSourcesMut visitor s).1.toJson)
    ∧ (∀ j ∈ citations (rule.retarget commit).toJson,
      ∃ r : EvidenceRef, j = r.toJson ∧ r.commitSha = commit)
    ∧ (validate rule = .ok () →
      (rule.schemaVersion = 2 → boundedId commit = .ok ()
        ∧ serializedBound (rule.retarget commit) = .ok ()) →
      validate (rule.retarget commit) = .ok ()) := by
  refine ⟨sweep_rule visitor rule s, fun j hj => ?_, validate_retarget⟩
  obtain ⟨calls, hcalls, ⟨pairs, hpairs, -, hnew⟩, -⟩ :=
    sweep_rule (mapping Unit (moved commit)) rule ()
  rw [GuardedExitEvidence.retarget, hnew] at hj
  obtain ⟨pair, hpair, rfl⟩ := List.mem_map.mp hj
  refine ⟨pair.2, rfl, ?_⟩
  rw [calls_mapping hcalls pair (hpairs.mem_iff.mp hpair)]
  rfl

theorem sources_visited_sample :
    validate (Sample.rule.retarget "r2") = .ok () :=
  (sources_visited (mapping Unit id) Sample.rule () "r2").2.2 Sample.rule_valid
    fun _ => ⟨by decide, by decide⟩

end Rules

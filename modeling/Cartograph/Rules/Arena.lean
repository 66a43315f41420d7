/-
The arenas of a valid rule.

* `visitNode_ok` — what a visit says about a node;
* `arena_drained` — the loop over an arena ends;
* `arenas_are_trees` — the arena of every definition is one tree, with its spans nested and in
  order and its dependencies used once each.
-/
import Cartograph.Rules.Validate

namespace Rules

open Investigation Checked IndexTree

variable {definition : LocalDefinition} {primary : EvidenceRef} {gaps : List String}

/-! ### Visits -/

/-- The operands of the node at an index. -/
def operands (definition : LocalDefinition) (index : ℕ) : List ℕ :=
  (definition.expression.nodes[index]?).elim [] fun node => node.kind.children

/-- The dependency that the node at an index uses. -/
def usedAt (definition : LocalDefinition) (index : ℕ) : List ℕ :=
  ((definition.expression.nodes[index]?).bind fun node => node.kind.dependency?).toList

/-- The operands of a node lie in it, one after the other. -/
def Nested (definition : LocalDefinition) (node : DefinitionExpressionNode) : Prop :=
  ∃ children : List DefinitionExpressionNode,
    node.kind.children.map (fun i => definition.expression.nodes[i]?) = children.map some
    ∧ (∀ child ∈ children, contains node.expression.source child.expression.source = true)
    ∧ children.Pairwise fun a b => a.expression.source.byteEnd ≤ b.expression.source.byteStart

variable {node : DefinitionExpressionNode} {used used' : List ℕ} {index : ℕ}

theorem takeDependency_ok {input : DefinitionDependency}
    (h : takeDependency definition node used index = .ok (input, used')) :
    index ∉ used ∧ definition.dependencies[index]? = some input
      ∧ input.source = node.expression.source ∧ used' = index :: used := by
  obtain ⟨⟨⟩, hnew, h⟩ := bind_eq_ok.mp h
  obtain ⟨input', hfound, h⟩ := bind_eq_ok.mp h
  obtain ⟨⟨⟩, hsource, h⟩ := bind_eq_ok.mp h
  obtain ⟨rfl, rfl⟩ := Prod.mk.inj (pure_eq_ok.mp h)
  refine ⟨fun hmem => ?_, orFail_eq_ok.mp hfound, ensure_eq_ok.mp hsource, rfl⟩
  rw [← List.contains_iff_mem, ensure_eq_ok.mp hnew] at hmem
  cases hmem

theorem checkKind_ok (h : checkKind definition gaps node used = .ok used') :
    used' = node.kind.dependency?.toList ++ used
      ∧ ∀ index ∈ node.kind.dependency?, index ∉ used ∧ ∃ input,
        definition.dependencies[index]? = some input
          ∧ input.source = node.expression.source := by
  unfold checkKind at h
  cases hkind : node.kind with
  | identifier index =>
    simp only [hkind] at h
    obtain ⟨⟨input, used1⟩, htake, h⟩ := bind_eq_ok.mp h
    obtain ⟨⟨⟩, -, h⟩ := bind_eq_ok.mp h
    obtain rfl := pure_eq_ok.mp h
    obtain ⟨hnew, hfound, hsource, rfl⟩ := takeDependency_ok htake
    refine ⟨rfl, fun i hi => ?_⟩
    obtain rfl := Option.some.inj hi
    exact ⟨hnew, input, hfound, hsource⟩
  | member object property computed optional index =>
    simp only [hkind] at h
    obtain ⟨⟨input, used1⟩, htake, h⟩ := bind_eq_ok.mp h
    obtain ⟨⟨⟩, -, h⟩ := bind_eq_ok.mp h
    obtain ⟨propertyNode, -, h⟩ := bind_eq_ok.mp h
    obtain ⟨⟨⟩, -, h⟩ := bind_eq_ok.mp h
    obtain rfl := pure_eq_ok.mp h
    obtain ⟨hnew, hfound, hsource, rfl⟩ := takeDependency_ok htake
    refine ⟨rfl, fun i hi => ?_⟩
    obtain rfl := Option.some.inj hi
    exact ⟨hnew, input, hfound, hsource⟩
  | literal =>
    simp only [hkind] at h
    obtain ⟨⟨⟩, -, h⟩ := bind_eq_ok.mp h
    exact ⟨(pure_eq_ok.mp h).symm, fun i hi => absurd hi (Option.not_mem_none i)⟩
  | unsupported gapId =>
    simp only [hkind] at h
    obtain ⟨⟨⟩, -, h⟩ := bind_eq_ok.mp h
    obtain ⟨⟨⟩, -, h⟩ := bind_eq_ok.mp h
    exact ⟨(pure_eq_ok.mp h).symm, fun i hi => absurd hi (Option.not_mem_none i)⟩
  | _ =>
    simp only [hkind] at h
    exact ⟨(pure_eq_ok.mp h).symm, fun i hi => absurd hi (Option.not_mem_none i)⟩

theorem checkChildren_ok {node : DefinitionExpressionNode} : ∀ {l : List ℕ} {e : Option ℕ},
    checkChildren definition node e l = .ok () →
    ∃ children : List DefinitionExpressionNode,
      l.map (fun i => definition.expression.nodes[i]?) = children.map some
      ∧ (∀ child ∈ children, contains node.expression.source child.expression.source = true)
      ∧ (children.IsChain fun a b => a.expression.source.byteEnd ≤ b.expression.source.byteStart)
      ∧ ∀ child ∈ children.head?, ∀ before ∈ e, before ≤ child.expression.source.byteStart
  | [], e, _ => ⟨[], rfl, by simp, .nil, by simp⟩
  | i :: rest, e, h => by
    obtain ⟨child, hfound, h⟩ := bind_eq_ok.mp h
    obtain ⟨⟨⟩, hinside, h⟩ := bind_eq_ok.mp h
    obtain ⟨hcontains, hafter⟩ := ensure_eq_ok.mp hinside
    obtain ⟨children, hmap, hall, hchain, hfirst⟩ := checkChildren_ok h
    refine ⟨child :: children, ?_, ?_, ?_, ?_⟩
    · rw [List.map_cons, List.map_cons, hmap, orFail_eq_ok.mp hfound]
    · exact List.forall_mem_cons.mpr ⟨hcontains, hall⟩
    · refine List.isChain_cons.mpr ⟨fun b hb => hfirst b hb _ rfl, hchain⟩
    · intro c hc
      rw [← Option.some.inj hc]
      exact hafter

theorem length_children (kind : DefinitionExpressionKind) : kind.children.length ≤ 2 := by
  cases kind <;> simp [DefinitionExpressionKind.children]

theorem pairwise_of_short {α : Type} {R : α → α → Prop} : ∀ {l : List α}, l.IsChain R →
    l.length ≤ 2 → l.Pairwise R
  | [], _, _ => .nil
  | [_], _, _ => List.pairwise_singleton _ _
  | [_, _], h, _ => List.pairwise_pair.mpr (List.isChain_pair.mp h)
  | _ :: _ :: _ :: _, _, h => by
    simp only [List.length_cons] at h
    omega

/-- **What a visit says.**  The node is there, its operands lie in it, and it uses the dependency
it names, which occurs where the node does. -/
theorem visitNode_ok {children : List ℕ}
    (h : visitNode definition primary gaps used index = .ok (children, used')) :
    ∃ node, definition.expression.nodes[index]? = some node
      ∧ children = operands definition index ∧ Nested definition node
      ∧ used' = usedAt definition index ++ used
      ∧ ∀ d ∈ node.kind.dependency?, d ∉ used ∧ ∃ input,
        definition.dependencies[d]? = some input ∧ input.source = node.expression.source := by
  obtain ⟨node, hfound, h⟩ := bind_eq_ok.mp h
  obtain ⟨⟨⟩, -, h⟩ := bind_eq_ok.mp h
  obtain ⟨⟨⟩, -, h⟩ := bind_eq_ok.mp h
  obtain ⟨used1, hkind, h⟩ := bind_eq_ok.mp h
  obtain ⟨⟨⟩, hchildren, h⟩ := bind_eq_ok.mp h
  obtain ⟨rfl, rfl⟩ := Prod.mk.inj (pure_eq_ok.mp h)
  obtain ⟨hused, hdependency⟩ := checkKind_ok hkind
  obtain ⟨nodes, hmap, hall, hchain, -⟩ := checkChildren_ok hchildren
  have hnode := orFail_eq_ok.mp hfound
  have hlength : nodes.length ≤ 2 := by
    have heq := congrArg List.length hmap
    rw [List.length_map, List.length_map] at heq
    exact heq ▸ length_children node.kind
  refine ⟨node, hnode, ?_, ⟨nodes, hmap, hall, pairwise_of_short hchain hlength⟩, ?_, hdependency⟩
  · rw [operands, hnode]
    rfl
  · rw [usedAt, hnode]
    exact hused

/-! ### The loop -/

theorem visitNode_bounds (used : List ℕ) (index : ℕ) (children used' : List ℕ)
    (h : visitNode definition primary gaps used index = .ok (children, used')) :
    index < definition.expression.nodes.length ∧ children.length ≤ 2 := by
  obtain ⟨node, hnode, rfl, -⟩ := visitNode_ok h
  obtain ⟨hlt, -⟩ := List.getElem?_eq_some_iff.mp hnode
  refine ⟨hlt, ?_⟩
  rw [operands, hnode]
  exact length_children node.kind

/-- **The loop over an arena ends.** -/
theorem arena_drained {w : Walk (List ℕ)} (h : readArena definition primary gaps = .ok w) :
    w.pending = [] := by
  refine run_drained visitNode_bounds h ⟨List.nodup_nil, by simp [start]⟩ ?_
  simp only [potential, start, List.length_nil, List.length_singleton]
  omega

theorem used_of_visits {f : Forest} (h : Visits (visitNode definition primary gaps) [] f used) :
    used.Perm (f.indices.flatMap (usedAt definition)) ∧ used.Nodup
      ∧ ∀ d ∈ used, d < definition.dependencies.length := by
  have hcollected := h.collected id (usedAt definition) fun s i children s' hvisit => by
    obtain ⟨node, -, -, -, rfl, -⟩ := visitNode_ok hvisit
    exact .refl _
  have hkeep : ∀ s i children s', visitNode definition primary gaps s i = .ok (children, s') →
      (s.Nodup ∧ ∀ d ∈ s, d < definition.dependencies.length) →
      s'.Nodup ∧ ∀ d ∈ s', d < definition.dependencies.length := by
    intro s i children s' hvisit hs
    obtain ⟨node, hnode, -, -, rfl, hdependency⟩ := visitNode_ok hvisit
    rw [usedAt, hnode, Option.bind_some]
    cases hnamed : node.kind.dependency? with
    | none => exact hs
    | some d =>
      obtain ⟨hnew, input, hfound, -⟩ := hdependency d hnamed
      refine ⟨List.nodup_cons.mpr ⟨hnew, hs.1⟩, fun d' hd' => ?_⟩
      rcases List.mem_cons.mp hd' with rfl | hd'
      · exact (List.getElem?_eq_some_iff.mp hfound).1
      · exact hs.2 d' hd'
  rw [id, id, List.append_nil] at hcollected
  exact ⟨hcollected, h.invariant hkeep ⟨List.nodup_nil, by simp⟩⟩

/-- A record of each dependency, and the one node that reads it. -/
def Read (definition : LocalDefinition) : Prop :=
  (∀ node ∈ definition.expression.nodes, ∀ d ∈ node.kind.dependency?, ∃ input,
    definition.dependencies[d]? = some input ∧ input.source = node.expression.source)
  ∧ ∀ d < definition.dependencies.length, ∃! i : ℕ, ∃ node : DefinitionExpressionNode,
    definition.expression.nodes[i]? = some node ∧ node.kind.dependency? = some d

theorem mem_usedAt {d : ℕ} : d ∈ usedAt definition index ↔ ∃ node,
    definition.expression.nodes[index]? = some node ∧ node.kind.dependency? = some d := by
  rw [usedAt, Option.mem_toList, Option.bind_eq_some_iff]

/-- A walk that has visited every node and used every dependency has read each dependency at one
node. -/
theorem read_of_visits {f : Forest} (h : Visits (visitNode definition primary gaps) [] f used)
    (hall : f.indices.Perm (List.range definition.expression.nodes.length))
    (hlength : used.length = definition.dependencies.length) : Read definition := by
  obtain ⟨hperm, hnodup, hrange⟩ := used_of_visits h
  refine ⟨fun node hnode d hd => ?_, fun d hd => ?_⟩
  · obtain ⟨i, hi⟩ := List.mem_iff_getElem?.mp hnode
    have hin : i ∈ f.indices :=
      hall.mem_iff.mpr (List.mem_range.mpr (List.getElem?_eq_some_iff.mp hi).1)
    obtain ⟨s, children, s', hvisit⟩ := h.visited i hin
    obtain ⟨node', hnode', -, -, -, hdependency⟩ := visitNode_ok hvisit
    obtain rfl := Option.some.inj (hi.symm.trans hnode')
    exact (hdependency d hd).2
  · -- as many different ones are used as there are
    have hfull : used.Perm (List.range definition.dependencies.length) := by
      have hsub : used.Subperm (List.range definition.dependencies.length) :=
        hnodup.subperm fun d hd => List.mem_range.mpr (hrange d hd)
      exact hsub.perm_of_length_le (by rw [List.length_range, hlength])
    have hd' : d ∈ f.indices.flatMap (usedAt definition) :=
      hperm.mem_iff.mp (hfull.mem_iff.mpr (List.mem_range.mpr hd))
    obtain ⟨i, hi, hid⟩ := List.mem_flatMap.mp hd'
    refine ⟨i, mem_usedAt.mp hid, fun j hj => ?_⟩
    have hj' : j ∈ f.indices := by
      obtain ⟨node, hnode, -⟩ := hj
      exact hall.mem_iff.mpr (List.mem_range.mpr (List.getElem?_eq_some_iff.mp hnode).1)
    have hdisjoint := (List.nodup_flatMap.mp (hperm.nodup_iff.mp hnodup)).2
    by_contra hne
    have hsymm : Std.Symm (Function.onFun List.Disjoint (usedAt definition)) :=
      ⟨fun a b hab => List.Disjoint.symm hab⟩
    exact hdisjoint.forall hi hj' (Ne.symm hne) hid (mem_usedAt.mpr hj)

section

variable (h : arena definition primary gaps = .ok ())
include h

theorem arena_visits :
    ∃ (f : Forest) (used : List ℕ), f.roots = [definition.expression.root]
      ∧ f.depth ≤ MAX_DEFINITION_EXPRESSION_DEPTH
      ∧ Visits (visitNode definition primary gaps) [] f used
      ∧ f.indices.Perm (List.range definition.expression.nodes.length)
      ∧ used.length = definition.dependencies.length := by
  obtain ⟨⟨⟩, -, h⟩ := bind_eq_ok.mp h
  obtain ⟨w, hread, h⟩ := bind_eq_ok.mp h
  obtain ⟨⟨⟩, hreached, hused⟩ := bind_eq_ok.mp h
  obtain ⟨f, hroots, hdepth, hvisits, hvisited⟩ := walk_tree hread (arena_drained hread)
  have hnodup : f.indices.Nodup := hvisited.nodup_iff.mp (run_nodup hread List.nodup_nil)
  have hsub : f.indices.Subperm (List.range definition.expression.nodes.length) := by
    refine hnodup.subperm fun i hi => List.mem_range.mpr ?_
    obtain ⟨s, children, s', hvisit⟩ := hvisits.visited i hi
    exact (visitNode_bounds _ _ _ _ hvisit).1
  refine ⟨f, _, hroots, hdepth, hvisits, hsub.perm_of_length_le ?_, ensure_eq_ok.mp hused⟩
  rw [List.length_range, ← hvisited.length_eq, ensure_eq_ok.mp hreached]

theorem visit_of_arena (hnode : node ∈ definition.expression.nodes) :
    ∃ index used result, definition.expression.nodes[index]? = some node
      ∧ visitNode definition primary gaps used index = .ok result := by
  obtain ⟨f, _, -, -, hvisits, hall, -⟩ := arena_visits h
  obtain ⟨i, hi⟩ := List.mem_iff_getElem?.mp hnode
  have hin : i ∈ f.indices :=
    hall.mem_iff.mpr (List.mem_range.mpr (List.getElem?_eq_some_iff.mp hi).1)
  obtain ⟨s, children, s', hvisit⟩ := hvisits.visited i hin
  exact ⟨i, s, _, hi, hvisit⟩

theorem arena_tree :
    (∃ f : Forest, f.roots = [definition.expression.root] ∧ f.Follows (operands definition)
      ∧ f.depth ≤ MAX_DEFINITION_EXPRESSION_DEPTH
      ∧ f.indices.Perm (List.range definition.expression.nodes.length))
    ∧ (∀ node ∈ definition.expression.nodes, Nested definition node) ∧ Read definition := by
  obtain ⟨f, used, hroots, hdepth, hvisits, hall, hused⟩ := arena_visits h
  refine ⟨⟨f, hroots, hvisits.follows ?_, hdepth, hall⟩, fun node hnode => ?_,
    read_of_visits hvisits hall hused⟩
  · intro s i children s' hvisit
    obtain ⟨node, -, hchildren, -⟩ := visitNode_ok hvisit
    exact hchildren
  · obtain ⟨i, s, ⟨children, s'⟩, hi, hvisit⟩ := visit_of_arena h hnode
    obtain ⟨node', hnode', -, hnested, -⟩ := visitNode_ok hvisit
    obtain rfl := Option.some.inj (hi.symm.trans hnode')
    exact hnested

end

/-! ### Valid rules -/

/-- **Arenas are trees.**  In a valid rule of version 2, the operands of the nodes of every
definition form one tree from its root, which has every node once and is at most eight deep; the
operands of a node lie in it, one after the other; and the dependencies are the ones that the
identifiers and member reads name, one for each of them, which occurs where it does. -/
theorem arenas_are_trees {rule : GuardedExitEvidence} (hvalid : validate rule = .ok ())
    (hversion : rule.schemaVersion = 2) :
    ∀ definitions ∈ rule.localDefinitions, ∀ definition ∈ definitions,
      (∃ f : Forest, f.roots = [definition.expression.root] ∧ f.Follows (operands definition)
        ∧ f.depth ≤ MAX_DEFINITION_EXPRESSION_DEPTH
        ∧ f.indices.Perm (List.range definition.expression.nodes.length))
      ∧ (∀ node ∈ definition.expression.nodes, Nested definition node)
      ∧ Read definition := by
  intro definitions hstored definition hmem
  obtain ⟨definitions', gaps, hpassed⟩ :=
    validateDefinitions_ok.mp ((validate_ok.mp hvalid).2 hversion)
  obtain rfl := Option.some.inj (hstored.symm.trans hpassed.stored)
  exact arena_tree (checked_of_checkDefinitions hpassed.checked definition hmem).2.arena

namespace Sample

def source (start stop : ℕ) : EvidenceRef := ⟨"example/project", "src/a.ts", start, stop, "r1"⟩

def expr (start stop : ℕ) (syntaxKind : String) : SourceExpression :=
  ⟨source start stop, syntaxKind, ⟨"x"⟩, .completeSyntax, none⟩

/-- `const ready = state.done`. -/
def ready : LocalDefinition where
  bindingId := "binding:ready@16"
  declaration := source 10 32
  uses := [source 40 45]
  initializer := expr 22 32 "member_expression"
  expression := {
    root := 0
    nodes := [⟨expr 22 32 "member_expression", .member 1 2 false false 0⟩,
      ⟨expr 22 27 "identifier", .identifier 1⟩, ⟨expr 28 32 "property_identifier", .propertyName⟩] }
  dependencies := [⟨source 22 32, .unresolved "gap:value"⟩,
    ⟨source 22 27, .binding "binding:state@2" (source 2 7)⟩]

/-- `if (ready) return`. -/
def rule : GuardedExitEvidence where
  schemaVersion := 2
  kind := .guardedExit
  ownerId := "sym:example/project@src/a.ts#run"
  exitSource := source 50 56
  sourceOrder := 0
  conditions := [⟨source 36 58, expr 40 45 "identifier", .truthyBranch⟩]
  effect := .return none
  dependencies := [⟨.condition, source 40 45, .binding "binding:ready@16" (source 10 32)⟩]
  interpretation := ⟨.notEstablished, .notEstablished, ["gap:value"]⟩
  redactions := []
  localDefinitions := some [ready]

theorem rule_valid : validate rule = .ok () := by decide

end Sample

theorem arenas_are_trees_sample : ∃ f : Forest, f.roots = [0] ∧ f.indices.Perm [0, 1, 2] := by
  obtain ⟨⟨f, hroots, -, -, hall⟩, -⟩ :=
    arenas_are_trees Sample.rule_valid rfl [Sample.ready] rfl Sample.ready List.mem_cons_self
  exact ⟨f, hroots, hall⟩

end Rules

/-
The links between local definitions (`links` of `crates/core-graph/src/rules/definitions.rs`).

A definition links to those that its initializer uses.  A use lies behind the declaration of what
is used and inside the declaration of what uses it, so links lead to declarations that end earlier.
The loop over the chains keeps a stack of definitions with the paths they were reached on.

* `followLinks_ends` — the loop ends on every stack, with what the recursion finds;
* `chains_ne_cycle` — where links lead to smaller keys, no path returns to itself;
* `definition_links_acyclic` — the links of checked definitions do, whatever the rule.
-/
import Cartograph.Rules.Arena

namespace Rules

open Investigation Checked

/-! ### The loop -/

/-- The loop of `links` over pending definitions, the last one pushed first. -/
def followLinks (links : Links) (count : ℕ) :
    ℕ → List ℕ → List (ℕ × List ℕ) → Option (Validation (List ℕ))
  | 0, _, _ => none
  | _ + 1, seen, [] => some (.ok seen)
  | fuel + 1, seen, (index, path) :: pending =>
    if path.contains index then some (.error (invalid "definition_cycle"))
    else if MAX_DEFINITION_CHAIN_DEPTH < (path ++ [index]).length then
      some (.error (limit "definition_chain"))
    else followLinks links count fuel (index :: seen)
      ((usedFrom links count index).reverse.map (fun child => (child, path ++ [index])) ++ pending)

section

variable {links : Links} {count : ℕ}

/-- How the loop goes on once a part of the stack is done. -/
def resume (links : Links) (count fuel : ℕ) (seen : List ℕ) (rest : List (ℕ × List ℕ)) :
    Validation (List ℕ) → Option (Validation (List ℕ))
  | .ok visited => followLinks links count fuel (visited.reverse ++ seen) rest
  | .error e => some (.error e)

/-- Some number of turns of the loop takes these off the stack. -/
def Follows (links : Links) (count : ℕ) (pending : List (ℕ × List ℕ))
    (found : Validation (List ℕ)) : Prop :=
  ∃ turns, ∀ fuel seen rest, followLinks links count (fuel + turns) seen (pending ++ rest)
    = resume links count fuel seen rest found

theorem follows_list {room : ℕ} {path : List ℕ}
    (h : ∀ index, Follows links count [(index, path)] (chains links count room path index)) :
    ∀ l : List ℕ, Follows links count (l.map fun index => (index, path))
      ((l.mapM (chains links count room path)).map List.flatten)
  | [] => ⟨0, fun fuel seen rest => rfl⟩
  | index :: l => by
    obtain ⟨first, hfirst⟩ := h index
    obtain ⟨turns, hturns⟩ := follows_list h l
    refine ⟨turns + first, fun fuel seen rest => ?_⟩
    rw [← Nat.add_assoc, List.map_cons, List.cons_append, ← List.singleton_append, hfirst,
      List.mapM_cons]
    cases chains links count room path index with
    | error e => rfl
    | ok visited =>
      show followLinks links count (fuel + turns) (visited.reverse ++ seen) _ = _
      rw [hturns]
      cases l.mapM (chains links count room path) with
      | error e => rfl
      | ok below =>
        show followLinks links count fuel (below.flatten.reverse ++ (visited.reverse ++ seen)) rest
          = followLinks links count fuel ((visited :: below).flatten.reverse ++ seen) rest
        rw [List.flatten_cons, List.reverse_append, List.append_assoc]

theorem follows_chains : ∀ (room : ℕ) (path : List ℕ) (index : ℕ),
    path.length + room = MAX_DEFINITION_CHAIN_DEPTH →
    Follows links count [(index, path)] (chains links count room path index) := by
  intro room
  induction room with
  | zero =>
    intro path index hroom
    refine ⟨1, fun fuel seen rest => ?_⟩
    show followLinks links count (fuel + 1) seen ((index, path) :: rest) = _
    have hlong : MAX_DEFINITION_CHAIN_DEPTH < (path ++ [index]).length := by
      rw [List.length_append, List.length_singleton]
      omega
    rw [followLinks, chains]
    by_cases hcycle : path.contains index = true
    · rw [if_pos hcycle, hcycle]
      rfl
    · rw [if_neg hcycle, if_pos hlong, ensure_of (by simpa using hcycle)]
      rfl
  | succ room ih =>
    intro path index hroom
    have hpath : (path ++ [index]).length + room = MAX_DEFINITION_CHAIN_DEPTH := by
      rw [List.length_append, List.length_singleton]
      omega
    obtain ⟨turns, hturns⟩ := follows_list (fun child => ih (path ++ [index]) child hpath)
      (usedFrom links count index).reverse
    refine ⟨turns + 1, fun fuel seen rest => ?_⟩
    show followLinks links count (fuel + turns + 1) seen ((index, path) :: rest) = _
    rw [followLinks, chains]
    by_cases hcycle : path.contains index = true
    · rw [if_pos hcycle, hcycle]
      rfl
    · rw [if_neg hcycle, if_neg (by omega), hturns, ensure_of (by simpa using hcycle), ok_bind]
      cases (usedFrom links count index).reverse.mapM
          (chains links count room (path ++ [index])) with
      | error e => rfl
      | ok below =>
        show followLinks links count fuel (below.flatten.reverse ++ index :: seen) rest
          = followLinks links count fuel ((index :: below.flatten).reverse ++ seen) rest
        rw [List.reverse_cons, List.append_assoc]
        rfl

theorem followLinks_ends (links : Links) (count : ℕ) (seeds : List ℕ) :
    ∃ turns, ∀ fuel, followLinks links count (fuel + turns) [] (seeds.map fun index => (index, []))
      = some ((seeds.mapM (chains links count MAX_DEFINITION_CHAIN_DEPTH [])).map
        fun seen => seen.flatten.reverse) := by
  have hchains (index : ℕ) : Follows links count [(index, [])]
      (chains links count MAX_DEFINITION_CHAIN_DEPTH [] index) :=
    follows_chains MAX_DEFINITION_CHAIN_DEPTH [] index (Nat.zero_add _)
  obtain ⟨turns, hturns⟩ := follows_list hchains seeds
  refine ⟨turns + 1, fun fuel => ?_⟩
  have h := hturns (fuel + 1) [] []
  rw [List.append_nil] at h
  rw [show fuel + (turns + 1) = fuel + 1 + turns by omega, h]
  cases seeds.mapM (chains links count MAX_DEFINITION_CHAIN_DEPTH []) with
  | error e => rfl
  | ok seen =>
    show followLinks links count (fuel + 1) (seen.flatten.reverse ++ []) [] = _
    rw [List.append_nil]
    rfl

theorem chains_ne_cycle (key : ℕ → ℕ)
    (hkey : ∀ parent child, (parent, child) ∈ links.edges → key child < key parent) :
    ∀ (room : ℕ) (path : List ℕ) (index : ℕ), (∀ above ∈ path, key index < key above) →
    chains links count room path index ≠ .error (invalid "definition_cycle") := by
  intro room
  induction room with
  | zero =>
    intro path index hpath
    have hnew : path.contains index = false := by
      simpa using fun hmem => Nat.lt_irrefl _ (hpath index hmem)
    rw [chains, ensure_of hnew]
    intro heq
    cases heq
  | succ room ih =>
    intro path index hpath herror
    have hnew : path.contains index = false := by
      simpa using fun hmem => Nat.lt_irrefl _ (hpath index hmem)
    rw [chains, ensure_of hnew, ok_bind] at herror
    rcases bind_eq_error.mp herror with hbelow | ⟨below, -, hpure⟩
    · obtain ⟨child, hchild, hcycle⟩ := mapM_eq_error hbelow
      have hedge : (index, child) ∈ links.edges := by
        simpa using (List.mem_filter.mp (List.mem_reverse.mp hchild)).2
      refine ih (path ++ [index]) child (fun above habove => ?_) hcycle
      have hless := hkey index child hedge
      rcases List.mem_append.mp habove with hmem | hmem
      · have hindex := hpath above hmem
        omega
      · rw [List.mem_singleton.mp hmem]
        exact hless
    · exact pure_ne_error hpure

end

/-! ### What is linked -/

variable {s s' : Links} {parent child : ℕ}

section

variable {definitions : List LocalDefinition} {rule : GuardedExitEvidence}

theorem observe_edges {event : Option ℕ × EvidenceRef × DependencyResolution}
    (h : observe definitions s event = .ok s') (hedge : (parent, child) ∈ s'.edges) :
    (parent, child) ∈ s.edges ∨
      event.1 = some parent ∧ ∃ used, definitions[child]? = some used ∧ event.2.1 ∈ used.uses := by
  obtain ⟨origin, source, resolution⟩ := event
  cases resolution with
  | target nodeId | unresolved gapId =>
    cases h
    exact .inl hedge
  | binding bindingId declaration =>
    simp only [observe] at h
    split at h
    next used index hfind =>
      obtain ⟨⟨⟩, -, h⟩ := bind_eq_ok.mp h
      by_cases huse : used.uses.contains source = true
      · rw [if_pos huse] at h
        cases h
        rcases List.mem_append.mp hedge with hnew | hold
        · obtain ⟨p, rfl, heq⟩ := Option.map_eq_some_iff.mp (Option.mem_toList.mp hnew)
          cases heq
          have hused := List.mem_zipIdx_iff_getElem?.mp (List.mem_of_find?_eq_some hfind)
          exact .inr ⟨rfl, used, hused, List.contains_iff_mem.mp huse⟩
        · exact .inl hold
      · rw [if_neg huse] at h
        cases h
        exact .inl hedge
    next =>
      cases h
      exact .inl hedge

theorem edge_dependency {l : List (Option ℕ × EvidenceRef × DependencyResolution)}
    (h : l.foldlM (observe definitions) s = .ok s') (hedge : (parent, child) ∈ s'.edges) :
    (parent, child) ∈ s.edges ∨
      ∃ event ∈ l, event.1 = some parent ∧ ∃ used, definitions[child]? = some used
        ∧ event.2.1 ∈ used.uses := by
  induction l generalizing s with
  | nil =>
    cases h
    exact .inl hedge
  | cons event l ih =>
    rw [List.foldlM_cons] at h
    obtain ⟨next, hnext, hrest⟩ := bind_eq_ok.mp h
    rcases ih hrest with hold | ⟨later, hlater, hlink⟩
    · rcases observe_edges hnext hold with hfirst | hlink
      · exact .inl hfirst
      · exact .inr ⟨event, List.mem_cons_self, hlink⟩
    · exact .inr ⟨later, List.mem_cons_of_mem _ hlater, hlink⟩

theorem behind_of_checkUses {declaration primary : EvidenceRef} :
    ∀ {l : List EvidenceRef} {previous : Option (ℕ × ℕ)},
      checkUses declaration primary previous l = .ok () →
      ∀ usage ∈ l, declaration.byteEnd ≤ usage.byteStart
  | [], _, _, _, husage => absurd husage List.not_mem_nil
  | first :: rest, _, h, usage, husage => by
    obtain ⟨⟨⟩, -, h⟩ := bind_eq_ok.mp h
    obtain ⟨⟨⟩, horder, hrest⟩ := bind_eq_ok.mp h
    rcases List.mem_cons.mp husage with rfl | husage
    · exact (ensure_eq_ok.mp horder).2
    · exact behind_of_checkUses hrest usage husage

theorem edge_earlier {primary : EvidenceRef} {gaps : List String}
    (h : checkDefinitions primary gaps [] [] definitions = .ok ()) {edges : Links}
    (hedges : (events rule definitions).foldlM (observe definitions) ⟨[], [], []⟩ = .ok edges)
    (hedge : (parent, child) ∈ edges.edges) :
    ∃ user used, definitions[parent]? = some user ∧ definitions[child]? = some used
      ∧ used.declaration.byteEnd < user.declaration.byteEnd := by
  rcases edge_dependency hedges hedge with hnone | ⟨event, hevent, hparent, used, hused, huse⟩
  · exact absurd hnone List.not_mem_nil
  rcases List.mem_append.mp hevent with hcondition | hdefinition
  · obtain ⟨d, -, rfl⟩ := List.mem_map.mp hcondition
    cases hparent
  obtain ⟨⟨user, index⟩, huser, hinput⟩ := List.mem_flatMap.mp hdefinition
  obtain ⟨input, hmem, rfl⟩ := List.mem_map.mp hinput
  cases hparent
  have huser := List.mem_zipIdx_iff_getElem?.mp huser
  refine ⟨user, used, huser, hused, ?_⟩
  have hchecked := (checked_of_checkDefinitions h user (List.mem_of_getElem? huser)).2
  have hbehind : used.declaration.byteEnd ≤ input.source.byteStart := behind_of_checkUses
    (checked_of_checkDefinitions h used (List.mem_of_getElem? hused)).2.uses _ huse
  obtain ⟨⟨⟩, hsource, hinside⟩ := bind_eq_ok.mp (hchecked.inputs input hmem)
  have hinput := (bind_eq_ok.mp hinside).choose_spec.1
  -- the use lies in the initializer, and that in the declaration
  have hspan := ensure_eq_ok.mp (bind_eq_ok.mp hsource).choose_spec.1
  have hwithin := ensure_eq_ok.mp hinput
  have hinitializer := hchecked.inside
  simp only [contains, Bool.and_eq_true, decide_eq_true_iff] at hwithin hinitializer
  omega

end

variable {definitions : List LocalDefinition}

theorem observe_ne_cycle (s : Links) (event : Option ℕ × EvidenceRef × DependencyResolution) :
    observe definitions s event ≠ .error (invalid "definition_cycle") := by
  obtain ⟨origin, source, resolution⟩ := event
  intro hone
  cases resolution with
  | target nodeId => cases hone
  | unresolved gapId => cases hone
  | binding bindingId declaration =>
    simp only [observe] at hone
    split at hone
    · rcases bind_eq_error.mp hone with hdeclaration | ⟨⟨⟩, -, hone⟩
      · exact absurd (ensure_eq_error.mp hdeclaration).2 (by decide)
      · split at hone
        · cases hone
        · cases hone
    · cases hone

theorem mapM_chains_ne_cycle {rule : GuardedExitEvidence} {gaps : List String} {edges : Links}
    {seeds : List ℕ} (h : checkDefinitions rule.exitSource gaps [] [] definitions = .ok ())
    (hedges : (events rule definitions).foldlM (observe definitions) ⟨[], [], []⟩ = .ok edges) :
    seeds.mapM (chains edges definitions.length MAX_DEFINITION_CHAIN_DEPTH [])
      ≠ .error (invalid "definition_cycle") := by
  intro herror
  obtain ⟨seed, -, hcycle⟩ := mapM_eq_error herror
  refine chains_ne_cycle (fun index => (definitions[index]?.map
    fun d => d.declaration.byteEnd).getD 0) (fun parent child hedge => ?_) _ [] seed
    (fun _ hmem => absurd hmem List.not_mem_nil) hcycle
  obtain ⟨user, used, huser, hused, hless⟩ := edge_earlier h hedges hedge
  rw [huser, hused]
  exact hless

/-- **Definition links.**  For definitions that have passed their checks, every link leads to a
declaration that ends earlier than the one it comes from; the loop over the chains ends, as it does
on any links; and the validation never finds a cycle. -/
theorem definition_links_acyclic {rule : GuardedExitEvidence} {definitions : List LocalDefinition}
    {gaps : List String}
    (h : checkDefinitions rule.exitSource gaps [] [] definitions = .ok ()) :
    (∀ edges, (events rule definitions).foldlM (observe definitions) ⟨[], [], []⟩ = .ok edges →
      (∀ parent child, (parent, child) ∈ edges.edges → ∃ user used,
        definitions[parent]? = some user ∧ definitions[child]? = some used
          ∧ used.declaration.byteEnd < user.declaration.byteEnd)
      ∧ ∀ seeds : List ℕ, ∃ turns found, found ≠ .error (invalid "definition_cycle")
        ∧ ∀ fuel, followLinks edges definitions.length (fuel + turns) []
          (seeds.map fun index => (index, [])) = some found)
    ∧ links rule definitions ≠ .error (invalid "definition_cycle") := by
  constructor
  · intro edges hedges
    refine ⟨fun parent child hedge => edge_earlier h hedges hedge, fun seeds => ?_⟩
    obtain ⟨turns, hturns⟩ := followLinks_ends edges definitions.length seeds
    refine ⟨turns, _, fun herror => ?_, hturns⟩
    cases hseen : seeds.mapM (chains edges definitions.length MAX_DEFINITION_CHAIN_DEPTH []) with
    | error e =>
      rw [hseen] at herror
      refine mapM_chains_ne_cycle h hedges (hseen.trans ?_)
      cases herror
      rfl
    | ok seen =>
      rw [hseen] at herror
      cases herror
  · intro herror
    rcases bind_eq_error.mp herror with hobserve | ⟨edges, hedges, herror⟩
    · obtain ⟨s, event, -, hone⟩ := foldlM_eq_error hobserve
      exact observe_ne_cycle s event hone
    rcases bind_eq_error.mp herror with huses | ⟨⟨⟩, -, herror⟩
    · obtain ⟨d, -, hone⟩ := forM_eq_error huses
      exact absurd (ensure_eq_error.mp hone).2 (by decide)
    rcases bind_eq_error.mp herror with hcycle | ⟨seen, -, hlast⟩
    · exact mapM_chains_ne_cycle h hedges hcycle
    · have heq := (ensure_eq_error.mp hlast).2
      exact absurd heq (by decide)

/-- `const state = x`, which `ready` uses. -/
def Sample.state : LocalDefinition where
  bindingId := "binding:state@2"
  declaration := source 2 7
  uses := [source 22 27]
  initializer := expr 5 7 "identifier"
  expression := ⟨0, [⟨expr 5 7 "identifier", .unsupported "gap:value"⟩]⟩
  dependencies := []

theorem definition_links_acyclic_sample :
    links Sample.rule [Sample.state, Sample.ready] ≠ .error (invalid "definition_cycle") := by
  have hchecked : checkDefinitions Sample.rule.exitSource ["gap:value"] [] []
      [Sample.state, Sample.ready] = .ok () := by decide
  exact (definition_links_acyclic hchecked).2

end Rules

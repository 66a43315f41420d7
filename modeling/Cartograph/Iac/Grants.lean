/-
Grants through policy documents (`crates/iac/src/lib.rs`, `src-tauri/src/main.rs`).

`resolve_policy_document_grants` goes through the references of a policy one by one: each one
to a document becomes one edge per address that the statements of this document name.  Edges are
published by source, destination and label, and of the occurrences of a key only the last one
keeps its actions and scopes.  So the statements of one document are united, those of two
documents are not.

* `find?_published_eq` — what is published for a key is what the last reference says that
  leads there;
* `granted_extractTree` — what extraction promises of the references it finds;
* `grants_kept_iff` — nothing is lost exactly where the last reference says it all.
-/
import Cartograph.Iac.Directory
import Cartograph.Ingest.Occurrences

namespace Iac

open GraphStore (EdgeKey edgeKey findMember)
open Investigation
open Ingest (mergeEdgeOccurrences mergeEdgeGroup member? find?_mergeEdgeOccurrences)

/-! ### Publication -/

/-- The properties as one value. -/
def Props.toJson (p : Props) : Json := .obj (p.members ++ [("prov", p.prov.toJson)])

def edgeValue (e : Edge) : GraphStore.Edge Json := ⟨e.src, e.dst, e.label, e.props.toJson⟩

/-- What is published of an extraction. -/
def published (env : Env) (x : Extraction) : Table EdgeKey (GraphStore.Edge Json) :=
  mergeEdgeOccurrences env.contentHash
    ((resolvePolicyDocumentGrants env x).edges.map edgeValue)

/-! ### What statements say -/

/-- The references from a policy, in the order in which they were found. -/
def Extraction.references (x : Extraction) (policy : String) : List Edge :=
  x.edges.filter fun e => e.label == "GRANTS" && e.src == policy

/-- All statements, of all documents the policy references, that name the target. -/
def Extraction.statementsFor (x : Extraction) (policy target : String) : List PolicyStatement :=
  ((x.references policy).filterMap fun e => x.policyDocuments.find? e.dst).flatMap fun document =>
    document.granting target

/-- The addresses that the statements name. -/
def PolicyDocument.targets (document : PolicyDocument) : OrderedSet String :=
  .ofList (document.statements.flatMap fun s => s.resourceRefs.elements)

/-- An edge has the actions and the scopes of these statements, and no others. -/
def Shows (statements : List PolicyStatement) (g : GraphStore.Edge Json) : Prop :=
  member? "actions" g.props = some (strings (actionsOf statements))
    ∧ member? "resource_scopes" g.props = some (strings (scopesOf statements))

/-- Policy-document grants lose nothing. -/
structure GrantsKept (env : Env) (repo : String) (x : Extraction) : Prop where
  union : ∀ policy target, x.statementsFor policy target ≠ [] →
    ∃ g, (published env x).find? (edgeKey policy (resourceId repo target) "GRANTS") = some g
      ∧ Shows (x.statementsFor policy target) g
  unresolved : ∀ e ∈ x.edges, e.label = "GRANTS" → ∀ document,
    x.policyDocuments.find? e.dst = some document → document.unresolved ≠ [] →
      ∃ g, (published env x).find? (edgeKey e.src e.dst "GRANTS") = some g
        ∧ Shows document.unresolved g
  namespaced : ∀ k g, (published env x).find? k = some g → k.label = "GRANTS" →
    ∃ a b, k.src = resourceId repo a ∧ k.dst = resourceId repo b

/-! ### What a reference says -/

/-- What is on an edge: what the policy itself says, or what statements say. -/
inductive Said
  | own
  | statements (l : List PolicyStatement)

/-- A document is still an edge's end where it has no statement, or one without a reference. -/
def PolicyDocument.staysEnd (document : PolicyDocument) : Bool :=
  document.statements.isEmpty || !document.unresolved.isEmpty

/-- What a reference says on the edge to `dst`, where it leads there. -/
def said (x : Extraction) (dst : String) (e : Edge) : Option Said :=
  match x.policyDocuments.find? e.dst with
  | none => if e.dst = dst then some .own else none
  | some document =>
    match document.targets.elements.find? fun t => resourceId (repoOf e.src) t == dst with
    | some target => some (.statements (document.granting target))
    | none =>
      if document.staysEnd = true ∧ e.dst = dst then some (.statements document.unresolved)
      else none

/-- What the last reference of the policy says that leads to `dst`. -/
def Extraction.lastSaid (x : Extraction) (policy dst : String) : Option Said :=
  ((x.references policy).filterMap (said x dst)).getLast?

/-- These statements, or others with the same actions and scopes. -/
def Said.SameAs (statements : List PolicyStatement) (s : Said) : Prop :=
  ∃ l, s = .statements l ∧ actionsOf l = actionsOf statements ∧ scopesOf l = scopesOf statements

/-- The last reference that leads to an edge says all that is to be said there. -/
structure LastSaysAll (repo : String) (x : Extraction) : Prop where
  union : ∀ policy target, x.statementsFor policy target ≠ [] →
    ∃ s, x.lastSaid policy (resourceId repo target) = some s
      ∧ s.SameAs (x.statementsFor policy target)
  unresolved : ∀ e ∈ x.edges, e.label = "GRANTS" → ∀ document,
    x.policyDocuments.find? e.dst = some document → document.unresolved ≠ [] →
      ∃ s, x.lastSaid e.src e.dst = some s ∧ s.SameAs document.unresolved
  namespaced : ∀ e ∈ x.edges, e.label = "GRANTS" → ∀ document,
    x.policyDocuments.find? e.dst = some document →
      ∀ target ∈ document.targets.elements, ∃ b, resourceId (repoOf e.src) target = resourceId repo b

/-- What extraction promises of its references: the ends are resources of the repository, and
there are no scopes on them. -/
structure Extraction.Granted (repo : String) (x : Extraction) : Prop where
  ends : ∀ e ∈ x.edges, e.label = "GRANTS" →
    ∃ a b, e.src = resourceId repo a ∧ e.dst = resourceId repo b
  scopes : ∀ e ∈ x.edges, e.label = "GRANTS" → findMember "resource_scopes" e.props.members = none

/-! ### Lists of strings -/

theorem strings_injective {s t : OrderedSet String} (h : strings s = strings t) : s = t := by
  have hmap : s.elements.map Json.str = t.elements.map Json.str := Json.arr.inj h
  exact OrderedSet.elements_injective
    (List.map_injective_iff.mpr (fun _ _ => Json.str.inj) hmap)

theorem findMember_append (name : String) (fields fields' : List (String × Json)) :
    findMember name (fields ++ fields') = (findMember name fields).or (findMember name fields') := by
  induction fields with
  | nil => rfl
  | cons field rest ih =>
    rw [List.cons_append, findMember, findMember, ih]
    by_cases h : field.1 = name
    · rw [if_pos h, if_pos h, Option.some_or]
    · rw [if_neg h, if_neg h]

variable {name dst policy : String} {k : EdgeKey} {e : Edge} {document : PolicyDocument}
  {y out : Extraction} {run : CacheRun}

theorem findMember_eq_none {fields : List (String × Json)} (h : ∀ m ∈ fields, m.1 ≠ name) :
    findMember name fields = none := by
  induction fields with
  | nil => rfl
  | cons field rest ih =>
    obtain ⟨hfield, hrest⟩ := List.forall_mem_cons.mp h
    rw [findMember, if_neg hfield]
    exact ih hrest

theorem findMember_replace (v : Json) {members : List (String × Json)} :
    (members.any fun m => m.1 == name) = true →
      findMember name (members.map fun m => if m.1 = name then (name, v) else m) = some v := by
  induction members with
  | nil => intro h; cases h
  | cons m rest ih =>
    intro h
    rw [List.map_cons]
    by_cases hm : m.1 = name
    · rw [if_pos hm, findMember, if_pos rfl]
    · have hrest : (rest.any fun m => m.1 == name) = true := by simpa [hm] using h
      rw [if_neg hm, findMember, if_neg hm]
      exact ih hrest

theorem findMember_replace_of_ne {name' : String} (hne : name ≠ name') (v : Json)
    (members : List (String × Json)) :
    findMember name (members.map fun m => if m.1 = name' then (name', v) else m)
      = findMember name members := by
  induction members with
  | nil => rfl
  | cons m rest ih =>
    rw [List.map_cons, findMember]
    by_cases hm : m.1 = name'
    · have hm' : m.1 ≠ name := fun h => hne (h.symm.trans hm)
      rw [if_pos hm, if_neg hne.symm, ih, findMember, if_neg hm']
    · rw [if_neg hm, ih, findMember]

theorem findMember_setMember (members : List (String × Json)) (name name' : String) (v : Json) :
    findMember name (setMember members name' v)
      = if name = name' then some v else findMember name members := by
  rw [setMember]
  by_cases hany : (members.any fun m => m.1 == name') = true
  · rw [if_pos hany]
    by_cases hname : name = name'
    · rw [if_pos hname, hname, findMember_replace v hany]
    · rw [if_neg hname, findMember_replace_of_ne hname]
  · have hnone : findMember name' members = none := by
      refine findMember_eq_none fun m hm hname => hany ?_
      exact List.any_eq_true.mpr ⟨m, hm, by simp [hname]⟩
    rw [if_neg hany, findMember_append]
    by_cases hname : name = name'
    · rw [if_pos hname, hname, hnone]
      simp [findMember]
    · rw [if_neg hname, findMember, if_neg (Ne.symm hname), findMember, Option.or_none]

/-! ### The edge that is published -/

variable {env : Env} {x : Extraction} {repo : String}

theorem find?_published (h : ((resolvePolicyDocumentGrants env x).edges.filter
      fun e => edgeKey e.src e.dst e.label = k).getLast? = some e) :
    ∃ g, (published env x).find? k = some g ∧ ∀ name, name ≠ "prov" → name ≠ "evidence_omitted" →
      member? name g.props = findMember name e.props.members := by
  obtain ⟨earlier, hsplit⟩ := List.getLast?_eq_some_iff.mp h
  let g : Ingest.Occurrences := ⟨earlier.map edgeValue, edgeValue e⟩
  have hall : g.all = ((resolvePolicyDocumentGrants env x).edges.map edgeValue).filter
      fun e => e.key = k := by
    rw [List.filter_map]
    show earlier.map edgeValue ++ [edgeValue e] = List.map edgeValue (List.filter
      (fun e => edgeKey e.src e.dst e.label = k) _)
    rw [hsplit, List.map_append]
    rfl
  refine ⟨_, find?_mergeEdgeOccurrences.mpr ⟨g, hall, rfl⟩, fun name hprov homitted => ?_⟩
  have hlast : member? name g.last.props = findMember name e.props.members := by
    show findMember name (e.props.members ++ [("prov", e.props.prov.toJson)]) = _
    rw [findMember_append, findMember, if_neg (Ne.symm hprov), findMember, Option.or_none]
  rw [← hlast]
  by_cases hearlier : g.earlier = []
  · simp [mergeEdgeGroup, hearlier]
  · cases hread : Ingest.edgeProv g.last with
    | none => simp [mergeEdgeGroup, hread]
    | some prov => rw [Ingest.member?_merged hearlier hread, if_neg fun h => homitted h.1, if_neg hprov]

theorem find?_published_eq_none (h : (resolvePolicyDocumentGrants env x).edges.filter
      (fun e => edgeKey e.src e.dst e.label = k) = []) : (published env x).find? k = none := by
  rw [← Option.not_isSome_iff_eq_none, published, Ingest.isSome_mergeEdgeOccurrences, List.map_map]
  intro hmem
  obtain ⟨e, he, hk⟩ := List.mem_map.mp hmem
  exact List.filter_eq_nil_iff.mp h e he (decide_eq_true hk)

/-! ### The last one of what each gives -/

section Last

variable {α β γ : Type*} {f : α → List β} {h : α → Option γ} {r : γ → β → Prop}

theorem flatMap_eq_nil_of_filterMap {l : List α} (hnone : ∀ a ∈ l, h a = none → f a = [])
    (hl : l.filterMap h = []) : l.flatMap f = [] := by
  rw [List.flatMap_eq_nil_iff]
  intro a ha
  exact hnone a ha (List.filterMap_eq_nil_iff.mp hl a ha)

/-- Where each element gives a list that ends with what is noted of it, all lists together end
with what was noted last. -/
theorem getLast?_flatMap {l : List α} (hnone : ∀ a ∈ l, h a = none → f a = [])
    (hsome : ∀ a ∈ l, ∀ c, h a = some c → ∃ b, (f a).getLast? = some b ∧ r c b) {c : γ}
    (hl : (l.filterMap h).getLast? = some c) : ∃ b, (l.flatMap f).getLast? = some b ∧ r c b := by
  induction l with
  | nil => cases hl
  | cons a rest ih =>
    obtain ⟨hnoneA, hnoneRest⟩ := List.forall_mem_cons.mp hnone
    obtain ⟨hsomeA, hsomeRest⟩ := List.forall_mem_cons.mp hsome
    rw [List.flatMap_cons, List.getLast?_append]
    cases hrest : (rest.filterMap h).getLast? with
    | some c' =>
      have hc : c' = c := by
        cases ha : h a with
        | none => rwa [List.filterMap_cons_none ha, hrest, Option.some_inj] at hl
        | some c'' =>
          rw [List.filterMap_cons_some ha, List.getLast?_cons, hrest] at hl
          exact Option.some.inj hl
      obtain ⟨b, hb, hr⟩ := ih hnoneRest hsomeRest (hrest.trans (congrArg some hc))
      exact ⟨b, by rw [hb, Option.some_or], hr⟩
    | none =>
      have hempty : rest.filterMap h = [] := List.getLast?_eq_none_iff.mp hrest
      rw [flatMap_eq_nil_of_filterMap hnoneRest hempty]
      cases ha : h a with
      | none =>
        rw [List.filterMap_cons_none ha, hrest] at hl
        cases hl
      | some c' =>
        rw [List.filterMap_cons_some ha, hempty, List.getLast?_singleton, Option.some_inj] at hl
        obtain ⟨b, hb, hr⟩ := hsomeA c' ha
        exact ⟨b, by rw [List.getLast?_nil, Option.none_or, hb], hl ▸ hr⟩

end Last

/-! ### The edges of one reference -/

/-- An edge carries what a reference says. -/
def Said.On : Said → Edge → Prop
  | .own, e => findMember "resource_scopes" e.props.members = none
  | .statements l, e => findMember "actions" e.props.members = some (strings (actionsOf l))
      ∧ findMember "resource_scopes" e.props.members = some (strings (scopesOf l))

variable {e' : Edge} {l : List PolicyStatement} {id : SourceId} {path : String}
  {addressPrefix : Option String} {ancestors : List Path}

theorem ends_resolveGrant (h : e' ∈ resolveGrant env x.policyDocuments e) :
    e'.src = e.src ∧ e'.label = e.label := by
  rw [resolveGrant] at h
  split at h
  · rw [List.mem_singleton] at h
    exact h ▸ ⟨rfl, rfl⟩
  · rename_i hlabel
    split at h
    · rw [List.mem_singleton] at h
      exact h ▸ ⟨rfl, rfl⟩
    · rcases List.mem_append.mp h with h | h
      · split at h
        · rw [List.mem_singleton] at h
          exact h ▸ ⟨rfl, rfl⟩
        · exact absurd h List.not_mem_nil
      · obtain ⟨target, -, rfl⟩ := List.mem_map.mp h
        exact ⟨rfl, (not_not.mp hlabel).symm⟩

/-- The edge that stays on the document. -/
def fallbackEdge (env : Env) (document : PolicyDocument) (e : Edge) : Edge :=
  { e with props :=
      ⟨setMember (setMember (setMember e.props.members
          "actions" (strings (actionsOf document.unresolved)))
          "resource_scopes" (strings (scopesOf document.unresolved)))
          "policy_document" (.str e.dst),
        joinedPolicyProv env e document ("GRANTS " ++ e.src ++ " -> " ++ e.dst)⟩ }

/-- The edge to an address that the document names. -/
def targetEdge (env : Env) (document : PolicyDocument) (e : Edge) (target : String) : Edge :=
  ⟨e.src, resourceId (repoOf e.src) target, "GRANTS",
    ⟨[("actions", strings (actionsOf (document.granting target))),
        ("resource_scopes", strings (scopesOf (document.granting target))),
        ("policy_document", .str e.dst), ("registry", .str REGISTRY_VERSION)],
      joinedPolicyProv env e document
        ("GRANTS " ++ e.src ++ " -> " ++ target ++ " via " ++ e.dst)⟩⟩

theorem resolveGrant_own (hfind : x.policyDocuments.find? e.dst = none) :
    resolveGrant env x.policyDocuments e = [e] := by
  rw [resolveGrant, hfind]
  exact ite_self _

theorem resolveGrant_document (hlabel : e.label = "GRANTS")
    (hfind : x.policyDocuments.find? e.dst = some document) :
    resolveGrant env x.policyDocuments e
      = (if document.staysEnd then [fallbackEdge env document e] else [])
        ++ document.targets.elements.map (targetEdge env document e) := by
  rw [resolveGrant, if_neg (not_not.mpr hlabel), hfind]
  rfl

theorem on_fallbackEdge (document : PolicyDocument) (e : Edge) :
    (Said.statements document.unresolved).On (fallbackEdge env document e) := by
  constructor
  · show findMember "actions" (setMember _ _ _) = _
    simp only [findMember_setMember]
    simp
  · show findMember "resource_scopes" (setMember _ _ _) = _
    simp only [findMember_setMember]
    simp

theorem on_targetEdge (document : PolicyDocument) (e : Edge) (target : String) :
    (Said.statements (document.granting target)).On (targetEdge env document e target) :=
  ⟨rfl, rfl⟩

theorem resourceId_injective (repo : String) : Function.Injective (resourceId repo) := by
  intro a b h
  rw [resourceId, resourceId] at h
  have := congrArg String.toList h
  simpa [String.toList_inj] using this

theorem getLast?_eq_of_forall {α : Type*} {l : List α} {a b : α} (hmem : a ∈ l)
    (h : ∀ c ∈ l, c = b) : l.getLast? = some b := by
  cases hlast : l.getLast? with
  | none => exact absurd (List.getLast?_eq_none_iff.mp hlast ▸ hmem) List.not_mem_nil
  | some c => rw [h c (List.mem_of_getLast? hlast)]

theorem getLast?_targetEdges {target : String}
    (h : document.targets.elements.find? (fun t => resourceId (repoOf e.src) t == dst)
      = some target) :
    ((document.targets.elements.map (targetEdge env document e)).filter
      fun e' => e'.dst = dst).getLast? = some (targetEdge env document e target) := by
  have hdst : resourceId (repoOf e.src) target = dst := by simpa using List.find?_some h
  have hmem : targetEdge env document e target
      ∈ (document.targets.elements.map (targetEdge env document e)).filter fun e' => e'.dst = dst :=
    List.mem_filter.mpr ⟨List.mem_map_of_mem (List.mem_of_find?_eq_some h), decide_eq_true hdst⟩
  refine getLast?_eq_of_forall hmem fun e' he' => ?_
  obtain ⟨hmap, hdst'⟩ := List.mem_filter.mp he'
  obtain ⟨target', -, rfl⟩ := List.mem_map.mp hmap
  exact congrArg _ (resourceId_injective _ ((of_decide_eq_true hdst').trans hdst.symm))

theorem filter_targetEdges
    (h : document.targets.elements.find? (fun t => resourceId (repoOf e.src) t == dst) = none) :
    ((document.targets.elements.map (targetEdge env document e)).filter
      fun e' => e'.dst = dst) = [] := by
  rw [List.filter_eq_nil_iff]
  intro e' he' hdst
  obtain ⟨target, htarget, rfl⟩ := List.mem_map.mp he'
  exact List.find?_eq_none.mp h target htarget (beq_iff_eq.mpr (of_decide_eq_true hdst))

theorem getLast?_resolveGrant (hlabel : e.label = "GRANTS")
    (hscopes : findMember "resource_scopes" e.props.members = none) {s : Said}
    (h : said x dst e = some s) :
    ∃ e', ((resolveGrant env x.policyDocuments e).filter fun e' => e'.dst = dst).getLast? = some e'
      ∧ s.On e' := by
  rw [said] at h
  cases hfind : x.policyDocuments.find? e.dst with
  | none =>
    simp only [hfind, Option.ite_none_right_eq_some, Option.some_inj] at h
    obtain ⟨hdst, rfl⟩ := h
    refine ⟨e, ?_, hscopes⟩
    rw [resolveGrant_own hfind, List.filter_cons, if_pos (decide_eq_true hdst)]
    rfl
  | some document =>
    simp only [hfind] at h
    rw [resolveGrant_document hlabel hfind, List.filter_append, List.getLast?_append]
    cases htarget : document.targets.elements.find? fun t => resourceId (repoOf e.src) t == dst with
    | some target =>
      simp only [htarget, Option.some_inj] at h
      subst h
      exact ⟨_, by rw [getLast?_targetEdges htarget, Option.some_or], on_targetEdge document e target⟩
    | none =>
      simp only [htarget, Option.ite_none_right_eq_some, Option.some_inj] at h
      obtain ⟨⟨hstays, hdst⟩, rfl⟩ := h
      refine ⟨fallbackEdge env document e, ?_, on_fallbackEdge document e⟩
      have hdst' : (fallbackEdge env document e).dst = dst := hdst
      rw [filter_targetEdges htarget, if_pos hstays, List.filter_cons, if_pos (decide_eq_true hdst')]
      rfl

theorem filter_resolveGrant (hlabel : e.label = "GRANTS") (h : said x dst e = none) :
    ((resolveGrant env x.policyDocuments e).filter fun e' => e'.dst = dst) = [] := by
  rw [said] at h
  cases hfind : x.policyDocuments.find? e.dst with
  | none =>
    simp only [hfind, ite_eq_right_iff, reduceCtorEq, imp_false] at h
    rw [resolveGrant_own hfind]
    simpa using h
  | some document =>
    simp only [hfind] at h
    cases htarget : document.targets.elements.find? fun t => resourceId (repoOf e.src) t == dst with
    | some target => simp [htarget] at h
    | none =>
      simp only [htarget, ite_eq_right_iff, reduceCtorEq, imp_false, not_and] at h
      rw [resolveGrant_document hlabel hfind, List.filter_append, filter_targetEdges htarget,
        List.append_nil]
      by_cases hstays : document.staysEnd = true
      · have hdst : (fallbackEdge env document e).dst ≠ dst := h hstays
        rw [if_pos hstays]
        simpa using hdst
      · rw [if_neg hstays, List.filter_nil]

/-! ### All references of a policy -/

theorem filter_resolved (policy dst : String) :
    ((resolvePolicyDocumentGrants env x).edges.filter
        fun e => edgeKey e.src e.dst e.label = edgeKey policy dst "GRANTS")
      = (x.references policy).flatMap fun e =>
          (resolveGrant env x.policyDocuments e).filter fun e' => e'.dst = dst := by
  show List.filter _ (x.edges.flatMap _) = List.flatMap _ (x.edges.filter _)
  induction x.edges with
  | nil => rfl
  | cons e rest ih =>
    rw [List.flatMap_cons, List.filter_append, ih]
    by_cases hfrom : (e.label == "GRANTS" && e.src == policy) = true
    · rw [List.filter_cons, if_pos hfrom, List.flatMap_cons]
      refine congrArg (· ++ _) (List.filter_congr fun e' he' => ?_)
      obtain ⟨hsrc, hlabel⟩ := ends_resolveGrant he'
      simp only [Bool.and_eq_true, beq_iff_eq] at hfrom
      simp [edgeKey, hsrc, hlabel, hfrom]
    · rw [List.filter_cons, if_neg hfrom]
      have hnone : (resolveGrant env x.policyDocuments e).filter
          (fun e => edgeKey e.src e.dst e.label = edgeKey policy dst "GRANTS") = [] := by
        rw [List.filter_eq_nil_iff]
        intro e' he' hkey
        obtain ⟨hsrc, hlabel⟩ := ends_resolveGrant he'
        refine hfrom ?_
        simp [edgeKey, hsrc, hlabel] at hkey
        simp [hkey]
      rw [hnone, List.nil_append]

theorem mem_references :
    e ∈ x.references policy ↔ e ∈ x.edges ∧ e.label = "GRANTS" ∧ e.src = policy := by
  simp [Extraction.references]

/-- A published edge has what a reference says. -/
def Said.Published : Said → GraphStore.Edge Json → Prop
  | .own, g => member? "resource_scopes" g.props = none
  | .statements l, g => Shows l g

variable (env) in
theorem find?_published_eq (h : x.Granted repo) {s : Said} (hs : x.lastSaid policy dst = some s) :
    ∃ g, (published env x).find? (edgeKey policy dst "GRANTS") = some g ∧ s.Published g := by
  have hlast : ∃ e, ((resolvePolicyDocumentGrants env x).edges.filter
      fun e => edgeKey e.src e.dst e.label = edgeKey policy dst "GRANTS").getLast? = some e
        ∧ s.On e := by
    rw [filter_resolved]
    refine getLast?_flatMap (fun e he hnone => ?_) (fun e he c hc => ?_) hs
    · obtain ⟨-, hlabel, -⟩ := mem_references.mp he
      exact filter_resolveGrant hlabel hnone
    · obtain ⟨hmem, hlabel, -⟩ := mem_references.mp he
      exact getLast?_resolveGrant hlabel (h.scopes e hmem hlabel) hc
  obtain ⟨e, he, hon⟩ := hlast
  obtain ⟨g, hg, hmembers⟩ := find?_published he
  refine ⟨g, hg, ?_⟩
  have hactions := hmembers "actions" (by decide) (by decide)
  have hscopes := hmembers "resource_scopes" (by decide) (by decide)
  cases s with
  | own => exact hscopes.trans hon
  | statements l => exact ⟨hactions.trans hon.1, hscopes.trans hon.2⟩

theorem find?_published_none (hs : x.lastSaid policy dst = none) :
    (published env x).find? (edgeKey policy dst "GRANTS") = none := by
  refine find?_published_eq_none ?_
  rw [filter_resolved]
  refine flatMap_eq_nil_of_filterMap (fun e he hnone => ?_) (List.getLast?_eq_none_iff.mp hs)
  exact filter_resolveGrant (mem_references.mp he).2.1 hnone

theorem shows_iff {l' : List PolicyStatement} {g : GraphStore.Edge Json} (h : Shows l g) :
    Shows l' g ↔ actionsOf l = actionsOf l' ∧ scopesOf l = scopesOf l' := by
  rw [Shows, h.1, h.2, Option.some_inj, Option.some_inj]
  constructor
  · rintro ⟨hactions, hscopes⟩
    exact ⟨strings_injective hactions, strings_injective hscopes⟩
  · rintro ⟨hactions, hscopes⟩
    exact ⟨congrArg strings hactions, congrArg strings hscopes⟩

theorem published_shows_iff (h : x.Granted repo) :
    (∃ g, (published env x).find? (edgeKey policy dst "GRANTS") = some g ∧ Shows l g)
      ↔ ∃ s, x.lastSaid policy dst = some s ∧ s.SameAs l := by
  cases hs : x.lastSaid policy dst with
  | none =>
    rw [find?_published_none hs]
    simp
  | some s =>
    obtain ⟨g, hg, hpublished⟩ := find?_published_eq env h hs
    have hone : (∃ g', some g = some g' ∧ Shows l g') ↔ Shows l g := by simp
    have hsame : (∃ s', some s = some s' ∧ s'.SameAs l) ↔ s.SameAs l := by simp
    rw [hg, hone, hsame]
    cases s with
    | own =>
      refine iff_of_false (fun hshows => ?_) ?_
      · exact Option.some_ne_none _ (hshows.2.symm.trans hpublished)
      · rintro ⟨l', hown, -⟩
        cases hown
    | statements l' =>
      rw [shows_iff hpublished]
      constructor
      · intro hsame
        exact ⟨l', rfl, hsame⟩
      · rintro ⟨l'', hl, hsame⟩
        cases hl
        exact hsame

/-! ### What extraction promises -/

theorem granted_empty : ({} : Extraction).Granted repo where
  ends _ he := absurd he List.not_mem_nil
  scopes _ he := absurd he List.not_mem_nil

theorem granted_absorb {z : Extraction} (hy : y.Granted repo) (hz : z.Granted repo) :
    (y.absorb z).Granted repo where
  ends e he hlabel := by
    rcases List.mem_append.mp he with he | he
    · exact hy.ends e he hlabel
    · exact hz.ends e he hlabel
  scopes e he hlabel := by
    rcases List.mem_append.mp he with he | he
    · exact hy.scopes e he hlabel
    · exact hz.scopes e he hlabel

theorem granted_retarget (commit : String) (hy : y.Granted repo) :
    (y.retarget commit).Granted repo where
  ends e he hlabel := by
    obtain ⟨e', he', rfl⟩ := List.mem_map.mp he
    exact hy.ends e' he' hlabel
  scopes e he hlabel := by
    obtain ⟨e', he', rfl⟩ := List.mem_map.mp he
    exact hy.scopes e' he' hlabel

theorem granted_blockFacts (env : Env) (id : SourceId) (path : String)
    (addressPrefix : Option String) (ancestors : List Path) (length : ℕ) (b : Block)
    (localAddress : String) :
    (blockFacts env id path addressPrefix ancestors length b localAddress).Granted id.repo := by
  have hgrant : ∀ e ∈ (blockFacts env id path addressPrefix ancestors length b localAddress).edges,
      e.label = "GRANTS" → e ∈ grantEdges env id path addressPrefix length b localAddress := by
    intro e he hlabel
    rcases List.mem_append.mp he with he | he
    · rcases List.mem_append.mp he with he | he
      · obtain ⟨dep, -, rfl⟩ := List.mem_map.mp he
        have hlabel : "DEPENDS_ON" = "GRANTS" := hlabel
        simp at hlabel
      · obtain ⟨r, -, rfl⟩ := List.mem_map.mp he
        have hlabel : "REFERENCES" = "GRANTS" := hlabel
        simp at hlabel
    · split at he
      · rcases List.mem_append.mp he with he | he
        · obtain ⟨cap, -, he⟩ := List.mem_flatMap.mp he
          obtain ⟨s, -, he⟩ := List.mem_flatMap.mp he
          obtain ⟨t, -, rfl⟩ := List.mem_map.mp he
          have hkind : ∀ kind : CapabilityKind, kind.edgeLabel ≠ "GRANTS" := by
            intro kind
            cases kind with
            | triggers | routes | subscribes => decide
          exact absurd hlabel (hkind cap.kind)
        · exact he
      · exact absurd he List.not_mem_nil
  have hedge : ∀ e ∈ grantEdges env id path addressPrefix length b localAddress,
      (∃ a b, e.src = resourceId id.repo a ∧ e.dst = resourceId id.repo b)
        ∧ findMember "resource_scopes" e.props.members = none := by
    intro e he
    rw [grantEdges] at he
    split at he
    · obtain ⟨target, -, rfl⟩ := List.mem_map.mp he
      exact ⟨⟨_, target, rfl, rfl⟩, rfl⟩
    · exact absurd he List.not_mem_nil
  exact ⟨fun e he hlabel => (hedge e (hgrant e he hlabel)).1,
    fun e he hlabel => (hedge e (hgrant e he hlabel)).2⟩

theorem granted_extractSource {source : String}
    (h : extractSource env source path id addressPrefix ancestors = .ok y) :
    y.Granted id.repo := by
  rw [extractSource] at h
  cases hp : env.parse source with
  | error message => simp [hp] at h
  | ok blocks =>
    simp only [hp, Except.ok.injEq] at h
    have hfold : ∀ (blocks : List Block) (out : Extraction), out.Granted id.repo →
        (blocks.foldl (absorbBlock env id path addressPrefix ancestors source.utf8ByteSize)
          out).Granted id.repo := by
      intro blocks
      induction blocks with
      | nil => exact fun out hout => hout
      | cons b rest ih =>
        intro out hout
        refine ih _ ?_
        rw [absorbBlock]
        cases localAddress b with
        | none => exact hout
        | some address => exact granted_absorb hout (granted_blockFacts env id path _ _ _ b address)
    exact h ▸ hfold blocks {} granted_empty

/-- The extractions of a cache promise it too. -/
def CacheRun.Granted (repo : String) (run : CacheRun) : Prop :=
  ∀ key cached, run.cache.find? key = some cached → cached.extraction.Granted repo

theorem CacheRun.granted_put (hrun : run.Granted repo) {key : String} {cached : CachedFile}
    (h : cached.extraction.Granted repo) {active paths : OrderedSet String}
    {stats : IncrementalStats} :
    CacheRun.Granted repo ⟨run.cache.put key cached, active, paths, stats⟩ := by
  intro key' cached' hfind
  rw [Table.find?_put] at hfind
  split at hfind
  · exact Option.some.inj hfind ▸ h
  · exact hrun key' cached' hfind

theorem granted_extractFile (t : Tree) (id : SourceId) (hrun : run.Granted id.repo) :
    (extractFile env t id path addressPrefix ancestors run).2.Granted id.repo
      ∧ ∀ y, (extractFile env t id path addressPrefix ancestors run).1 = .ok y →
          y.Granted id.repo := by
  rw [extractFile]
  cases t.read path with
  | error message => exact ⟨hrun, fun y hy => by cases hy⟩
  | ok source =>
    dsimp only
    split
    · rename_i cached hcached
      obtain ⟨hfind, -⟩ := Option.filter_eq_some_iff.mp hcached
      have hy := granted_retarget id.commit (hrun _ cached hfind)
      refine ⟨CacheRun.granted_put hrun hy, fun y heq => ?_⟩
      cases heq
      exact hy
    · split
      · exact ⟨hrun, fun y hy => by cases hy⟩
      · rename_i hextract
        have hy := granted_extractSource hextract
        refine ⟨CacheRun.granted_put hrun hy, fun y heq => ?_⟩
        cases heq
        exact hy

section Loops

variable {σ : Type} {t : Tree} {file : FileExtractor σ} {inv : σ → Prop}

theorem granted_extractFiles (hfile : ∀ path addressPrefix ancestors s, inv s →
      inv (file path addressPrefix ancestors s).2
        ∧ ∀ y, (file path addressPrefix ancestors s).1 = .ok y → y.Granted repo)
    (addressPrefix : Option String) (ancestors : List Path) (files : List String) {s : σ}
    (hout : out.Granted repo) (hs : inv s) :
    inv (extractFiles file addressPrefix ancestors files out s).2
      ∧ ∀ y, (extractFiles file addressPrefix ancestors files out s).1 = .ok y → y.Granted repo := by
  induction files generalizing out s with
  | nil => exact ⟨hs, fun y hy => by cases hy; exact hout⟩
  | cons rel rest ih =>
    rw [extractFiles]
    obtain ⟨hinv, hgranted⟩ := hfile rel addressPrefix ancestors s hs
    rcases hres : file rel addressPrefix ancestors s with ⟨_ | y, s'⟩
    · rw [hres] at hinv
      exact ⟨hinv, fun y hy => by cases hy⟩
    · rw [hres] at hinv hgranted
      exact ih (granted_absorb hout (hgranted y rfl)) hinv

theorem granted_withModule {inner : Extraction} (hout : out.Granted repo)
    (hinner : inner.Granted repo) (env : Env) (d : ModuleDeclaration) :
    (out.withModule env d inner).Granted repo := by
  have hcontains : ∀ e ∈ containsEdges env d inner.nodes, e.label ≠ "GRANTS" := by
    intro e he
    obtain ⟨child, -, rfl⟩ := List.mem_map.mp he
    show "REFERENCES" ≠ "GRANTS"
    decide
  have hwith : Extraction.Granted repo
      { out with edges := out.edges ++ containsEdges env d inner.nodes } := by
    constructor
    · intro e he hlabel
      rcases List.mem_append.mp he with he | he
      · exact hout.ends e he hlabel
      · exact absurd hlabel (hcontains e he)
    · intro e he hlabel
      rcases List.mem_append.mp he with he | he
      · exact hout.scopes e he hlabel
      · exact absurd hlabel (hcontains e he)
  exact granted_absorb hwith ⟨hinner.ends, hinner.scopes⟩

theorem granted_expandLocalModules (hfile : ∀ path addressPrefix ancestors s, inv s →
      inv (file path addressPrefix ancestors s).2
        ∧ ∀ y, (file path addressPrefix ancestors s).1 = .ok y → y.Granted repo) (env : Env)
    (t : Tree) (root : Path) (rounds : ℕ) (pending : List ModuleDeclaration)
    (expanded : List (String × Path)) {s : σ} (hout : out.Granted repo) (hs : inv s) :
    inv (expandLocalModules env t file root rounds pending expanded out s).2
      ∧ ∀ y, (expandLocalModules env t file root rounds pending expanded out s).1 = some (.ok y) →
          y.Granted repo := by
  induction rounds generalizing pending expanded out s with
  | zero => exact ⟨hs, fun y hy => by cases hy⟩
  | succ rounds ih =>
    rw [expandLocalModules]
    cases SortBy.sortBy ModuleDeclaration.order pending with
    | nil => exact ⟨hs, fun y hy => by cases hy; exact hout⟩
    | cons d pending =>
      dsimp only
      cases t.resolve root d.declaringPath d.source with
      | none => exact ih _ _ hout hs
      | some sourceDir =>
        dsimp only
        split
        · exact ih _ _ hout hs
        split
        · exact ih _ _ hout hs
        cases t.directTfFiles root sourceDir with
        | error e => exact ⟨hs, fun y hy => by cases hy⟩
        | ok files =>
          dsimp only
          have hfiles := granted_extractFiles hfile (some d.address)
            (t.chain root d ++ [sourceDir]) files granted_empty hs
          rcases hres : extractFiles file (some d.address) (t.chain root d ++ [sourceDir]) files
            {} s with ⟨_ | inner, s'⟩
          · rw [hres] at hfiles
            exact ⟨hfiles.1, fun y hy => by cases hy⟩
          · rw [hres] at hfiles
            exact ih _ _ (granted_withModule hout (hfiles.2 inner rfl) env d) hfiles.1

end Loops

/-- Every extraction of a tree promises it, and leaves a cache that does. -/
theorem granted_extractTree {t : Tree} {rounds : ℕ} {run' : CacheRun} (hrun : run.Granted id.repo)
    (h : extractTree env t (extractFile env t id) rounds run = (some (.ok x), run')) :
    x.Granted id.repo ∧ run'.Granted id.repo := by
  rw [extractTree] at h
  cases hroot : t.root with
  | error message => simp [hroot] at h
  | ok root =>
    cases hwalk : t.tfFiles with
    | error e => simp [hroot, hwalk] at h
    | ok files =>
      simp only [hroot, hwalk] at h
      have hfile : ∀ path addressPrefix ancestors (run : CacheRun), run.Granted id.repo →
          (extractFile env t id path addressPrefix ancestors run).2.Granted id.repo
            ∧ ∀ y, (extractFile env t id path addressPrefix ancestors run).1 = .ok y →
                y.Granted id.repo :=
        fun path addressPrefix ancestors run => granted_extractFile t id
      have hfiles := granted_extractFiles hfile none [] files granted_empty hrun
      rcases hres : extractFiles (extractFile env t id) none [] files {} run
        with ⟨_ | out, middle⟩
      · simp [hres] at h
      · rw [hres] at h hfiles
        dsimp only at h hfiles
        have hout := hfiles.2 out rfl
        have hrest : Extraction.Granted id.repo { out with moduleDeclarations := [] } :=
          ⟨hout.ends, hout.scopes⟩
        have hall := granted_expandLocalModules hfile env t root rounds out.moduleDeclarations []
          hrest hfiles.1
        rw [h] at hall
        exact ⟨hall.2 x rfl, hall.1⟩

/-! ### Grants lose nothing -/

theorem dst_resolveGrant (hlabel : e.label = "GRANTS")
    (h : e' ∈ resolveGrant env x.policyDocuments e) :
    e'.dst = e.dst ∨ ∃ document, x.policyDocuments.find? e.dst = some document
      ∧ ∃ target ∈ document.targets.elements, e'.dst = resourceId (repoOf e.src) target := by
  cases hfind : x.policyDocuments.find? e.dst with
  | none =>
    rw [resolveGrant_own hfind, List.mem_singleton] at h
    exact .inl (congrArg GraphStore.Edge.dst h)
  | some document =>
    rw [resolveGrant_document hlabel hfind, List.mem_append] at h
    rcases h with h | h
    · split at h
      · rw [List.mem_singleton] at h
        exact .inl (h ▸ rfl)
      · exact absurd h List.not_mem_nil
    · obtain ⟨target, htarget, rfl⟩ := List.mem_map.mp h
      exact .inr ⟨document, rfl, target, htarget, rfl⟩

theorem isSome_published :
    ((published env x).find? k).isSome = true ↔
      ∃ e ∈ x.edges, ∃ e' ∈ resolveGrant env x.policyDocuments e,
        edgeKey e'.src e'.dst e'.label = k := by
  rw [published, Ingest.isSome_mergeEdgeOccurrences, List.map_map, List.mem_map]
  constructor
  · rintro ⟨e', he', rfl⟩
    obtain ⟨e, he, hmem⟩ := List.mem_flatMap.mp he'
    exact ⟨e, he, e', hmem, rfl⟩
  · rintro ⟨e, he, e', hmem, rfl⟩
    exact ⟨e', List.mem_flatMap.mpr ⟨e, he, hmem⟩, rfl⟩

/-- Every target is in the repository of the policy where the part of the policy's id that the
code takes for it gives the same ids. -/
theorem namespaced_iff (h : x.Granted repo) :
    (∀ k g, (published env x).find? k = some g → k.label = "GRANTS" →
        ∃ a b, k.src = resourceId repo a ∧ k.dst = resourceId repo b)
      ↔ ∀ e ∈ x.edges, e.label = "GRANTS" → ∀ document,
          x.policyDocuments.find? e.dst = some document → ∀ target ∈ document.targets.elements,
            ∃ b, resourceId (repoOf e.src) target = resourceId repo b := by
  constructor
  · intro hall e he hlabel document hfind target htarget
    have hmem : targetEdge env document e target ∈ resolveGrant env x.policyDocuments e := by
      rw [resolveGrant_document hlabel hfind]
      exact List.mem_append_right _ (List.mem_map_of_mem htarget)
    obtain ⟨g, hg⟩ := Option.isSome_iff_exists.mp (isSome_published.mpr ⟨e, he, _, hmem, rfl⟩)
    obtain ⟨a, b, -, hdst⟩ := hall _ g hg rfl
    exact ⟨b, hdst⟩
  · intro hall k g hg hk
    obtain ⟨e, he, e', he', rfl⟩ := isSome_published.mp (Option.isSome_iff_exists.mpr ⟨g, hg⟩)
    obtain ⟨hsrc, hlabel⟩ := ends_resolveGrant he'
    have hlabel' : e.label = "GRANTS" := hlabel.symm.trans hk
    obtain ⟨a, b, ha, hb⟩ := h.ends e he hlabel'
    refine ⟨a, ?_⟩
    rcases dst_resolveGrant hlabel' he' with hdst | ⟨document, hfind, target, htarget, hdst⟩
    · exact ⟨b, hsrc.trans ha, hdst.trans hb⟩
    · obtain ⟨b', hb'⟩ := hall e he hlabel' document hfind target htarget
      exact ⟨b', hsrc.trans ha, hdst.trans hb'⟩

/-- Policy-document grants lose nothing exactly where the last reference that leads to an edge
says all that is to be said there, and the policy's id spells its repository. -/
theorem grants_kept_iff (env : Env) (h : x.Granted repo) :
    GrantsKept env repo x ↔ LastSaysAll repo x := by
  constructor
  · intro hkept
    refine ⟨fun policy target hne => ?_, fun e he hlabel document hfind hne => ?_, ?_⟩
    · exact (published_shows_iff h).mp (hkept.union policy target hne)
    · exact (published_shows_iff h).mp (hkept.unresolved e he hlabel document hfind hne)
    · exact (namespaced_iff h).mp hkept.namespaced
  · intro hkept
    refine ⟨fun policy target hne => ?_, fun e he hlabel document hfind hne => ?_, ?_⟩
    · exact (published_shows_iff h).mpr (hkept.union policy target hne)
    · exact (published_shows_iff h).mpr (hkept.unresolved e he hlabel document hfind hne)
    · exact (namespaced_iff h).mpr hkept.namespaced

namespace Sample

/-- A document with one statement: an action on the bucket `data`. -/
def bucketDocument (name action : String) : Block :=
  .mk "data" ["aws_iam_policy_document", name] none []
    [.mk "statement" [] none
      [⟨"actions", .other [.string action]⟩,
        ⟨"resources", .other [.traversal (.variable "aws_s3_bucket") [.getAttr "data"]]⟩] []]

/-- The document `name` as JSON. -/
def documentJson (name : String) : Expression :=
  .traversal (.variable "data") [.getAttr "aws_iam_policy_document", .getAttr name, .getAttr "json"]

/-- Every text is a file with two documents and a policy that references both. -/
def policyEnv : Env where
  parse _ := .ok
    [bucketDocument "a" "s3:GetObject", bucketDocument "b" "s3:PutObject",
      .mk "resource" ["aws_iam_policy", "p"] none
        [⟨"policy", .other [documentJson "a", documentJson "b"]⟩] []]
  contentHash := Ingest.Sample.noHash

/-- What is extracted of it. -/
def policyExtraction : Extraction :=
  ((extractSource policyEnv "" "main.tf" ⟨"local", "c1"⟩ none []).toOption).getD {}

/-- The actions that are said. -/
def saidActions : Said → Option (List String)
  | .own => none
  | .statements l => some (actionsOf l).elements

/-- A tree with one file. -/
def policyTree : Tree where
  root := .ok ["r"]
  walk := .ok [("main.tf", "main.tf")]
  read _ := .ok ""
  canonicalize := some
  directories := [["r"]]
  readDir _ := .ok []

def policyRun : Option (Except ExtractError Extraction) × CacheRun :=
  extractTree policyEnv policyTree (extractFile policyEnv policyTree ⟨"local", "c1"⟩) 1
    { cache := .empty }

end Sample

theorem granted_extractTree_policy :
    ∃ x run, Sample.policyRun = (some (.ok x), run) ∧ x.edges ≠ [] ∧ x.Granted "local" := by
  have hrun : CacheRun.Granted "local" { cache := .empty } := fun _ _ h => by cases h
  obtain ⟨x, run, hx, hedges⟩ : ∃ x run, Sample.policyRun = (some (.ok x), run) ∧ x.edges ≠ [] :=
    ⟨_, _, rfl, by decide⟩
  exact ⟨x, run, hx, hedges, (granted_extractTree hrun hx).1⟩

/-- Both documents name the bucket: the policy may read and write it, and only the permission to
write is published. -/
theorem documents_not_united :
    extractSource Sample.policyEnv "" "main.tf" ⟨"local", "c1"⟩ none []
        = .ok Sample.policyExtraction
      ∧ (actionsOf (Sample.policyExtraction.statementsFor "res:local@aws_iam_policy.p"
          "aws_s3_bucket.data")).elements = ["s3:GetObject", "s3:PutObject"]
      ∧ (∃ g, (published Sample.policyEnv Sample.policyExtraction).find?
          (edgeKey "res:local@aws_iam_policy.p" "res:local@aws_s3_bucket.data" "GRANTS") = some g
            ∧ member? "actions" g.props = some (.arr [.str "s3:PutObject"]))
      ∧ ¬ GrantsKept Sample.policyEnv "local" Sample.policyExtraction := by
  have hextract : extractSource Sample.policyEnv "" "main.tf" ⟨"local", "c1"⟩ none []
      = .ok Sample.policyExtraction := rfl
  have hactions : (actionsOf (Sample.policyExtraction.statementsFor "res:local@aws_iam_policy.p"
      "aws_s3_bucket.data")).elements = ["s3:GetObject", "s3:PutObject"] := by decide
  have hlast : (Sample.policyExtraction.lastSaid "res:local@aws_iam_policy.p"
      "res:local@aws_s3_bucket.data").bind Sample.saidActions = some ["s3:PutObject"] := by
    decide
  have hgranted : Sample.policyExtraction.Granted "local" := granted_extractSource hextract
  obtain ⟨s, hs, hsaid⟩ := Option.bind_eq_some_iff.mp hlast
  obtain ⟨g, hg, hpublished⟩ := find?_published_eq _ hgranted hs
  cases s with
  | own => cases hsaid
  | statements l =>
    have hl : (actionsOf l).elements = ["s3:PutObject"] := Option.some.inj hsaid
    have hshown : member? "actions" g.props = some (.arr [.str "s3:PutObject"]) := by
      rw [hpublished.1, strings, hl]
      rfl
    refine ⟨hextract, hactions, ⟨g, hg, hshown⟩, fun hkept => ?_⟩
    obtain ⟨g', hg', hshows⟩ := hkept.union "res:local@aws_iam_policy.p" "aws_s3_bucket.data"
      fun hnil => by rw [hnil] at hactions; cases hactions
    have hsame : g' = g := Option.some.inj (hg'.symm.trans hg)
    rw [hsame, Shows, hshown, strings, hactions, Option.some_inj] at hshows
    simp at hshows

theorem grants_kept_sample :
    GrantsKept Sample.policyEnv "local" Sample.policyExtraction
      ↔ LastSaysAll "local" Sample.policyExtraction := by
  have hextract : extractSource Sample.policyEnv "" "main.tf" ⟨"local", "c1"⟩ none []
      = .ok Sample.policyExtraction := rfl
  exact grants_kept_iff Sample.policyEnv (granted_extractSource hextract)

end Iac

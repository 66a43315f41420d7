/-
Identities of snapshots and selections.

An identity is a hash of a canonical text.  It does not see the order in which a graph is
given, nor that of the members of an object at any depth, nor how often a label is named;
and everything else of the input is in the text, so inputs whose texts do not collide
have one identity only if they are the same up to these.

* `SameFacts` — the same facts in another order, members reordered;
* `identityText_injective` — a text determines the canonical content;
* `identity_canonical` — both directions, for snapshots and for selections.
-/
import Cartograph.Canonical
import Cartograph.ContextHub.Snapshot

namespace ContextHub

open Checked GraphStore SortBy

/-! ### Graphs up to order -/

def NodeReordered (n n' : Node Json.Value) : Prop :=
  n.id = n'.id ∧ n.label = n'.label ∧ n.props.json.Reordered n'.props.json

def EdgeReordered (e e' : Edge Json.Value) : Prop :=
  e.src = e'.src ∧ e.dst = e'.dst ∧ e.label = e'.label ∧ e.props.json.Reordered e'.props.json

/-- The same facts in another order. -/
def SameFacts {α : Type} (same : α → α → Prop) (l l' : List α) : Prop :=
  ∃ middle, List.Forall₂ same l middle ∧ middle.Perm l'

/-- The same graph, up to the order of nodes, of edges and of members. -/
structure SameGraph (nodes nodes' : List (Node Json.Value)) (edges edges' : List (Edge Json.Value)) :
    Prop where
  nodes : SameFacts NodeReordered nodes nodes'
  edges : SameFacts EdgeReordered edges edges'

/-- The same selection, up to the order and the number of labels. -/
structure SameSelection (r r' : QueryRequest) : Prop where
  scope : r.scope = r'.scope
  kind : r.kind = r'.kind
  labels : ∀ label, label ∈ r.labels ↔ label ∈ r'.labels

variable {version id : String} {j j' : Json}

section

variable {α : Type} {l l' : List α} {hash : String → String} {nodes : List (Node Json.Value)}
  {edges : List (Edge Json.Value)}

theorem SameFacts.map_perm {β : Type} {same : α → α → Prop} {f : α → β} (h : SameFacts same l l')
    (hf : ∀ a a', same a a' → f a = f a') :
    (l.map f).Perm (l'.map f) := by
  obtain ⟨middle, hsame, hperm⟩ := h
  have heq : l.map f = middle.map f := by
    clear hperm
    induction hsame with
    | nil => rfl
    | cons ha _ ih => rw [List.map_cons, List.map_cons, hf _ _ ha, ih]
  rw [heq]
  exact hperm.map f

/-! ### Canonical facts -/

theorem canonicalize_nodeJson (n : Node Json.Value) : canonicalize (nodeJson n)
    = .obj [("id", .str n.id), ("label", .str n.label), ("props", canonicalize n.props.json)] := by
  rw [nodeJson, canonicalize, canonicalizeMembers_eq]
  exact congrArg Json.obj (sortMembers_eq (.refl _)
    (show ["id", "label", "props"].Pairwise (· < ·) by decide))

theorem canonicalize_edgeJson (e : Edge Json.Value) : canonicalize (edgeJson e)
    = .obj [("dst", .str e.dst), ("label", .str e.label), ("props", canonicalize e.props.json),
      ("src", .str e.src)] := by
  rw [edgeJson, canonicalize, canonicalizeMembers_eq]
  have hperm := List.perm_append_singleton ("src", Json.str e.src) [("dst", Json.str e.dst),
    ("label", Json.str e.label), ("props", canonicalize e.props.json)]
  exact congrArg Json.obj (sortMembers_eq hperm.symm
    (show ["dst", "label", "props", "src"].Pairwise (· < ·) by decide))

theorem canonicalize_nodeJson_eq_iff {n n' : Node Json.Value} :
    canonicalize (nodeJson n) = canonicalize (nodeJson n') ↔ NodeReordered n n' := by
  rw [canonicalize_nodeJson, canonicalize_nodeJson]
  simp only [Json.obj.injEq, List.cons.injEq, Prod.mk.injEq, Json.str.injEq, true_and, and_true]
  rw [canonicalize_eq_iff n.props.distinct n'.props.distinct]
  rfl

theorem canonicalize_edgeJson_eq_iff {e e' : Edge Json.Value} :
    canonicalize (edgeJson e) = canonicalize (edgeJson e') ↔ EdgeReordered e e' := by
  rw [canonicalize_edgeJson, canonicalize_edgeJson]
  simp only [Json.obj.injEq, List.cons.injEq, Prod.mk.injEq, Json.str.injEq, true_and, and_true]
  rw [canonicalize_eq_iff e.props.distinct e'.props.distinct]
  constructor
  · rintro ⟨hdst, hlabel, hprops, hsrc⟩
    exact ⟨hsrc, hdst, hlabel, hprops⟩
  · rintro ⟨hsrc, hdst, hlabel, hprops⟩
    exact ⟨hdst, hlabel, hprops, hsrc⟩

/-! ### Texts -/

theorem identityText_injective (hj : j.Distinct) (hnumeric : j.Numeric) (hj' : j'.Distinct)
    (hnumeric' : j'.Numeric) (h : identityText version j = identityText version j') :
    canonicalize j = canonicalize j' := by
  have hpair : Json.arr [.str version, canonicalize j] = .arr [.str version, canonicalize j'] :=
    Json.render_injective ⟨trivial, numeric_canonicalize hj hnumeric, trivial⟩
      ⟨trivial, numeric_canonicalize hj' hnumeric', trivial⟩ h
  simpa using hpair

/-- Two texts without a collision. -/
def CollisionFree (hash : String → String) (text text' : String) : Prop :=
  hash text = hash text' → text = text'

theorem contentIdentity_injective (hj : j.Distinct) (hnumeric : j.Numeric) (hj' : j'.Distinct)
    (hnumeric' : j'.Numeric)
    (hfree : CollisionFree hash (identityText version j) (identityText version j'))
    (h : contentIdentity hash version j = contentIdentity hash version j') :
    canonicalize j = canonicalize j' :=
  identityText_injective hj hnumeric hj' hnumeric' (hfree (String.append_right_inj _ |>.mp h))

/-! ### Snapshots -/

theorem distinct_nodeJson (n : Node Json.Value) : (nodeJson n).Distinct :=
  ⟨show ["id", "label", "props"].Nodup by decide, trivial, trivial, n.props.distinct, trivial⟩

theorem distinct_edgeJson (e : Edge Json.Value) : (edgeJson e).Distinct :=
  ⟨show ["src", "dst", "label", "props"].Nodup by decide, trivial, trivial, trivial,
    e.props.distinct, trivial⟩

theorem distinct_graphJson (nodes : List (Node Json.Value)) (edges : List (Edge Json.Value)) :
    (graphJson nodes edges).Distinct := by
  refine ⟨?_, ?_, trivial⟩
  · exact Json.itemsDistinct_iff.mpr (List.forall_mem_map.mpr fun n _ => distinct_nodeJson n)
  · exact Json.itemsDistinct_iff.mpr (List.forall_mem_map.mpr fun e _ => distinct_edgeJson e)

theorem numeric_graphJson (nodes : List (Node Json.Value)) (edges : List (Edge Json.Value)) :
    (graphJson nodes edges).Numeric := by
  refine ⟨?_, ?_, trivial⟩
  · exact Json.itemsNumeric_iff.mpr
      (List.forall_mem_map.mpr fun n _ => ⟨trivial, trivial, n.props.numeric, trivial⟩)
  · exact Json.itemsNumeric_iff.mpr
      (List.forall_mem_map.mpr fun e _ => ⟨trivial, trivial, trivial, e.props.numeric, trivial⟩)

theorem canonicalize_graphJson (nodes : List (Node Json.Value)) (edges : List (Edge Json.Value)) :
    canonicalize (graphJson nodes edges) = .arr [.arr (nodes.map fun n => canonicalize (nodeJson n)),
      .arr (edges.map fun e => canonicalize (edgeJson e))] := by
  simp only [graphJson, canonicalize, canonicalizeItems_eq, List.map_cons, List.map_nil,
    List.map_map]
  rfl

/-- The identity `ContextSnapshot::new` gives, or how it fails. -/
def snapshotId (hash : String → String) (nodes : List (Node Json.Value))
    (edges : List (Edge Json.Value)) : Except ContextError String :=
  (ContextSnapshot.new hash nodes edges).map ContextSnapshot.id

/-- The reference of the edge with this place in the order. -/
def orderReference (k : String ×ₗ String ×ₗ String) : FactReference :=
  .edge (ofLex k).1 (ofLex (ofLex k).2).1 (ofLex (ofLex k).2).2

theorem snapshotId_eq (hash : String → String) (nodes : List (Node Json.Value))
    (edges : List (Edge Json.Value)) : snapshotId hash nodes edges
      = match (firstDuplicate Node.id (sortNodes nodes)).map Node.id,
          (firstDuplicate edgeOrder (sortEdges edges)).map edgeOrder with
        | some id, _ => .error (.duplicateNode id)
        | none, some k => .error (.duplicateEdge (orderReference k))
        | none, none => .ok (contentIdentity hash "context-v1"
            (graphJson (sortNodes nodes) (sortEdges edges))) := by
  rw [snapshotId, ContextSnapshot.new]
  cases firstDuplicate Node.id (sortNodes nodes) with
  | some n => rfl
  | none =>
    cases firstDuplicate edgeOrder (sortEdges edges) with
    | some e => rfl
    | none => rfl

variable {nodes' : List (Node Json.Value)} {edges' : List (Edge Json.Value)}

theorem snapshotId_congr (hash : String → String) (h : SameGraph nodes nodes' edges edges') :
    snapshotId hash nodes edges = snapshotId hash nodes' edges' := by
  have hids : (nodes.map Node.id).Perm (nodes'.map Node.id) :=
    h.nodes.map_perm fun _ _ hn => hn.1
  have horders : (edges.map edgeOrder).Perm (edges'.map edgeOrder) := by
    refine h.edges.map_perm fun e e' he => ?_
    rw [edgeOrder, edgeOrder, he.1, he.2.1, he.2.2.1]
  have hnodes : (firstDuplicate Node.id (sortNodes nodes)).map Node.id
      = (firstDuplicate Node.id (sortNodes nodes')).map Node.id := firstDuplicate_congr hids
  have hedges : (firstDuplicate edgeOrder (sortEdges edges)).map edgeOrder
      = (firstDuplicate edgeOrder (sortEdges edges')).map edgeOrder := firstDuplicate_congr horders
  rw [snapshotId_eq, snapshotId_eq, ← hnodes, ← hedges]
  cases hnode : firstDuplicate Node.id (sortNodes nodes) with
  | some n => rfl
  | none =>
    cases hedge : firstDuplicate edgeOrder (sortEdges edges) with
    | some e => rfl
    | none =>
      -- without duplicates the canonical facts come in one order only
      have hnodeJson : (sortNodes nodes).map (fun n => (n.id, canonicalize (nodeJson n)))
          = (sortNodes nodes').map (fun n => (n.id, canonicalize (nodeJson n))) :=
        sortBy_congr (g := Prod.fst) (fun _ => rfl) (h.nodes.map_perm fun _ _ hn =>
          Prod.ext hn.1 (canonicalize_nodeJson_eq_iff.mpr hn)) hnode
      have hedgeJson : (sortEdges edges).map (fun e => (edgeOrder e, canonicalize (edgeJson e)))
          = (sortEdges edges').map (fun e => (edgeOrder e, canonicalize (edgeJson e))) := by
        refine sortBy_congr (g := Prod.fst) (fun _ => rfl) (h.edges.map_perm fun e e' he => ?_) hedge
        refine Prod.ext ?_ (canonicalize_edgeJson_eq_iff.mpr he)
        show edgeOrder e = edgeOrder e'
        rw [edgeOrder, edgeOrder, he.1, he.2.1, he.2.2.1]
      have hgraph : canonicalize (graphJson (sortNodes nodes) (sortEdges edges))
          = canonicalize (graphJson (sortNodes nodes') (sortEdges edges')) := by
        have hn := congrArg (List.map Prod.snd) hnodeJson
        have he := congrArg (List.map Prod.snd) hedgeJson
        simp only [List.map_map] at hn he
        rw [canonicalize_graphJson, canonicalize_graphJson]
        exact congrArg₂ (fun a b => Json.arr [.arr a, .arr b]) hn he
      show Except.ok _ = Except.ok _
      rw [contentIdentity, identityText, hgraph, contentIdentity, identityText]

/-- The text behind the identity of a snapshot. -/
def snapshotText (nodes : List (Node Json.Value)) (edges : List (Edge Json.Value)) : String :=
  identityText "context-v1" (graphJson (sortNodes nodes) (sortEdges edges))

theorem snapshotId_ok (h : snapshotId hash nodes edges = .ok id) :
    id = contentIdentity hash "context-v1" (graphJson (sortNodes nodes) (sortEdges edges)) := by
  rw [snapshotId_eq] at h
  split at h
  · exact absurd h (by simp)
  · exact absurd h (by simp)
  · exact (Except.ok.inj h).symm

theorem forall₂_of_map_eq {β : Type} {f : α → β} (h : l.map f = l'.map f) :
    List.Forall₂ (fun a b => f a = f b) l l' := by
  rw [← List.forall₂_eq_eq_eq, List.forall₂_map_left_iff, List.forall₂_map_right_iff] at h
  exact h

theorem SameFacts.of_sorted {same : α → α → Prop} {sorted sorted' : List α} (hl : sorted.Perm l)
    (hl' : sorted'.Perm l') (h : List.Forall₂ same sorted sorted') :
    SameFacts same l l' := by
  obtain ⟨middle, hsame, hperm⟩ := List.perm_comp_forall₂ hl.symm h
  exact ⟨middle, hsame, hperm.trans hl'⟩

theorem snapshotId_injective
    (hfree : CollisionFree hash (snapshotText nodes edges) (snapshotText nodes' edges'))
    (h : snapshotId hash nodes edges = .ok id) (h' : snapshotId hash nodes' edges' = .ok id) :
    SameGraph nodes nodes' edges edges' := by
  have hcanonical := contentIdentity_injective (distinct_graphJson _ _) (numeric_graphJson _ _)
    (distinct_graphJson _ _) (numeric_graphJson _ _) hfree
    ((snapshotId_ok h).symm.trans (snapshotId_ok h'))
  rw [canonicalize_graphJson, canonicalize_graphJson] at hcanonical
  simp only [Json.arr.injEq, List.cons.injEq, and_true] at hcanonical
  obtain ⟨hnodes, hedges⟩ := hcanonical
  refine ⟨.of_sorted (sortBy_perm Node.id nodes) (sortBy_perm Node.id nodes') ?_,
    .of_sorted (sortBy_perm edgeOrder edges) (sortBy_perm edgeOrder edges') ?_⟩
  · exact (forall₂_of_map_eq hnodes).imp fun _ _ => canonicalize_nodeJson_eq_iff.mp
  · exact (forall₂_of_map_eq hedges).imp fun _ _ => canonicalize_edgeJson_eq_iff.mp

/-! ### Selections -/

theorem canonicalize_str (l : List String) :
    canonicalize (.arr (l.map Json.str)) = .arr (l.map Json.str) := by
  rw [canonicalize, canonicalizeItems_eq, List.map_map]
  rfl

theorem canonicalize_scope : ∀ scope : QueryScope, canonicalize scope.toJson = match scope with
    | .all => .obj [("type", .str "all")]
    | .neighborhood anchor hops =>
      .obj [("anchor", .str anchor), ("hops", .nat hops), ("type", .str "neighborhood")]
  | .all => by
    rw [QueryScope.toJson, canonicalize, canonicalizeMembers_eq]
    exact congrArg Json.obj (sortMembers_eq (.refl _) (List.pairwise_singleton _ _))
  | .neighborhood anchor hops => by
    rw [QueryScope.toJson, canonicalize, canonicalizeMembers_eq]
    have hperm := List.perm_append_singleton ("type", Json.str "neighborhood")
      [("anchor", Json.str anchor), ("hops", Json.nat hops)]
    exact congrArg Json.obj (sortMembers_eq hperm.symm
      (show ["anchor", "hops", "type"].Pairwise (· < ·) by decide))

theorem canonicalize_scope_injective {scope scope' : QueryScope}
    (h : canonicalize scope.toJson = canonicalize scope'.toJson) : scope = scope' := by
  rw [canonicalize_scope, canonicalize_scope] at h
  cases scope with
  | all =>
    cases scope' with
    | all => rfl
    | neighborhood anchor hops => simp at h
  | neighborhood anchor hops =>
    cases scope' with
    | all => simp at h
    | neighborhood anchor' hops' =>
      simp only [Json.obj.injEq, List.cons.injEq, Prod.mk.injEq, Json.str.injEq, true_and,
        and_true] at h
      rw [h.1, Json.nat_injective h.2]

theorem kindJson_injective {kind kind' : Option FactKind}
    (h : Json.opt (fun k => .str k.text) kind = Json.opt (fun k => .str k.text) kind') :
    kind = kind' := by
  match kind, kind', h with
  | none, none, _ => rfl
  | some .node, some .node, _ => rfl
  | some .edge, some .edge, _ => rfl
  | none, some _, h | some _, none, h => exact absurd h (by simp [Json.opt])
  | some .node, some .edge, h | some .edge, some .node, h =>
    exact absurd h (by simp [Json.opt, FactKind.text])

theorem canonicalize_kind (kind : Option FactKind) :
    canonicalize (.opt (fun k => .str k.text) kind) = .opt (fun k => .str k.text) kind := by
  cases kind with
  | none => rfl
  | some k => rfl

theorem canonicalize_selection (s : Selection) : canonicalize s.toJson
    = .obj [("kind", .opt (fun k => .str k.text) s.kind),
      ("labels", .arr (s.labels.elements.map Json.str)),
      ("scope", canonicalize s.scope.toJson)] := by
  rw [Selection.toJson, canonicalize, canonicalizeMembers_eq]
  simp only [List.map_cons, List.map_nil, canonicalize_str, canonicalize_kind]
  have hperm := List.perm_append_singleton ("scope", canonicalize s.scope.toJson)
    [("kind", Json.opt (fun k => .str k.text) s.kind),
      ("labels", Json.arr (s.labels.elements.map Json.str))]
  exact congrArg Json.obj (sortMembers_eq hperm.symm
    (show ["kind", "labels", "scope"].Pairwise (· < ·) by decide))

theorem canonicalize_selection_injective {s s' : Selection}
    (h : canonicalize s.toJson = canonicalize s'.toJson) : s = s' := by
  rw [canonicalize_selection, canonicalize_selection] at h
  simp only [Json.obj.injEq, List.cons.injEq, Prod.mk.injEq, Json.arr.injEq, true_and,
    and_true] at h
  obtain ⟨hkind, hlabels, hscope⟩ := h
  have hsorted := List.map_injective_iff.mpr (fun _ _ => Json.str.inj) hlabels
  obtain ⟨scope, kind, labels⟩ := s
  obtain ⟨scope', kind', labels'⟩ := s'
  obtain rfl := canonicalize_scope_injective hscope
  obtain rfl := kindJson_injective hkind
  obtain rfl : labels = labels' := OrderedSet.elements_injective hsorted
  rfl

theorem distinct_selection (s : Selection) : s.toJson.Distinct ∧ s.toJson.Numeric := by
  have hkind : (Json.opt (fun k : FactKind => .str k.text) s.kind).Distinct
      ∧ (Json.opt (fun k : FactKind => .str k.text) s.kind).Numeric := by
    cases s.kind with
    | none | some k => exact ⟨trivial, trivial⟩
  have hscope : s.scope.toJson.Distinct ∧ s.scope.toJson.Numeric := by
    cases s.scope with
    | all => exact ⟨⟨show ["type"].Nodup by decide, trivial, trivial⟩, trivial, trivial⟩
    | neighborhood anchor hops =>
      exact ⟨⟨show ["type", "anchor", "hops"].Nodup by decide, trivial, trivial, trivial, trivial⟩,
        trivial, trivial, Json.numeric_nat hops, trivial⟩
  refine ⟨⟨show ["scope", "kind", "labels"].Nodup by decide, hscope.1, hkind.1, ?_, trivial⟩,
    hscope.2, hkind.2, ?_, trivial⟩
  · exact Json.itemsDistinct_iff.mpr (List.forall_mem_map.mpr fun _ _ => trivial)
  · exact Json.itemsNumeric_iff.mpr (List.forall_mem_map.mpr fun _ _ => trivial)

theorem selection_eq_iff {r r' : QueryRequest} : r.selection = r'.selection ↔ SameSelection r r' := by
  rw [QueryRequest.selection, QueryRequest.selection, Selection.mk.injEq]
  constructor
  · rintro ⟨hscope, hkind, hlabels⟩
    refine ⟨hscope, hkind, fun label => ?_⟩
    rw [← OrderedSet.contains_ofList, hlabels, OrderedSet.contains_ofList]
  · intro h
    refine ⟨h.scope, h.kind, OrderedSet.ext_contains fun label => ?_⟩
    rw [OrderedSet.contains_ofList, OrderedSet.contains_ofList]
    exact h.labels label

/-! ### Both directions -/

/-- **Identities.**  The identity of a snapshot (or the failure to build it) is the same for
graphs that differ in the order of nodes, of edges and of members at any depth, and that of
a selection for requests that differ in the order and repetition of labels.  Inputs whose
texts do not collide have the same identity only then. -/
theorem identity_canonical (hash : String → String) (nodes nodes' : List (Node Json.Value))
    (edges edges' : List (Edge Json.Value)) (request request' : QueryRequest) :
    (SameGraph nodes nodes' edges edges' →
      snapshotId hash nodes edges = snapshotId hash nodes' edges')
    ∧ (SameSelection request request' →
      selectionId hash request.selection = selectionId hash request'.selection)
    ∧ (CollisionFree hash (snapshotText nodes edges) (snapshotText nodes' edges') →
      ∀ id, snapshotId hash nodes edges = .ok id → snapshotId hash nodes' edges' = .ok id →
        canonicalize (graphJson (sortNodes nodes) (sortEdges edges))
          = canonicalize (graphJson (sortNodes nodes') (sortEdges edges'))
        ∧ SameGraph nodes nodes' edges edges')
    ∧ (CollisionFree hash (identityText "selection-v1" request.selection.toJson)
        (identityText "selection-v1" request'.selection.toJson) →
      selectionId hash request.selection = selectionId hash request'.selection →
        canonicalize request.selection.toJson = canonicalize request'.selection.toJson
        ∧ SameSelection request request') := by
  refine ⟨snapshotId_congr hash, fun h => ?_, fun hfree id h h' => ⟨?_, ?_⟩, fun hfree h => ?_⟩
  · rw [selection_eq_iff.mpr h]
  · exact contentIdentity_injective (distinct_graphJson _ _) (numeric_graphJson _ _)
      (distinct_graphJson _ _) (numeric_graphJson _ _) hfree
      ((snapshotId_ok h).symm.trans (snapshotId_ok h'))
  · exact snapshotId_injective hfree h h'
  · have hcanonical := contentIdentity_injective (distinct_selection _).1 (distinct_selection _).2
      (distinct_selection _).1 (distinct_selection _).2 hfree h
    exact ⟨hcanonical, selection_eq_iff.mp (canonicalize_selection_injective hcanonical)⟩

end

namespace Sample

def name : Json.Value where
  json := .obj [("name", .str "f"), ("line", .nat 3)]
  distinct := ⟨show ["name", "line"].Nodup by decide, trivial, trivial, trivial⟩
  numeric := ⟨trivial, Json.numeric_nat 3, trivial⟩

def name' : Json.Value where
  json := .obj [("line", .nat 3), ("name", .str "f")]
  distinct := ⟨show ["line", "name"].Nodup by decide, trivial, trivial, trivial⟩
  numeric := ⟨Json.numeric_nat 3, trivial, trivial⟩

def none : Json.Value := ⟨.obj [], ⟨List.nodup_nil, trivial⟩, trivial⟩

/-- The hashes of the texts below. -/
def hash (text : String) : String :=
  if text = identityText "selection-v1" 
      (Selection.toJson ⟨.all, some .node, .ofList ["Endpoint", "Symbol"]⟩) then
    "a14b81ed71b3720f419f135f1fe8847abcb8ca5ef6c6f6a9b663ecc7c05a6970"
  else "3fd8497bad4511b904ec1631818dfc9666aed77d5efde7683267cc714f33ceda"

end Sample

/-- Two nodes in either order, one with its members in either order. -/
theorem identity_canonical_reordered :
    snapshotId Sample.hash [⟨"a", "Symbol", Sample.name⟩, ⟨"b", "Symbol", Sample.none⟩] []
        = snapshotId Sample.hash [⟨"b", "Symbol", Sample.none⟩, ⟨"a", "Symbol", Sample.name'⟩] []
      ∧ selectionId Sample.hash
          (QueryRequest.selection { kind := some .node, labels := ["Symbol", "Endpoint"] })
        = selectionId Sample.hash (QueryRequest.selection
          { kind := some .node, labels := ["Endpoint", "Symbol", "Endpoint"] }) := by
  have h := identity_canonical Sample.hash
    [⟨"a", "Symbol", Sample.name⟩, ⟨"b", "Symbol", Sample.none⟩]
    [⟨"b", "Symbol", Sample.none⟩, ⟨"a", "Symbol", Sample.name'⟩] [] []
    { kind := some .node, labels := ["Symbol", "Endpoint"] }
    { kind := some .node, labels := ["Endpoint", "Symbol", "Endpoint"] }
  refine ⟨h.1 ⟨⟨[⟨"a", "Symbol", Sample.name'⟩, ⟨"b", "Symbol", Sample.none⟩], ?_, .swap _ _ _⟩,
    ⟨[], .nil, .refl _⟩⟩, h.2.1 ⟨rfl, rfl, ?_⟩⟩
  · exact .cons ⟨rfl, rfl, .members (.swap _ _ _)⟩ (.cons ⟨rfl, rfl, .refl _⟩ .nil)
  · simp [or_comm]

end ContextHub

/-
Receipts and what they bind (`crates/adapters-lang-ts/src/captured/receipt.rs` and
`src-tauri/src/primary_source.rs`).

A receipt attests one fact as an adapter has emitted it: with its digest, and with the ranges of the
source that its properties cite.  The extraction may have changed the fact since; the binder keeps
the receipts that still match the last node of an id, or the merged edge of a relation.

* `inventory` — the ranges that properties cite, in the order of the producer;
* `mem_matchingBindings` — a fact is bound by the last receipt that matches it;
* `nodup_matchingBindings`, `extractedDigest_of_mem` — once, and with the digest it has.
-/
import Cartograph.Ingest.Load
import Cartograph.Rules.Decode

namespace Ingest

open GraphStore Investigation Checked

/-! ### The ranges of a fact -/

/-- A range of a receipt, without its place in the capture. -/
structure ReceiptRange where
  role : TaskRangeRole
  index : ℕ
  evidence : EvidenceRef
  deriving DecidableEq

def MAX_RECEIPT_RANGES : ℕ := 1024

/-- Ranges of one role, counted from `first` on. -/
def numbered (role : TaskRangeRole) (first : ℕ) (sources : List EvidenceRef) : List ReceiptRange :=
  (sources.zipIdx first).map fun s => ⟨role, s.2, s.1⟩

/-- A prerequisite, and the declaration it is bound to. -/
def dependencyRanges (role declared : TaskRangeRole) (index : ℕ) (source : EvidenceRef) :
    Rules.DependencyResolution → List ReceiptRange
  | .binding _ declaration => [⟨role, index, source⟩, ⟨declared, index, declaration⟩]
  | .target _ | .unresolved _ => [⟨role, index, source⟩]

/-- Local definitions; uses, expressions and prerequisites are counted through all of them. -/
def definitionRanges : ℕ → ℕ → ℕ → ℕ → List Rules.LocalDefinition → List ReceiptRange
  | _, _, _, _, [] => []
  | index, use, expression, dependency, d :: rest =>
    ⟨.definitionDeclaration, index, d.declaration⟩ :: numbered .definitionUse use d.uses
      ++ ⟨.definitionInitializer, index, d.initializer.source⟩
        :: numbered .definitionExpression expression (d.expression.nodes.map (·.expression.source))
      ++ ((d.dependencies.zipIdx dependency).flatMap fun p =>
        dependencyRanges .definitionDependency .definitionDependencyDeclaration p.2 p.1.source
          p.1.resolution)
      ++ definitionRanges (index + 1) (use + d.uses.length)
        (expression + d.expression.nodes.length) (dependency + d.dependencies.length) rest

def exitRanges : Rules.LocalExit → List ReceiptRange
  | .return (some value) => [⟨.returnValue, 0, value.source⟩]
  | .return none => []
  | .throw value => [⟨.throwValue, 0, value.source⟩]

def ruleRanges (rule : Rules.GuardedExitEvidence) : List ReceiptRange :=
  ⟨.ruleExit, 0, rule.exitSource⟩ :: (rule.conditions.zipIdx.flatMap fun p =>
      [⟨.conditionBranch, p.2, p.1.branchSource⟩,
        ⟨.conditionExpression, p.2, p.1.expression.source⟩])
    ++ exitRanges rule.effect
    ++ (rule.dependencies.zipIdx.flatMap fun p =>
      dependencyRanges .dependency .dependencyDeclaration p.2 p.1.source p.1.resolution)
    ++ definitionRanges 0 0 0 0 (rule.localDefinitions.getD [])
    ++ numbered .redaction 0 (rule.redactions.map (·.source))

/-- The ranges that properties cite; nothing where they are no inventory of this version. -/
def inventory (props : Json) (version : ℕ) : Option (List ReceiptRange) := do
  guard (version = 1 ∨ version = 2)
  let provenance ← (member? "prov" props).bind Provenance.fromValue
  guard (provenance.validate.toBool = true)
  let fromRule ← match member? "rule" props with
    | none => some []
    | some value => do
      let rule ← (Rules.fromValue value).toOption
      guard (rule.schemaVersion = version)
      pure (ruleRanges rule)
  let ranges := numbered .provenance 0 provenance.evidence ++ fromRule
  guard (ranges.length ≤ MAX_RECEIPT_RANGES)
  pure ranges

/-! ### Receipts -/

/-- What binding reads of a receipt. -/
structure Receipt where
  receiptId : String
  schemaVersion : ℕ
  repoKey : String
  factKey : FactKey
  factDigest : String
  ranges : List ReceiptRange

namespace Receipt

def matchesInventory (r : Receipt) (props : Json) : Bool :=
  inventory props r.schemaVersion == some r.ranges

def matchesNode (c : Codec Json) (r : Receipt) (node : Node Json) : Bool :=
  r.factKey == .node node.id && c.nodeDigest node == r.factDigest && r.matchesInventory node.props

def matchesEdge (c : Codec Json) (r : Receipt) (edge : Edge Json) : Bool :=
  r.factKey == .edge edge.src edge.label edge.dst && c.edgeDigest edge == r.factDigest
    && r.matchesInventory edge.props

def binding (r : Receipt) : SourceBinding := ⟨r.factKey, r.repoKey, r.receiptId, r.factDigest⟩

/-- The receipt matches the fact of the extraction that has its key. -/
def matchesFact (c : Codec Json) (contentHash : String → Hash) (extraction : Extraction)
    (r : Receipt) : Bool :=
  match r.factKey with
  | .node nodeId => ((Table.ofList Node.id id extraction.nodes).find? nodeId).any (r.matchesNode c)
  | .edge source label destination =>
    ((mergeEdgeOccurrences contentHash extraction.edges).find?
      (edgeKey source destination label)).any (r.matchesEdge c)

end Receipt

/-- The derived order of facts: nodes before edges. -/
def factRank : FactKey → String ⊕ₗ (String ×ₗ String ×ₗ String)
  | .node id => toLex (.inl id)
  | .edge source label destination => toLex (.inr (toLex (source, toLex (label, destination))))

/-- The associations of the matching receipts, by fact. -/
def bindingTable (c : Codec Json) (contentHash : String → Hash) (extraction : Extraction)
    (receipts : List Receipt) : Table (String ⊕ₗ (String ×ₗ String ×ₗ String)) SourceBinding :=
  Table.ofList (fun r => factRank r.factKey) Receipt.binding
    (receipts.filter (·.matchesFact c contentHash extraction))

/-- `matching_bindings`. -/
def matchingBindings (c : Codec Json) (contentHash : String → Hash) (extraction : Extraction)
    (receipts : List Receipt) : List SourceBinding :=
  (bindingTable c contentHash extraction receipts).rows.map Prod.snd

/-! ### What is bound -/

theorem factRank_injective : Function.Injective factRank := by
  intro a b h
  cases a with
  | node id =>
    cases b with
    | node id' => rw [Sum.inl.inj (toLex.injective h)]
    | edge source label destination => exact absurd (toLex.injective h) (by simp)
  | edge source label destination =>
    cases b with
    | node id => exact absurd (toLex.injective h) (by simp)
    | edge source' label' destination' =>
      have hkeys := toLex.injective (Sum.inr.inj (toLex.injective h))
      simp only [Prod.mk.injEq] at hkeys
      obtain ⟨rfl, hrest⟩ := hkeys
      have hrest := toLex.injective hrest
      simp only [Prod.mk.injEq] at hrest
      obtain ⟨rfl, rfl⟩ := hrest
      rfl

/-- The digest of the fact as extracted: the last node of an id, the merged edge of a relation. -/
def extractedDigest (c : Codec Json) (contentHash : String → Hash) (extraction : Extraction) :
    FactKey → Option String
  | .node id => (lastWith Node.id id extraction.nodes).map c.nodeDigest
  | .edge source label destination =>
    ((mergeEdgeOccurrences contentHash extraction.edges).find?
      (edgeKey source destination label)).map c.edgeDigest

section

variable {c : Codec Json} {contentHash : String → Hash} {extraction : Extraction}
  {receipts : List Receipt} {r : Receipt}

theorem extractedDigest_of_matches (h : r.matchesFact c contentHash extraction = true) :
    extractedDigest c contentHash extraction r.factKey = some r.factDigest := by
  rw [Receipt.matchesFact] at h
  cases hkey : r.factKey with
  | node id =>
    simp only [hkey, Option.any_eq_true, find?_ofList] at h
    obtain ⟨node, hnode, hmatches⟩ := h
    simp only [Receipt.matchesNode, Bool.and_eq_true, beq_iff_eq] at hmatches
    rw [extractedDigest, hnode, Option.map_some, hmatches.1.2]
  | edge source label destination =>
    simp only [hkey, Option.any_eq_true] at h
    obtain ⟨edge, hedge, hmatches⟩ := h
    simp only [Receipt.matchesEdge, Bool.and_eq_true, beq_iff_eq] at hmatches
    rw [extractedDigest, hedge, Option.map_some, hmatches.1.2]

/-- The last receipt that matches its fact. -/
def Binds (c : Codec Json) (contentHash : String → Hash) (extraction : Extraction)
    (receipts : List Receipt) (r : Receipt) : Prop :=
  lastWith Receipt.factKey r.factKey (receipts.filter (·.matchesFact c contentHash extraction))
    = some r

theorem Binds.matches (h : Binds c contentHash extraction receipts r) :
    r ∈ receipts ∧ r.matchesFact c contentHash extraction = true :=
  List.mem_filter.mp (List.mem_reverse.mp (List.mem_of_find?_eq_some h))

theorem exists_binds (hr : r ∈ receipts) (h : r.matchesFact c contentHash extraction = true) :
    ∃ r', Binds c contentHash extraction receipts r' ∧ r'.factKey = r.factKey := by
  have hsome : (lastWith Receipt.factKey r.factKey
      (receipts.filter (·.matchesFact c contentHash extraction))).isSome :=
    lastWith_isSome.mpr ⟨r, List.mem_filter.mpr ⟨hr, h⟩, rfl⟩
  obtain ⟨r', hr'⟩ := Option.isSome_iff_exists.mp hsome
  have hkey : r'.factKey = r.factKey := by simpa using List.find?_some hr'
  exact ⟨r', by rw [Binds, hkey]; exact hr', hkey⟩

theorem find?_bindingTable (key : FactKey) :
    (bindingTable c contentHash extraction receipts).find? (factRank key)
      = (lastWith Receipt.factKey key
        (receipts.filter (·.matchesFact c contentHash extraction))).map Receipt.binding := by
  rw [bindingTable, Table.find?_ofList, lastWith]
  simp only [factRank_injective.eq_iff]

theorem binds_of_row {row : (String ⊕ₗ (String ×ₗ String ×ₗ String)) × SourceBinding}
    (h : row ∈ (bindingTable c contentHash extraction receipts).rows) :
    ∃ r, Binds c contentHash extraction receipts r ∧ row = (factRank r.factKey, r.binding) := by
  obtain ⟨r, -, hrank⟩ := List.mem_map.mp
    (Table.mem_keys_ofList.mp (List.mem_map.mpr ⟨row, h, rfl⟩))
  have hrank : factRank r.factKey = row.1 := hrank
  have hfind := Table.find?_eq_some_iff.mpr h
  rw [← hrank, find?_bindingTable, Option.map_eq_some_iff] at hfind
  obtain ⟨r', hr', hrow⟩ := hfind
  have hkey : r'.factKey = r.factKey := by simpa using List.find?_some hr'
  refine ⟨r', by rw [Binds, hkey]; exact hr', ?_⟩
  rw [hkey, hrank, hrow]

theorem mem_matchingBindings {b : SourceBinding} :
    b ∈ matchingBindings c contentHash extraction receipts
      ↔ ∃ r, Binds c contentHash extraction receipts r ∧ b = r.binding := by
  constructor
  · intro hb
    obtain ⟨row, hrow, rfl⟩ := List.mem_map.mp hb
    obtain ⟨r, hr, rfl⟩ := binds_of_row hrow
    exact ⟨r, hr, rfl⟩
  · rintro ⟨r, hr, rfl⟩
    have hrow : (bindingTable c contentHash extraction receipts).find? (factRank r.factKey)
        = some r.binding := by
      rw [find?_bindingTable, hr, Option.map_some]
    exact List.mem_map.mpr ⟨_, Table.find?_eq_some_iff.mp hrow, rfl⟩

theorem nodup_matchingBindings :
    ((matchingBindings c contentHash extraction receipts).map (·.fact)).Nodup := by
  refine List.Nodup.of_map factRank ?_
  rw [matchingBindings, List.map_map, List.map_map]
  have hranks : (bindingTable c contentHash extraction receipts).rows.map
      ((factRank ∘ fun b => b.fact) ∘ Prod.snd)
        = (bindingTable c contentHash extraction receipts).rows.map Prod.fst := by
    refine List.map_congr_left fun row hrow => ?_
    obtain ⟨r, -, rfl⟩ := binds_of_row hrow
    rfl
  rw [hranks]
  exact Table.keys_nodup _

theorem extractedDigest_of_mem {b : SourceBinding}
    (h : b ∈ matchingBindings c contentHash extraction receipts) :
    extractedDigest c contentHash extraction b.fact = some b.emittedFactDigest := by
  obtain ⟨r, hr, rfl⟩ := mem_matchingBindings.mp h
  exact extractedDigest_of_matches hr.matches.2

end

end Ingest

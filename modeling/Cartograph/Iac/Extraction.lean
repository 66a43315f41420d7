/-
Facts of one Terraform file (`crates/iac/src/lib.rs`).

A file is extracted in a context: under the address of the module block that instantiates
it, with the chain of directories that led there.  Resources, data and modules become nodes,
references edges, and module blocks declarations still to be expanded.

The commit occurs in evidence only, so facts are moved to another commit there.

* `extractSource_retarget` — facts moved to a commit are the facts at that commit;
* `extractSource_chain` — the chain of directories is only passed on to declarations.
-/
import Cartograph.Lib.OrderedSet
import Cartograph.Provenance
import Cartograph.GraphStore
import Cartograph.Iac.Hcl

namespace Iac

open Investigation

/-- The directories and the name of an absolute path. -/
abbrev Path := List String

/-- The properties of a fact: its provenance, and what else it has. -/
structure Props where
  members : List (String × Json)
  prov : Provenance

abbrev Node := GraphStore.Node Props
abbrev Edge := GraphStore.Edge Props

structure PolicyStatement where
  resourceRefs : OrderedSet String
  resourceScopes : OrderedSet String
  actions : OrderedSet String

structure PolicyDocument where
  statements : List PolicyStatement
  evidence : EvidenceRef

structure ModuleDeclaration where
  address : String
  nodeId : String
  source : String
  declaringPath : String
  evidence : EvidenceRef
  ancestors : List Path

structure Extraction where
  nodes : List Node := []
  edges : List Edge := []
  policyDocuments : Table String PolicyDocument := .empty
  moduleDeclarations : List ModuleDeclaration := []

inductive ExtractError
  | parse (path message : String)
  | io (message : String)
  deriving DecidableEq

/-- Identity of the source. -/
structure SourceId where
  repo : String
  commit : String

/-- The parser of `hcl_edit`, and the hash of a content. -/
structure Env where
  parse : String → Except String (List Block)
  contentHash : String → Hash

def EXTRACTOR_ID : String := "t0.iac-terraform"

/-- Resource types whose `policy` attribute grants permissions. -/
def POLICY_TYPES : List String := ["aws_iam_policy", "aws_iam_role_policy", "aws_iam_role"]

/-! ### Addresses and provenance -/

def evidenceRef (id : SourceId) (path : String) (span : ℕ × ℕ) : EvidenceRef :=
  ⟨id.repo, path, span.1, span.2, id.commit⟩

/-- `Provenance::new` at the deterministic tier, which may confirm. -/
def confirmed (env : Env) (evidence : List EvidenceRef) (fact : String) : Provenance :=
  ⟨.deterministic, .confirmed, evidence, EXTRACTOR_ID, (env.contentHash fact).text⟩

def prov (env : Env) (id : SourceId) (path : String) (span : ℕ × ℕ) (fact : String) : Provenance :=
  confirmed env [evidenceRef id path span] fact

/-- Resources are named within their repository. -/
def resourceId (repo address : String) : String := "res:" ++ repo ++ "@" ++ address

def scopedAddress (addressPrefix : Option String) (address : String) : String :=
  match addressPrefix with
  | none => address
  | some outer => outer ++ "." ++ address

def scopedRefs (refs : List String) (addressPrefix : Option String) : OrderedSet String :=
  .ofList (refs.map (scopedAddress addressPrefix))

def strings (set : OrderedSet String) : Json := .arr (set.elements.map Json.str)

/-! ### Blocks -/

/-- The address of a resource, a data source or a module within its file. -/
def localAddress (b : Block) : Option String :=
  match b.ident, b.labels with
  | "resource", [rtype, name] => some (rtype ++ "." ++ name)
  | "data", [rtype, name] => some ("data." ++ rtype ++ "." ++ name)
  | "module", [name] => some ("module." ++ name)
  | _, _ => none

def resourceType (b : Block) : String :=
  if b.ident = "module" then "module" else b.labels.headD ""

/-- The part before the first underscore. -/
def providerOf (rtype : String) : String := String.ofList (rtype.toList.takeWhile fun c => c != '_')

/-- The block that holds a statement; of a dynamic one, its first content. -/
def statementBody (nested : Block) : Option Block :=
  if nested.ident = "statement" then some nested
  else if nested.dynamicMatches "statement" then
    nested.blocks.find? fun content => content.ident == "content"
  else none

def statementActions (b : Block) : List String :=
  (b.attributes.filter fun a => a.key == "action" || a.key == "actions").flatMap
    fun a => a.value.strings

def policyStatements (b : Block) (addressPrefix : Option String) : List PolicyStatement :=
  (b.blocks.filterMap statementBody).map fun body =>
    { resourceRefs :=
        scopedRefs (refsForPath body.attributes body.blocks ["resources"]) addressPrefix
      resourceScopes := .ofList (staticStringsForPath body.attributes body.blocks ["resources"])
      actions := .ofList (statementActions body) }

section Block

variable (env : Env) (id : SourceId) (path : String) (addressPrefix : Option String)
  (ancestors : List Path) (length : ℕ) (b : Block) (localAddress : String)

def blockSpan : ℕ × ℕ := b.span.getD (0, length)

def blockNodeId : String := resourceId id.repo (scopedAddress addressPrefix localAddress)

/-- An edge that this block establishes. -/
def blockEdge (src dst label : String) (members : List (String × Json)) (fact : String) : Edge :=
  ⟨src, dst, label, ⟨members, prov env id path (blockSpan length b) fact⟩⟩

def blockNode : Node :=
  { id := blockNodeId id addressPrefix localAddress
    label := "Resource"
    props :=
      ⟨[("type", .str (resourceType b)),
          ("logical_id", .str (scopedAddress addressPrefix localAddress)),
          ("provider", .str (providerOf (resourceType b))), ("kind", .str b.ident)],
        prov env id path (blockSpan length b)
          ("Resource " ++ scopedAddress addressPrefix localAddress)⟩ }

/-- `depends_on`, by scoped address. -/
def dependsOnEdges : List Edge :=
  (scopedRefs (b.refsForAttr "depends_on") addressPrefix).elements.map fun dep =>
    blockEdge env id path length b (blockNodeId id addressPrefix localAddress)
      (resourceId id.repo dep) "DEPENDS_ON" []
      ("DEPENDS_ON " ++ scopedAddress addressPrefix localAddress ++ " -> " ++ dep)

/-- All other references, by address within the file. -/
def referenceEdges : List Edge :=
  ((OrderedSet.ofList b.refs).elements.filter fun r =>
      !(r == localAddress || (b.refsForAttr "depends_on").contains r)).map fun r =>
    blockEdge env id path length b (blockNodeId id addressPrefix localAddress)
      (resourceId id.repo (scopedAddress addressPrefix r)) "REFERENCES" []
      ("REFERENCES " ++ scopedAddress addressPrefix localAddress ++ " -> "
        ++ scopedAddress addressPrefix r)

def capabilityEdges : List Edge :=
  (capabilitiesFor (resourceType b)).flatMap fun cap =>
    (scopedRefs (b.refsForSelector cap.source localAddress) addressPrefix).elements.flatMap fun s =>
      (scopedRefs (b.refsForSelector cap.target localAddress) addressPrefix).elements.map fun t =>
        blockEdge env id path length b (resourceId id.repo s) (resourceId id.repo t)
          cap.kind.edgeLabel
          [("via", .str (blockNodeId id addressPrefix localAddress)),
            ("registry", .str REGISTRY_VERSION)]
          (cap.kind.edgeLabel ++ " " ++ s ++ " -> " ++ t ++ " via "
            ++ scopedAddress addressPrefix localAddress)

def grantEdges : List Edge :=
  if POLICY_TYPES.contains (resourceType b) then
    let actions : OrderedSet String :=
      .ofList (((b.attributes.find? fun a => a.key == "policy").map
        fun a => a.value.actions).getD [])
    (scopedRefs (b.refsForAttr "policy") addressPrefix).elements.map fun target =>
      blockEdge env id path length b (blockNodeId id addressPrefix localAddress)
        (resourceId id.repo target) "GRANTS"
        [("actions", strings actions), ("registry", .str REGISTRY_VERSION)]
        ("GRANTS " ++ scopedAddress addressPrefix localAddress ++ " -> " ++ target)
  else []

def blockDocuments : Table String PolicyDocument :=
  if b.ident = "data" ∧ resourceType b = "aws_iam_policy_document" then
    Table.empty.put (blockNodeId id addressPrefix localAddress)
      ⟨policyStatements b addressPrefix, evidenceRef id path (blockSpan length b)⟩
  else .empty

def blockDeclarations : List ModuleDeclaration :=
  if b.ident = "module" then
    (b.stringAttr "source").toList.map fun source =>
      { address := scopedAddress addressPrefix localAddress
        nodeId := blockNodeId id addressPrefix localAddress
        source := source
        declaringPath := path
        evidence := evidenceRef id path (blockSpan length b)
        ancestors := ancestors }
  else []

def blockFacts : Extraction :=
  { nodes := [blockNode env id path addressPrefix length b localAddress]
    edges := dependsOnEdges env id path addressPrefix length b localAddress
      ++ referenceEdges env id path addressPrefix length b localAddress
      ++ if b.ident = "resource" then
          capabilityEdges env id path addressPrefix length b localAddress
            ++ grantEdges env id path addressPrefix length b localAddress
        else []
    policyDocuments := blockDocuments id path addressPrefix length b localAddress
    moduleDeclarations := blockDeclarations id path addressPrefix ancestors length b localAddress }

end Block

/-! ### Files -/

/-- `absorb`. -/
def Extraction.absorb (a b : Extraction) : Extraction :=
  { nodes := a.nodes ++ b.nodes
    edges := a.edges ++ b.edges
    policyDocuments := b.policyDocuments.rows.foldl (fun t r => t.put r.1 r.2) a.policyDocuments
    moduleDeclarations := a.moduleDeclarations ++ b.moduleDeclarations }

/-- One block after the others. -/
def absorbBlock (env : Env) (id : SourceId) (path : String) (addressPrefix : Option String)
    (ancestors : List Path) (length : ℕ) (out : Extraction) (b : Block) : Extraction :=
  match localAddress b with
  | none => out
  | some address => out.absorb (blockFacts env id path addressPrefix ancestors length b address)

/-- `extract_source_unresolved`. -/
def extractSource (env : Env) (source path : String) (id : SourceId)
    (addressPrefix : Option String) (ancestors : List Path) : Except ExtractError Extraction :=
  match env.parse source with
  | .error message => .error (.parse path message)
  | .ok blocks =>
    .ok (blocks.foldl (absorbBlock env id path addressPrefix ancestors source.utf8ByteSize) {})

/-! ### Another commit -/

def retargetEvidence (commit : String) (e : EvidenceRef) : EvidenceRef :=
  { e with commitSha := commit }

/-- `retarget_props_commit`. -/
def Props.retarget (commit : String) (p : Props) : Props :=
  { p with prov := { p.prov with evidence := p.prov.evidence.map (retargetEvidence commit) } }

def retargetNode (commit : String) (n : Node) : Node := { n with props := n.props.retarget commit }

def retargetEdge (commit : String) (e : Edge) : Edge := { e with props := e.props.retarget commit }

/-- `retarget_commit`. -/
def Extraction.retarget (commit : String) (x : Extraction) : Extraction :=
  { nodes := x.nodes.map (retargetNode commit)
    edges := x.edges.map (retargetEdge commit)
    policyDocuments := x.policyDocuments.mapValues fun d =>
      { d with evidence := retargetEvidence commit d.evidence }
    moduleDeclarations := x.moduleDeclarations.map fun d =>
      { d with evidence := retargetEvidence commit d.evidence } }

variable {source : String} {x out out' : Extraction}

section Retarget

variable (commit : String)

@[simp] theorem retarget_empty : ({} : Extraction).retarget commit = {} := rfl

theorem mapValues_foldl_put {ν : Type} (f : ν → ν) (rows : List (String × ν)) (t : Table String ν) :
    (rows.foldl (fun t r => t.put r.1 r.2) t).mapValues f
      = (rows.map fun r => (r.1, f r.2)).foldl (fun t r => t.put r.1 r.2) (t.mapValues f) := by
  induction rows generalizing t with
  | nil => rfl
  | cons r rest ih =>
    have hput : (t.put r.1 r.2).mapValues f = (t.mapValues f).put r.1 (f r.2) := by
      refine Table.ext_find? fun k => ?_
      rw [Table.find?_mapValues, Table.find?_put, Table.find?_put, Table.find?_mapValues]
      by_cases hk : k = r.1
      · simp [hk]
      · simp [hk]
    rw [List.foldl_cons, ih, hput, List.map_cons, List.foldl_cons]

theorem retarget_absorb (x y : Extraction) :
    (x.absorb y).retarget commit = (x.retarget commit).absorb (y.retarget commit) := by
  rw [Extraction.retarget, Extraction.absorb, Extraction.mk.injEq]
  exact ⟨List.map_append, List.map_append, mapValues_foldl_put _ _ _, List.map_append⟩

variable (env : Env) (repo c₀ path : String) (addressPrefix : Option String)
  (ancestors : List Path) (length : ℕ) (b : Block) (localAddress : String)

theorem retarget_grantEdges :
    (grantEdges env ⟨repo, c₀⟩ path addressPrefix length b localAddress).map (retargetEdge commit)
      = grantEdges env ⟨repo, commit⟩ path addressPrefix length b localAddress := by
  rw [grantEdges, grantEdges]
  by_cases h : POLICY_TYPES.contains (resourceType b) = true
  · rw [if_pos h, if_pos h, List.map_map]
    rfl
  · rw [if_neg h, if_neg h, List.map_nil]

theorem retarget_capabilityEdges :
    (capabilityEdges env ⟨repo, c₀⟩ path addressPrefix length b localAddress).map
        (retargetEdge commit)
      = capabilityEdges env ⟨repo, commit⟩ path addressPrefix length b localAddress := by
  simp only [capabilityEdges, List.map_flatMap, List.map_map]
  rfl

theorem retarget_blockDocuments :
    (blockDocuments ⟨repo, c₀⟩ path addressPrefix length b localAddress).mapValues
        (fun d => { d with evidence := retargetEvidence commit d.evidence })
      = blockDocuments ⟨repo, commit⟩ path addressPrefix length b localAddress := by
  rw [blockDocuments, blockDocuments]
  by_cases h : b.ident = "data" ∧ resourceType b = "aws_iam_policy_document"
  · rw [if_pos h, if_pos h]
    rfl
  · rw [if_neg h, if_neg h]
    rfl

theorem retarget_blockDeclarations :
    (blockDeclarations ⟨repo, c₀⟩ path addressPrefix ancestors length b localAddress).map
        (fun d => { d with evidence := retargetEvidence commit d.evidence })
      = blockDeclarations ⟨repo, commit⟩ path addressPrefix ancestors length b localAddress := by
  rw [blockDeclarations, blockDeclarations]
  by_cases h : b.ident = "module"
  · rw [if_pos h, if_pos h, List.map_map]
    rfl
  · rw [if_neg h, if_neg h, List.map_nil]

theorem retarget_blockFacts :
    (blockFacts env ⟨repo, c₀⟩ path addressPrefix ancestors length b localAddress).retarget commit
      = blockFacts env ⟨repo, commit⟩ path addressPrefix ancestors length b localAddress := by
  rw [Extraction.retarget, blockFacts, Extraction.mk.injEq]
  refine ⟨rfl, ?_, retarget_blockDocuments commit repo c₀ path addressPrefix length b localAddress,
    retarget_blockDeclarations commit repo c₀ path addressPrefix ancestors length b localAddress⟩
  rw [List.map_append, List.map_append]
  refine congrArg₂ _ (congrArg₂ _ ?_ ?_) ?_
  · rw [dependsOnEdges, List.map_map]
    rfl
  · rw [referenceEdges, List.map_map]
    rfl
  · by_cases h : b.ident = "resource"
    · rw [if_pos h, List.map_append, retarget_capabilityEdges, retarget_grantEdges, if_pos h]
    · rw [if_neg h, if_neg h, List.map_nil]

theorem retarget_absorbBlock (out : Extraction) :
    (absorbBlock env ⟨repo, c₀⟩ path addressPrefix ancestors length out b).retarget commit
      = absorbBlock env ⟨repo, commit⟩ path addressPrefix ancestors length (out.retarget commit)
          b := by
  rw [absorbBlock, absorbBlock]
  cases Iac.localAddress b with
  | none => rfl
  | some address => exact (retarget_absorb commit _ _).trans (by rw [retarget_blockFacts])

theorem retarget_foldl_absorbBlock (blocks : List Block) (out : Extraction) :
    (blocks.foldl (absorbBlock env ⟨repo, c₀⟩ path addressPrefix ancestors length) out).retarget
        commit
      = blocks.foldl (absorbBlock env ⟨repo, commit⟩ path addressPrefix ancestors length)
          (out.retarget commit) := by
  induction blocks generalizing out with
  | nil => rfl
  | cons b rest ih => rw [List.foldl_cons, List.foldl_cons, ih, retarget_absorbBlock]

theorem extractSource_retarget
    (h : extractSource env source path ⟨repo, c₀⟩ addressPrefix ancestors = .ok x) :
    extractSource env source path ⟨repo, commit⟩ addressPrefix ancestors
      = .ok (x.retarget commit) := by
  rw [extractSource] at h ⊢
  cases hp : env.parse source with
  | error message => simp [hp] at h
  | ok blocks =>
    simp only [hp, Except.ok.injEq] at h
    rw [← h, retarget_foldl_absorbBlock, retarget_empty]

end Retarget

/-! ### Chains -/

/-- Beginnings of a local module source. -/
def localLiteral (source : String) : Bool :=
  "/".toList.isPrefixOf source.toList || source == "." || source == ".."
    || "./".toList.isPrefixOf source.toList || "../".toList.isPrefixOf source.toList
    || ".\\".toList.isPrefixOf source.toList || "..\\".toList.isPrefixOf source.toList

/-- A declaration up to a chain that nothing reads: that of a module from elsewhere. -/
def ModuleDeclaration.bare (d : ModuleDeclaration) : ModuleDeclaration :=
  if localLiteral d.source then d else { d with ancestors := [] }

/-- An extraction up to such chains. -/
def Extraction.bare (x : Extraction) : Extraction :=
  { x with moduleDeclarations := x.moduleDeclarations.map ModuleDeclaration.bare }

theorem bare_absorb (x y : Extraction) : (x.absorb y).bare = x.bare.absorb y.bare := by
  rw [Extraction.bare, Extraction.absorb, Extraction.mk.injEq]
  exact ⟨rfl, rfl, rfl, List.map_append⟩

/-- Whether a block declares a module with a local source. -/
def Block.declaresLocally (b : Block) : Bool :=
  b.ident == "module" && (b.stringAttr "source").any localLiteral

/-- Whether a file does. -/
def declaresLocally (env : Env) (source : String) : Bool :=
  match env.parse source with
  | .error _ => false
  | .ok blocks => blocks.any Block.declaresLocally

section Chain

variable (env : Env) (id : SourceId) (path : String) (addressPrefix : Option String)
  (chain chain' : List Path) (length : ℕ)

theorem bare_blockDeclarations {b : Block} (h : b.declaresLocally = false) (localAddress : String) :
    (blockDeclarations id path addressPrefix chain length b localAddress).map ModuleDeclaration.bare
      = (blockDeclarations id path addressPrefix chain' length b localAddress).map
          ModuleDeclaration.bare := by
  rw [blockDeclarations, blockDeclarations]
  by_cases hb : b.ident = "module"
  · rw [if_pos hb, if_pos hb]
    cases hs : b.stringAttr "source" with
    | none => rfl
    | some source =>
      have hlocal : localLiteral source = false := by
        simpa [Block.declaresLocally, hb, hs] using h
      simp [ModuleDeclaration.bare, hlocal]
  · rw [if_neg hb, if_neg hb]

theorem bare_absorbBlock {b : Block} (h : b.declaresLocally = false) (hout : out.bare = out'.bare) :
    (absorbBlock env id path addressPrefix chain length out b).bare
      = (absorbBlock env id path addressPrefix chain' length out' b).bare := by
  rw [absorbBlock, absorbBlock]
  cases localAddress b with
  | none => exact hout
  | some address =>
    have hfacts : (blockFacts env id path addressPrefix chain length b address).bare
        = (blockFacts env id path addressPrefix chain' length b address).bare := by
      rw [Extraction.bare, blockFacts, Extraction.mk.injEq]
      exact ⟨rfl, rfl, rfl,
        bare_blockDeclarations id path addressPrefix chain chain' length h address⟩
    exact (bare_absorb _ _).trans ((congrArg₂ _ hout hfacts).trans (bare_absorb _ _).symm)

theorem bare_foldl_absorbBlock {blocks : List Block} (h : ∀ b ∈ blocks, b.declaresLocally = false)
    (hout : out.bare = out'.bare) :
    (blocks.foldl (absorbBlock env id path addressPrefix chain length) out).bare
      = (blocks.foldl (absorbBlock env id path addressPrefix chain' length) out').bare := by
  induction blocks generalizing out out' with
  | nil => exact hout
  | cons b rest ih =>
    rw [List.foldl_cons, List.foldl_cons]
    refine ih (fun b hb => h b (List.mem_cons_of_mem _ hb)) ?_
    exact bare_absorbBlock env id path addressPrefix chain chain' length
      (h b List.mem_cons_self) hout

theorem extractSource_chain (h : declaresLocally env source = false) :
    (extractSource env source path id addressPrefix chain).map Extraction.bare
      = (extractSource env source path id addressPrefix chain').map Extraction.bare := by
  rw [extractSource, extractSource]
  rw [declaresLocally] at h
  cases hp : env.parse source with
  | error message => rfl
  | ok blocks =>
    rw [hp] at h
    have hblocks : ∀ b ∈ blocks, b.declaresLocally = false := by simpa using h
    exact congrArg Except.ok
      (bare_foldl_absorbBlock env id path addressPrefix chain chain' _ hblocks rfl)

end Chain

theorem ancestors_of_extractSource {env : Env} {path : String} {id : SourceId}
    {addressPrefix : Option String} {chain : List Path}
    (h : extractSource env source path id addressPrefix chain = .ok x) :
    ∀ d ∈ x.moduleDeclarations, d.ancestors = chain := by
  rw [extractSource] at h
  cases hp : env.parse source with
  | error message => simp [hp] at h
  | ok blocks =>
    simp only [hp, Except.ok.injEq] at h
    rw [← h]
    have hfold : ∀ (blocks : List Block) (out : Extraction),
        (∀ d ∈ out.moduleDeclarations, d.ancestors = chain) →
        ∀ d ∈ (blocks.foldl (absorbBlock env id path addressPrefix chain source.utf8ByteSize)
          out).moduleDeclarations, d.ancestors = chain := by
      intro blocks
      induction blocks with
      | nil => exact fun out hout => hout
      | cons b rest ih =>
        intro out hout
        rw [List.foldl_cons]
        refine ih _ fun d hd => ?_
        rw [absorbBlock] at hd
        cases hb : localAddress b with
        | none => exact hout d (by simpa only [hb] using hd)
        | some address =>
          simp only [hb, Extraction.absorb, List.mem_append] at hd
          rcases hd with hd | hd
          · exact hout d hd
          · simp only [blockFacts, blockDeclarations] at hd
            split at hd
            · obtain ⟨s, -, rfl⟩ := List.mem_map.mp hd
              rfl
            · exact absurd hd List.not_mem_nil
    exact hfold blocks {} (by simp)

end Iac

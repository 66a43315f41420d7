/-
Extraction of a directory (`crates/iac/src/lib.rs`).

`extract_dir_incremental` parses the files of a walk, expands the modules with a local
source, instance by instance, and completes the graph.  A file is looked up in the cache
under its path and the address of its module, and reused when its content has the cached
hash, moved to the commit at hand.

What is read of the file system during one extraction is a `Tree`.  The loop over the pending
declarations has a number of rounds.  The loops are the same for every way to extract one file
(`FileExtractor`); the source has the one with the cache, `extractFile`.

`tracedExpansion` is the expansion with two things that the source does not keep: the chain of
directories that did lead to a declaration, and the directories that were read.  Without them, it
is the expansion (`tracedExpansion_erase`).
-/
import Cartograph.Lib.SortBy
import Cartograph.Iac.Extraction

namespace Iac

open Investigation SortBy

/-! ### The file system -/

structure Entry where
  name : String
  isSymlink : Bool
  isFile : Bool

/-- The tree at a root: its canonical path, the files of the confined walk, contents by the
path within it, and what the system says of absolute paths. -/
structure Tree where
  root : Except String Path
  walk : Except String (List (String × String))
  read : String → Except String String
  canonicalize : Path → Option Path
  directories : List Path
  readDir : Path → Except String (List Entry)

/-- The components of a relative or absolute path in text. -/
def components (text : String) : List String :=
  (text.toList.splitOn '/').map String.ofList |>.filter fun c => c != "" && c != "."

/-- `normalize_lexically`. -/
def normalizeLexically (parts : List String) : Path :=
  parts.foldl (fun normalized c => if c = ".." then normalized.dropLast else normalized ++ [c]) []

def endsWithTf (name : String) : Bool := ".tf".toList.isSuffixOf name.toList

/-- A path within the root, with `/` between its parts. -/
def relPath (parts : List String) : String :=
  String.ofList ((String.intercalate "/" parts).toList.map fun c => if c = '\\' then '/' else c)

/-- `collect_tf_files`, sorted. -/
def Tree.tfFiles (t : Tree) : Except ExtractError (List String) :=
  match t.walk with
  | .error message => .error (.io message)
  | .ok files => .ok (sortBy id ((files.filter fun f => endsWithTf f.1).map Prod.snd))

/-- `collect_direct_tf_files`. -/
def Tree.directTfFiles (t : Tree) (root dir : Path) : Except ExtractError (List String) :=
  match t.readDir dir with
  | .error message => .error (.io message)
  | .ok entries =>
    let files := entries.filter fun e => !(e.isSymlink || !e.isFile) && endsWithTf e.name
    .ok (sortBy id (files.map fun e => relPath (dir.drop root.length ++ [e.name])))

/-- The directory of a file within the root. -/
def declaringDir (root : Path) (path : String) : Path := (root ++ components path).dropLast

/-- Where a local source points to. -/
def localCandidate (root : Path) (declaringPath source : String) : Path :=
  normalizeLexically <|
    if "/".toList.isPrefixOf source.toList then components source
    else declaringDir root declaringPath ++ components source

/-- `resolve_local_module_source`. -/
def Tree.resolve (t : Tree) (root : Path) (declaringPath source : String) : Option Path :=
  if !localLiteral source then none
  else if !root.isPrefixOf (localCandidate root declaringPath source) then none
  else
    (t.canonicalize (localCandidate root declaringPath source)).filter fun canonical =>
      root.isPrefixOf canonical && t.directories.contains canonical

/-- The chain a declaration stands in: a file of the walk stands in its own directory. -/
def Tree.chain (t : Tree) (root : Path) (d : ModuleDeclaration) : List Path :=
  if d.ancestors = [] then
    match t.canonicalize (declaringDir root d.declaringPath) with
    | some parent => if root.isPrefixOf parent then [parent] else []
    | none => []
  else d.ancestors

/-! ### Loops -/

/-- How a file is extracted under the address of a module, in a chain. -/
abbrev FileExtractor (σ : Type) :=
  String → Option String → List Path → σ → Except ExtractError Extraction × σ

/-- The order in which declarations are taken. -/
def ModuleDeclaration.order (d : ModuleDeclaration) : String ×ₗ String ×ₗ String :=
  toLex (d.address, toLex (d.declaringPath, d.source))

/-- The edges from a module to what it contains. -/
def containsEdges (env : Env) (d : ModuleDeclaration) (children : List Node) : List Edge :=
  (OrderedSet.ofList (children.map GraphStore.Node.id)).elements.map fun child =>
    ⟨d.nodeId, child, "REFERENCES",
      ⟨[("module_source", .str d.source), ("relation", .str "MODULE_CONTAINS")],
        confirmed env [d.evidence] ("REFERENCES " ++ d.address ++ " -> " ++ child)⟩⟩

/-- An extraction with what a module contains; its declarations are pending. -/
def Extraction.withModule (env : Env) (out : Extraction) (d : ModuleDeclaration)
    (inner : Extraction) : Extraction :=
  Extraction.absorb { out with edges := out.edges ++ containsEdges env d inner.nodes }
    { inner with moduleDeclarations := [] }

section Loops

variable {σ : Type} (env : Env) (t : Tree) (file : FileExtractor σ)

/-- The files of one context, one after the other. -/
def extractFiles (addressPrefix : Option String) (ancestors : List Path) :
    List String → Extraction → σ → Except ExtractError Extraction × σ
  | [], out, s => (.ok out, s)
  | rel :: rest, out, s =>
    match file rel addressPrefix ancestors s with
    | (.error e, s) => (.error e, s)
    | (.ok extraction, s) => extractFiles addressPrefix ancestors rest (out.absorb extraction) s

/-- `expand_local_modules`, for so many rounds; with none left it has not returned. -/
def expandLocalModules (root : Path) : ℕ → List ModuleDeclaration →
    List (String × Path) → Extraction → σ → Option (Except ExtractError Extraction) × σ
  | 0, _, _, _, s => (none, s)
  | rounds + 1, pending, expanded, out, s =>
    match sortBy ModuleDeclaration.order pending with
    | [] => (some (.ok out), s)
    | d :: pending =>
      match t.resolve root d.declaringPath d.source with
      | none => expandLocalModules root rounds pending expanded out s
      | some sourceDir =>
        let ancestors := t.chain root d
        if sourceDir ∈ ancestors then expandLocalModules root rounds pending expanded out s
        else if (d.nodeId, sourceDir) ∈ expanded then
          expandLocalModules root rounds pending expanded out s
        else
          match t.directTfFiles root sourceDir with
          | .error e => (some (.error e), s)
          | .ok files =>
            match extractFiles file (some d.address) (ancestors ++ [sourceDir]) files {} s with
            | (.error e, s) => (some (.error e), s)
            | (.ok inner, s) =>
              expandLocalModules root rounds (pending ++ inner.moduleDeclarations)
                ((d.nodeId, sourceDir) :: expanded) (out.withModule env d inner) s

/-- The files of the walk, then the local modules. -/
def extractTree (rounds : ℕ) (s : σ) : Option (Except ExtractError Extraction) × σ :=
  match t.root with
  | .error message => (some (.error (.io message)), s)
  | .ok root =>
    match t.tfFiles with
    | .error e => (some (.error e), s)
    | .ok files =>
      match extractFiles file none [] files {} s with
      | (.error e, s) => (some (.error e), s)
      | (.ok out, s) =>
        expandLocalModules env t file root rounds out.moduleDeclarations []
          { out with moduleDeclarations := [] } s

end Loops

/-! ### Completion -/

section Completion

variable (env : Env)

/-- The repository of a resource's node. -/
def repoOf (nodeId : String) : String :=
  String.ofList ((nodeId.toList.drop 4).takeWhile fun c => c != '@')

/-- `joined_policy_prov`. -/
def joinedPolicyProv (e : Edge) (document : PolicyDocument) (fact : String) : Provenance :=
  let evidence := e.props.prov.evidence
  confirmed env (if document.evidence ∈ evidence then evidence else evidence ++ [document.evidence])
    fact

/-- `props[name] = value`. -/
def setMember (members : List (String × Json)) (name : String) (value : Json) :
    List (String × Json) :=
  if members.any fun m => m.1 == name then
    members.map fun m => if m.1 = name then (name, value) else m
  else members ++ [(name, value)]

/-- The statements without a reference: their actions and scopes. -/
def PolicyDocument.unresolved (document : PolicyDocument) : List PolicyStatement :=
  document.statements.filter fun s => s.resourceRefs.elements.isEmpty

/-- What statements grant on a target. -/
def PolicyDocument.granting (document : PolicyDocument) (target : String) : List PolicyStatement :=
  document.statements.filter fun s => s.resourceRefs.contains target

def actionsOf (statements : List PolicyStatement) : OrderedSet String :=
  .ofList (statements.flatMap fun s => s.actions.elements)

def scopesOf (statements : List PolicyStatement) : OrderedSet String :=
  .ofList (statements.flatMap fun s => s.resourceScopes.elements)

/-- A grant through a policy document: what it says itself, and what its statements say. -/
def resolveGrant (documents : Table String PolicyDocument) (e : Edge) : List Edge :=
  if e.label ≠ "GRANTS" then [e]
  else
    match documents.find? e.dst with
    | none => [e]
    | some document =>
      let unresolved := document.unresolved
      let fallback : List Edge :=
        if document.statements.isEmpty || !unresolved.isEmpty then
          let members := setMember e.props.members "actions" (strings (actionsOf unresolved))
          let members := setMember members "resource_scopes" (strings (scopesOf unresolved))
          let members := setMember members "policy_document" (.str e.dst)
          [{ e with props := ⟨members, joinedPolicyProv env e document
            ("GRANTS " ++ e.src ++ " -> " ++ e.dst)⟩ }]
        else []
      let targets : OrderedSet String :=
        .ofList (document.statements.flatMap fun s => s.resourceRefs.elements)
      fallback ++ targets.elements.map fun target =>
        ⟨e.src, resourceId (repoOf e.src) target, "GRANTS",
          ⟨[("actions", strings (actionsOf (document.granting target))),
              ("resource_scopes", strings (scopesOf (document.granting target))),
              ("policy_document", .str e.dst), ("registry", .str REGISTRY_VERSION)],
            joinedPolicyProv env e document
              ("GRANTS " ++ e.src ++ " -> " ++ target ++ " via " ++ e.dst)⟩⟩

/-- `resolve_policy_document_grants`. -/
def resolvePolicyDocumentGrants (x : Extraction) : Extraction :=
  { x with edges := x.edges.flatMap (resolveGrant env x.policyDocuments) }

/-- `unresolved_reason`. -/
def unresolvedReason (e : Edge) : String :=
  match e.label with
  | "IMPORTS" => "unresolved import target"
  | "CALLS" => "unresolved call target"
  | "RENDERS" => "unresolved render target"
  | "HANDLES" => "unresolved handler target"
  | "DEFINED_IN" => "unresolved definition target"
  | "DEPENDS_ON" => "unresolved dependency target"
  | other =>
    "unresolved " ++ String.ofList (other.toList.map fun c => if c = '_' then ' ' else c.toLower)
      ++ " target"

/-- `placeholder_node` of an unresolved resource, first named by `e`. -/
def placeholder (id : String) (e : Edge) : Node :=
  let reason := unresolvedReason e
  { id := id
    label := "Resource"
    props :=
      ⟨[("placeholder", .bool true), ("boundary", .str "unresolved"), ("reason", .str reason),
          ("attempted_tiers", .arr [.str "T0"])],
        { tier := .deterministic
          confidenceTier := .gap
          evidence := e.props.prov.evidence
          extractorId := e.props.prov.extractorId
          contentHash :=
            (env.contentHash ("Resource " ++ id ++ " unresolved: " ++ reason)).text }⟩ }

/-- One end of an edge that no node stands for yet. -/
def closeEnd (e : Edge) (nodes : List Node) (id : String) : List Node :=
  if nodes.any fun n => n.id == id then nodes else nodes ++ [placeholder env id e]

/-- `close_over_endpoints`. -/
def closeOverEndpoints (x : Extraction) : Extraction :=
  { x with
    nodes :=
      x.edges.foldl (fun nodes e => closeEnd env e (closeEnd env e nodes e.src) e.dst) x.nodes }

/-- The graph of an extraction. -/
abbrev Graph := List Node × List Edge

def complete (x : Extraction) : Graph :=
  let x := closeOverEndpoints env (resolvePolicyDocumentGrants env x)
  (x.nodes, x.edges)

end Completion

/-! ### The cache -/

/-- What a file is extracted for. -/
structure Context where
  source : String
  path : String
  addressPrefix : Option String
  ancestors : List Path
  deriving DecidableEq

/-- `origin` is what the entry was parsed for.  It is not part of the source, and nothing
reads it. -/
structure CachedFile where
  sourceHash : String
  extraction : Extraction
  origin : Context

abbrev IncrementalCache := Table String CachedFile

structure IncrementalStats where
  recomputedFiles : ℕ := 0
  reusedFiles : ℕ := 0
  deletedFiles : ℕ := 0
  distinctFiles : ℕ := 0
  deriving DecidableEq

/-- `cached_file_key`. -/
def cachedFileKey (path : String) (addressPrefix : Option String) : String :=
  addressPrefix.getD "" ++ "@" ++ path

def Context.key (c : Context) : String := cachedFileKey c.path c.addressPrefix

structure CacheRun where
  cache : IncrementalCache
  active : OrderedSet String := .empty
  paths : OrderedSet String := .empty
  stats : IncrementalStats := {}

section Extract

variable (env : Env) (t : Tree) (id : SourceId)

/-- `extract_file_incremental`. -/
def extractFile : FileExtractor CacheRun := fun path addressPrefix ancestors run =>
  match t.read path with
  | .error message => (.error (.io message), run)
  | .ok source =>
    let sourceHash := (env.contentHash source).text
    let key := cachedFileKey path addressPrefix
    let run := { run with active := run.active.insert key, paths := run.paths.insert path }
    match (run.cache.find? key).filter fun cached => cached.sourceHash == sourceHash with
    | some cached =>
      let extraction := cached.extraction.retarget id.commit
      (.ok extraction, { run with
        cache := run.cache.put key ⟨sourceHash, extraction, cached.origin⟩
        stats := { run.stats with reusedFiles := run.stats.reusedFiles + 1 } })
    | none =>
      let run := { run with
        stats := { run.stats with recomputedFiles := run.stats.recomputedFiles + 1 } }
      match extractSource env source path id addressPrefix ancestors with
      | .error e => (.error e, run)
      | .ok extraction =>
        (.ok extraction, { run with
          cache := run.cache.put key
            ⟨sourceHash, extraction, ⟨source, path, addressPrefix, ancestors⟩⟩ })

/-- `extract_dir_incremental`: the graph or the error, and the run that ends with the cache. -/
def extractDirIncremental (rounds : ℕ) (cache : IncrementalCache) :
    Option (Except ExtractError Graph) × CacheRun :=
  match extractTree env t (extractFile env t id) rounds { cache := cache } with
  | (none, run) => (none, run)
  | (some (.error e), run) => (some (.error e), run)
  | (some (.ok out), run) =>
    (some (.ok (complete env out)), { run with
      cache := run.cache.filter fun key _ => run.active.contains key
      stats := { run.stats with
        deletedFiles := cache.rows.countP fun r => !run.active.contains r.1
        distinctFiles := run.paths.elements.length } })

/-- `extract_dir`. -/
def extractDir (rounds : ℕ) : Option (Except ExtractError Graph) :=
  (extractDirIncremental env t id rounds .empty).1

end Extract

/-! ### The expansion, traced -/

/-- A declaration, with the directories that led to the file it is in. -/
abbrev Declared := ModuleDeclaration × List Path

/-- A directory that was read for a module: what led there, and the directory. -/
structure Visit where
  nodeId : String
  chain : List Path
  dir : Path
  deriving DecidableEq

/-- The module chain, with the directory in which it ends. -/
def Visit.whole (v : Visit) : List Path := v.chain ++ [v.dir]

def Visit.pair (v : Visit) : String × Path := (v.nodeId, v.dir)

/-- What led to a declaration in a file of the walk: the directory of the file. -/
def Tree.home (t : Tree) (root : Path) (d : ModuleDeclaration) : List Path :=
  t.chain root { d with ancestors := [] }

section Traced

variable {σ : Type} (env : Env) (t : Tree) (file : FileExtractor σ)

def tracedExpansion (root : Path) : ℕ → List Declared → List (String × Path) → Extraction → σ →
    List Visit → (Option (Except ExtractError Extraction) × σ) × List Visit
  | 0, _, _, _, s, visits => ((none, s), visits)
  | rounds + 1, pending, expanded, out, s, visits =>
    match sortBy (fun p : Declared => p.1.order) pending with
    | [] => ((some (.ok out), s), visits)
    | (d, chain) :: pending =>
      match t.resolve root d.declaringPath d.source with
      | none => tracedExpansion root rounds pending expanded out s visits
      | some sourceDir =>
        let ancestors := t.chain root d
        if sourceDir ∈ ancestors then tracedExpansion root rounds pending expanded out s visits
        else if (d.nodeId, sourceDir) ∈ expanded then
          tracedExpansion root rounds pending expanded out s visits
        else
          let visits := visits ++ [⟨d.nodeId, chain, sourceDir⟩]
          match t.directTfFiles root sourceDir with
          | .error e => ((some (.error e), s), visits)
          | .ok files =>
            match extractFiles file (some d.address) (ancestors ++ [sourceDir]) files {} s with
            | (.error e, s) => ((some (.error e), s), visits)
            | (.ok inner, s) =>
              tracedExpansion root rounds
                (pending ++ inner.moduleDeclarations.map fun d' => (d', chain ++ [sourceDir]))
                ((d.nodeId, sourceDir) :: expanded) (out.withModule env d inner) s visits

/-- `extractTree`, with the directories that were read for modules. -/
def tracedTree (rounds : ℕ) (s : σ) :
    (Option (Except ExtractError Extraction) × σ) × List Visit :=
  match t.root with
  | .error message => ((some (.error (.io message)), s), [])
  | .ok root =>
    match t.tfFiles with
    | .error e => ((some (.error e), s), [])
    | .ok files =>
      match extractFiles file none [] files {} s with
      | (.error e, s) => ((some (.error e), s), [])
      | (.ok out, s) =>
        tracedExpansion env t file root rounds
          (out.moduleDeclarations.map fun d => (d, t.home root d)) []
          { out with moduleDeclarations := [] } s []

theorem map_fst_sortBy (pending : List Declared) :
    (sortBy (fun p : Declared => p.1.order) pending).map Prod.fst
      = sortBy ModuleDeclaration.order (pending.map Prod.fst) :=
  List.map_insertionSort _ _ _ _ fun _ _ _ _ => Iff.rfl

theorem tracedExpansion_erase (root : Path) (rounds : ℕ) (pending : List Declared)
    (expanded : List (String × Path)) (out : Extraction) (s : σ) (visits : List Visit) :
    (tracedExpansion env t file root rounds pending expanded out s visits).1
      = expandLocalModules env t file root rounds (pending.map Prod.fst) expanded out s := by
  induction rounds generalizing pending expanded out s visits with
  | zero => rfl
  | succ rounds ih =>
    rw [tracedExpansion, expandLocalModules, ← map_fst_sortBy]
    cases sortBy (fun p : Declared => p.1.order) pending with
    | nil => rfl
    | cons p rest =>
      obtain ⟨d, chain⟩ := p
      rw [List.map_cons]
      dsimp only
      cases t.resolve root d.declaringPath d.source with
      | none => exact ih rest expanded out s visits
      | some sourceDir =>
        dsimp only
        split
        · exact ih rest expanded out s visits
        split
        · exact ih rest expanded out s visits
        cases t.directTfFiles root sourceDir with
        | error e => rfl
        | ok files =>
          dsimp only
          rcases extractFiles file (some d.address) (t.chain root d ++ [sourceDir]) files {} s
            with ⟨_ | inner, s'⟩
          · rfl
          · dsimp only
            rw [ih, List.map_append, List.map_map]
            have hfst : (Prod.fst ∘ fun d' : ModuleDeclaration => (d', chain ++ [sourceDir])) = id :=
              rfl
            rw [hfst, List.map_id]

theorem tracedTree_erase (rounds : ℕ) (s : σ) :
    (tracedTree env t file rounds s).1 = extractTree env t file rounds s := by
  rw [tracedTree, extractTree]
  cases t.root with
  | error message => rfl
  | ok root =>
    cases t.tfFiles with
    | error e => rfl
    | ok files =>
      dsimp only
      rcases extractFiles file none [] files {} s with ⟨_ | out, s'⟩
      · rfl
      · dsimp only
        rw [tracedExpansion_erase, List.map_map]
        have hfst : (Prod.fst ∘ fun d : ModuleDeclaration => (d, t.home root d)) = id := rfl
        rw [hfst, List.map_id]

/-- What a round does with the first declaration: it drops it, or reads its directory, and then it
ends, or goes on with what the files there declare. -/
theorem tracedExpansion_round (root : Path) {pending rest : List Declared} {d : ModuleDeclaration}
    {chain : List Path}
    (hsort : sortBy (fun p : Declared => p.1.order) pending = (d, chain) :: rest)
    (expanded : List (String × Path)) (out : Extraction) (s : σ) (visits : List Visit) :
    (∀ rounds, tracedExpansion env t file root (rounds + 1) pending expanded out s visits
      = tracedExpansion env t file root rounds rest expanded out s visits)
    ∨ ∃ dir, t.resolve root d.declaringPath d.source = some dir ∧ dir ∉ t.chain root d
      ∧ (d.nodeId, dir) ∉ expanded
      ∧ ((∃ result s', ∀ rounds,
          tracedExpansion env t file root (rounds + 1) pending expanded out s visits
            = ((some result, s'), visits ++ [⟨d.nodeId, chain, dir⟩]))
        ∨ ∃ files x s',
          extractFiles file (some d.address) (t.chain root d ++ [dir]) files {} s = (.ok x, s')
          ∧ ∀ rounds, tracedExpansion env t file root (rounds + 1) pending expanded out s visits
            = tracedExpansion env t file root rounds
                (rest ++ x.moduleDeclarations.map fun d' => (d', chain ++ [dir]))
                ((d.nodeId, dir) :: expanded) (out.withModule env d x) s'
                (visits ++ [⟨d.nodeId, chain, dir⟩])) := by
  simp only [tracedExpansion, hsort]
  cases hdir : t.resolve root d.declaringPath d.source with
  | none => exact .inl fun _ => rfl
  | some dir =>
    by_cases hcycle : dir ∈ t.chain root d
    · exact .inl fun _ => by simp only [if_pos hcycle]
    by_cases hexpanded : (d.nodeId, dir) ∈ expanded
    · exact .inl fun _ => by simp only [if_neg hcycle, if_pos hexpanded]
    simp only [if_neg hcycle, if_neg hexpanded]
    refine .inr ⟨dir, rfl, hcycle, hexpanded, ?_⟩
    cases hfiles : t.directTfFiles root dir with
    | error e => exact .inl ⟨.error e, s, fun _ => rfl⟩
    | ok files =>
      rcases hf : extractFiles file (some d.address) (t.chain root d ++ [dir]) files {} s
        with ⟨e | x, s'⟩
      · exact .inl ⟨.error e, s', fun _ => by simp only [hf]⟩
      · exact .inr ⟨files, x, s', hf, fun rounds => by simp only [hf]⟩

end Traced

end Iac

/-
Bare specifiers of a TypeScript source (`crates/adapters-lang-ts/src/resolution.rs`).

A bare specifier is resolved by the nearest `tsconfig.json` that governs the importer, then by the
packages of the workspace, then by the aliases of a bundler.  The patterns of a config are tried
one after the other, the most specific first, and a pattern whose targets are no known files is
passed over for the next one that matches.

* `ResolutionIndex.of` — an index in the order that `load` leaves it in;
* `nearestScope_nearest` — no governing config is nearer than the one that is asked;
* `proveCandidate_known` — a resolved path is a known file;
* `pattern_specific_iff` — when a resolution follows the most specific pattern.
-/
import Cartograph.LangTs.Relative
import Cartograph.Lib.SortBy

namespace LangTs

open SortBy

/-! ### The index -/

/-- The bytes of a text in UTF-8. -/
def utf8Len (text : List Char) : ℕ := (text.map Char.utf8Size).sum

/-- A tsconfig.  It governs the files under its directory. -/
structure TsconfigScope where
  dir : List Char
  configPath : List Char
  baseUrl : Option (List Char)
  /-- A pattern, and its targets. -/
  paths : List (List Char × List (List Char))
  pathsSpan : ℕ × ℕ
  span : ℕ × ℕ
  deriving DecidableEq

structure WorkspacePackage where
  name : List Char
  dir : List Char
  entries : List (List Char)
  configPath : List Char
  span : ℕ × ℕ

structure BundlerAlias where
  dir : List Char
  configPath : List Char
  key : List Char
  exact : Bool
  target : Option (List Char)
  span : ℕ × ℕ
  exported : Bool
  deriving DecidableEq

/-- `split_once('*')`. -/
def splitStar (pattern : List Char) : Option (List Char × List Char) :=
  match pattern.dropWhile (· ≠ '*') with
  | [] => none
  | _ :: rest => some (pattern.takeWhile (· ≠ '*'), rest)

/-- A pattern without `*` is the most specific, then the one with the longest prefix. -/
def specificity (pattern : List Char) : WithTop ℕ :=
  match splitStar pattern with
  | none => ⊤
  | some (front, _) => utf8Len front

def patternKey (p : List Char × List (List Char)) : (WithTop ℕ)ᵒᵈ ×ₗ List Char :=
  toLex (OrderDual.toDual (specificity p.1), p.1)

def fileName (path : List Char) : List Char := (path.splitOn '/').getLastD []

/-- `tsconfig.json` and `jsconfig.json` come before the variants of their directory. -/
def isVariant (s : TsconfigScope) : Bool :=
  !(fileName s.configPath = "tsconfig.json".toList || fileName s.configPath = "jsconfig.json".toList)

def scopeKey (s : TsconfigScope) : ℕᵒᵈ ×ₗ List Char ×ₗ Bool ×ₗ List Char :=
  toLex (OrderDual.toDual (utf8Len s.dir), toLex (s.dir, toLex (isVariant s, s.configPath)))

/-- What config-driven resolution knows of a tree. -/
structure ResolutionIndex where
  tsconfigs : List TsconfigScope
  packages : List WorkspacePackage
  bundlerAliases : List BundlerAlias
  nearestFirst : tsconfigs.Pairwise fun a b => scopeKey a ≤ scopeKey b
  specificFirst : ∀ s ∈ tsconfigs, s.paths.Pairwise fun a b => patternKey a ≤ patternKey b

/-- The order that `load` leaves the configs in. -/
def ResolutionIndex.of (configs : List TsconfigScope) (packages : List WorkspacePackage)
    (aliases : List BundlerAlias) : ResolutionIndex where
  tsconfigs := sortBy scopeKey (configs.map fun s => { s with paths := sortBy patternKey s.paths })
  packages := packages
  bundlerAliases := aliases
  nearestFirst := sortBy_pairwise _ _
  specificFirst := by
    intro s hs
    obtain ⟨config, -, rfl⟩ := List.mem_map.mp ((sortBy_perm _ _).mem_iff.mp hs)
    exact sortBy_pairwise _ _

/-- The files under a directory are those whose path goes on from it. -/
def under (dir importer : List Char) : Bool := dir.isEmpty || (dir ++ ['/']).isPrefixOf importer

/-- `nearest_scope`. -/
def ResolutionIndex.nearestScope (index : ResolutionIndex) (importer : List Char) :
    Option TsconfigScope :=
  index.tsconfigs.find? fun s => under s.dir importer

def BundlerAlias.addresses (a : BundlerAlias) (spec : List Char) : Bool :=
  spec == a.key || (!a.exact && (a.key ++ ['/']).isPrefixOf spec)

/-- `bundler_alias`. -/
def ResolutionIndex.bundlerAlias (index : ResolutionIndex) (spec importer : List Char) :
    Option BundlerAlias :=
  index.bundlerAliases.find? fun a => under a.dir importer && a.addresses spec

/-- The first alias of each config of a directory that addresses a specifier. -/
def firstOfConfigs (aliases : List BundlerAlias) : List BundlerAlias :=
  aliases.foldl (fun kept a =>
    if kept.any fun b => b.configPath == a.configPath then kept else kept ++ [a]) []

/-- `resolving_bundler_alias`: all configs of the directory have to agree. -/
def ResolutionIndex.resolvingBundlerAlias (index : ResolutionIndex) (spec importer : List Char) :
    Option BundlerAlias :=
  (index.bundlerAlias spec importer).filter fun first =>
    (firstOfConfigs (index.bundlerAliases.filter fun a =>
      a.dir == first.dir && a.addresses spec)).all fun a =>
        a.exported && a.key == first.key && a.target == first.target

/-! ### Resolution -/

/-- `apply_pattern`. -/
def applyPattern (pattern target spec : List Char) : Option (List Char) :=
  match splitStar pattern with
  | none => if pattern = spec then some target else none
  | some (front, back) => do
    let rest ← spec.dropPrefix? front
    let matched ← rest.dropSuffix? back
    match splitStar target with
    | none => some target
    | some (before, after) => some (before ++ matched ++ after)

section

variable (repo : List Char) (known : Finset (List Char))

/-- `prove_candidate`. -/
def proveCandidate (candidate : List Char) : Option (List Char) :=
  if SOURCE_EXTENSIONS.any fun ext => ext.isSuffixOf candidate then
    if fileId repo candidate ∈ known then some candidate else none
  else
    (SOURCE_EXTENSIONS.map (candidate ++ ·)
      ++ indexNames.map fun name => candidate ++ '/' :: name).find? fun path =>
        fileId repo path ∈ known

inductive Via
  | tsconfigPaths | tsconfigBaseUrl | workspacePackage | bundlerAlias
  deriving DecidableEq

structure Resolved where
  relPath : List Char
  configPath : List Char
  span : ℕ × ℕ
  via : Via
  deriving DecidableEq

/-- A path under a directory. -/
def joinUnder (base target : List Char) : List Char :=
  if base.isEmpty then normalize target else normalize (base ++ '/' :: target)

/-- The directory that the targets of a config are under. -/
def TsconfigScope.base (s : TsconfigScope) : List Char :=
  match s.baseUrl with
  | some url => joinUnder s.dir url
  | none => s.dir

/-- What a target of a pattern leads to. -/
def TsconfigScope.proves (s : TsconfigScope) (spec pattern target : List Char) :
    Option (List Char) :=
  (applyPattern pattern target spec).bind fun mapped =>
    proveCandidate repo known (joinUnder s.base mapped)

/-- What a pattern leads to. -/
def TsconfigScope.leads (s : TsconfigScope) (spec : List Char)
    (p : List Char × List (List Char)) : Option (List Char) :=
  p.2.findSome? (s.proves repo known spec p.1)

/-- The resolution by the nearest config. -/
def TsconfigScope.resolve (s : TsconfigScope) (spec : List Char) : Option Resolved :=
  ((s.paths.findSome? (s.leads repo known spec)).map fun path =>
      ⟨path, s.configPath, s.pathsSpan, .tsconfigPaths⟩).or
    (if s.baseUrl.isSome then
      (proveCandidate repo known (joinUnder s.base spec)).map fun path =>
        ⟨path, s.configPath, s.span, .tsconfigBaseUrl⟩
    else none)

/-- The resolution by the entries of a package. -/
def WorkspacePackage.resolve (p : WorkspacePackage) (spec : List Char) : Option Resolved :=
  if p.name = spec then
    p.entries.findSome? fun entry =>
      (proveCandidate repo known (joinUnder p.dir entry)).map fun path =>
        ⟨path, p.configPath, p.span, .workspacePackage⟩
  else none

/-- The resolution by an alias. -/
def BundlerAlias.resolve (a : BundlerAlias) (spec : List Char) : Option Resolved :=
  a.target.bind fun target =>
    (proveCandidate repo known
      ((normalize (target ++ spec.drop a.key.length)).dropWhile (· == '/'))).map fun path =>
        ⟨path, a.configPath, a.span, .bundlerAlias⟩

/-- `resolve_spec`. -/
def resolveSpec (index : ResolutionIndex) (spec importer : List Char) : Option Resolved :=
  ((index.nearestScope importer).bind fun s => s.resolve repo known spec)
    |>.or (index.packages.findSome? fun p => p.resolve repo known spec)
    |>.or ((index.resolvingBundlerAlias spec importer).bind fun a => a.resolve repo known spec)

end

/-! ### What a resolution should follow -/

/-- A pattern matches a specifier. -/
def Matches (pattern spec : List Char) : Prop := (applyPattern pattern [] spec).isSome = true

/-- No pattern of the config that matches is more specific. -/
def TsconfigScope.MostSpecific (s : TsconfigScope) (spec : List Char)
    (p : List Char × List (List Char)) : Prop :=
  Matches p.1 spec ∧ ∀ q ∈ s.paths, Matches q.1 spec → specificity q.1 ≤ specificity p.1

/-- A config that governs the importer, and none nearer. -/
def ResolutionIndex.Nearest (index : ResolutionIndex) (importer : List Char) (s : TsconfigScope) :
    Prop :=
  (s ∈ index.tsconfigs ∧ under s.dir importer = true)
    ∧ ∀ t ∈ index.tsconfigs, under t.dir importer = true → utf8Len t.dir ≤ utf8Len s.dir

/-- A resolution by patterns as TypeScript would do it: a target of a most specific pattern of the
nearest config, which is a known file. -/
structure Follows (repo : List Char) (known : Finset (List Char)) (index : ResolutionIndex)
    (spec importer : List Char) (r : Resolved) (s : TsconfigScope) : Prop where
  scope : index.nearestScope importer = some s
  nearest : index.Nearest importer s
  config : r.configPath = s.configPath
  isKnown : fileId repo r.relPath ∈ known
  specific : ∃ p ∈ s.paths, s.MostSpecific spec p ∧ s.leads repo known spec p = some r.relPath

/-! ### What it follows -/

variable {path : List Char} {s : TsconfigScope}

variable {p : List Char × List (List Char)}

section

variable {repo : List Char} {known : Finset (List Char)} {index : ResolutionIndex}
  {spec importer : List Char}

/-- **Existence.**  A resolved path is a known file. -/
theorem proveCandidate_known {candidate : List Char}
    (h : proveCandidate repo known candidate = some path) : fileId repo path ∈ known := by
  rw [proveCandidate] at h
  split_ifs at h with hext hmem
  · rwa [← Option.some_inj.mp h]
  · simpa using List.find?_some h

/-- **The nearest config.** -/
theorem nearestScope_nearest (h : index.nearestScope importer = some s) :
    index.Nearest importer s := by
  obtain ⟨hunder, before, after, hsplit, hbefore⟩ := List.find?_eq_some_iff_append.mp h
  refine ⟨⟨List.mem_of_find?_eq_some h, hunder⟩, fun t ht hgoverns => ?_⟩
  have hsorted := index.nearestFirst
  rw [hsplit] at ht hsorted
  rcases List.mem_append.mp ht with ht | ht
  · exact absurd hgoverns (by simpa using hbefore t ht)
  · rcases List.mem_cons.mp ht with rfl | ht
    · exact le_rfl
    · have hle := (List.pairwise_cons.mp (List.pairwise_append.mp hsorted).2.1).1 t ht
      rcases Prod.Lex.le_iff.mp hle with hlt | ⟨heq, -⟩
      · exact (OrderDual.toDual_lt_toDual.mp hlt).le
      · exact (OrderDual.toDual_inj.mp heq).ge

theorem matches_of_apply {pattern target mapped : List Char}
    (h : applyPattern pattern target spec = some mapped) : Matches pattern spec := by
  rw [Matches, applyPattern]
  rw [applyPattern] at h
  cases hstar : splitStar pattern with
  | none =>
    rw [hstar] at h
    simp only at h ⊢
    split_ifs at h with heq
    rw [if_pos heq]
    rfl
  | some halves =>
    rw [hstar] at h
    simp only [Option.bind_eq_bind, Option.bind_eq_some_iff] at h ⊢
    obtain ⟨rest, hrest, matched, hmatched, -⟩ := h
    rw [hrest, Option.bind_some, hmatched, Option.bind_some]
    rfl

theorem matches_of_leads (h : s.leads repo known spec p = some path) : Matches p.1 spec := by
  obtain ⟨target, -, hproves⟩ := List.exists_of_findSome?_eq_some h
  obtain ⟨mapped, happly, -⟩ := Option.bind_eq_some_iff.mp hproves
  exact matches_of_apply happly

theorem known_of_leads (h : s.leads repo known spec p = some path) : fileId repo path ∈ known := by
  obtain ⟨target, -, hproves⟩ := List.exists_of_findSome?_eq_some h
  obtain ⟨mapped, -, hproved⟩ := Option.bind_eq_some_iff.mp hproves
  exact proveCandidate_known hproved

theorem resolveSpec_patterns {r : Resolved} (h : resolveSpec repo known index spec importer = some r)
    (hvia : r.via = .tsconfigPaths) : ∃ s, index.nearestScope importer = some s
      ∧ r.configPath = s.configPath
      ∧ s.paths.findSome? (s.leads repo known spec) = some r.relPath := by
  rw [resolveSpec, Option.or_eq_some_iff, Option.or_eq_some_iff] at h
  rcases h with (hscope | ⟨-, hpackage⟩) | ⟨-, halias⟩
  · obtain ⟨s, hs, hresolve⟩ := Option.bind_eq_some_iff.mp hscope
    rw [TsconfigScope.resolve, Option.or_eq_some_iff] at hresolve
    rcases hresolve with hpaths | ⟨-, hbase⟩
    · obtain ⟨path, hpath, rfl⟩ := Option.map_eq_some_iff.mp hpaths
      exact ⟨s, hs, rfl, hpath⟩
    · split_ifs at hbase
      obtain ⟨path, -, rfl⟩ := Option.map_eq_some_iff.mp hbase
      cases hvia
  · obtain ⟨p, -, hresolve⟩ := List.exists_of_findSome?_eq_some hpackage
    rw [WorkspacePackage.resolve] at hresolve
    split_ifs at hresolve
    obtain ⟨entry, -, hentry⟩ := List.exists_of_findSome?_eq_some hresolve
    obtain ⟨path, -, rfl⟩ := Option.map_eq_some_iff.mp hentry
    cases hvia
  · obtain ⟨a, -, hresolve⟩ := Option.bind_eq_some_iff.mp halias
    obtain ⟨target, -, htarget⟩ := Option.bind_eq_some_iff.mp hresolve
    obtain ⟨path, -, rfl⟩ := Option.map_eq_some_iff.mp htarget
    cases hvia

theorem resolveSpec_of_patterns (hs : index.nearestScope importer = some s)
    (hpath : s.paths.findSome? (s.leads repo known spec) = some path) :
    resolveSpec repo known index spec importer
      = some ⟨path, s.configPath, s.pathsSpan, .tsconfigPaths⟩ := by
  rw [resolveSpec, hs, Option.bind_some, TsconfigScope.resolve, hpath]
  rfl

end

/-- **The most specific pattern.**  A resolution by patterns follows a most specific pattern of the
nearest config, to a known file, exactly when some most specific pattern that matches leads to one
wherever any pattern does. -/
theorem pattern_specific_iff (repo : List Char) (known : Finset (List Char))
    (index : ResolutionIndex) (spec importer : List Char) :
    (∀ r, resolveSpec repo known index spec importer = some r → r.via = .tsconfigPaths →
        ∃ s, Follows repo known index spec importer r s)
      ↔ ∀ s, index.nearestScope importer = some s →
        (∃ p ∈ s.paths, (s.leads repo known spec p).isSome = true) →
          ∃ p ∈ s.paths, s.MostSpecific spec p ∧ (s.leads repo known spec p).isSome = true := by
  constructor
  · rintro h s hs ⟨p, hp, hleads⟩
    have hsome : (s.paths.findSome? (s.leads repo known spec)).isSome = true :=
      List.findSome?_isSome_iff.mpr ⟨p, hp, hleads⟩
    obtain ⟨path, hpath⟩ := Option.isSome_iff_exists.mp hsome
    obtain ⟨s', hfollows⟩ := h _ (resolveSpec_of_patterns hs hpath) rfl
    obtain rfl : s = s' := Option.some_inj.mp (hs.symm.trans hfollows.scope)
    obtain ⟨q, hq, hspecific, hled⟩ := hfollows.specific
    exact ⟨q, hq, hspecific, by rw [hled]; rfl⟩
  · intro h r hr hvia
    obtain ⟨s, hs, hconfig, hpath⟩ := resolveSpec_patterns hr hvia
    obtain ⟨before, p, after, hsplit, hp, hbefore⟩ := List.findSome?_eq_some_iff.mp hpath
    have hmem : p ∈ s.paths := by
      rw [hsplit]
      exact List.mem_append_right _ List.mem_cons_self
    refine ⟨s, hs, nearestScope_nearest hs, hconfig, known_of_leads hp, p, hmem, ?_, hp⟩
    obtain ⟨q, hq, hspecific, hled⟩ := h s hs ⟨p, hmem, by rw [hp]; rfl⟩
    refine ⟨matches_of_leads hp, fun t ht hmatches => (hspecific.2 t ht hmatches).trans ?_⟩
    -- the first pattern that leads to a file is not behind the most specific one
    have hsorted := index.specificFirst s (nearestScope_nearest hs).1.1
    rw [hsplit] at hq hsorted
    rcases List.mem_append.mp hq with hq | hq
    · rw [hbefore q hq] at hled
      cases hled
    · rcases List.mem_cons.mp hq with rfl | hq
      · exact le_rfl
      · have hle := (List.pairwise_cons.mp (List.pairwise_append.mp hsorted).2.1).1 q hq
        rcases Prod.Lex.le_iff.mp hle with hlt | ⟨heq, -⟩
        · exact (OrderDual.toDual_lt_toDual.mp hlt).le
        · exact (OrderDual.toDual_inj.mp heq).ge

namespace Sample

/-- A config with a pattern for generated code, and one for all the rest. -/
def aliases : TsconfigScope where
  dir := []
  configPath := "tsconfig.json".toList
  baseUrl := none
  paths := [("@gen/*".toList, ["gen/*".toList]), ("*".toList, ["src/*".toList])]
  pathsSpan := (0, 0)
  span := (0, 0)

def aliasIndex : ResolutionIndex := .of [aliases] [] []

def strayFile : Finset (List Char) := {"file:o/r@src/@gen/a.ts".toList}

end Sample

/-- The file of a pattern that `@gen/*` outranks is taken. -/
theorem less_specific_used : ¬∀ (repo : List Char) (known : Finset (List Char))
    (index : ResolutionIndex) (spec importer : List Char),
    ∀ r, resolveSpec repo known index spec importer = some r → r.via = .tsconfigPaths →
      ∃ s, Follows repo known index spec importer r s := by
  intro hall
  obtain ⟨s, hfollows⟩ := hall "o/r".toList Sample.strayFile Sample.aliasIndex "@gen/a".toList
    "m.ts".toList ⟨"src/@gen/a.ts".toList, "tsconfig.json".toList, (0, 0), .tsconfigPaths⟩
    (by decide) rfl
  have hscope : Sample.aliasIndex.nearestScope "m.ts".toList = some Sample.aliases := by
    decide
  obtain rfl : Sample.aliases = s := Option.some_inj.mp (hscope.symm.trans hfollows.scope)
  obtain ⟨p, hp, hspecific, hleads⟩ := hfollows.specific
  simp only [Sample.aliases, List.mem_cons, List.not_mem_nil, or_false] at hp
  rcases hp with rfl | rfl
  · revert hleads
    decide
  · have hle := hspecific.2 ("@gen/*".toList, ["gen/*".toList]) (by decide)
      (show _ = true by decide)
    revert hle
    decide

end LangTs

/-
Incremental extraction of a directory (`crates/iac/src/lib.rs`).

Extraction without a cache (`directFile`) notes the contexts it asks for.  An entry of the
cache serves a context when it was parsed for the same content, path and address, and for the
same chain where the file declares a local module.  The key of an entry has the path and the
address, and it is guarded by a hash of the content; nothing guards the chain.

* `tracedTree_simulates` — extractors that agree on one file, agree on a tree and read the same
  directories;
* `extractFile_simulates` — while every entry serves what it is looked up for, extraction with
  the cache is extraction without it;
* `expandLocalModules_returns` — chains are finite, so the expansion ends;
* `incremental_fresh` — in a run whose caches serve, every result is that of a fresh extraction;
* `stale_chain` — when a module moves, an entry may be used in another chain than its own.
-/
import Cartograph.Iac.Directory

namespace Iac

open Investigation SortBy
open ModuleDeclaration (bare order)

/-! ### Results up to chains that nothing reads -/

/-- The same error, or extractions that differ in such chains only. -/
def Alike (x y : Except ExtractError Extraction) : Prop :=
  x.map Extraction.bare = y.map Extraction.bare

variable {y : Except ExtractError Extraction} {x : Extraction} {declaringPath source : String}
  {e : CachedFile} {asked' : List Context} {run' : CacheRun} {pending rest : List ModuleDeclaration}

theorem alike_error {e : ExtractError} (h : Alike (.error e) y) : y = .error e := by
  cases y with
  | error e' => exact congrArg Except.error (Except.error.inj h).symm
  | ok y => exact absurd h (by simp [Alike, Except.map])

theorem alike_ok (h : Alike (.ok x) y) :
    ∃ y', y = .ok y' ∧ x.bare = y'.bare := by
  cases y with
  | error e => exact absurd h (by simp [Alike, Except.map])
  | ok y => exact ⟨y, rfl, Except.ok.inj h⟩

theorem alike_cases {σ τ : Type} {R : σ → τ → Prop} {a : Except ExtractError Extraction × σ}
    {b : Except ExtractError Extraction × τ} (h : Alike a.1 b.1) (hR : R a.2 b.2) :
    (∃ e s u, a = (.error e, s) ∧ b = (.error e, u) ∧ R s u)
      ∨ ∃ x y s u, a = (.ok x, s) ∧ b = (.ok y, u) ∧ x.bare = y.bare ∧ R s u := by
  obtain ⟨a, s⟩ := a
  obtain ⟨b, u⟩ := b
  cases a with
  | error e =>
    obtain rfl := alike_error h
    exact .inl ⟨e, s, u, rfl, rfl, hR⟩
  | ok x =>
    obtain ⟨y, rfl, hxy⟩ := alike_ok h
    exact .inr ⟨x, y, s, u, rfl, rfl, hxy, hR⟩

theorem bare_source (d : ModuleDeclaration) : d.bare.source = d.source := by
  rw [bare]
  split <;> rfl

theorem bare_declaringPath (d : ModuleDeclaration) : d.bare.declaringPath = d.declaringPath := by
  rw [bare]
  split <;> rfl

theorem order_bare (d : ModuleDeclaration) : d.bare.order = d.order := by
  rw [bare]
  split <;> rfl

variable {d : ModuleDeclaration} {root dir : Path} {c : Context} {asked : List Context}
  {run : CacheRun}

theorem bare_of_local (h : localLiteral d.source = true) : d.bare = d :=
  if_pos h

variable {t : Tree}

theorem local_of_resolve (h : t.resolve root declaringPath source = some dir) :
    localLiteral source = true := by
  by_contra hlocal
  simp [Tree.resolve, hlocal] at h

theorem mem_directories_of_resolve (h : t.resolve root declaringPath source = some dir) :
    dir ∈ t.directories := by
  simp only [Tree.resolve] at h
  split_ifs at h
  have hdir := (Option.filter_eq_some_iff.mp h).2
  simp only [Bool.and_eq_true, List.contains_iff_mem] at hdir
  exact hdir.2

/-- A declaration up to a chain that nothing reads. -/
def Declared.bare (p : Declared) : Declared := (p.1.bare, p.2)

theorem map_bare_sortBy_declared (l : List Declared) :
    (sortBy (fun p : Declared => p.1.order) l).map Declared.bare
      = sortBy (fun p : Declared => p.1.order) (l.map Declared.bare) :=
  List.map_insertionSort _ _ _ _ fun a _ b _ => by
    show a.1.order ≤ b.1.order ↔ a.1.bare.order ≤ b.1.bare.order
    rw [order_bare, order_bare]

theorem map_bare_declared {y : Extraction} (h : x.bare = y.bare) (chain : List Path) :
    (x.moduleDeclarations.map fun d => (d, chain)).map Declared.bare
      = (y.moduleDeclarations.map fun d => (d, chain)).map Declared.bare := by
  have hcomp : ∀ l : List ModuleDeclaration, (l.map fun d => ((d, chain) : Declared)).map Declared.bare
      = (l.map bare).map fun d => (d, chain) := by
    intro l
    rw [List.map_map, List.map_map]
    rfl
  rw [hcomp, hcomp]
  exact congrArg _ (congrArg Extraction.moduleDeclarations h)

theorem map_bare_home (t : Tree) (root : Path) {y : Extraction} (h : x.bare = y.bare) :
    (x.moduleDeclarations.map fun d => (d, t.home root d)).map Declared.bare
      = (y.moduleDeclarations.map fun d => (d, t.home root d)).map Declared.bare := by
  have hhome : ∀ d : ModuleDeclaration, t.home root d.bare = t.home root d := by
    intro d
    rw [Tree.home, Tree.home, Tree.chain, Tree.chain, if_pos rfl, if_pos rfl, bare_declaringPath]
  have hcomp : ∀ l : List ModuleDeclaration,
      (l.map fun d => ((d, t.home root d) : Declared)).map Declared.bare
        = (l.map bare).map fun d => (d, t.home root d) := by
    intro l
    rw [List.map_map, List.map_map]
    refine List.map_congr_left fun d _ => ?_
    show (d.bare, t.home root d) = (d.bare, t.home root d.bare)
    rw [hhome]
  rw [hcomp, hcomp]
  exact congrArg _ (congrArg Extraction.moduleDeclarations h)

theorem bare_withModule (env : Env) (d : ModuleDeclaration) (x y : Extraction) :
    (x.withModule env d y).bare = x.bare.withModule env d y.bare := by
  rw [Extraction.withModule, bare_absorb]
  rfl

/-! ### Two extractors -/

/-- Runs that end alike, in related states, and have read the same directories. -/
def AlikeRuns {σ τ : Type} (R : σ → τ → Prop)
    (a : (Option (Except ExtractError Extraction) × σ) × List Visit)
    (b : (Option (Except ExtractError Extraction) × τ) × List Visit) : Prop :=
  a.1.1.map (Except.map Extraction.bare) = b.1.1.map (Except.map Extraction.bare) ∧ R a.1.2 b.1.2
    ∧ a.2 = b.2

section Simulation

variable {σ τ : Type}

/-- `file` follows `file'` from related states to related states, as long as `P` holds of what
`file'` has done; `P` holds of less when it holds of more. -/
structure Simulates (file : FileExtractor σ) (file' : FileExtractor τ) (R : σ → τ → Prop)
    (P : τ → Prop) : Prop where
  earlier : ∀ path addressPrefix chain u, P (file' path addressPrefix chain u).2 → P u
  step : ∀ path addressPrefix chain s u, R s u → P (file' path addressPrefix chain u).2 →
    Alike (file path addressPrefix chain s).1 (file' path addressPrefix chain u).1 ∧
      R (file path addressPrefix chain s).2 (file' path addressPrefix chain u).2

variable {file : FileExtractor σ} {file' : FileExtractor τ} {R : σ → τ → Prop} {P : τ → Prop}
  (sim : Simulates file file' R P) (env : Env) (t : Tree)
include sim

theorem earlier_of_extractFiles (addressPrefix : Option String) (chain : List Path)
    (files : List String) : ∀ (out : Extraction) (u : τ),
    P (extractFiles file' addressPrefix chain files out u).2 → P u := by
  induction files with
  | nil => exact fun _ _ h => h
  | cons path rest ih =>
    intro out u h
    rw [extractFiles] at h
    refine sim.earlier path addressPrefix chain u ?_
    rcases hf : file' path addressPrefix chain u with ⟨_ | x, u'⟩
    · rwa [hf] at h
    · rw [hf] at h
      exact ih _ u' h

theorem extractFiles_simulates (addressPrefix : Option String) (chain : List Path)
    (files : List String) : ∀ (out out' : Extraction) (s : σ) (u : τ), out.bare = out'.bare →
    R s u → P (extractFiles file' addressPrefix chain files out' u).2 →
    Alike (extractFiles file addressPrefix chain files out s).1
        (extractFiles file' addressPrefix chain files out' u).1 ∧
      R (extractFiles file addressPrefix chain files out s).2
        (extractFiles file' addressPrefix chain files out' u).2 := by
  induction files with
  | nil => exact fun out out' s u hout hR _ => ⟨congrArg Except.ok hout, hR⟩
  | cons path rest ih =>
    intro out out' s u hout hR hP
    rw [extractFiles] at hP
    rw [extractFiles, extractFiles]
    have hnow : P (file' path addressPrefix chain u).2 := by
      rcases hf : file' path addressPrefix chain u with ⟨_ | x, u'⟩
      · rwa [hf] at hP
      · rw [hf] at hP
        exact earlier_of_extractFiles sim addressPrefix chain rest _ u' hP
    obtain ⟨halike, hR'⟩ := sim.step path addressPrefix chain s u hR hnow
    obtain ⟨e, s', u', hf, hf', hR'⟩ | ⟨x, y, s', u', hf, hf', hxy, hR'⟩ := alike_cases halike hR'
    · rw [hf, hf']
      exact ⟨rfl, hR'⟩
    · rw [hf'] at hP
      rw [hf, hf']
      exact ih _ _ s' u' (by rw [bare_absorb, bare_absorb, hout, hxy]) hR' hP

theorem earlier_of_expandLocalModules (root : Path) (rounds : ℕ) :
    ∀ (pending : List ModuleDeclaration) (expanded : List (String × Path)) (out : Extraction)
      (u : τ), P (expandLocalModules env t file' root rounds pending expanded out u).2 → P u := by
  induction rounds with
  | zero => exact fun _ _ _ _ h => h
  | succ rounds ih =>
    intro pending expanded out u h
    rw [expandLocalModules] at h
    cases hsort : sortBy order pending with
    | nil => simpa only [hsort] using h
    | cons d rest =>
      simp only [hsort] at h
      cases hdir : t.resolve root d.declaringPath d.source with
      | none => exact ih _ _ _ u (by simpa only [hdir] using h)
      | some dir =>
        simp only [hdir] at h
        split_ifs at h with hcycle hexpanded
        · exact ih _ _ _ u h
        · exact ih _ _ _ u h
        · cases hfiles : t.directTfFiles root dir with
          | error e => simpa only [hfiles] using h
          | ok files =>
            simp only [hfiles] at h
            refine earlier_of_extractFiles sim (some d.address) (t.chain root d ++ [dir]) files
              {} u ?_
            rcases hf : extractFiles file' (some d.address) (t.chain root d ++ [dir]) files {} u
              with ⟨_ | x, u'⟩
            · simpa only [hf] using h
            · simp only [hf] at h
              exact ih _ _ _ u' h

theorem tracedExpansion_simulates (root : Path) (rounds : ℕ) :
    ∀ (pending pending' : List Declared) (expanded : List (String × Path)) (out out' : Extraction)
      (s : σ) (u : τ) (visits : List Visit),
    pending.map Declared.bare = pending'.map Declared.bare → out.bare = out'.bare → R s u →
    P (tracedExpansion env t file' root rounds pending' expanded out' u visits).1.2 →
    AlikeRuns R (tracedExpansion env t file root rounds pending expanded out s visits)
      (tracedExpansion env t file' root rounds pending' expanded out' u visits) := by
  induction rounds with
  | zero => exact fun _ _ _ _ _ _ _ _ _ _ hR _ => ⟨rfl, hR, rfl⟩
  | succ rounds ih =>
    intro pending pending' expanded out out' s u visits hpending hout hR hP
    -- sorting does not look at what is left out
    have hsorted : (sortBy (fun p : Declared => p.1.order) pending).map Declared.bare
        = (sortBy (fun p : Declared => p.1.order) pending').map Declared.bare := by
      rw [map_bare_sortBy_declared, map_bare_sortBy_declared, hpending]
    rw [tracedExpansion] at hP
    rw [tracedExpansion, tracedExpansion]
    cases hsort : sortBy (fun p : Declared => p.1.order) pending with
    | nil =>
      rw [hsort, List.map_nil, eq_comm, List.map_eq_nil_iff] at hsorted
      simp only [hsorted]
      exact ⟨congrArg (fun x => some (Except.ok x)) hout, hR, rfl⟩
    | cons p rest =>
      rw [hsort, List.map_cons, eq_comm, List.map_eq_cons_iff] at hsorted
      obtain ⟨⟨d', chain'⟩, rest', hsort', hp, hrest⟩ := hsorted
      obtain ⟨d, chain⟩ := p
      obtain ⟨hd, hchain⟩ := Prod.mk.inj hp
      have hchain : chain' = chain := hchain
      have hd : d'.bare = d.bare := hd
      have hsource : d'.source = d.source := by rw [← bare_source d', hd, bare_source]
      have hpath : d'.declaringPath = d.declaringPath := by
        rw [← bare_declaringPath d', hd, bare_declaringPath]
      subst hchain
      simp only [hsort', hsource, hpath] at hP
      simp only [hsort', hsource, hpath]
      cases hdir : t.resolve root d.declaringPath d.source with
      | none =>
        simp only [hdir] at hP
        exact ih rest rest' expanded out out' s u visits hrest.symm hout hR hP
      | some dir =>
        -- the declaration is local, so it is the same in both
        have hlocal := local_of_resolve hdir
        rw [bare_of_local hlocal, bare_of_local (hsource ▸ hlocal)] at hd
        subst hd
        simp only [hdir] at hP
        simp only
        split_ifs at hP ⊢ with hcycle hexpanded
        · exact ih rest rest' expanded out out' s u visits hrest.symm hout hR hP
        · exact ih rest rest' expanded out out' s u visits hrest.symm hout hR hP
        · cases hfiles : t.directTfFiles root dir with
          | error e => exact ⟨rfl, hR, rfl⟩
          | ok files =>
            simp only [hfiles] at hP
            simp only
            -- an error that stops the run stops it here as well
            have hnow : P (extractFiles file' (some d'.address) (t.chain root d' ++ [dir]) files
                {} u).2 := by
              rcases hf : extractFiles file' (some d'.address) (t.chain root d' ++ [dir]) files {} u
                with ⟨_ | x, u'⟩
              · simpa only [hf] using hP
              · simp only [hf, tracedExpansion_erase] at hP
                exact earlier_of_expandLocalModules sim env t root rounds _ _ _ u' hP
            obtain ⟨halike, hR'⟩ := extractFiles_simulates sim (some d'.address)
              (t.chain root d' ++ [dir]) files {} {} s u rfl hR hnow
            obtain ⟨e, s', u', hf, hf', hR'⟩ | ⟨x, y, s', u', hf, hf', hxy, hR'⟩ :=
              alike_cases halike hR'
            · simp only [hf, hf']
              exact ⟨rfl, hR', rfl⟩
            · simp only [hf'] at hP
              simp only [hf, hf']
              refine ih _ _ _ _ _ s' u' _ ?_ ?_ hR' hP
              · rw [List.map_append, List.map_append, hrest, map_bare_declared hxy]
              · exact (bare_withModule env d' out x).trans
                  ((congrArg₂ (fun a b => a.withModule env d' b) hout hxy).trans
                    (bare_withModule env d' out' y).symm)

theorem tracedTree_simulates (rounds : ℕ) {s : σ} {u : τ} (hR : R s u)
    (hP : P (extractTree env t file' rounds u).2) :
    AlikeRuns R (tracedTree env t file rounds s) (tracedTree env t file' rounds u) := by
  rw [← tracedTree_erase, tracedTree] at hP
  rw [tracedTree, tracedTree]
  cases hroot : t.root with
  | error message => exact ⟨rfl, hR, rfl⟩
  | ok root =>
    simp only [hroot] at hP
    cases hfiles : t.tfFiles with
    | error e => exact ⟨rfl, hR, rfl⟩
    | ok files =>
      simp only [hfiles] at hP
      simp only
      have hnow : P (extractFiles file' none [] files {} u).2 := by
        rcases hf : extractFiles file' none [] files {} u with ⟨_ | x, u'⟩
        · simpa only [hf] using hP
        · simp only [hf, tracedExpansion_erase] at hP
          exact earlier_of_expandLocalModules sim env t root rounds _ _ _ u' hP
      obtain ⟨halike, hR'⟩ := extractFiles_simulates sim none [] files {} {} s u rfl hR hnow
      obtain ⟨e, s', u', hf, hf', hR'⟩ | ⟨x, y, s', u', hf, hf', hxy, hR'⟩ :=
        alike_cases halike hR'
      · simp only [hf, hf']
        exact ⟨rfl, hR', rfl⟩
      · simp only [hf'] at hP
        simp only [hf, hf']
        exact tracedExpansion_simulates sim env t root rounds _ _ _ _ _ s' u' _
          (map_bare_home t root hxy)
          (congrArg (fun b : Extraction => { b with moduleDeclarations := [] }) hxy) hR' hP

theorem extractTree_simulates (rounds : ℕ) {s : σ} {u : τ} (hR : R s u)
    (hP : P (extractTree env t file' rounds u).2) :
    Option.map (Except.map Extraction.bare) (extractTree env t file rounds s).1
        = Option.map (Except.map Extraction.bare) (extractTree env t file' rounds u).1 ∧
      R (extractTree env t file rounds s).2 (extractTree env t file' rounds u).2 := by
  obtain ⟨heq, hR', -⟩ := tracedTree_simulates sim env t rounds hR hP
  rw [tracedTree_erase, tracedTree_erase] at heq hR'
  exact ⟨heq, hR'⟩

end Simulation

/-! ### Extraction without a cache -/

section Direct

variable (env : Env) (t : Tree) (id : SourceId)

/-- Every file is parsed; the contexts are noted. -/
def directFile : FileExtractor (List Context) := fun path addressPrefix ancestors asked =>
  match t.read path with
  | .error message => (.error (.io message), asked)
  | .ok source =>
    (extractSource env source path id addressPrefix ancestors,
      asked ++ [⟨source, path, addressPrefix, ancestors⟩])

/-- The contexts that the tree asks for. -/
def askedContexts (rounds : ℕ) : List Context :=
  (extractTree env t (directFile env t id) rounds []).2

def directDir (rounds : ℕ) : Option (Except ExtractError Graph) :=
  (extractTree env t (directFile env t id) rounds []).1.map (Except.map (complete env))

end Direct

/-! ### What a cache serves -/

/-- What was parsed for `o` can be used for `c`. -/
def Serves (env : Env) (o c : Context) : Prop :=
  o.source = c.source ∧ o.path = c.path ∧ o.addressPrefix = c.addressPrefix ∧
    (o.ancestors = c.ancestors ∨ declaresLocally env c.source = false)

/-- What is looked up serves: the entry of the cache, and what the tree itself asks for. -/
def Faithful (env : Env) (cache : IncrementalCache) (asked : List Context) : Prop :=
  ∀ c ∈ asked,
    (∀ e ∈ cache.find? c.key,
      e.sourceHash = (env.contentHash c.source).text → Serves env e.origin c) ∧
    ∀ o ∈ asked, o.key = c.key →
      (env.contentHash o.source).text = (env.contentHash c.source).text → Serves env o c

instance (env : Env) (o c : Context) : Decidable (Serves env o c) :=
  inferInstanceAs (Decidable (_ ∧ _ ∧ _ ∧ (_ ∨ _)))

instance (env : Env) (cache : IncrementalCache) (asked : List Context) :
    Decidable (Faithful env cache asked) :=
  inferInstanceAs
    (Decidable (∀ c ∈ asked, (∀ e ∈ cache.find? c.key, _ → _) ∧ ∀ o ∈ asked, _ → _ → _))

/-- Every entry was parsed for its origin, at some commit. -/
def Made (env : Env) (repo : String) (cache : IncrementalCache) : Prop :=
  ∀ key e, cache.find? key = some e →
    e.origin.key = key ∧ e.sourceHash = (env.contentHash e.origin.source).text ∧
      ∃ commit, extractSource env e.origin.source e.origin.path ⟨repo, commit⟩
        e.origin.addressPrefix e.origin.ancestors = .ok e.extraction

/-- An entry was parsed for what the run has asked for, or comes from the cache before it. -/
def Tracks (env : Env) (repo : String) (cache : IncrementalCache) (run : CacheRun)
    (asked : List Context) : Prop :=
  Made env repo run.cache ∧
    ∀ key e, run.cache.find? key = some e →
      e.origin ∈ asked ∨ ∃ e₀, cache.find? key = some e₀ ∧ e₀.origin = e.origin

theorem alike_of_serves {env : Env} {o : Context} (h : Serves env o c) (id : SourceId) :
    Alike (extractSource env o.source o.path id o.addressPrefix o.ancestors)
      (extractSource env c.source c.path id c.addressPrefix c.ancestors) := by
  obtain ⟨hsource, hpath, haddress, hchain⟩ := h
  rw [hsource, hpath, haddress]
  rcases hchain with hchain | hlocal
  · rw [hchain]
    exact rfl
  · exact extractSource_chain env id c.path c.addressPrefix o.ancestors c.ancestors hlocal

theorem Faithful.earlier {env : Env} {cache : IncrementalCache}
    (h : Faithful env cache (asked ++ [c])) : Faithful env cache asked := fun c hc =>
  ⟨(h c (List.mem_append_left _ hc)).1,
    fun o ho => (h c (List.mem_append_left _ hc)).2 o (List.mem_append_left _ ho)⟩

section Run

variable {env : Env} {repo commit : String} {cache : IncrementalCache}

theorem serves_of_find? (hmade : Made env repo cache) (hR : Tracks env repo cache run asked)
    (hP : Faithful env cache (asked ++ [c])) (he : run.cache.find? c.key = some e)
    (hhash : e.sourceHash = (env.contentHash c.source).text) :
    Serves env e.origin c := by
  obtain ⟨hkey, horigin, -⟩ := hR.1 c.key e he
  have hc := hP c (List.mem_append_right _ (List.mem_singleton.mpr rfl))
  rcases hR.2 c.key e he with hasked | ⟨e0, he0, heq⟩
  · exact hc.2 e.origin (List.mem_append_left _ hasked) hkey (horigin ▸ hhash)
  · rw [← heq]
    refine hc.1 e0 he0 ?_
    rw [(hmade c.key e0 he0).2.1, heq, ← horigin, hhash]

theorem Tracks.put {key : String} (hR : Tracks env repo cache run asked)
    (hasked : ∀ c ∈ asked, c ∈ asked') (hkey : e.origin.key = key)
    (hhash : e.sourceHash = (env.contentHash e.origin.source).text)
    (hmade : extractSource env e.origin.source e.origin.path ⟨repo, commit⟩
      e.origin.addressPrefix e.origin.ancestors = .ok e.extraction)
    (horigin : e.origin ∈ asked' ∨ ∃ e0, cache.find? key = some e0 ∧ e0.origin = e.origin)
    (hrun : run'.cache = run.cache.put key e) :
    Tracks env repo cache run' asked' := by
  refine ⟨fun k f hf => ?_, fun k f hf => ?_⟩
  · rw [hrun] at hf
    rcases Table.find?_put_eq_some.mp hf with ⟨rfl, rfl⟩ | ⟨-, hold⟩
    · exact ⟨hkey, hhash, commit, hmade⟩
    · exact hR.1 k f hold
  · rw [hrun] at hf
    rcases Table.find?_put_eq_some.mp hf with ⟨rfl, rfl⟩ | ⟨-, hold⟩
    · exact horigin
    · exact (hR.2 k f hold).imp_left (hasked _)

theorem Tracks.of_cache_eq (hR : Tracks env repo cache run asked) (hasked : ∀ c ∈ asked, c ∈ asked')
    (hrun : run'.cache = run.cache) : Tracks env repo cache run' asked' := by
  rw [Tracks, hrun]
  exact ⟨hR.1, fun k f hf => (hR.2 k f hf).imp_left (hasked _)⟩

/-- While every entry serves what it is looked up for, extraction with the cache is extraction
without it. -/
theorem extractFile_simulates (t : Tree) (commit : String) (hmade : Made env repo cache) :
    Simulates (extractFile env t ⟨repo, commit⟩) (directFile env t ⟨repo, commit⟩)
      (Tracks env repo cache) (Faithful env cache) where
  earlier path addressPrefix chain asked h := by
    rw [directFile] at h
    split at h
    · exact h
    · exact h.earlier
  step path addressPrefix chain run asked hR hP := by
    rw [directFile] at hP ⊢
    rw [extractFile]
    cases hread : t.read path with
    | error message => exact ⟨rfl, hR⟩
    | ok source =>
      simp only [hread] at hP
      have hsub : ∀ c ∈ asked, c ∈ asked ++ [(⟨source, path, addressPrefix, chain⟩ : Context)] :=
        fun c hc => List.mem_append_left _ hc
      simp only
      cases hfind : (run.cache.find? (cachedFileKey path addressPrefix)).filter
          fun cached => cached.sourceHash == (env.contentHash source).text with
      | some e =>
        obtain ⟨he, hhash⟩ := Option.filter_eq_some_iff.mp hfind
        have hhash : e.sourceHash = (env.contentHash source).text := by simpa using hhash
        have hserves := serves_of_find? (c := ⟨source, path, addressPrefix, chain⟩)
          hmade hR hP he hhash
        obtain ⟨hkey, horigin, c0, hx⟩ := hR.1 _ e he
        have hx' := extractSource_retarget commit env repo c0 _ _ _ hx
        simp only
        refine ⟨?_, ?_⟩
        · have halike := alike_of_serves hserves ⟨repo, commit⟩
          rwa [hx'] at halike
        · refine hR.put (e := ⟨e.sourceHash, e.extraction.retarget commit, e.origin⟩) hsub hkey
            horigin hx' ?_ (hhash ▸ rfl)
          exact (hR.2 _ e he).imp_left (hsub _)
      | none =>
        simp only
        cases hx : extractSource env source path ⟨repo, commit⟩ addressPrefix chain with
        | error e => exact ⟨rfl, hR.of_cache_eq hsub rfl⟩
        | ok x =>
          refine ⟨rfl, ?_⟩
          refine Tracks.put (e := ⟨(env.contentHash source).text, x, ⟨source, path, addressPrefix, chain⟩⟩)
            hR hsub rfl rfl hx (Or.inl ?_) rfl
          exact List.mem_append_right _ (List.mem_singleton.mpr rfl)

theorem tracks_start (hmade : Made env repo cache) :
    Tracks env repo cache { cache := cache } [] :=
  ⟨hmade, fun _ e he => Or.inr ⟨e, he, rfl⟩⟩

theorem incremental_direct (hmade : Made env repo cache) {rounds : ℕ}
    (h : Faithful env cache (askedContexts env t ⟨repo, commit⟩ rounds)) :
    (extractDirIncremental env t ⟨repo, commit⟩ rounds cache).1
        = directDir env t ⟨repo, commit⟩ rounds ∧
      Made env repo (extractDirIncremental env t ⟨repo, commit⟩ rounds cache).2.cache := by
  obtain ⟨heq, hR⟩ := extractTree_simulates (extractFile_simulates t commit hmade) env t rounds
    (tracks_start hmade) h
  rw [extractDirIncremental, directDir]
  rcases hrun : extractTree env t (extractFile env t ⟨repo, commit⟩) rounds { cache := cache }
    with ⟨_ | ⟨_ | x⟩, run⟩
  all_goals rcases hdirect : extractTree env t (directFile env t ⟨repo, commit⟩) rounds []
    with ⟨_ | ⟨_ | y⟩, asked⟩
  all_goals rw [hrun, hdirect] at heq hR
  all_goals simp only [Option.map, Except.map, Option.some.injEq, Except.ok.injEq,
    Except.error.injEq, reduceCtorEq] at heq
  · exact ⟨rfl, hR.1⟩
  · exact ⟨by rw [heq]; rfl, hR.1⟩
  · have hcomplete : complete env x.bare = complete env y.bare := congrArg _ heq
    refine ⟨congrArg (fun g => some (Except.ok g)) hcomplete, fun key e he => hR.1 key e ?_⟩
    rw [Table.find?_filter] at he
    exact (Option.filter_eq_some_iff.mp he).1

end Run

/-! ### The expansion ends -/

/-- The directories that a chain has not visited. -/
def Tree.unvisited (t : Tree) (chain : List Path) : ℕ :=
  (t.directories.filter fun dir => !chain.contains dir).length

theorem unvisited_lt {chain : List Path} (hdir : dir ∈ t.directories) (hchain : dir ∉ chain) :
    t.unvisited (chain ++ [dir]) < t.unvisited chain:= by
  have hfilter : (t.directories.filter fun d => !(chain ++ [dir]).contains d)
      = (t.directories.filter fun d => !chain.contains d).filter
          fun d => decide (d ≠ dir) := by
    rw [List.filter_filter]
    exact List.filter_congr fun d _ => by simp [Bool.and_comm]
  rw [Tree.unvisited, Tree.unvisited, hfilter]
  refine List.length_filter_lt_length_iff_exists.mpr ⟨dir, ?_, by simp⟩
  exact List.mem_filter.mpr ⟨hdir, by simpa using hchain⟩

/-- What is declared in a file stands in the chain it is extracted in. -/
def KeepsChain {σ : Type} (file : FileExtractor σ) : Prop :=
  ∀ path addressPrefix chain s x, (file path addressPrefix chain s).1 = .ok x →
    ∀ d ∈ x.moduleDeclarations, d.ancestors = chain

theorem directFile_keepsChain (env : Env) (t : Tree) (id : SourceId) :
    KeepsChain (directFile env t id) := by
  intro path addressPrefix chain asked x h
  rw [directFile] at h
  split at h
  · exact absurd h (by simp)
  · exact ancestors_of_extractSource h

/-- The rest of a declaration's chain, for each of a list. -/
def ranks (t : Tree) (root : Path) (pending : List ModuleDeclaration) : Multiset ℕ :=
  pending.map fun d => t.unvisited (t.chain root d)

theorem ranks_lt {more : List ModuleDeclaration} (hsort : sortBy order pending = d :: rest)
    (hmore : ∀ d' ∈ more, t.unvisited (t.chain root d') < t.unvisited (t.chain root d)) :
    Multiset.IsDershowitzMannaLT (ranks t root (rest ++ more)) (ranks t root pending) := by
  have hperm : (d :: rest).Perm pending := hsort ▸ sortBy_perm order pending
  refine ⟨ranks t root rest, ranks t root more, {t.unvisited (t.chain root d)},
    Multiset.singleton_ne_zero _, ?_, ?_, fun n hn => ?_⟩
  · rw [ranks, ranks, ranks, List.map_append, ← Multiset.coe_add]
  · rw [ranks, ranks, ← Multiset.coe_eq_coe.mpr (hperm.map _), List.map_cons, ← Multiset.cons_coe,
      Multiset.add_comm, Multiset.singleton_add]
  · obtain ⟨d', hd', rfl⟩ := List.mem_map.mp (Multiset.mem_coe.mp hn)
    exact ⟨_, Multiset.mem_singleton_self _, hmore d' hd'⟩

section Ends

variable {σ : Type} {file : FileExtractor σ} (env : Env) (t : Tree)

/-- What a round does with the first declaration: it drops it, or ends, or replaces it by what the
files of its directory declare. -/
theorem expandLocalModules_round (root : Path) (hsort : sortBy order pending = d :: rest)
    (expanded : List (String × Path)) (out : Extraction) (s : σ) :
    (∀ rounds, expandLocalModules env t file root (rounds + 1) pending expanded out s
      = expandLocalModules env t file root rounds rest expanded out s)
    ∨ (∃ result s', ∀ rounds,
      expandLocalModules env t file root (rounds + 1) pending expanded out s = (some result, s'))
    ∨ ∃ dir files x expanded' out' s', dir ∈ t.directories ∧ dir ∉ t.chain root d
      ∧ extractFiles file (some d.address) (t.chain root d ++ [dir]) files {} s = (.ok x, s')
      ∧ ∀ rounds, expandLocalModules env t file root (rounds + 1) pending expanded out s
        = expandLocalModules env t file root rounds (rest ++ x.moduleDeclarations) expanded' out'
          s' := by
  simp only [expandLocalModules, hsort]
  cases hdir : t.resolve root d.declaringPath d.source with
  | none => exact .inl fun _ => rfl
  | some dir =>
    by_cases hcycle : dir ∈ t.chain root d
    · exact .inl fun _ => by simp only [if_pos hcycle]
    by_cases hexpanded : (d.nodeId, dir) ∈ expanded
    · exact .inl fun _ => by simp only [if_neg hcycle, if_pos hexpanded]
    simp only [if_neg hcycle, if_neg hexpanded]
    cases hfiles : t.directTfFiles root dir with
    | error e => exact .inr (.inl ⟨.error e, s, fun _ => rfl⟩)
    | ok files =>
      rcases hf : extractFiles file (some d.address) (t.chain root d ++ [dir]) files {} s
        with ⟨e | x, s'⟩
      · exact .inr (.inl ⟨.error e, s', fun _ => by simp only [hf]⟩)
      · refine .inr (.inr ⟨dir, files, x, (d.nodeId, dir) :: expanded, out.withModule env d x, s',
          mem_directories_of_resolve hdir, hcycle, hf, fun rounds => ?_⟩)
        simp only [hf]

variable (hfile : KeepsChain file)
include hfile

theorem ancestors_of_extractFiles (addressPrefix : Option String) (chain : List Path)
    (files : List String) : ∀ (out : Extraction) (s : σ),
    (∀ d ∈ out.moduleDeclarations, d.ancestors = chain) →
    ∀ x, (extractFiles file addressPrefix chain files out s).1 = .ok x →
      ∀ d ∈ x.moduleDeclarations, d.ancestors = chain := by
  induction files with
  | nil =>
    intro out s hout x h
    rw [extractFiles] at h
    rwa [← Except.ok.inj h]
  | cons path rest ih =>
    intro out s hout x h
    rw [extractFiles] at h
    rcases hf : file path addressPrefix chain s with ⟨_ | y, s'⟩
    · rw [hf] at h
      exact absurd h (by simp)
    · rw [hf] at h
      refine ih _ s' (fun d hd => ?_) x h
      rcases List.mem_append.mp hd with hd | hd
      · exact hout d hd
      · exact hfile path addressPrefix chain s y (by rw [hf]) d hd

theorem expandLocalModules_returns (root : Path) (m : Multiset ℕ) :
    ∀ (pending : List ModuleDeclaration) (expanded : List (String × Path)) (out : Extraction)
      (s : σ), ranks t root pending = m →
    ∃ n, ∀ rounds, n ≤ rounds →
      (expandLocalModules env t file root rounds pending expanded out s).1.isSome = true := by
  induction m using (Multiset.wellFounded_isDershowitzMannaLT (α := ℕ)).induction with
  | _ m ih =>
  rintro pending expanded out s rfl
  -- one round, then those that the hypothesis gives
  have hround : ∀ {more expanded' out' s'}, Multiset.IsDershowitzMannaLT (ranks t root more)
      (ranks t root pending) →
      (∀ rounds, expandLocalModules env t file root (rounds + 1) pending expanded out s
        = expandLocalModules env t file root rounds more expanded' out' s') →
      ∃ n, ∀ rounds, n ≤ rounds →
        (expandLocalModules env t file root rounds pending expanded out s).1.isSome = true := by
    intro more expanded' out' s' hlt heq
    obtain ⟨n, hn⟩ := ih _ hlt more expanded' out' s' rfl
    refine ⟨n + 1, fun rounds hrounds => ?_⟩
    obtain ⟨k, rfl⟩ := Nat.exists_eq_add_of_le' (le_trans (Nat.le_add_left 1 n) hrounds)
    rw [heq]
    exact hn k (by omega)
  cases hsort : sortBy order pending with
  | nil =>
    refine ⟨1, fun rounds hrounds => ?_⟩
    obtain ⟨k, rfl⟩ := Nat.exists_eq_add_of_le' hrounds
    rw [expandLocalModules, hsort]
    rfl
  | cons d rest =>
    rcases expandLocalModules_round env t root hsort expanded out s with
      hdrop | ⟨result, s', hend⟩ | ⟨dir, files, x, expanded', out', s', hdir, hchain, hf, hreplace⟩
    · have hlt : Multiset.IsDershowitzMannaLT (ranks t root (rest ++ [])) (ranks t root pending) :=
        ranks_lt hsort (by simp)
      rw [List.append_nil] at hlt
      exact hround hlt hdrop
    · refine ⟨1, fun rounds hrounds => ?_⟩
      obtain ⟨k, rfl⟩ := Nat.exists_eq_add_of_le' hrounds
      rw [hend]
      rfl
    · refine hround (ranks_lt hsort fun d' hd' => ?_) hreplace
      have hancestors : d'.ancestors = t.chain root d ++ [dir] :=
        ancestors_of_extractFiles hfile (some d.address) _ files {} s (by simp) x (by rw [hf])
          d' hd'
      rw [show t.chain root d' = t.chain root d ++ [dir] by
        rw [Tree.chain, if_neg (by rw [hancestors]; simp), hancestors]]
      exact unvisited_lt hdir hchain

theorem extractTree_returns (s : σ) : ∃ n, ∀ rounds, n ≤ rounds →
    (extractTree env t file rounds s).1.isSome = true := by
  cases hroot : t.root with
  | error message => exact ⟨0, fun rounds _ => by simp [extractTree, hroot]⟩
  | ok root =>
    cases hfiles : t.tfFiles with
    | error e => exact ⟨0, fun rounds _ => by simp [extractTree, hroot, hfiles]⟩
    | ok files =>
      rcases hf : extractFiles file none [] files {} s with ⟨e | x, s'⟩
      · exact ⟨0, fun rounds _ => by simp [extractTree, hroot, hfiles, hf]⟩
      · obtain ⟨n, hn⟩ := expandLocalModules_returns env t hfile root _ x.moduleDeclarations []
          { x with moduleDeclarations := [] } s' rfl
        refine ⟨n, fun rounds hrounds => ?_⟩
        simp only [extractTree, hroot, hfiles, hf]
        exact hn rounds hrounds

end Ends

/-! ### Runs -/

/-- One extraction of a run. -/
structure Step where
  tree : Tree
  commit : String

section Runs

variable (env : Env) (repo : String) (rounds : ℕ)

/-- The results of extractions that share a cache. -/
def results : IncrementalCache → List Step → List (Option (Except ExtractError Graph))
  | _, [] => []
  | cache, step :: rest =>
    (extractDirIncremental env step.tree ⟨repo, step.commit⟩ rounds cache).1 ::
      results (extractDirIncremental env step.tree ⟨repo, step.commit⟩ rounds cache).2.cache rest

/-- Before every step, the cache serves what the tree of the step asks for. -/
def Served : IncrementalCache → List Step → Prop
  | _, [] => True
  | cache, step :: rest =>
    Faithful env cache (askedContexts env step.tree ⟨repo, step.commit⟩ rounds) ∧
      Served (extractDirIncremental env step.tree ⟨repo, step.commit⟩ rounds cache).2.cache rest

end Runs

theorem made_empty (env : Env) (repo : String) : Made env repo .empty := fun _ _ h =>
  absurd h (by simp)

theorem directDir_returns (env : Env) (t : Tree) (id : SourceId) : ∃ n, ∀ rounds, n ≤ rounds →
    (directDir env t id rounds).isSome = true := by
  obtain ⟨n, hn⟩ := extractTree_returns env t (directFile_keepsChain env t id) []
  exact ⟨n, fun rounds hrounds => by rw [directDir, Option.isSome_map, hn rounds hrounds]⟩

theorem results_of_served {env : Env} {repo : String} {rounds : ℕ} {steps : List Step} :
    ∀ {cache : IncrementalCache}, Made env repo cache → Served env repo rounds cache steps →
    results env repo rounds cache steps
        = steps.map (fun s => directDir env s.tree ⟨repo, s.commit⟩ rounds) ∧
      ∀ s ∈ steps, extractDir env s.tree ⟨repo, s.commit⟩ rounds
        = directDir env s.tree ⟨repo, s.commit⟩ rounds := by
  induction steps with
  | nil => exact fun _ _ => ⟨rfl, fun _ h => absurd h List.not_mem_nil⟩
  | cons step rest ih =>
    intro cache hmade hserved
    rw [Served] at hserved
    obtain ⟨hnow, hrest⟩ := hserved
    obtain ⟨heq, hmade'⟩ := incremental_direct hmade hnow
    obtain ⟨htail, hfresh⟩ := ih hmade' hrest
    -- a fresh extraction looks up what the tree itself asked for
    have hempty : Faithful env .empty (askedContexts env step.tree ⟨repo, step.commit⟩ rounds) :=
      fun c hc => ⟨fun e he => absurd he (by simp), (hnow c hc).2⟩
    refine ⟨by rw [results, heq, htail, List.map_cons], fun s hs => ?_⟩
    rcases List.mem_cons.mp hs with rfl | hs
    · exact (incremental_direct (made_empty env repo) hempty).1
    · exact hfresh s hs

/-- Extraction without a cache ends within so many rounds. -/
def Returns (env : Env) (repo : String) (rounds : ℕ) (steps : List Step) : Prop :=
  ∀ s ∈ steps, (directDir env s.tree ⟨repo, s.commit⟩ rounds).isSome = true

theorem returns_enough (env : Env) (repo : String) (steps : List Step) :
    ∃ n, ∀ rounds, n ≤ rounds → Returns env repo rounds steps := by
  induction steps with
  | nil => exact ⟨0, fun _ _ _ h => absurd h List.not_mem_nil⟩
  | cons s rest ih =>
    obtain ⟨n, hn⟩ := ih
    obtain ⟨m, hm⟩ := directDir_returns env s.tree ⟨repo, s.commit⟩
    refine ⟨max n m, fun rounds hrounds s' hs' => ?_⟩
    rcases List.mem_cons.mp hs' with rfl | hs'
    · exact hm rounds (le_of_max_le_right hrounds)
    · exact hn rounds (le_of_max_le_left hrounds) s' hs'

/-- **Incremental extraction.**  Enough rounds exist for every run; with so many, in a run whose
caches serve, every extraction returns, and with the result of a fresh one. -/
theorem incremental_fresh (env : Env) (repo : String) (steps : List Step) :
    (∃ n, ∀ rounds, n ≤ rounds → Returns env repo rounds steps) ∧
      ∀ rounds, Returns env repo rounds steps → Served env repo rounds .empty steps →
        results env repo rounds .empty steps
            = steps.map (fun s => extractDir env s.tree ⟨repo, s.commit⟩ rounds) ∧
          ∀ result ∈ results env repo rounds .empty steps, result.isSome = true := by
  refine ⟨returns_enough env repo steps, fun rounds hreturns hserved => ?_⟩
  obtain ⟨hresults, hfresh⟩ := results_of_served (made_empty env repo) hserved
  constructor
  · rw [hresults]
    exact (List.map_congr_left fun s hs => hfresh s hs).symm
  · intro result hresult
    rw [hresults] at hresult
    obtain ⟨s, hs, rfl⟩ := List.mem_map.mp hresult
    exact hreturns s hs

/-! ### Modules that move -/

namespace Sample

def zeros : String := "0000000000000000000000000000000000000000000000000000000000000000"

def ones : String := "1111111111111111111111111111111111111111111111111111111111111111"

theorem zeros_valid : hashValid zeros = true := by decide

theorem ones_valid : hashValid ones = true := by decide

/-- A file with one module block. -/
def moduleText (name source : String) : String :=
  "module \"" ++ name ++ "\" \x7b source = \"" ++ source ++ "\" \x7d"

/-- The files that occur: the name and the source of their module. -/
def modules : List (String × String) :=
  [("a", "./x"), ("a", "./z"), ("b", "../y"), ("c", "../x")]

/-- The files that occur are parsed, and the first is told apart from the others. -/
def env : Env where
  parse text :=
    .ok ((modules.filter fun m => moduleText m.1 m.2 == text).map fun m =>
      .mk "module" [m.1] (some (0, text.utf8ByteSize)) [⟨"source", .string m.2⟩] [])
  contentHash text :=
    if text = moduleText "a" "./x" then ⟨ones, ones_valid⟩ else ⟨zeros, zeros_valid⟩

/-- A file at the root and one in each of some directories. -/
def tree (main : String) (directories : List (String × String)) : Tree where
  root := .ok ["r"]
  walk := .ok (("main.tf", "main.tf") :: directories.map fun d => ("main.tf", d.1 ++ "/main.tf"))
  read path :=
    if path = "main.tf" then .ok main
    else
      match directories.find? fun d => d.1 ++ "/main.tf" == path with
      | some d => .ok d.2
      | none => .error "no such file"
  canonicalize path :=
    if (["r"] :: directories.map fun d => ["r", d.1]).contains path then some path else none
  directories := ["r"] :: directories.map fun d => ["r", d.1]
  readDir _ := .ok [⟨"main.tf", false, true⟩]

/-- `a` is in `x`, with `b` in `y`, whose `c` would be `x` again. -/
def before : Step :=
  ⟨tree (moduleText "a" "./x") [("x", moduleText "b" "../y"), ("y", moduleText "c" "../x")], "c1"⟩

/-- `a` is now in `z`, with `b` in `y` as before; `c` is not a cycle any more. -/
def after : Step :=
  ⟨tree (moduleText "a" "./z") [("x", moduleText "b" "../y"), ("y", moduleText "c" "../x"),
    ("z", moduleText "b" "../y")], "c2"⟩

/-- The ids of the nodes of a result. -/
def ids : Option (Except ExtractError Graph) → List String
  | some (.ok g) => g.1.map GraphStore.Node.id
  | _ => []

end Sample

/-- A tree that is extracted again at another commit. -/
theorem incremental_fresh_sample :
    results Sample.env "local" 12 .empty [Sample.before, ⟨Sample.before.tree, "c2"⟩]
      = [Sample.before, ⟨Sample.before.tree, "c2"⟩].map fun s =>
          extractDir Sample.env s.tree ⟨"local", s.commit⟩ 12 := by
  refine ((incremental_fresh Sample.env "local" [Sample.before, ⟨Sample.before.tree, "c2"⟩]).2 12
    ?_ ?_).1
  · unfold Returns
    decide +kernel
  · simp only [Served]
    decide +kernel

/-- The entry of `y` was parsed in the chain through `x`, and is used in the one through `z`: the
module that a fresh extraction finds in it is missing. -/
theorem stale_chain :
    results Sample.env "local" 12 .empty [Sample.before, Sample.after]
        ≠ [Sample.before, Sample.after].map
          (fun s => extractDir Sample.env s.tree ⟨"local", s.commit⟩ 12)
      ∧ "res:local@module.a.module.b.module.c.module.b" ∈
        Sample.ids (extractDir Sample.env Sample.after.tree ⟨"local", "c2"⟩ 12)
      ∧ ∀ result ∈ results Sample.env "local" 12 .empty [Sample.before, Sample.after],
        "res:local@module.a.module.b" ∈ Sample.ids result
          ∧ "res:local@module.a.module.b.module.c.module.b" ∉ Sample.ids result := by
  have hfresh : "res:local@module.a.module.b.module.c.module.b" ∈
      Sample.ids (extractDir Sample.env Sample.after.tree ⟨"local", "c2"⟩ 12) := by decide +kernel
  have hcached : ∀ ids ∈ (results Sample.env "local" 12 .empty [Sample.before, Sample.after]).map
      Sample.ids, "res:local@module.a.module.b" ∈ ids
        ∧ "res:local@module.a.module.b.module.c.module.b" ∉ ids := by decide +kernel
  have hcached := List.forall_mem_map.mp hcached
  refine ⟨fun heq => ?_, hfresh, hcached⟩
  rw [heq] at hcached
  exact (hcached _ (List.mem_map.mpr ⟨Sample.after, by simp, rfl⟩)).2 hfresh

end Iac

/-
Expansion of local modules (`crates/iac/src/lib.rs`).

A declaration is expanded where its source is a directory under the root that its chain has not
been in; the pair of the module and the directory is expanded once.  The chain that is looked at
is the one that the declaration carries.  A declaration from the cache carries the chain that it
was parsed in.

* `tracedTree_once` — in every run, a pair is expanded once, and under the root;
* `tracedTree_acyclic` — without a cache, no chain is in a directory twice;
* `expansion_confined` — nor with one, while the entries serve;
* `stale_cycle` — when a module moves, a chain may go through a directory twice.
-/
import Cartograph.Iac.Incremental

namespace Iac

open Investigation SortBy

/-! ### Once, and under the root -/

variable {root : Path} {visits : List Visit}

theorem prefix_of_resolve {t : Tree} {declaringPath source : String} {dir : Path}
    (h : t.resolve root declaringPath source = some dir) : root <+: dir := by
  simp only [Tree.resolve] at h
  split_ifs at h
  have hdir := (Option.filter_eq_some_iff.mp h).2
  simp only [Bool.and_eq_true, List.isPrefixOf_iff_prefix] at hdir
  exact hdir.1

/-- Each pair of a module and a directory is there once, and the directory is under the root. -/
structure Confined (root : Path) (visits : List Visit) : Prop where
  once : (visits.map Visit.pair).Nodup
  inside : ∀ v ∈ visits, root <+: v.dir

section Once

variable {σ : Type} (env : Env) (t : Tree) (file : FileExtractor σ)

theorem Confined.concat {expanded : List (String × Path)} (h : Confined root visits)
    (hexpanded : ∀ v ∈ visits, v.pair ∈ expanded) {v : Visit} (hnew : v.pair ∉ expanded)
    (hinside : root <+: v.dir) : Confined root (visits ++ [v]) where
  once := by
    rw [List.map_append, List.map_singleton, ← List.concat_eq_append]
    refine h.once.concat fun hmem => hnew ?_
    obtain ⟨v', hv', hpair⟩ := List.mem_map.mp hmem
    exact hpair ▸ hexpanded v' hv'
  inside v' hv' := by
    rcases List.mem_append.mp hv' with hv' | hv'
    · exact h.inside v' hv'
    · rw [List.mem_singleton.mp hv']
      exact hinside

theorem tracedExpansion_once (root : Path) (rounds : ℕ) (pending : List Declared)
    (expanded : List (String × Path)) (out : Extraction) (s : σ) (h : Confined root visits)
    (hexpanded : ∀ v ∈ visits, v.pair ∈ expanded) :
    Confined root (tracedExpansion env t file root rounds pending expanded out s visits).2 := by
  induction rounds generalizing pending expanded out s visits with
  | zero => exact h
  | succ rounds ih =>
    cases hsort : sortBy (fun p : Declared => p.1.order) pending with
    | nil =>
      rw [tracedExpansion, hsort]
      exact h
    | cons p rest =>
      obtain ⟨d, chain⟩ := p
      rcases tracedExpansion_round env t file root hsort expanded out s visits with
        hdrop | ⟨dir, hdir, -, hnew, hread⟩
      · rw [hdrop]
        exact ih rest expanded out s h hexpanded
      · have hnow : Confined root (visits ++ [⟨d.nodeId, chain, dir⟩]) :=
          h.concat hexpanded hnew (prefix_of_resolve hdir)
        rcases hread with ⟨result, s', hend⟩ | ⟨files, x, s', -, hnext⟩
        · rw [hend]
          exact hnow
        · rw [hnext]
          refine ih _ _ _ s' hnow fun v hv => ?_
          rcases List.mem_append.mp hv with hv | hv
          · exact List.mem_cons_of_mem _ (hexpanded v hv)
          · rw [List.mem_singleton.mp hv]
            exact List.mem_cons_self

theorem tracedTree_once (rounds : ℕ) (s : σ) (hroot : t.root = .ok root) :
    Confined root (tracedTree env t file rounds s).2 := by
  have hempty : Confined root [] := ⟨List.nodup_nil, fun v hv => absurd hv List.not_mem_nil⟩
  rw [tracedTree, hroot]
  dsimp only
  cases t.tfFiles with
  | error e => exact hempty
  | ok files =>
    dsimp only
    rcases extractFiles file none [] files {} s with ⟨_ | out, s'⟩
    · exact hempty
    · exact tracedExpansion_once env t file root rounds _ [] _ s' hempty
        fun v hv => absurd hv List.not_mem_nil

end Once

/-! ### No directory twice -/

/-- No module chain is in a directory twice. -/
def Acyclic (visits : List Visit) : Prop := ∀ v ∈ visits, v.whole.Nodup

section Acyclic

variable {σ : Type} {file : FileExtractor σ} (env : Env) (t : Tree) (hfile : KeepsChain file)
include hfile

theorem tracedExpansion_acyclic (root : Path) (rounds : ℕ) (pending : List Declared)
    (expanded : List (String × Path)) (out : Extraction) (s : σ) (h : Acyclic visits)
    (hpending : ∀ p ∈ pending, t.chain root p.1 = p.2 ∧ p.2.Nodup) :
    Acyclic (tracedExpansion env t file root rounds pending expanded out s visits).2 := by
  induction rounds generalizing pending expanded out s visits with
  | zero => exact h
  | succ rounds ih =>
    cases hsort : sortBy (fun p : Declared => p.1.order) pending with
    | nil =>
      rw [tracedExpansion, hsort]
      exact h
    | cons p rest =>
      obtain ⟨d, chain⟩ := p
      have hsorted : ∀ p ∈ (d, chain) :: rest, t.chain root p.1 = p.2 ∧ p.2.Nodup := by
        intro p hp
        rw [← hsort] at hp
        exact hpending p ((sortBy_perm _ pending).mem_iff.mp hp)
      obtain ⟨⟨hchain, hnodup⟩, hrest⟩ := List.forall_mem_cons.mp hsorted
      have hchain : t.chain root d = chain := hchain
      rcases tracedExpansion_round env t file root hsort expanded out s visits with
        hdrop | ⟨dir, -, hcycle, -, hread⟩
      · rw [hdrop]
        exact ih rest expanded out s h hrest
      · have hwhole : (chain ++ [dir]).Nodup := by
          rw [← List.concat_eq_append]
          exact hnodup.concat fun hmem => hcycle (hchain ▸ hmem)
        have hnow : Acyclic (visits ++ [⟨d.nodeId, chain, dir⟩]) := by
          intro v hv
          rcases List.mem_append.mp hv with hv | hv
          · exact h v hv
          · rw [List.mem_singleton.mp hv]
            exact hwhole
        rcases hread with ⟨result, s', hend⟩ | ⟨files, x, s', hf, hnext⟩
        · rw [hend]
          exact hnow
        · rw [hnext]
          refine ih _ _ _ s' hnow fun p hp => ?_
          rcases List.mem_append.mp hp with hp | hp
          · exact hrest p hp
          · obtain ⟨d', hd', rfl⟩ := List.mem_map.mp hp
            have hancestors : d'.ancestors = t.chain root d ++ [dir] :=
              ancestors_of_extractFiles hfile (some d.address) _ files {} s (by simp) x
                (by rw [hf]) d' hd'
            have hne : d'.ancestors ≠ [] := by rw [hancestors]; simp
            refine ⟨?_, hwhole⟩
            show t.chain root d' = chain ++ [dir]
            rw [Tree.chain, if_neg hne, hancestors, hchain]

theorem tracedTree_acyclic (rounds : ℕ) (s : σ) :
    Acyclic (tracedTree env t file rounds s).2 := by
  have hempty : Acyclic [] := fun v hv => absurd hv List.not_mem_nil
  rw [tracedTree]
  cases t.root with
  | error message => exact hempty
  | ok root =>
    cases t.tfFiles with
    | error e => exact hempty
    | ok files =>
      dsimp only
      rcases hf : extractFiles file none [] files {} s with ⟨_ | out, s'⟩
      · exact hempty
      · refine tracedExpansion_acyclic env t hfile root rounds _ [] _ s' hempty fun p hp => ?_
        obtain ⟨d, hd, rfl⟩ := List.mem_map.mp hp
        have hancestors : d.ancestors = [] :=
          ancestors_of_extractFiles hfile none [] files {} s (by simp) out (by rw [hf]) d hd
        constructor
        · show t.chain root d = t.chain root { d with ancestors := [] }
          rw [Tree.chain, Tree.chain, if_pos hancestors, if_pos rfl]
        · show (t.chain root { d with ancestors := [] }).Nodup
          rw [Tree.chain, if_pos rfl]
          split
          · split
            · exact List.nodup_singleton _
            · exact List.nodup_nil
          · exact List.nodup_nil

end Acyclic

/-! ### Runs -/

section Runs

variable (env : Env) (repo : String) (rounds : ℕ)

/-- The directories that extractions with a shared cache read for modules. -/
def visited : IncrementalCache → List Step → List (List Visit)
  | _, [] => []
  | cache, step :: rest =>
    (tracedTree env step.tree (extractFile env step.tree ⟨repo, step.commit⟩) rounds
        { cache := cache }).2 ::
      visited (extractDirIncremental env step.tree ⟨repo, step.commit⟩ rounds cache).2.cache rest

/-- What a step read is confined to the root of its tree. -/
def ConfinedTo (s : Step) (visits : List Visit) : Prop :=
  ∀ root, s.tree.root = .ok root → Confined root visits

theorem visited_confined (cache : IncrementalCache) (steps : List Step) :
    List.Forall₂ ConfinedTo steps (visited env repo rounds cache steps) := by
  induction steps generalizing cache with
  | nil => exact .nil
  | cons step rest ih =>
    exact .cons (fun root hroot => tracedTree_once env step.tree _ rounds _ hroot) (ih _)

variable {env repo rounds}

theorem visited_acyclic {steps : List Step} :
    ∀ {cache : IncrementalCache}, Made env repo cache → Served env repo rounds cache steps →
      ∀ visits ∈ visited env repo rounds cache steps, Acyclic visits := by
  induction steps with
  | nil => exact fun _ _ _ h => absurd h List.not_mem_nil
  | cons step rest ih =>
    intro cache hmade hserved visits hvisits
    rw [Served] at hserved
    obtain ⟨hnow, hrest⟩ := hserved
    rcases List.mem_cons.mp hvisits with rfl | hvisits
    · rw [(tracedTree_simulates (extractFile_simulates step.tree step.commit hmade) env step.tree
        rounds (tracks_start hmade) hnow).2.2]
      exact tracedTree_acyclic env step.tree (directFile_keepsChain env step.tree _) rounds []
    · exact ih (incremental_direct hmade hnow).2 hrest visits hvisits

end Runs

/-- **Expansion of modules.**  Enough rounds exist for every run.  In every run, each pair of a
module and a directory is expanded once, and no directory is read that is not under the root; in a
run whose caches serve, every extraction returns, and no chain is in a directory twice. -/
theorem expansion_confined (env : Env) (repo : String) (steps : List Step) :
    (∃ n, ∀ rounds, n ≤ rounds → Returns env repo rounds steps) ∧
      ∀ rounds, List.Forall₂ ConfinedTo steps (visited env repo rounds .empty steps) ∧
        (Returns env repo rounds steps → Served env repo rounds .empty steps →
          (∀ result ∈ results env repo rounds .empty steps, result.isSome = true) ∧
            ∀ visits ∈ visited env repo rounds .empty steps, Acyclic visits) := by
  refine ⟨returns_enough env repo steps, fun rounds =>
    ⟨visited_confined env repo rounds .empty steps, fun hreturns hserved => ⟨?_, ?_⟩⟩⟩
  · intro result hresult
    rw [(results_of_served (made_empty env repo) hserved).1] at hresult
    obtain ⟨s, hs, rfl⟩ := List.mem_map.mp hresult
    exact hreturns s hs
  · exact visited_acyclic (made_empty env repo) hserved

namespace Sample

/-- The files that occur: the name and the source of their module. -/
def cyclicModules : List (String × String) :=
  [("a", "./x"), ("a", "./z"), ("b", "../y"), ("c", "../z")]

def cyclicEnv : Env where
  parse text :=
    .ok ((cyclicModules.filter fun m => moduleText m.1 m.2 == text).map fun m =>
      .mk "module" [m.1] (some (0, text.utf8ByteSize)) [⟨"source", .string m.2⟩] [])
  contentHash text :=
    if text = moduleText "a" "./x" then ⟨ones, ones_valid⟩ else ⟨zeros, zeros_valid⟩

/-- What does not change: `b` in `x` and in `z` is `y`, and its `c` is `z`. -/
def cyclicFiles : List (String × String) :=
  [("x", moduleText "b" "../y"), ("y", moduleText "c" "../z"), ("z", moduleText "b" "../y")]

/-- `a` is `x`, and then `z`. -/
def cyclicSteps : List Step :=
  [⟨tree (moduleText "a" "./x") cyclicFiles, "c1"⟩, ⟨tree (moduleText "a" "./z") cyclicFiles, "c2"⟩]

end Sample

/-- A tree that is extracted again at another commit. -/
theorem expansion_confined_sample :
    (∀ result ∈ results Sample.env "local" 12 .empty [Sample.before, ⟨Sample.before.tree, "c2"⟩],
        result.isSome = true) ∧
      ∀ visits ∈ visited Sample.env "local" 12 .empty [Sample.before, ⟨Sample.before.tree, "c2"⟩],
        Acyclic visits := by
  refine ((expansion_confined Sample.env "local"
    [Sample.before, ⟨Sample.before.tree, "c2"⟩]).2 12).2 ?_ ?_
  · unfold Returns
    decide +kernel
  · simp only [Served]
    decide +kernel

/-- The entry of `y` was parsed in the chain through `x`; used in the one through `z`, it leads to
`z` a second time. -/
theorem stale_cycle :
    ∃ visits ∈ visited Sample.cyclicEnv "local" 12 .empty Sample.cyclicSteps,
      ⟨"res:local@module.a.module.b.module.c", [["r"], ["r", "z"], ["r", "y"]], ["r", "z"]⟩ ∈ visits
        ∧ ¬ Acyclic visits := by
  have hvisit : ((visited Sample.cyclicEnv "local" 12 .empty Sample.cyclicSteps).any fun visits =>
      visits.contains ⟨"res:local@module.a.module.b.module.c", [["r"], ["r", "z"], ["r", "y"]],
        ["r", "z"]⟩) = true := by decide +kernel
  obtain ⟨visits, hvisits, hmem⟩ := List.any_eq_true.mp hvisit
  rw [List.contains_iff_mem] at hmem
  refine ⟨visits, hvisits, hmem, fun hacyclic => ?_⟩
  exact absurd (hacyclic _ hmem) (by decide)

end Iac

/-
Cloning a managed checkout (`crates/ingest/src/managed.rs`, `clone_into_new` of
`crates/ingest/src/lib.rs`).

`clone_from` clones into a directory of its own, an attempt, moves the previous checkout into it and
the new one to the root.  Where the new one cannot be moved, the previous one is moved back.  The
attempt is removed on every way out, unless it holds the only previous checkout.

The n-th call of the file system fails where `Outside.fault` says so, and git and the removal of a
directory may leave anything in the directory they are given.

* `ends_cloneAttempt` — what each way out leaves, before the attempt is removed;
* `clone_from_keeps_previous` — what `clone_from` leaves.
-/
import Cartograph.Lib.Fallible
import Cartograph.Lib.FileTree
import Cartograph.Sources.Origin

namespace Sources

open Fallible FileTree

inductive IoError
  | notFound
  | alreadyExists
  | other
  deriving DecidableEq

/-- The errors of the functions modelled here. -/
inductive IngestError
  | auth (url message remediation : String)
  | invalidManagedOrigin
  | sourceOwnership
  | sourcePublication
  | git (message : String)
  | io (kind : IoError)
  deriving DecidableEq

structure SlotOwner where
  schemaVersion : ℕ
  registryId : String
  sourceId : String
  deriving DecidableEq

/-- An opened repository. -/
structure Repository where
  bare : Bool
  workdir : Option (List String)
  path : List String

/-- Whether the class of a git error is one of HTTP, SSH and callbacks, and its message. -/
structure GitError where
  transport : Bool
  message : String

/-- A completed read-only clone. -/
structure ClonedRepo where
  repo : String
  commitSha : String
  path : List String
  deriving DecidableEq

structure ManagedCheckout where
  appDataDir : List String
  registryId : String
  sourceId : String

def ManagedCheckout.slot (c : ManagedCheckout) : List String :=
  c.appDataDir ++ ["sources", c.sourceId]

def ManagedCheckout.root (c : ManagedCheckout) : List String := c.slot ++ ["checkout"]

def ManagedCheckout.owner (c : ManagedCheckout) : SlotOwner := ⟨1, c.registryId, c.sourceId⟩

/-- What is answered from outside.  The number of a call comes first. -/
structure Outside where
  /-- A call of the file system fails. -/
  fault : ℕ → Bool
  canonicalize : ℕ → FileTree → List String → Option (List String)
  /-- Whether there is nothing in a directory. -/
  isEmpty : FileTree → List String → Bool
  openRepository : ℕ → FileTree → List String → Option Repository
  parseOwner : List UInt8 → Option SlotOwner
  /-- The URL, the token, and whether the clone is shallow. -/
  clone : ℕ → String → Option String → Bool → (t : FileTree) → (destination : List String) →
    Change t destination × Except GitError Unit
  /-- The commit of the head. -/
  head : ℕ → FileTree → List String → Except GitError String
  removeDirAll : ℕ → (t : FileTree) → (path : List String) → Change t path
  processId : ℕ
  timestamp : ℕ
  /-- What `ATTEMPT_SEQUENCE` gives; other threads take numbers too. -/
  sequence : ℕ → ℕ

/-- The file tree, how many calls there were, and `Attempt::cleanup`. -/
structure Host where
  tree : FileTree
  calls : ℕ
  cleanup : Bool

abbrev Run (α : Type) : Type := Fallible Host IngestError α

def MAX_OWNER_BYTES : ℕ := 4096

/-! ### Calls -/

/-- The number of a call. -/
def call : Run ℕ := fun h => (.ok h.calls, { h with calls := h.calls + 1 })

def setTree (t : FileTree) : Run Unit := change fun h => { h with tree := t }

def setCleanup (cleanup : Bool) : Run Unit := change fun h => { h with cleanup := cleanup }

section

variable (o : Outside)

/-- A call of the file system that may fail. -/
def fallible : Run FileTree := do
  let n ← call
  check (o.fault n = false) (.io .other)
  let h ← state
  return h.tree

/-- `symlink_metadata`; `none` where nothing is found. -/
def symlinkMetadata (path : List String) : Run (Option Entry) := do
  let t ← fallible o
  return t.entry path

def entryExists (path : List String) : Run Bool := do
  let entry ← symlinkMetadata o path
  return entry.isSome

def canonicalize (path : List String) : Run (List String) := do
  let n ← call
  let h ← state
  match o.canonicalize n h.tree path with
  | some canonical => return canonical
  | none => fail (.io .other)

def validateDirectory (path : List String) (isPrivate : Bool) : Run Unit := do
  match ← (symlinkMetadata o path).result with
  | .ok (some (.dir mode)) =>
    match ← (canonicalize o path).result with
    | .ok canonical =>
      check (canonical = path) .sourceOwnership
      check (isPrivate = true → mode &&& 0o077 = 0) .sourceOwnership
    | .error _ => fail .sourceOwnership
  | _ => fail .sourceOwnership

def validateRegularFile (path : List String) : Run Unit := do
  match ← (symlinkMetadata o path).result with
  | .ok (some (.file _)) => return ()
  | _ => fail .sourceOwnership

/-- The bytes of a file. -/
def readFile (path : List String) : Run (List UInt8) := do
  match (← fallible o).entry path with
  | some (.file bytes) => return bytes
  | _ => fail (.io .other)

def ManagedCheckout.validateSlot (c : ManagedCheckout) : Run Unit := do
  validateDirectory o c.appDataDir false
  validateDirectory o (c.appDataDir ++ ["sources"]) true
  validateDirectory o c.slot true
  validateRegularFile o (c.slot ++ ["owner.json"])
  let bytes ← readFile o (c.slot ++ ["owner.json"])
  check (bytes.length ≤ MAX_OWNER_BYTES) .sourceOwnership
  check (o.parseOwner bytes = some c.owner) .sourceOwnership

def openRepository (root : List String) : Run Repository := do
  let n ← call
  let h ← state
  match o.openRepository n h.tree root with
  | some repo => return repo
  | none => fail .sourceOwnership

def validateCheckout (root : List String) : Run Unit := do
  validateDirectory o root false
  validateDirectory o (root ++ [".git"]) false
  let repo ← openRepository o root
  match repo.workdir with
  | none => fail .sourceOwnership
  | some workdir =>
    check (repo.bare = false) .sourceOwnership
    let worktree ← canonicalize o workdir
    let canonicalRoot ← canonicalize o root
    check (worktree = canonicalRoot) .sourceOwnership
    let git ← canonicalize o repo.path
    let canonicalGit ← canonicalize o (root ++ [".git"])
    check (git = canonicalGit) .sourceOwnership

def createPrivateDirectory (dir : List String) (name : String) : Run Unit := do
  let t ← fallible o
  if h : t.isDir dir = true then
    check (t.entry (dir ++ [name]) = none) (.io .alreadyExists)
    setTree (t.mkdir dir name 0o700 h)
  else fail (.io .notFound)

/-- Whether what is at the target of a rename may be replaced. -/
def replaceable (t : FileTree) (source target : List String) : Bool :=
  match t.entry target, t.entry source with
  | none, some _ => true
  | some (.dir _), some (.dir _) => o.isEmpty t target
  | some (.dir _), _ => false
  | some _, some (.dir _) => false
  | some _, some _ => true
  | _, none => false

/-- `fs::rename` to a name in a directory; a failure changes nothing. -/
def rename (source dir : List String) (name : String) : Run Unit := do
  let t ← fallible o
  if h : t.isDir dir = true ∧ ¬source <+: dir ++ [name] then
    check (replaceable o t source (dir ++ [name]) = true) (.io .other)
    setTree (t.rename source dir name h.1 h.2)
  else fail (.io .other)

/-! ### Cloning -/

/-- `classify_git_error`. -/
def classifyGitError (url : String) (e : GitError) : IngestError :=
  let authish := e.transport && ["auth", "401", "403", "credential", "permission"].any fun word =>
    decide (word.toList <:+: lower e.message.toList)
  if authish then
    .auth url e.message ("Check access to the repo, then set GH_TOKEN (or GITHUB_TOKEN) "
      ++ "to a token with repo read scope, or run \x60gh auth login\x60.")
  else .git e.message

/-- The clone is shallow, unless the transport is local. -/
def shallow (cloneUrl : String) : Bool := !("file://".toList.isPrefixOf cloneUrl.toList)

def cloneIntoNew (cloneUrl : String) (destination : List String) (token : Option String) :
    Run String := do
  let entry ← symlinkMetadata o destination
  check (entry = none) .sourceOwnership
  let n ← call
  let h ← state
  let cloned := o.clone n cloneUrl token (shallow cloneUrl) h.tree destination
  setTree cloned.1.tree
  match cloned.2 with
  | .error e => fail (classifyGitError cloneUrl e)
  | .ok () =>
    let m ← call
    match o.head m cloned.1.tree destination with
    | .error e => fail (classifyGitError cloneUrl e)
    | .ok commitSha => return commitSha

/-- `Attempt::new`: the name of a new directory in the slot. -/
def attemptNew (slot : List String) : ℕ → Run String
  | 0 => fail .sourceOwnership
  | turns + 1 => do
    let n ← call
    let name := ".attempt-" ++ toString o.processId ++ "-" ++ toString o.timestamp ++ "-"
      ++ toString (o.sequence n)
    match ← (createPrivateDirectory o slot name).result with
    | .ok () =>
      setCleanup true
      return name
    | .error (.io .alreadyExists) => attemptNew slot turns
    | .error e => fail e

/-- `Attempt::drop`. -/
def attemptDrop (path : List String) (h : Host) : Host :=
  if h.cleanup then
    { h with tree := (o.removeDirAll h.calls h.tree path).tree, calls := h.calls + 1 }
  else h

/-- The attempt to publish that failed: the previous checkout, if there was one, moves back. -/
def ManagedCheckout.restore (c : ManagedCheckout) (previous : List String) (hadPrevious : Bool) :
    Run ClonedRepo := do
  if hadPrevious then
    if ← entryExists o c.root then fail .sourcePublication
    else
      match ← (rename o previous c.slot "checkout").result with
      | .error _ => fail .sourcePublication
      | .ok () =>
        setCleanup true
        fail .sourcePublication
  else fail .sourcePublication

/-- The clone moves to the root. -/
def ManagedCheckout.publish (c : ManagedCheckout) (origin : ManagedOrigin) (attempt : List String)
    (commitSha : String) (hadPrevious : Bool) : Run ClonedRepo := do
  match ← (rename o (attempt ++ ["checkout"]) c.slot "checkout").result with
  | .error _ => c.restore o (attempt ++ ["previous"]) hadPrevious
  | .ok () =>
    setCleanup true
    return ⟨origin.githubRepo.getD ("local/" ++ c.sourceId), commitSha, c.root⟩

/-- The previous checkout moves into the attempt, and from then on the attempt is kept. -/
def ManagedCheckout.retire (c : ManagedCheckout) (attempt : List String) : Run Bool := do
  let hadPrevious ← entryExists o c.root
  if hadPrevious then
    validateCheckout o c.root
    setCleanup false
    rename o c.root attempt "previous"
    return true
  else return false

/-- What `clone_from` does in an attempt. -/
def ManagedCheckout.cloneAttempt (c : ManagedCheckout) (origin : ManagedOrigin)
    (token : Option String) (attempt : List String) : Run ClonedRepo := do
  let commitSha ← cloneIntoNew o origin.cloneUrl (attempt ++ ["checkout"]) token
  validateCheckout o (attempt ++ ["checkout"])
  c.validateSlot o
  let hadPrevious ← c.retire o attempt
  c.publish o origin attempt commitSha hadPrevious

/-- `ManagedOrigin::validate`, among the other errors. -/
def validateOrigin (url : UrlCrate) (origin : ManagedOrigin) : Run Unit :=
  match origin.validate url with
  | .ok () => return ()
  | .error .invalid => fail .invalidManagedOrigin
  | .error .io => fail (.io .other)

/-- `ManagedWriteGuard::clone_from`. -/
def ManagedCheckout.cloneFrom (c : ManagedCheckout) (url : UrlCrate) (origin : ManagedOrigin)
    (token : Option String) : Run ClonedRepo := do
  validateOrigin url origin
  c.validateSlot o
  if ← entryExists o c.root then validateCheckout o c.root
  let name ← attemptNew o c.slot 64
  (c.cloneAttempt o origin token (c.slot ++ [name])).leaving (attemptDrop o (c.slot ++ [name]))

end

/-! ### Looking -/

section

variable {o : Outside}

/-- What calls that only look leave as it is. -/
def Host.kept (h : Host) : FileTree × Bool := (h.tree, h.cleanup)

theorem looks_call : Looks Host.kept call := fun _ => rfl

theorem looks_fallible : Looks Host.kept (fallible o) :=
  looks_bind looks_call fun _ => looks_bind (looks_check _ _) fun _ =>
    looks_bind looks_state fun _ => looks_pure _

section

variable (path : List String)
include path

theorem looks_symlinkMetadata : Looks Host.kept (symlinkMetadata o path) :=
  looks_bind looks_fallible fun _ => looks_pure _

theorem looks_entryExists : Looks Host.kept (entryExists o path) :=
  looks_bind (looks_symlinkMetadata path) fun _ => looks_pure _

theorem looks_canonicalize : Looks Host.kept (canonicalize o path) := by
  refine looks_bind looks_call fun _ => looks_bind looks_state fun _ => ?_
  split
  · exact looks_pure _
  · exact looks_fail _

theorem looks_validateDirectory (isPrivate : Bool) :
    Looks Host.kept (validateDirectory o path isPrivate) := by
  refine looks_bind (looks_result (looks_symlinkMetadata path)) fun _ => ?_
  split
  · refine looks_bind (looks_result (looks_canonicalize path)) fun _ => ?_
    split
    · exact looks_bind (looks_check _ _) fun _ => looks_check _ _
    · exact looks_fail _
  · exact looks_fail _

theorem looks_validateRegularFile :
    Looks Host.kept (validateRegularFile o path) := by
  refine looks_bind (looks_result (looks_symlinkMetadata path)) fun _ => ?_
  split
  · exact looks_pure _
  · exact looks_fail _

theorem looks_readFile : Looks Host.kept (readFile o path) := by
  refine looks_bind looks_fallible fun _ => ?_
  split
  · exact looks_pure _
  · exact looks_fail _

end

theorem looks_validateSlot (c : ManagedCheckout) : Looks Host.kept (c.validateSlot o) :=
  looks_bind (looks_validateDirectory _ _) fun _ =>
    looks_bind (looks_validateDirectory _ _) fun _ =>
    looks_bind (looks_validateDirectory _ _) fun _ =>
    looks_bind (looks_validateRegularFile _) fun _ =>
    looks_bind (looks_readFile _) fun _ => looks_bind (looks_check _ _) fun _ => looks_check _ _

theorem looks_openRepository (root : List String) : Looks Host.kept (openRepository o root) := by
  refine looks_bind looks_call fun _ => looks_bind looks_state fun _ => ?_
  split
  · exact looks_pure _
  · exact looks_fail _

theorem looks_validateCheckout (root : List String) :
    Looks Host.kept (validateCheckout o root) := by
  refine looks_bind (looks_validateDirectory _ _) fun _ =>
    looks_bind (looks_validateDirectory _ _) fun _ =>
    looks_bind (looks_openRepository root) fun repo => ?_
  split
  · exact looks_fail _
  · exact looks_bind (looks_check _ _) fun _ =>
      looks_bind (looks_canonicalize _) fun _ => looks_bind (looks_canonicalize _) fun _ =>
      looks_bind (looks_check _ _) fun _ =>
      looks_bind (looks_canonicalize _) fun _ => looks_bind (looks_canonicalize _) fun _ =>
      looks_check _ _

theorem looks_validateOrigin (url : UrlCrate) (origin : ManagedOrigin) :
    Looks Host.kept (validateOrigin url origin) := by
  rw [validateOrigin]
  split
  · exact looks_pure _
  · exact looks_fail _
  · exact looks_fail _

end

/-! ### One call -/

section

variable {o : Outside} {P : FileTree × Bool → Prop}

/-- What holds of the tree and the flag. -/
def On (P : FileTree × Bool → Prop) (h : Host) : Prop := P h.kept

theorem ends_fallible :
    Ends (On P) (fallible o) (fun t h => t = h.tree ∧ On P h) fun _ => On P :=
  ends_bind looks_call.ends fun _ => ends_bind (looks_check _ _).ends fun _ =>
    ends_of (fun s t s' hs heq => by cases heq; exact ⟨rfl, hs⟩) fun s e s' _ heq => by cases heq

theorem ends_setCleanup {flag : Bool} {E : IngestError → Host → Prop} :
    Ends (On P) (setCleanup flag) (fun _ => On fun k => k.2 = flag ∧ ∃ old, P (k.1, old)) E :=
  ends_change fun s hs => ⟨rfl, s.cleanup, hs⟩

theorem ends_rename {source dir : List String} {name : String} :
    Ends (On P) (rename o source dir name)
      (fun _ => On fun k => ∃ t hdir hbelow, P (t, k.2) ∧ k.1 = t.rename source dir name hdir hbelow)
      fun _ => On P := by
  refine ends_bind ends_fallible fun t => ?_
  split_ifs with hallowed
  · refine ends_bind (Q := fun _ h => t = h.tree ∧ On P h)
      (ends_check (fun _ s hs => hs) fun _ s hs => hs.2) fun _ => ends_change ?_
    rintro s ⟨rfl, hs⟩
    exact ⟨s.tree, hallowed.1, hallowed.2, hs, rfl⟩
  · exact ends_fail fun s hs => hs.2

theorem ends_createPrivateDirectory {dir : List String} {name : String} :
    Ends (On P) (createPrivateDirectory o dir name)
      (fun _ => On fun k => ∃ t hdir, P (t, k.2) ∧ t.entry (dir ++ [name]) = none
        ∧ k.1 = t.mkdir dir name 0o700 hdir) fun _ => On P := by
  refine ends_bind ends_fallible fun t => ?_
  split_ifs with hdir
  · refine ends_bind (Q := fun _ h => t.entry (dir ++ [name]) = none ∧ t = h.tree ∧ On P h)
      (ends_check (fun hnone s hs => ⟨hnone, hs⟩) fun _ s hs => hs.2) fun _ => ends_change ?_
    rintro s ⟨hnone, rfl, hs⟩
    exact ⟨s.tree, hdir, hs, hnone, rfl⟩
  · exact ends_fail fun s hs => hs.2

end

/-! ### What the steps leave -/

section

variable (o : Outside) (c : ManagedCheckout) (origin : ManagedOrigin) (token : Option String)
  (t₀ : FileTree) (name sha : String)

/-- What a clone left at a destination, and the commit of its head. -/
def Fetched (destination : List String) (content : List String → Option Entry) : Prop :=
  ∃ n m t, ∃ cloned, cloned = o.clone n origin.cloneUrl token (shallow origin.cloneUrl) t destination
    ∧ cloned.2 = .ok () ∧ o.head m cloned.1.tree destination = .ok sha
    ∧ content = cloned.1.tree.below destination

def Untouched (k : FileTree × Bool) : Prop := k.1 = t₀

/-- The attempt is new, and nothing else has changed. -/
structure Attempted (k : FileTree × Bool) : Prop where
  named : name ≠ "checkout"
  fresh : t₀.entry (c.slot ++ [name]) = none
  others : ∀ p, Apart (c.slot ++ [name]) p → k.1.below p = t₀.below p

/-- The clone is in the attempt. -/
structure Staged (k : FileTree × Bool) : Prop extends Attempted c t₀ name k where
  fetched : Fetched o origin token sha (c.slot ++ [name] ++ ["checkout"])
    (k.1.below (c.slot ++ [name] ++ ["checkout"]))

/-- Nothing has changed but the root and the attempt. -/
structure Moved (k : FileTree × Bool) : Prop where
  named : name ≠ "checkout"
  fresh : t₀.entry (c.slot ++ [name]) = none
  others : ∀ p, Apart c.root p → Apart (c.slot ++ [name]) p → k.1.below p = t₀.below p

/-- The previous checkout is in the attempt too, which is kept. -/
structure Retired (k : FileTree × Bool) : Prop extends Moved c t₀ name k where
  fetched : Fetched o origin token sha (c.slot ++ [name] ++ ["checkout"])
    (k.1.below (c.slot ++ [name] ++ ["checkout"]))
  previous : k.1.below (c.slot ++ [name] ++ ["previous"]) = t₀.below c.root
  cleanup : k.2 = false

/-- The clone is at the root. -/
structure Published (k : FileTree × Bool) : Prop extends Moved c t₀ name k where
  fetched : Fetched o origin token sha (c.slot ++ [name] ++ ["checkout"]) (k.1.below c.root)

/-- The previous checkout is at the root, or in the attempt, which is kept. -/
structure Retained (k : FileTree × Bool) : Prop extends Moved c t₀ name k where
  previous : k.1.below c.root = t₀.below c.root
    ∨ k.2 = false ∧ k.1.below (c.slot ++ [name] ++ ["previous"]) = t₀.below c.root

end

variable {t : FileTree} {hadPrevious : Bool}

section

variable {o : Outside} {c : ManagedCheckout} {origin : ManagedOrigin} {token : Option String}
  {t₀ : FileTree} {name sha : String} {k : FileTree × Bool}

theorem apart_root (h : name ≠ "checkout") : Apart (c.slot ++ [name]) c.root := apart_of_ne h [] []

theorem apart_previous : Apart (c.slot ++ [name] ++ ["previous"]) (c.slot ++ [name] ++ ["checkout"]) :=
  apart_of_ne (by decide) [] []

section

variable (h : Attempted c t₀ name k)
include h

theorem Attempted.root : k.1.below c.root = t₀.below c.root :=
  h.others c.root (apart_root h.named)

theorem Attempted.moved : Moved c t₀ name k :=
  ⟨h.named, h.fresh, fun p _ hp => h.others p hp⟩

theorem Attempted.retained : Retained c t₀ name k :=
  ⟨h.moved, .inl h.root⟩

end

theorem Retired.retained (h : Retired o c origin token t₀ name sha k) : Retained c t₀ name k :=
  ⟨h.toMoved, .inr ⟨h.cleanup, h.previous⟩⟩

theorem Attempted.flag {t : FileTree} {flag flag' : Bool} (h : Attempted c t₀ name (t, flag)) :
    Attempted c t₀ name (t, flag') := ⟨h.named, h.fresh, h.others⟩

theorem Staged.flag {t : FileTree} {flag flag' : Bool}
    (h : Staged o c origin token t₀ name sha (t, flag)) :
    Staged o c origin token t₀ name sha (t, flag') := ⟨h.toAttempted.flag, h.fetched⟩

theorem Staged.retired (h : Staged o c origin token t₀ name sha (t, false))
    (hdir : t.isDir (c.slot ++ [name]) = true)
    (hbelow : ¬c.root <+: c.slot ++ [name] ++ ["previous"]) :
    Retired o c origin token t₀ name sha
      (t.rename c.root (c.slot ++ [name]) "previous" hdir hbelow, false) where
  named := h.named
  fresh := h.fresh
  others p hroot hattempt := by
    have hprevious : Apart (c.slot ++ [name] ++ ["previous"]) p :=
      (hattempt.symm.append ["previous"]).symm
    rw [below_rename_apart hdir hbelow hroot hprevious]
    exact h.others p hattempt
  fetched := by
    have hroot : Apart c.root (c.slot ++ [name] ++ ["checkout"]) :=
      (apart_root h.named).symm.append ["checkout"]
    rw [below_rename_apart hdir hbelow hroot apart_previous]
    exact h.fetched
  previous := by
    rw [below_rename_target hdir hbelow]
    exact h.root
  cleanup := rfl

theorem Moved.rename {flag : Bool} (h : Moved c t₀ name (t, flag)) (entry : String)
    (hdir : t.isDir c.slot = true)
    (hbelow : ¬c.slot ++ [name] ++ [entry] <+: c.slot ++ ["checkout"]) (flag' : Bool) :
    Moved c t₀ name (t.rename (c.slot ++ [name] ++ [entry]) c.slot "checkout" hdir hbelow, flag') where
  named := h.named
  fresh := h.fresh
  others p hroot hattempt := by
    rw [below_rename_apart hdir hbelow (hattempt.symm.append [entry]).symm hroot]
    exact h.others p hroot hattempt

theorem Moved.published {flag : Bool} (h : Moved c t₀ name (t, flag))
    (hfetched : Fetched o origin token sha (c.slot ++ [name] ++ ["checkout"])
      (t.below (c.slot ++ [name] ++ ["checkout"]))) (hdir : t.isDir c.slot = true)
    (hbelow : ¬c.slot ++ [name] ++ ["checkout"] <+: c.slot ++ ["checkout"]) (flag' : Bool) :
    Published o c origin token t₀ name sha
      (t.rename (c.slot ++ [name] ++ ["checkout"]) c.slot "checkout" hdir hbelow, flag') where
  toMoved := h.rename "checkout" hdir hbelow flag'
  fetched := by
    rw [ManagedCheckout.root, below_rename_target hdir hbelow]
    exact hfetched

theorem Retired.restored {flag : Bool} (h : Retired o c origin token t₀ name sha (t, flag))
    (hdir : t.isDir c.slot = true)
    (hbelow : ¬c.slot ++ [name] ++ ["previous"] <+: c.slot ++ ["checkout"]) (flag' : Bool) :
    Retained c t₀ name
      (t.rename (c.slot ++ [name] ++ ["previous"]) c.slot "checkout" hdir hbelow, flag') where
  toMoved := h.toMoved.rename "previous" hdir hbelow flag'
  previous := by
    left
    rw [ManagedCheckout.root, below_rename_target hdir hbelow]
    exact h.previous

/-! ### The steps -/

theorem ends_cloneIntoNew : Ends (On (Attempted c t₀ name))
    (cloneIntoNew o origin.cloneUrl (c.slot ++ [name] ++ ["checkout"]) token)
    (fun sha => On (Staged o c origin token t₀ name sha)) fun _ => On (Attempted c t₀ name) := by
  refine ends_bind (looks_symlinkMetadata _).ends fun entry =>
    ends_bind (looks_check _ _).ends fun _ => ends_bind looks_call.ends fun n => ?_
  refine ends_bind (Q := fun h s => h = s ∧ On (Attempted c t₀ name) s)
    (ends_of (fun s a s' hs heq => by cases heq; exact ⟨rfl, hs⟩) fun s e s' _ heq => by cases heq)
    fun h => ?_
  generalize hcloned : o.clone n origin.cloneUrl token (shallow origin.cloneUrl) h.tree
    (c.slot ++ [name] ++ ["checkout"]) = cloned
  -- git leaves the rest as it is, whatever it answers
  refine ends_bind (Q := fun _ s => s.tree = cloned.1.tree ∧ On (Attempted c t₀ name) s)
    (ends_change ?_) fun _ => ?_
  · rintro s ⟨rfl, hs⟩
    refine ⟨rfl, hs.named, hs.fresh, fun p hp => ?_⟩
    have hdestination : Apart (c.slot ++ [name] ++ ["checkout"]) p := (hp.symm.append _).symm
    exact (cloned.1.below hdestination).trans (hs.others p hp)
  · split
    · exact ends_fail fun s hs => hs.2
    · next hok =>
      refine ends_bind (Q := fun _ s => s.tree = cloned.1.tree ∧ On (Attempted c t₀ name) s)
        (ends_of (fun s a s' hs heq => by cases heq; exact hs) fun s e s' _ heq => by cases heq)
        fun m => ?_
      split
      · exact ends_fail fun s hs => hs.2
      · next sha hhead =>
        refine ends_pure fun s hs => ⟨hs.2, n, m, h.tree, cloned, hcloned.symm, hok, hhead, ?_⟩
        show s.tree.below _ = _
        rw [hs.1]

/-- Before and after the previous checkout moves. -/
def AtRoot (o : Outside) (c : ManagedCheckout) (origin : ManagedOrigin) (token : Option String)
    (t₀ : FileTree) (name sha : String) (hadPrevious : Bool) (k : FileTree × Bool) : Prop :=
  if hadPrevious then Retired o c origin token t₀ name sha k
  else Staged o c origin token t₀ name sha k

section

variable (h : AtRoot o c origin token t₀ name sha hadPrevious k)
include h

theorem AtRoot.retained :
    Retained c t₀ name k := by
  cases hadPrevious with
  | true => exact Retired.retained h
  | false => exact Staged.toAttempted h |>.retained

theorem AtRoot.moved : Moved c t₀ name k :=
  h.retained.toMoved

theorem AtRoot.fetched :
    Fetched o origin token sha (c.slot ++ [name] ++ ["checkout"])
      (k.1.below (c.slot ++ [name] ++ ["checkout"])) := by
  cases hadPrevious with
  | true => exact Retired.fetched h
  | false => exact Staged.fetched h

end

theorem ends_retire : Ends (On (Staged o c origin token t₀ name sha)) (c.retire o (c.slot ++ [name]))
    (fun hadPrevious => On (AtRoot o c origin token t₀ name sha hadPrevious))
    fun _ => On (Retained c t₀ name) := by
  have hstaged : ∀ s, On (Staged o c origin token t₀ name sha) s → On (Retained c t₀ name) s :=
    fun s hs => hs.retained
  refine ends_bind ((looks_entryExists _).ends.mono (fun _ hs => hs) (fun _ _ hs => hs)
    fun _ => hstaged) fun hadPrevious => ?_
  cases hadPrevious with
  | false => exact ends_pure fun s hs => hs
  | true =>
    refine ends_bind ((looks_validateCheckout _).ends.mono (fun _ hs => hs) (fun _ _ hs => hs)
      fun _ => hstaged) fun _ => ends_bind ends_setCleanup fun _ => ?_
    refine ends_bind (ends_rename.mono (fun _ hs => hs) (fun _ _ hs => hs) ?_) fun _ =>
      ends_pure ?_
    · rintro - s ⟨-, flag, hs⟩
      exact hs.flag.retained
    · rintro s ⟨t, hdir, hbelow, ⟨hflag, flag, hs⟩, htree⟩
      have hretired := Staged.retired hs.flag hdir hbelow
      show Retired o c origin token t₀ name sha (s.tree, s.cleanup)
      rw [show s.tree = _ from htree, show s.cleanup = false from hflag]
      exact hretired

theorem ends_restore :
    Ends (On (AtRoot o c origin token t₀ name sha hadPrevious))
      (c.restore o (c.slot ++ [name] ++ ["previous"]) hadPrevious)
      (fun _ _ => False) fun _ => On (Retained c t₀ name) := by
  have hretained : ∀ s, On (AtRoot o c origin token t₀ name sha hadPrevious) s →
      On (Retained c t₀ name) s := fun s hs => hs.retained
  cases hadPrevious with
  | false => exact ends_fail hretained
  | true =>
    refine ends_bind ((looks_entryExists _).ends.mono (fun _ hs => hs) (fun _ _ hs => hs)
      fun _ => hretained) fun occupied => ?_
    cases occupied with
    | true => exact ends_fail hretained
    | false =>
      refine ends_bind (Q := fun r s => match r with
        | .ok _ => On (Retained c t₀ name) s ∧ ∀ flag, Retained c t₀ name (s.tree, flag)
        | .error _ => On (Retained c t₀ name) s) (ends_result
          ((ends_rename (P := AtRoot o c origin token t₀ name sha true)).mono (fun _ hs => hs)
            ?_ fun _ => hretained)) fun r => ?_
      · rintro - s ⟨t, hdir, hbelow, hs, htree⟩
        have hall : ∀ flag, Retained c t₀ name (s.tree, flag) := by
          intro flag
          rw [show s.tree = _ from htree]
          exact Retired.restored hs hdir hbelow flag
        exact ⟨hall s.cleanup, hall⟩
      · cases r with
        | error e => exact ends_fail fun s hs => hs
        | ok u =>
          exact ends_bind (ends_change fun s hs => hs.2 true) fun _ => ends_fail fun s hs => hs

theorem ends_publish :
    Ends (On (AtRoot o c origin token t₀ name sha hadPrevious))
      (c.publish o origin (c.slot ++ [name]) sha hadPrevious)
      (fun repo s => repo.path = c.root
        ∧ On (Published o c origin token t₀ name repo.commitSha) s)
      fun _ => On (Retained c t₀ name) := by
  refine ends_bind (Q := fun r s => match r with
    | .ok _ => ∀ flag, Published o c origin token t₀ name sha (s.tree, flag)
    | .error _ => On (AtRoot o c origin token t₀ name sha hadPrevious) s)
    (ends_result (ends_rename.mono (fun _ hs => hs) ?_ fun _ _ hs => hs)) fun r => ?_
  · rintro - s ⟨t, hdir, hbelow, hs, htree⟩ flag
    rw [show s.tree = _ from htree]
    exact hs.moved.published hs.fetched hdir hbelow flag
  · cases r with
    | error e => exact ends_restore.mono (fun _ hs => hs) (fun _ _ hs => hs.elim) fun _ _ hs => hs
    | ok u =>
      exact ends_bind (Q := fun _ => On (Published o c origin token t₀ name sha))
        (ends_change fun s hs => hs true) fun _ => ends_pure fun s hs => ⟨rfl, hs⟩

theorem ends_cloneAttempt : Ends (On (Attempted c t₀ name))
    (c.cloneAttempt o origin token (c.slot ++ [name]))
    (fun repo s => repo.path = c.root
      ∧ On (Published o c origin token t₀ name repo.commitSha) s)
    fun _ => On (Retained c t₀ name) := by
  have hretained : ∀ s, On (Attempted c t₀ name) s → On (Retained c t₀ name) s :=
    fun s hs => hs.retained
  refine ends_bind (ends_cloneIntoNew.mono (fun _ hs => hs) (fun _ _ hs => hs)
    fun _ => hretained) fun sha => ?_
  have hstaged : ∀ s, On (Staged o c origin token t₀ name sha) s → On (Retained c t₀ name) s :=
    fun s hs => hs.retained
  refine ends_bind ((looks_validateCheckout _).ends.mono (fun _ hs => hs) (fun _ _ hs => hs)
    fun _ => hstaged) fun _ =>
    ends_bind ((looks_validateSlot c).ends.mono (fun _ hs => hs) (fun _ _ hs => hs)
      fun _ => hstaged) fun _ =>
    ends_bind ends_retire fun hadPrevious => ends_publish

/-! ### The attempt -/

theorem attempt_named (rest : String) : ".attempt-" ++ rest ≠ "checkout" := by
  intro h
  have hhead := congrArg (fun s : String => s.toList.head?) h
  rw [String.toList_append] at hhead
  exact absurd hhead (by simp)

theorem ends_attemptNew (turns : ℕ) : Ends (On (Untouched t₀)) (attemptNew o c.slot turns)
    (fun name s => s.cleanup = true ∧ On (Attempted c t₀ name) s) fun _ => On (Untouched t₀) := by
  induction turns with
  | zero => exact ends_fail fun s hs => hs
  | succ turns ih =>
    refine ends_bind (looks_call.ends (P := Untouched t₀)) fun n => ?_
    have hnamed := attempt_named (toString o.processId ++ ("-" ++ (toString o.timestamp ++ ("-"
      ++ toString (o.sequence n)))))
    simp only [← String.append_assoc] at hnamed
    generalize ".attempt-" ++ toString o.processId ++ "-" ++ toString o.timestamp ++ "-"
      ++ toString (o.sequence n) = name at hnamed ⊢
    refine ends_bind (Q := fun (r : Except IngestError Unit) s => match r with
      | .ok _ => ∃ t hdir, Untouched t₀ (t, s.cleanup) ∧ t.entry (c.slot ++ [name]) = none
          ∧ s.tree = t.mkdir c.slot name 0o700 hdir
      | .error _ => On (Untouched t₀) s) (ends_result
        (ends_createPrivateDirectory (P := Untouched t₀))) fun r => ?_
    match r with
    | .ok () =>
      refine ends_bind (Q := fun _ s => s.cleanup = true ∧ On (Attempted c t₀ name) s)
        (ends_change ?_) fun _ => ends_pure fun s hs => hs
      rintro s ⟨t, hdir, rfl, hnone, htree⟩
      refine ⟨rfl, hnamed, hnone, fun p hp => ?_⟩
      show s.tree.below p = _
      rw [htree, below_mkdir_apart hdir hp]
    | .error (.io .alreadyExists) => exact ih
    | .error (.io .notFound) | .error (.io .other) | .error (.auth _ _ _)
    | .error .invalidManagedOrigin | .error .sourceOwnership | .error .sourcePublication
    | .error (.git _) => exact ends_fail fun s hs => hs

theorem attemptDrop_retained {h : Host} (hr : On (Retained c t₀ name) h) :
    On (Retained c t₀ name) (attemptDrop o (c.slot ++ [name]) h) := by
  rw [attemptDrop]
  split_ifs with hcleanup
  · refine ⟨⟨hr.named, hr.fresh, fun p hroot hattempt => ?_⟩, .inl ?_⟩
    · exact ((o.removeDirAll _ _ _).below hattempt).trans (hr.others p hroot hattempt)
    · rcases hr.previous with hroot | ⟨hkept, -⟩
      · exact ((o.removeDirAll _ _ _).below (apart_root hr.named)).trans hroot
      · exact absurd (hcleanup.symm.trans hkept) (by decide)
  · exact hr

theorem attemptDrop_published {h : Host} (hp : On (Published o c origin token t₀ name sha) h) :
    On (Published o c origin token t₀ name sha) (attemptDrop o (c.slot ++ [name]) h) := by
  rw [attemptDrop]
  split_ifs with hcleanup
  · refine ⟨⟨hp.named, hp.fresh, fun p hroot hattempt => ?_⟩, ?_⟩
    · exact ((o.removeDirAll _ _ _).below hattempt).trans (hp.others p hroot hattempt)
    · have hsame := (o.removeDirAll h.calls h.tree _).below (apart_root (c := c) hp.named)
      show Fetched o origin token sha _ ((o.removeDirAll h.calls h.tree _).tree.below c.root)
      rw [hsame]
      exact hp.fetched
  · exact hp

theorem Moved.kept (h : Moved c t₀ name k) {p : List String} (hroot : Apart c.root p)
    (hthere : t₀.entry p ≠ none) : k.1.below p = t₀.below p := by
  refine h.others p hroot ⟨fun hp => hthere (entry_none_below h.fresh hp), fun hp => ?_⟩
  -- a path above the attempt is the attempt or above the root
  rcases List.prefix_concat_iff.mp hp with heq | hslot
  · exact hthere (heq ▸ h.fresh)
  · exact hroot.2 (hslot.trans (List.prefix_append c.slot ["checkout"]))

/-- What `clone_from` leaves of what was there. -/
def Leaves (o : Outside) (c : ManagedCheckout) (origin : ManagedOrigin) (token : Option String)
    (t₀ : FileTree) : Except IngestError ClonedRepo × Host → Prop
  | (.ok repo, h) => repo.path = c.root
    ∧ (∃ name, Fetched o origin token repo.commitSha (c.slot ++ [name] ++ ["checkout"])
      (h.tree.below c.root))
    ∧ ∀ p, Apart c.root p → t₀.entry p ≠ none → h.tree.below p = t₀.below p
  | (.error _, h) => (h.tree.below c.root = t₀.below c.root
      ∨ ∃ name, t₀.entry (c.slot ++ [name]) = none ∧ h.cleanup = false
        ∧ h.tree.below (c.slot ++ [name] ++ ["previous"]) = t₀.below c.root)
    ∧ ∀ p, Apart c.root p → t₀.entry p ≠ none → h.tree.below p = t₀.below p

theorem ends_cloneFrom (url : UrlCrate) : Ends (On (Untouched t₀)) (c.cloneFrom o url origin token)
    (fun repo s => Leaves o c origin token t₀ (.ok repo, s))
    fun e s => Leaves o c origin token t₀ (.error e, s) := by
  have huntouched : ∀ (e : IngestError) s, On (Untouched t₀) s →
      Leaves o c origin token t₀ (.error e, s) := by
    rintro e s rfl
    exact ⟨.inl rfl, fun p _ _ => rfl⟩
  have hlooks : ∀ {α : Type} {x : Run α}, Looks Host.kept x → Ends (On (Untouched t₀)) x
      (fun _ => On (Untouched t₀)) fun e s => Leaves o c origin token t₀ (.error e, s) :=
    fun h => h.ends.mono (fun _ hs => hs) (fun _ _ hs => hs) huntouched
  have hattempt : Ends (On (Untouched t₀)) (do
      let name ← attemptNew o c.slot 64
      (c.cloneAttempt o origin token (c.slot ++ [name])).leaving (attemptDrop o (c.slot ++ [name])))
      (fun repo s => Leaves o c origin token t₀ (.ok repo, s))
      fun e s => Leaves o c origin token t₀ (.error e, s) := by
    refine ends_bind ((ends_attemptNew 64).mono (fun _ hs => hs) (fun _ _ hs => hs.2) huntouched)
      fun name => ends_leaving (ends_cloneAttempt.mono (fun _ hs => hs) ?_ ?_)
    · rintro repo s ⟨hpath, hs⟩
      have hleft := attemptDrop_published hs
      exact ⟨hpath, ⟨name, hleft.fetched⟩, fun p => hleft.kept⟩
    · intro e s hs
      have hleft := attemptDrop_retained (o := o) hs
      exact ⟨hleft.previous.imp_right fun h => ⟨name, hleft.fresh, h⟩, fun p => hleft.kept⟩
  refine ends_bind (hlooks (looks_validateOrigin url origin)) fun _ =>
    ends_bind (hlooks (looks_validateSlot c)) fun _ =>
    ends_bind (hlooks (looks_entryExists c.root)) fun there => ?_
  cases there with
  | true => exact ends_bind (hlooks (looks_validateCheckout c.root)) fun _ => hattempt
  | false => exact hattempt

end

/-- **Cloning loses nothing.**  Whichever calls fail, `clone_from` that returns leaves a new checkout at
the root, and `clone_from` that fails leaves the previous one there, or in an attempt that is not
removed.  What else was there stays. -/
theorem clone_from_keeps_previous (o : Outside) (url : UrlCrate) (c : ManagedCheckout)
    (origin : ManagedOrigin) (token : Option String) (h : Host) :
    Leaves o c origin token h.tree (c.cloneFrom o url origin token h) := by
  have hends : Ends (On (Untouched h.tree)) (c.cloneFrom o url origin token) _ _ :=
    ends_cloneFrom url
  cases hrun : c.cloneFrom o url origin token h with
  | mk r h' =>
    cases r with
    | ok repo => exact hends.ok h repo h' rfl hrun
    | error e => exact hends.error h e h' rfl hrun

end Sources

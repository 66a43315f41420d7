/-
The enumeration of a capture (`crates/adapters-lang-ts/src/captured.rs`).

`enumerate_paths` lists the sources a capture takes by a walk of its own.  It meets the entries
of a directory in the order of the system, keeps to limits, and fails on a symbolic link that
the ordinary walk (`source_walk::files`) passes over.  The names in a directory are different,
and one is looked up exactly.

* `found_relisted` — the order of the entries changes the order of what a walk finds, no more;
* `visit_found` — an enumeration that succeeds has the sources among what the walk finds;
* `enumeratePaths_collected` — in the end it is the list of the ordinary walk.
-/
import Cartograph.LangTs.Relative
import Cartograph.SourceCapture.Capture
import Cartograph.SourceWalk.Walk

namespace SourceWalk

open Checked

variable {γ : Type}

/-! ### What a walk finds -/

namespace Walk

variable (w : Walk γ)

mutual

/-- The files below a directory, in the order of its entries. -/
def found (relDir : String) (parent : List γ) : Listing → Except String (List WalkedFile)
  | .unreadable error => .error error
  | .entries items => do
    let rules ← w.rules relDir parent items
    foundItems relDir rules items

def foundItems (relDir : String) (rules : List γ) : Items → Except String (List WalkedFile)
  | .nil => .ok []
  | .cons name item rest => do
    let own ← foundItem relDir rules name item
    let others ← foundItems relDir rules rest
    return own ++ others

def foundItem (relDir : String) (rules : List γ) (name : String) :
    Item → Except String (List WalkedFile)
  | .unknown error => .error error
  | .symlink => .ok []
  | .special => .ok []
  | .file =>
    .ok (if w.ignore.isIgnored rules (child relDir name) false then []
      else [⟨child relDir name, name⟩])
  | .dir listing =>
    if w.skipDir name || w.ignore.isIgnored rules (child relDir name) true then .ok []
    else found (child relDir name) rules listing

end

variable {w : Walk γ}

theorem foundItems_cons {relDir name : String} {rules : List γ} {item : Item} {rest : Items}
    {files : List WalkedFile} : w.foundItems relDir rules (.cons name item rest) = .ok files ↔
    ∃ own others, w.foundItem relDir rules name item = .ok own
      ∧ w.foundItems relDir rules rest = .ok others ∧ own ++ others = files := by
  rw [foundItems]
  simp only [bind_eq_ok, pure_eq_ok]
  grind

mutual

theorem visit_of_found (hw : ∀ step, w.onDir step = false) {relDir : String} {parent : List γ}
    {listing : Listing} {out files : List WalkedFile}
    (h : w.found relDir parent listing = .ok files) :
    w.visit relDir parent listing out = .ok (some (out ++ files)) := by
  match listing with
  | .unreadable error =>
    rw [found] at h
    cases h
  | .entries items =>
    rw [found] at h
    obtain ⟨rules, hrules, h⟩ := bind_eq_ok.mp h
    rw [visit, hw, if_neg Bool.false_ne_true, hrules]
    exact visitItems_of_found hw h

theorem visitItems_of_found (hw : ∀ step, w.onDir step = false) {relDir : String}
    {rules : List γ} {items : Items} {out files : List WalkedFile}
    (h : w.foundItems relDir rules items = .ok files) :
    w.visitItems relDir rules items out = .ok (some (out ++ files)) := by
  match items with
  | .nil =>
    rw [foundItems] at h
    cases h
    rw [visitItems, List.append_nil]
  | .cons name item rest =>
    obtain ⟨own, others, hown, hrest, rfl⟩ := foundItems_cons.mp h
    rw [← List.append_assoc]
    match item with
    | .unknown error =>
      rw [foundItem] at hown
      cases hown
    | .symlink | .special =>
      rw [foundItem] at hown
      cases hown
      rw [visitItems, List.append_nil]
      exact visitItems_of_found hw hrest
    | .file =>
      rw [foundItem] at hown
      cases hown
      rw [visitItems, visitItems_of_found hw hrest]
      split
      · rw [List.append_nil]
      · rfl
    | .dir listing =>
      rw [foundItem] at hown
      rw [visitItems]
      split at hown
      · next hskip =>
        cases hown
        rw [if_pos hskip, List.append_nil]
        exact visitItems_of_found hw hrest
      · next hskip =>
        rw [if_neg hskip, visit_of_found hw hown]
        exact visitItems_of_found hw hrest

end

end Walk

/-! ### The order of entries -/

/-- The same entries in another order, in a directory or in those below it. -/
inductive Items.Relisted : Items → Items → Prop
  | refl (items : Items) : Relisted items items
  | tail {name : String} {item : Item} {rest rest' : Items} (h : Relisted rest rest') :
      Relisted (.cons name item rest) (.cons name item rest')
  | inside {name : String} {items items' rest : Items} (h : Relisted items items') :
      Relisted (.cons name (.dir (.entries items)) rest) (.cons name (.dir (.entries items')) rest)
  | swap {a b : String} {item item' : Item} {rest : Items} (h : a ≠ b) :
      Relisted (.cons a item (.cons b item' rest)) (.cons b item' (.cons a item rest))
  | trans {items items' items'' : Items} (h : Relisted items items')
      (h' : Relisted items' items'') : Relisted items items''

def Listing.Relisted : Listing → Listing → Prop
  | .entries items, .entries items' => items.Relisted items'
  | listing, listing' => listing = listing'

variable {w : Walk γ} {relDir : String} {parent rules : List γ} {items items' : Items}
  {files : List WalkedFile}

theorem isFile_relisted {name : String} (h : items.Relisted items') :
    items.isFile name = items'.isFile name := by
  induction h with
  | refl items => rfl
  | tail h ih => simp only [Items.isFile, ih]
  | inside h ih => simp only [Items.isFile]
  | swap hne => simp only [Items.isFile]; grind
  | trans h h' ih ih' => exact ih.trans ih'

theorem rules_relisted (h : items.Relisted items') :
    w.rules relDir parent items = w.rules relDir parent items' := by
  rw [Walk.rules, Walk.rules, isFile_relisted h]

theorem found_relisted (h : items.Relisted items')
    (hfiles : w.foundItems relDir rules items = .ok files) :
    ∃ files', w.foundItems relDir rules items' = .ok files' ∧ files'.Perm files := by
  induction h generalizing relDir rules files with
  | refl items => exact ⟨files, hfiles, .refl files⟩
  | tail h ih =>
    obtain ⟨own, others, hown, hrest, rfl⟩ := Walk.foundItems_cons.mp hfiles
    obtain ⟨others', hrest', hperm⟩ := ih hrest
    exact ⟨_, Walk.foundItems_cons.mpr ⟨own, others', hown, hrest', rfl⟩, hperm.append_left own⟩
  | @inside name items items' rest h ih =>
    obtain ⟨own, others, hown, hrest, rfl⟩ := Walk.foundItems_cons.mp hfiles
    suffices ∃ own', w.foundItem relDir rules name (.dir (.entries items')) = .ok own'
        ∧ own'.Perm own by
      obtain ⟨own', hown', hperm⟩ := this
      exact ⟨_, Walk.foundItems_cons.mpr ⟨own', others, hown', hrest, rfl⟩,
        hperm.append_right others⟩
    rw [Walk.foundItem] at hown ⊢
    split at hown
    · next hskip => exact ⟨own, by rw [if_pos hskip, hown], .refl own⟩
    · next hskip =>
      rw [Walk.found] at hown
      obtain ⟨inner, hinner, hown⟩ := bind_eq_ok.mp hown
      obtain ⟨own', hown', hperm⟩ := ih hown
      -- the rules inside are the same, as the `.gitignore` is
      rw [if_neg hskip, Walk.found, ← rules_relisted h, hinner]
      exact ⟨own', hown', hperm⟩
  | swap hne =>
    obtain ⟨own, others, hown, hrest, rfl⟩ := Walk.foundItems_cons.mp hfiles
    obtain ⟨own', others', hown', hrest', rfl⟩ := Walk.foundItems_cons.mp hrest
    refine ⟨_, Walk.foundItems_cons.mpr ⟨own', own ++ others', hown',
      Walk.foundItems_cons.mpr ⟨own, others', hown, hrest', rfl⟩, rfl⟩, ?_⟩
    rw [← List.append_assoc, ← List.append_assoc]
    exact List.perm_append_comm.append_right others'
  | trans h h' ih ih' =>
    obtain ⟨files', hfiles', hperm⟩ := ih hfiles
    obtain ⟨files'', hfiles'', hperm'⟩ := ih' hfiles'
    exact ⟨files'', hfiles'', hperm'.trans hperm⟩

end SourceWalk

namespace LangTs

open SourceWalk SortBy Checked

variable {γ : Type}

inductive CapturedError
  | invalid (what : String)
  | limit (what : String)
  | io (error : String)
  deriving DecidableEq

def MAX_VISITED_ENTRIES : ℕ := 100000
def MAX_DIRECTORY_DEPTH : ℕ := 64

def skippedDirectory (name : String) : Bool :=
  name == "node_modules" || name == "dist" || name.toList.head? == some '.'

def supported (path : String) : Bool :=
  (SOURCE_EXTENSIONS.any fun extension => extension.isSuffixOf path.toList)
    && !".d.ts".toList.isSuffixOf path.toList

def validPath (path : String) : Bool :=
  path != "" && decide ((Json.utf8 path).length ≤ SourceCapture.MAX_PATH_BYTES)
    && (path.toList.all fun c => c != '\\' && c != ':' && c != '\x00')
    && (path.toList.splitOn '/').all SourceCapture.pathPart

/-- What an enumeration asks of the system, and its limits.  A name that is not `unicode` stands
in the tree with the text it is shown by. -/
structure Enumeration (γ : Type) where
  ignore : Ignore γ
  openIgnore : String → Except String (List UInt8)
  unicode : String → Bool
  maxEntries : ℕ := MAX_VISITED_ENTRIES
  maxDepth : ℕ := MAX_DIRECTORY_DEPTH
  maxFiles : ℕ := SourceCapture.MAX_FILES

structure Selection where
  files : List String
  visited : ℕ

/-- What is done with an entry. -/
inductive Fate
  | skip
  | enter
  | select

def Selection.take (s : Selection) (path : String) : Fate → Selection
  | .select => ⟨s.files ++ [path], s.visited⟩
  | _ => s

def isDir : Item → Bool
  | .dir _ => true
  | _ => false

def isSymlink : Item → Bool
  | .symlink => true
  | _ => false

def isFile : Item → Bool
  | .file => true
  | _ => false

namespace Enumeration

variable (e : Enumeration γ)

/-- `own_gitignore`. -/
def ownGitignore (relDir : String) (items : Items) : Except CapturedError (Option (List UInt8)) :=
  if items.isFile GITIGNORE then
    match e.openIgnore relDir with
    | .error error => .error (.io error)
    | .ok bytes =>
      match readGitignore bytes with
      | .ok bytes => .ok (some bytes)
      | .error _ => .error (.limit "ignore file bytes")
  else .ok none

/-- The branches of the loop body, for an entry whose type is known. -/
def fate (rules : List γ) (depth : ℕ) (path name : String) (kind : Item) (found : ℕ) :
    Except CapturedError Fate :=
  if (isDir kind || isSymlink kind) && skippedDirectory name && !supported name then .ok .skip
  else if e.ignore.isIgnored rules path (isDir kind) then .ok .skip
  else if isSymlink kind then .error (.invalid "symlink in selected tree")
  else if isDir kind && skippedDirectory name then .ok .skip
  else if isDir kind then
    if depth = e.maxDepth then .error (.limit "directory depth")
    else if !validPath path then .error (.invalid "directory path")
    else .ok .enter
  else if supported name then
    if !isFile kind || !validPath path then .error (.invalid "selected source path or type")
    else if found = e.maxFiles then .error (.limit "selected files")
    else .ok .select
  else .ok .skip

/-- The loop body up to its branches. -/
def examine (rules : List γ) (depth : ℕ) (path name : String) (item : Item) (s : Selection) :
    Except CapturedError Fate := do
  ensure (s.visited + 1 ≤ e.maxEntries) (.limit "visited entries")
  ensure (e.unicode path = true) (.invalid "non-UTF-8 path")
  match item with
  | .unknown error => .error (.io error)
  | kind => e.fate rules depth path name kind s.files.length

mutual

/-- `Walk::visit`. -/
def visit (relDir : String) (parent : List γ) (depth : ℕ) :
    Listing → Selection → Except CapturedError Selection
  | .unreadable error, _ => .error (.io error)
  | .entries items, s => do
    let own ← e.ownGitignore relDir items
    visitItems relDir (e.ignore.descend parent relDir own) depth items s

def visitItems (relDir : String) (rules : List γ) (depth : ℕ) :
    Items → Selection → Except CapturedError Selection
  | .nil, s => .ok s
  | .cons name item rest, s => do
    let fate ← e.examine rules depth (child relDir name) name item s
    let s ← visitItem (child relDir name) rules depth fate item ⟨s.files, s.visited + 1⟩
    visitItems relDir rules depth rest s

def visitItem (path : String) (rules : List γ) (depth : ℕ) (fate : Fate) :
    Item → Selection → Except CapturedError Selection
  | .dir listing, s =>
    match fate with
    | .enter => visit path rules (depth + 1) listing s
    | _ => .ok s
  | .file, s | .symlink, s | .special, s | .unknown _, s => .ok (s.take path fate)

end

/-- `enumerate_with_limits`. -/
def enumerateWithLimits (root : Listing) : Except CapturedError (List String) := do
  let walk ← e.visit "" [] 0 root ⟨[], 0⟩
  return sortBy id walk.files

end Enumeration

/-- `enumerate_paths`. -/
def enumeratePaths (ignore : Ignore γ) (openIgnore : String → Except String (List UInt8))
    (unicode : String → Bool) (root : Listing) : Except CapturedError (List String) :=
  Enumeration.enumerateWithLimits { ignore, openIgnore, unicode } root

/-- The walk of the ordinary extraction. -/
def sourceWalk (ignore : Ignore γ) (openIgnore : String → Except String (List UInt8)) : Walk γ where
  ignore := ignore
  openIgnore := openIgnore
  skipDir := skippedDirectory
  gitignores := .honor
  onDir _ := false

def selected (files : List WalkedFile) : List String :=
  (files.filter fun file => supported file.name).map WalkedFile.rel

/-- `collect_ts_files`. -/
def collectTsFiles (ignore : Ignore γ) (openIgnore : String → Except String (List UInt8))
    (root : Listing) : Except String (Option (List String)) :=
  (filesUntil (sourceWalk ignore openIgnore) root).map fun files => files.map selected

/-! ### One selection -/

namespace Enumeration

variable {e : Enumeration γ} {rules : List γ} {depth : ℕ} {path name : String} {s : Selection}
  {fate : Fate}

def walk (e : Enumeration γ) : Walk γ := sourceWalk e.ignore e.openIgnore

theorem rules_of_own {relDir : String} {parent : List γ} {items : Items}
    {own : Option (List UInt8)} (h : e.ownGitignore relDir items = .ok own) :
    e.walk.rules relDir parent items = .ok (e.ignore.descend parent relDir own) := by
  rw [ownGitignore] at h
  simp only [Walk.rules, walk, sourceWalk]
  split at h
  · next hfile =>
    rw [if_pos hfile]
    split at h
    · cases h
    next bytes hopen =>
    rw [hopen, ok_bind]
    split at h
    · next read hread =>
      cases h
      rw [hread]
      rfl
    · cases h
  · next hfile =>
    cases h
    rw [if_neg hfile]

theorem examine_fate {item : Item} (h : e.examine rules depth path name item s = .ok fate) :
    match item with
    | .unknown _ => False
    | .symlink => fate = .skip
    | .special => fate = .skip
    | .file => fate = if e.ignore.isIgnored rules path false then .skip
        else if supported name then .select else .skip
    | .dir _ => fate = if skippedDirectory name || e.ignore.isIgnored rules path true then .skip
        else .enter := by
  unfold examine at h
  obtain ⟨-, -, h⟩ := bind_eq_ok.mp h
  obtain ⟨-, -, h⟩ := bind_eq_ok.mp h
  cases item with
  | unknown error => cases h
  | symlink | special | file | dir listing =>
    simp only [Enumeration.fate, isDir, isSymlink, isFile] at h ⊢
    grind

mutual

variable {e : Enumeration γ}

theorem visit_found {relDir : String} {parent : List γ} {depth : ℕ} {listing : Listing}
    {s s' : Selection} (h : e.visit relDir parent depth listing s = .ok s') :
    ∃ files, e.walk.found relDir parent listing = .ok files
      ∧ s'.files = s.files ++ selected files := by
  match listing with
  | .unreadable error =>
    rw [visit] at h
    cases h
  | .entries items =>
    rw [visit] at h
    obtain ⟨own, hown, h⟩ := bind_eq_ok.mp h
    rw [Walk.found, rules_of_own hown]
    exact visitItems_found h

theorem visitItems_found {relDir : String} {rules : List γ} {depth : ℕ} {items : Items}
    {s s' : Selection} (h : e.visitItems relDir rules depth items s = .ok s') :
    ∃ files, e.walk.foundItems relDir rules items = .ok files
      ∧ s'.files = s.files ++ selected files := by
  match items with
  | .nil =>
    rw [visitItems] at h
    cases h
    exact ⟨[], by rw [Walk.foundItems], (List.append_nil _).symm⟩
  | .cons name item rest =>
    rw [visitItems] at h
    obtain ⟨fate, hfate, h⟩ := bind_eq_ok.mp h
    obtain ⟨middle, hmiddle, h⟩ := bind_eq_ok.mp h
    obtain ⟨others, hrest, hothers⟩ := visitItems_found h
    suffices ∃ own, e.walk.foundItem relDir rules name item = .ok own
        ∧ middle.files = s.files ++ selected own by
      obtain ⟨own, hown, hmid⟩ := this
      refine ⟨own ++ others, Walk.foundItems_cons.mpr ⟨own, others, hown, hrest, rfl⟩, ?_⟩
      rw [hothers, hmid, selected, selected, selected, List.filter_append, List.map_append,
        List.append_assoc]
    match item with
    | .unknown error => exact (examine_fate hfate).elim
    | .symlink | .special =>
      obtain rfl : fate = .skip := examine_fate hfate
      rw [visitItem] at hmiddle
      cases hmiddle
      exact ⟨[], by rw [Walk.foundItem], (List.append_nil _).symm⟩
    | .file =>
      have hfile : fate = if e.ignore.isIgnored rules (child relDir name) false then .skip
          else if supported name then .select else .skip := examine_fate hfate
      rw [visitItem] at hmiddle
      cases hmiddle
      refine ⟨if e.ignore.isIgnored rules (child relDir name) false then []
        else [⟨child relDir name, name⟩], by rw [Walk.foundItem]; rfl, ?_⟩
      subst hfile
      split
      · exact (List.append_nil _).symm
      · by_cases hsupported : supported name = true
        · simp [selected, Selection.take, hsupported]
        · simp [selected, Selection.take, hsupported]
    | .dir listing =>
      have hdir : fate = if skippedDirectory name
          || e.ignore.isIgnored rules (child relDir name) true then .skip else .enter :=
        examine_fate hfate
      split at hdir
      · next hskip =>
        subst hdir
        rw [visitItem] at hmiddle
        · cases hmiddle
          exact ⟨[], by rw [Walk.foundItem]; exact if_pos hskip, (List.append_nil _).symm⟩
        · exact Fate.noConfusion
      · next hskip =>
        subst hdir
        rw [visitItem] at hmiddle
        obtain ⟨own, hown, hmid⟩ := visit_found hmiddle
        exact ⟨own, by rw [Walk.foundItem, ← hown]; exact if_neg hskip, hmid⟩

end

end Enumeration

/-- An enumeration that succeeds is the list of the ordinary walk, which reads the same tree with
the entries of each directory in its own order. -/
theorem enumeratePaths_collected {ignore : Ignore γ}
    {openIgnore : String → Except String (List UInt8)} {unicode : String → Bool}
    {root listed : Listing} (hlisted : root.Relisted listed) {l : List String}
    (h : enumeratePaths ignore openIgnore unicode root = .ok l) :
    collectTsFiles ignore openIgnore listed = .ok (some l) := by
  obtain ⟨s, hvisit, hl⟩ := bind_eq_ok.mp h
  obtain ⟨files, hfiles, hs⟩ := Enumeration.visit_found hvisit
  match root, listed with
  | .unreadable error, _ =>
    rw [Walk.found] at hfiles
    cases hfiles
  | .entries items, .unreadable error => cases hlisted
  | .entries items, .entries items' =>
    rw [Walk.found] at hfiles
    obtain ⟨rules, hrules, hfiles⟩ := bind_eq_ok.mp hfiles
    obtain ⟨files', hfiles', hperm⟩ := found_relisted hlisted hfiles
    have hwalk : (sourceWalk ignore openIgnore).visit "" [] (.entries items') []
        = .ok (some ([] ++ files')) := by
      refine Walk.visit_of_found (fun step => rfl) ?_
      rw [Walk.found, ← rules_relisted hlisted]
      exact bind_eq_ok.mpr ⟨rules, hrules, hfiles'⟩
    rw [collectTsFiles, filesUntil, hwalk]
    -- both lists are in the order of the paths, and one is a permutation of the other
    have hsorted : (selected (sortBy WalkedFile.rel files')).Pairwise (· ≤ ·) :=
      List.pairwise_map.mpr ((sortBy_pairwise WalkedFile.rel files').filter _)
    have heq : selected (sortBy WalkedFile.rel files') = sortBy id s.files := by
      refine List.Perm.eq_of_pairwise (fun _ _ _ _ => le_antisymm) hsorted
        (sortBy_pairwise id s.files) ?_
      refine List.Perm.trans ?_ (sortBy_perm id s.files).symm
      rw [hs]
      exact (((sortBy_perm _ files').trans hperm).filter _).map _
    cases hl
    exact congrArg (fun l => Except.ok (some l)) heq

theorem enumeratePaths_collected_source :
    collectTsFiles ⟨fun _ _ => some (), fun _ => true, fun _ _ _ => .none⟩ (fun _ => .ok [])
      (.entries (.cons ".gitignore" .file
        (.cons "src" (.dir (.entries (.cons "a.ts" .file .nil))) .nil)))
      = .ok (some ["src/a.ts"]) := by
  have h : enumeratePaths ⟨fun _ _ => some (), fun _ => true, fun _ _ _ => .none⟩
      (fun _ => .ok []) (fun _ => true)
      (.entries (.cons "src" (.dir (.entries (.cons "a.ts" .file .nil)))
        (.cons ".gitignore" .file .nil))) = .ok ["src/a.ts"] := by
    decide
  refine enumeratePaths_collected ?_ h
  exact Items.Relisted.swap (by decide)

end LangTs

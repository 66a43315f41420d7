/-
The walk over a source tree (`crates/source-walk/src/lib.rs`).

`files_until` lists the regular files under a root.  It does not enter the directories its
caller skips, follows no symbolic link, and leaves out what the `.gitignore` files of the tree
ignore.  A hook runs before each directory is read; when it breaks there is no list at all.

The matchers of `.gitignore` files are the `ignore` crate's, and a parameter.  Names are text,
so that a file is read by its path within the root.

* `visit_listed` — what a directory adds to the list;
* `filesUntil_listed` — the files of a list, in the order of their paths.
-/
import Cartograph.Lib.SortBy

namespace SourceWalk

open SortBy

def GITIGNORE : String := ".gitignore"
def MAX_GITIGNORE_BYTES : ℕ := 1024 * 1024

/-! ### Trees -/

mutual

/-- An entry of a directory.  The type of an entry may fail to be read. -/
inductive Item
  | file
  | symlink
  | special
  | unknown (error : String)
  | dir (listing : Listing)

/-- A directory: its entries in the order of their names, or why they cannot be listed. -/
inductive Listing
  | unreadable (error : String)
  | entries (items : Items)

inductive Items
  | nil
  | cons (name : String) (item : Item) (rest : Items)

end

/-- Whether the first entry of the name is a regular file. -/
def Items.isFile (name : String) : Items → Bool
  | .nil => false
  | .cons n item rest =>
    if n = name then match item with
      | .file => true
      | _ => false
    else rest.isFile name

/-! ### Ignore rules -/

inductive Match
  | none
  | ignore
  | whitelist
  deriving DecidableEq

/-- What is used of the `ignore` crate: a matcher is built at a directory from the lines of a
`.gitignore`. -/
structure Ignore (γ : Type) where
  build : String → List UInt8 → Option γ
  isEmpty : γ → Bool
  matched : γ → String → Bool → Match

variable {γ : Type}

/-- `IgnoreRules::descend`; the rules are the matchers from the root inwards. -/
def Ignore.descend (ig : Ignore γ) (layers : List γ) (relDir : String)
    (gitignore : Option (List UInt8)) : List γ :=
  match gitignore with
  | none => layers
  | some bytes =>
    match ig.build (if relDir = "" then "." else relDir) bytes with
    | none => layers
    | some matcher => if ig.isEmpty matcher then layers else layers ++ [matcher]

/-- `IgnoreRules::is_ignored`: the innermost matcher that has an answer. -/
def Ignore.isIgnored (ig : Ignore γ) (layers : List γ) (relPath : String) (isDir : Bool) : Bool :=
  layers.reverse.findSome? (fun layer =>
    match ig.matched layer relPath isDir with
    | .ignore => some true
    | .whitelist => some false
    | .none => none) |>.getD false

inductive Gitignores
  | honor
  | disregard
  deriving DecidableEq

/-- `read_gitignore`. -/
def readGitignore (bytes : List UInt8) : Except String (List UInt8) :=
  if MAX_GITIGNORE_BYTES < bytes.length then .error "a .gitignore exceeds the supported size"
  else .ok bytes

/-! ### The walk -/

structure WalkedFile where
  rel : String
  name : String
  deriving DecidableEq

structure WalkStep where
  dir : String
  found : ℕ
  deriving DecidableEq

/-- The settings of a walk, with what the system answers to the opening of the `.gitignore` of
a directory.  `onDir` is true where the hook breaks. -/
structure Walk (γ : Type) where
  ignore : Ignore γ
  openIgnore : String → Except String (List UInt8)
  skipDir : String → Bool
  gitignores : Gitignores
  onDir : WalkStep → Bool

/-- The path of an entry of a directory. -/
def child (relDir name : String) : String := if relDir = "" then name else relDir ++ "/" ++ name

namespace Walk

variable (w : Walk γ)

/-- The rules inside a directory. -/
def rules (relDir : String) (parent : List γ) (items : Items) : Except String (List γ) :=
  match w.gitignores with
  | .disregard => .ok []
  | .honor =>
    if items.isFile GITIGNORE then do
      let bytes ← w.openIgnore relDir
      let own ← readGitignore bytes
      return w.ignore.descend parent relDir (some own)
    else .ok (w.ignore.descend parent relDir none)

mutual

/-- `Walk::visit`; nothing is found when the hook breaks. -/
def visit (relDir : String) (parent : List γ) :
    Listing → List WalkedFile → Except String (Option (List WalkedFile))
  | .unreadable error, out => if w.onDir ⟨relDir, out.length⟩ then .ok none else .error error
  | .entries items, out =>
    if w.onDir ⟨relDir, out.length⟩ then .ok none
    else match w.rules relDir parent items with
      | .error error => .error error
      | .ok rules => visitItems relDir rules items out

/-- The loop over the entries of a directory. -/
def visitItems (relDir : String) (rules : List γ) :
    Items → List WalkedFile → Except String (Option (List WalkedFile))
  | .nil, out => .ok (some out)
  | .cons _ (.unknown error) _, _ => .error error
  | .cons _ .symlink rest, out => visitItems relDir rules rest out
  | .cons _ .special rest, out => visitItems relDir rules rest out
  | .cons name .file rest, out =>
    visitItems relDir rules rest <|
      if w.ignore.isIgnored rules (child relDir name) false then out
      else out ++ [⟨child relDir name, name⟩]
  | .cons name (.dir listing) rest, out =>
    if w.skipDir name || w.ignore.isIgnored rules (child relDir name) true then
      visitItems relDir rules rest out
    else match visit (child relDir name) rules listing out with
      | .error error => .error error
      | .ok none => .ok none
      | .ok (some out) => visitItems relDir rules rest out

end

end Walk

/-- `files_until`. -/
def filesUntil (w : Walk γ) (root : Listing) : Except String (Option (List WalkedFile)) :=
  match w.visit "" [] root [] with
  | .error error => .error error
  | .ok none => .ok none
  | .ok (some out) => .ok (some (sortBy WalkedFile.rel out))

/-! ### What a walk finds -/

/-- The files of a walk in a directory with these rules: neither the file nor a directory above it
is ignored, and the directories above it are not skipped. -/
inductive Listed (w : Walk γ) : String → List γ → Items → WalkedFile → Prop
  | file {relDir name : String} {rules : List γ} {rest : Items}
      (hkept : w.ignore.isIgnored rules (child relDir name) false = false) :
      Listed w relDir rules (.cons name .file rest) ⟨child relDir name, name⟩
  | dir {relDir name : String} {rules below : List γ} {inner rest : Items} {file : WalkedFile}
      (henter : w.skipDir name = false)
      (hkept : w.ignore.isIgnored rules (child relDir name) true = false)
      (hrules : w.rules (child relDir name) rules inner = .ok below)
      (hfile : Listed w (child relDir name) below inner file) :
      Listed w relDir rules (.cons name (.dir (.entries inner)) rest) file
  | next {relDir name : String} {rules : List γ} {item : Item} {rest : Items} {file : WalkedFile}
      (hfile : Listed w relDir rules rest file) : Listed w relDir rules (.cons name item rest) file

variable {w : Walk γ}

mutual

theorem visit_listed {relDir : String} {parent : List γ} {listing : Listing}
    {out : List WalkedFile} {found : Option (List WalkedFile)}
    (h : w.visit relDir parent listing out = .ok found) :
    (found = none ∧ ∃ step, w.onDir step = true)
    ∨ ∃ items rules own, listing = .entries items ∧ w.rules relDir parent items = .ok rules
      ∧ found = some (out ++ own) ∧ ∀ file, file ∈ own ↔ Listed w relDir rules items file := by
  match listing with
  | .unreadable error =>
    rw [Walk.visit] at h
    split at h
    · next hbreak => exact .inl ⟨(Except.ok.inj h).symm, _, hbreak⟩
    · cases h
  | .entries items =>
    rw [Walk.visit] at h
    split at h
    · next hbreak => exact .inl ⟨(Except.ok.inj h).symm, _, hbreak⟩
    split at h
    · cases h
    · next rules hrules =>
      refine (visitItems_listed h).imp_right ?_
      rintro ⟨own, hfound, hown⟩
      exact ⟨items, rules, own, rfl, hrules, hfound, hown⟩

theorem visitItems_listed {relDir : String} {rules : List γ} {items : Items}
    {out : List WalkedFile} {found : Option (List WalkedFile)}
    (h : w.visitItems relDir rules items out = .ok found) :
    (found = none ∧ ∃ step, w.onDir step = true)
    ∨ ∃ own, found = some (out ++ own) ∧ ∀ file, file ∈ own ↔ Listed w relDir rules items file := by
  match items with
  | .nil =>
    rw [Walk.visitItems] at h
    cases h
    exact .inr ⟨[], by rw [List.append_nil], fun file => ⟨nofun, nofun⟩⟩
  | .cons name (.unknown error) rest =>
    rw [Walk.visitItems] at h
    cases h
  | .cons name .symlink rest | .cons name .special rest =>
    rw [Walk.visitItems] at h
    refine (visitItems_listed h).imp_right ?_
    rintro ⟨own, hfound, hown⟩
    exact ⟨own, hfound, fun file => (hown file).trans ⟨.next, fun | .next hfile => hfile⟩⟩
  | .cons name .file rest =>
    rw [Walk.visitItems] at h
    refine (visitItems_listed h).imp_right ?_
    rintro ⟨own, hfound, hown⟩
    split at hfound
    · next hignored =>
      refine ⟨own, hfound, fun file => (hown file).trans ⟨.next, ?_⟩⟩
      rintro (hkept | _ | hfile)
      · exact absurd hkept (by rw [hignored]; decide)
      · exact hfile
    · next hkept =>
      refine ⟨⟨child relDir name, name⟩ :: own, by rw [hfound, List.append_assoc]; rfl, fun file => ?_⟩
      rw [List.mem_cons, hown]
      constructor
      · rintro (rfl | hfile)
        · exact .file (Bool.eq_false_iff.mpr hkept)
        · exact hfile.next
      · rintro (- | _ | hfile)
        · exact .inl rfl
        · exact .inr hfile
  | .cons name (.dir listing) rest =>
    rw [Walk.visitItems] at h
    split at h
    · next hleft =>
      refine (visitItems_listed h).imp_right ?_
      rintro ⟨own, hfound, hown⟩
      refine ⟨own, hfound, fun file => (hown file).trans ⟨.next, ?_⟩⟩
      rintro (_ | ⟨henter, hkept, -, -⟩ | hfile)
      · exact absurd hleft (by rw [henter, hkept]; decide)
      · exact hfile
    next hentered =>
    split at h
    · cases h
    · next hstop =>
      refine .inl ⟨(Except.ok.inj h).symm, ?_⟩
      rcases visit_listed hstop with hbreak | ⟨_, _, _, -, -, hfound, -⟩
      · exact hbreak.2
      · cases hfound
    · next hinner =>
      rcases visit_listed hinner with hbreak | ⟨inner, below, own, rfl, hrules, hfound, hown⟩
      · cases hbreak.1
      cases hfound
      refine (visitItems_listed h).imp_right ?_
      rintro ⟨own', hfound, hown'⟩
      refine ⟨own ++ own', by rw [hfound, List.append_assoc], fun file => ?_⟩
      obtain ⟨henter, hkept⟩ := Bool.or_eq_false_iff.mp (Bool.eq_false_iff.mpr hentered)
      rw [List.mem_append, hown, hown']
      constructor
      · rintro (hfile | hfile)
        · exact .dir henter hkept hrules hfile
        · exact hfile.next
      · rintro (_ | ⟨-, -, hrules', hfile⟩ | hfile)
        · cases hrules.symm.trans hrules'
          exact .inl hfile
        · exact .inr hfile

end

/-- **The files of a walk.**  There is no list only where the hook breaks.  A list has the files of
the tree in the order of their paths: all those that are not ignored, in directories that are not
skipped, and no others. -/
theorem filesUntil_listed {root : Listing} {found : Option (List WalkedFile)}
    (h : filesUntil w root = .ok found) :
    (found = none ∧ ∃ step, w.onDir step = true)
    ∨ ∃ items rules files, root = .entries items ∧ w.rules "" [] items = .ok rules
      ∧ found = some files ∧ (files.Pairwise fun a b => a.rel ≤ b.rel)
      ∧ ∀ file, file ∈ files ↔ Listed w "" rules items file := by
  rw [filesUntil] at h
  split at h
  · cases h
  · next hstop =>
    rcases visit_listed hstop with hbreak | ⟨_, _, _, -, -, hfound, -⟩
    · exact .inl ⟨(Except.ok.inj h).symm, hbreak.2⟩
    · cases hfound
  · next hvisit =>
    rcases visit_listed hvisit with hbreak | ⟨items, rules, own, rfl, hrules, hown, hlisted⟩
    · cases hbreak.1
    cases hown
    cases h
    refine .inr ⟨items, rules, _, rfl, hrules, rfl, sortBy_pairwise _ _, fun file => ?_⟩
    rw [(sortBy_perm _ _).mem_iff]
    exact hlisted file

namespace Sample

/-- Ignores nothing. -/
def walk : Walk Unit where
  ignore := ⟨fun _ _ => none, fun _ => true, fun _ _ _ => .none⟩
  openIgnore _ := .error ""
  skipDir name := name == "node_modules"
  gitignores := .honor
  onDir _ := false

def items : Items :=
  .cons "a" (.dir (.entries (.cons "b.ts" .file .nil))) <|
    .cons "node_modules" (.dir (.unreadable "")) .nil

end Sample

theorem filesUntil_listed_nested : Listed Sample.walk "" [] Sample.items ⟨"a/b.ts", "b.ts"⟩ := by
  have hfiles : filesUntil Sample.walk (.entries Sample.items)
      = .ok (some [⟨"a/b.ts", "b.ts"⟩]) := by rfl
  rcases filesUntil_listed hfiles with hbreak | ⟨items, rules, files, hitems, hrules, hfound, -, hlisted⟩
  · cases hbreak.1
  cases hitems
  cases hrules
  cases hfound
  exact (hlisted _).mp (List.mem_singleton.mpr rfl)

end SourceWalk

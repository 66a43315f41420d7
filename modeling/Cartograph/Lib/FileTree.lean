/-
Trees of files.

A path is the list of the names that lead to an entry, and an entry other than the top is in a
directory.  A tree is what is at each path, so that what is below a path is a function too.

* `rename` — an entry moves with all that is below it;
* `Change` — a tree that differs from another below one path only, such as what a program leaves
  that was given a directory to work in.
-/
import Mathlib

/-- What can be at a path. -/
inductive Entry
  | file (bytes : List UInt8)
  | dir (mode : ℕ)
  | link (target : List String)
  deriving DecidableEq

structure FileTree where
  entry : List String → Option Entry
  closed : ∀ p name, entry (p ++ [name]) ≠ none → ∃ mode, entry p = some (.dir mode)

namespace FileTree

@[ext] theorem ext {t u : FileTree} (h : ∀ p, t.entry p = u.entry p) : t = u := by
  cases t
  cases u
  congr
  exact funext h

/-- What is at a path and below it. -/
def below (t : FileTree) (p : List String) : List String → Option Entry := fun q => t.entry (p ++ q)

def isDir (t : FileTree) (p : List String) : Bool :=
  match t.entry p with
  | some (.dir _) => true
  | _ => false

variable {p q : List String} {t : FileTree}

theorem isDir_iff :
    t.isDir p = true ↔ ∃ mode, t.entry p = some (.dir mode) := by
  rw [isDir]
  split
  · next mode h => exact iff_of_true rfl ⟨mode, h⟩
  · next h => exact iff_of_false (by simp) fun ⟨mode, hmode⟩ => h mode hmode

/-! ### Below a path -/

/-- Neither path is below the other. -/
def Apart (p q : List String) : Prop := ¬p <+: q ∧ ¬q <+: p

theorem apart_of_ne {a b : String} (h : a ≠ b) (q q' : List String) :
    Apart (p ++ a :: q) (p ++ b :: q') := by
  constructor
  · rintro ⟨r, hr⟩
    simp only [List.append_assoc, List.cons_append, List.append_cancel_left_eq, List.cons.injEq] at hr
    exact h hr.1
  · rintro ⟨r, hr⟩
    simp only [List.append_assoc, List.cons_append, List.append_cancel_left_eq, List.cons.injEq] at hr
    exact h hr.1.symm

theorem Apart.not_below (h : Apart p q) (r : List String) : ¬p <+: q ++ r := by
  intro hp
  rcases List.prefix_or_prefix_of_prefix hp (List.prefix_append q r) with h' | h'
  · exact h.1 h'
  · exact h.2 h'

theorem Apart.symm (h : Apart p q) : Apart q p := ⟨h.2, h.1⟩

theorem Apart.append (h : Apart p q) (r : List String) : Apart p (q ++ r) :=
  ⟨h.not_below r, fun hq => h.2 ((List.prefix_append q r).trans hq)⟩

/-- A tree that differs from `t` at `p` and below it only. -/
structure Change (t : FileTree) (p : List String) where
  tree : FileTree
  outside : ∀ q, ¬p <+: q → tree.entry q = t.entry q

theorem Change.below (c : Change t p) (h : Apart p q) :
    c.tree.below q = t.below q :=
  funext fun r => c.outside _ (h.not_below r)

/-! ### Directories -/

/-- A directory in another one. -/
def mkdir (t : FileTree) (p : List String) (name : String) (mode : ℕ) (hparent : t.isDir p = true) :
    FileTree where
  entry q := if q = p ++ [name] then some (.dir mode) else t.entry q
  closed q name' h := by
    by_cases hhere : q = p ++ [name]
    · exact ⟨mode, if_pos hhere⟩
    rw [if_neg hhere]
    by_cases hnew : q ++ [name'] = p ++ [name]
    · rw [(List.append_inj' hnew rfl).1]
      exact isDir_iff.mp hparent
    · rw [if_neg hnew] at h
      exact t.closed q name' h

variable {name : String}

theorem mkdir_entry {mode : ℕ} (hparent : t.isDir p = true) (q : List String) :
    (t.mkdir p name mode hparent).entry q
      = if q = p ++ [name] then some (.dir mode) else t.entry q := rfl

theorem below_mkdir_apart {mode : ℕ} (hparent : t.isDir p = true) (h : Apart (p ++ [name]) q) :
    (t.mkdir p name mode hparent).below q = t.below q := by
  funext r
  rw [below, mkdir_entry, if_neg, below]
  intro heq
  exact h.not_below r (heq ▸ List.prefix_refl _)

theorem entry_none_below (h : t.entry p = none) (hq : p <+: q) :
    t.entry q = none := by
  obtain ⟨r, rfl⟩ := hq
  induction r using List.reverseRecOn with
  | nil => rwa [List.append_nil]
  | append_singleton r name ih =>
    by_contra hsome
    rw [← List.append_assoc] at hsome
    obtain ⟨mode, hmode⟩ := t.closed _ _ hsome
    rw [ih] at hmode
    cases hmode

/-! ### Renaming -/

/-- Where the entry at `q` was before `source` moved to `target`; nothing is left below `source`. -/
def movedEntry (t : FileTree) (source target q : List String) : Option Entry :=
  if target <+: q then t.entry (source ++ q.drop target.length)
  else if source <+: q then none
  else t.entry q

/-- `source` moves to `target`, in the place of what is there. -/
def rename (t : FileTree) (source dir : List String) (name : String) (hdir : t.isDir dir = true)
    (hbelow : ¬source <+: dir ++ [name]) : FileTree where
  entry := t.movedEntry source (dir ++ [name])
  closed p last h := by
    have hnotdir : ¬source <+: dir := fun hd => hbelow (hd.trans (List.prefix_append dir [name]))
    rw [movedEntry] at h ⊢
    by_cases htarget : dir ++ [name] <+: p
    · have hlast : dir ++ [name] <+: p ++ [last] := htarget.trans (List.prefix_append p [last])
      obtain ⟨r, rfl⟩ := htarget
      rw [if_pos hlast, List.append_assoc, List.drop_left, ← List.append_assoc] at h
      rw [if_pos (List.prefix_append _ r), List.drop_left]
      exact t.closed _ _ h
    · rw [if_neg htarget]
      by_cases hlast : dir ++ [name] <+: p ++ [last]
      · -- the parent of the target is where it was
        have hp : p = dir := by
          rcases List.prefix_concat_iff.mp hlast with heq | hpre
          · exact (List.append_inj' heq rfl).1.symm
          · exact absurd hpre htarget
        rw [hp, if_neg hnotdir]
        exact isDir_iff.mp hdir
      · rw [if_neg hlast] at h
        split_ifs at h with hsource
        · exact absurd rfl h
        · rw [if_neg fun hp => hsource (hp.trans (List.prefix_append p [last]))]
          exact t.closed p last h

theorem rename_entry {source dir : List String} (hdir : t.isDir dir = true)
    (hbelow : ¬source <+: dir ++ [name]) (q : List String) :
    (t.rename source dir name hdir hbelow).entry q = t.movedEntry source (dir ++ [name]) q := rfl

section

variable {source dir : List String} (hdir : t.isDir dir = true) (hbelow : ¬source <+: dir ++ [name])

theorem below_rename_target :
    (t.rename source dir name hdir hbelow).below (dir ++ [name]) = t.below source := by
  funext q
  rw [below, rename_entry, movedEntry, if_pos (List.prefix_append _ q), List.drop_left, below]

theorem below_rename_apart (hsource : Apart source p) (htarget : Apart (dir ++ [name]) p) :
    (t.rename source dir name hdir hbelow).below p = t.below p := by
  funext q
  rw [below, rename_entry, movedEntry, if_neg (htarget.not_below q), if_neg (hsource.not_below q),
    below]

end

end FileTree

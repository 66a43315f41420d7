/-
Relative imports of a TypeScript source (`crates/adapters-lang-ts/src/lib.rs`).

A file guesses the target of a relative import: the path that the specifier names, with `.ts` where
it has no known extension.  Once the files of the directory are known, a target that is none of
them is tried with other extensions, as a directory, and with the sources of an emitted name.

* `candidates_head` — what is tried stands for another file than the guess;
* `trail_eq_denoted` — where the two passes try just what the specifier denotes;
* `resolved_iff` — when they resolve a specifier to what it denotes.
-/
import Mathlib

namespace LangTs

/-! ### Paths -/

/-- The components of a path, without `.`. -/
structure Components where
  absolute : Bool
  names : List (List Char)

def components (path : List Char) : Components where
  absolute := path.head? == some '/'
  names := (path.splitOn '/').filter fun name => name ≠ [] ∧ name ≠ ['.']

/-- `Path::parent`. -/
def Components.parent (c : Components) : Components where
  absolute := c.absolute && !c.names.isEmpty
  names := c.names.dropLast

def PARENT_DIR : List Char := ['.', '.']

/-- The name above is dropped by `..`; at the root it is not there to be dropped. -/
def climb (out : List (List Char)) (name : List Char) : List (List Char) :=
  if name = PARENT_DIR then out.dropLast else out ++ [name]

/-- The components of a path without `..`. -/
def Components.normal (c : Components) : Components :=
  { c with names := c.names.foldl climb [] }

def forwardSlashes (path : List Char) : List Char := path.map fun c => if c = '\\' then '/' else c

/-- A path as it is written. -/
def Components.written (c : Components) : List Char :=
  forwardSlashes ((if c.absolute then ['/'] else []) ++ ['/'].intercalate c.names)

/-- `normalize`. -/
def normalize (path : List Char) : List Char := (components path).normal.written

/-! ### Extensions -/

def SOURCE_EXTENSIONS : List (List Char) :=
  [".ts".toList, ".tsx".toList, ".js".toList, ".jsx".toList, ".mjs".toList, ".cjs".toList]

def ASSET_EXTENSIONS : List (List Char) :=
  [".css", ".scss", ".sass", ".less", ".styl", ".json", ".svg", ".png", ".jpg", ".jpeg", ".gif",
    ".webp", ".avif", ".ico", ".woff", ".woff2", ".ttf", ".otf", ".html", ".md", ".mdx", ".txt",
    ".wasm", ".vue", ".svelte", ".graphql", ".gql", ".yaml", ".yml"].map String.toList

/-- The sources that an emitted name may stand for. -/
def NODENEXT_SIBLINGS : List (List Char × List (List Char)) :=
  [(".js".toList, [".ts".toList, ".tsx".toList]), (".jsx".toList, [".tsx".toList])]

/-- The path ends with a known extension. -/
def isExplicit (path : List Char) : Bool :=
  (SOURCE_EXTENSIONS ++ ASSET_EXTENSIONS).any fun ext => ext.isSuffixOf path

/-! ### The guess -/

/-- The path of a specifier as seen from a file. -/
def joined (importer spec : List Char) : Components where
  absolute := (components importer).parent.absolute
  names := (components importer).parent.names ++ (components spec).names

/-- `resolve_relative`: none for the name of a package. -/
def resolveRelative (importer spec : List Char) : Option (List Char) :=
  if spec.head? = some '.' then
    let path := (joined importer spec).normal.written
    some (if isExplicit path then path else path ++ ".ts".toList)
  else none

/-- The names climb further up than they went down. -/
def climbsOut : ℕ → List (List Char) → Bool
  | _, [] => false
  | depth, name :: rest =>
    if name = PARENT_DIR then
      match depth with
      | 0 => true
      | up + 1 => climbsOut up rest
    else climbsOut (depth + 1) rest

/-- `escapes_root`. -/
def escapesRoot (importer spec : List Char) : Bool :=
  climbsOut (if (joined importer spec).absolute then 1 else 0) (joined importer spec).names

/-! ### The correction -/

/-- `file_id`. -/
def fileId (repo path : List Char) : List Char := "file:".toList ++ repo ++ '@' :: path

/-- The id before the first `#`, and what is after it. -/
def splitHash (id : List Char) : List Char × Option (List Char) :=
  match id.dropWhile (· ≠ '#') with
  | [] => (id, none)
  | _ :: rest => (id.takeWhile (· ≠ '#'), some rest)

/-- An id with another end of the path in front of the `#`. -/
def rebuild (stem rest : List Char) : Option (List Char) → List Char
  | none => stem ++ rest
  | some symbol => stem ++ rest ++ '#' :: symbol

/-- The sources of an emitted name, whatever the rest of the path. -/
def siblings (path : List Char) : Option (List Char × List (List Char)) :=
  NODENEXT_SIBLINGS.findSome? fun entry => (path.dropSuffix? entry.1).map fun stem => (stem, entry.2)

def otherExtensions : List (List Char) := SOURCE_EXTENSIONS.filter (· ≠ ".ts".toList)

def indexNames : List (List Char) := SOURCE_EXTENSIONS.map ("index".toList ++ ·)

/-- What is tried in place of an id that is not known. -/
def candidates (id : List Char) : List (List Char) :=
  let (head, symbol) := splitHash id
  match head.dropSuffix? ".ts".toList with
  | some stem =>
    otherExtensions.map (rebuild stem · symbol)
      ++ indexNames.map fun name => rebuild stem ('/' :: name) symbol
  | none =>
    match siblings head with
    | some (stem, exts) => exts.map (rebuild stem · symbol)
    | none => []

/-- `reconcile_guessed_extension`. -/
def reconcileGuessedExtension (known : Finset (List Char)) (id : List Char) : Option (List Char) :=
  if id ∈ known then none else (candidates id).find? (· ∈ known)

/-- The target of an import when the directory is complete. -/
def resolvedTarget (known : Finset (List Char)) (repo importer spec : List Char) :
    Option (List Char) :=
  (resolveRelative importer spec).map fun path =>
    (reconcileGuessedExtension known (fileId repo path)).getD (fileId repo path)

/-! ### What a specifier denotes -/

/-- The path that a specifier names, when it stays in the repository. -/
def namedPath (importer spec : List Char) : Option Components :=
  if spec.head? = some '.' ∧ escapesRoot importer spec = false then
    some (joined importer spec).normal
  else none

/-- The files that a path may denote, first come first served. -/
def Components.files (c : Components) : List (List Char) :=
  if isExplicit c.written then
    c.written :: match siblings c.written with
      | some (stem, exts) => exts.map (stem ++ ·)
      | none => []
  else
    (if c.names = [] then [] else SOURCE_EXTENSIONS.map (c.written ++ ·))
      ++ indexNames.map fun name => ({ c with names := c.names ++ [name] } : Components).written

/-- The ids of the files that a specifier may denote. -/
def denotedIds (repo importer spec : List Char) : List (List Char) :=
  match namedPath importer spec with
  | some c => c.files.map (fileId repo)
  | none => []

/-- The file that a specifier denotes. -/
def denotes (known : Finset (List Char)) (repo importer spec : List Char) : Option (List Char) :=
  (denotedIds repo importer spec).find? (· ∈ known)

/-- The id of the guess. -/
def guessId (repo importer spec : List Char) : List Char :=
  let path := (joined importer spec).normal.written
  fileId repo (if isExplicit path then path else path ++ ".ts".toList)

/-- What the two passes try. -/
def trail (repo importer spec : List Char) : List (List Char) :=
  guessId repo importer spec :: candidates (guessId repo importer spec)

variable {known : Finset (List Char)} {a id name : List Char}

theorem resolvedTarget_eq {repo importer spec : List Char} (h : spec.head? = some '.')
    (f : List Char) :
    (resolvedTarget known repo importer spec = some f ∧ f ∈ known)
      ↔ (trail repo importer spec).find? (· ∈ known) = some f := by
  have htarget : resolvedTarget known repo importer spec
      = some ((reconcileGuessedExtension known (guessId repo importer spec)).getD
        (guessId repo importer spec)) := by
    rw [resolvedTarget, resolveRelative, if_pos h]
    rfl
  rw [htarget, trail, reconcileGuessedExtension]
  by_cases hknown : guessId repo importer spec ∈ known
  · rw [if_pos hknown, Option.getD_none, List.find?_cons_of_pos (by simpa using hknown)]
    constructor
    · exact fun h => h.1
    · intro h
      exact ⟨h, Option.some_inj.mp h ▸ hknown⟩
  · rw [if_neg hknown, List.find?_cons_of_neg (by simpa using hknown)]
    cases hfind : (candidates (guessId repo importer spec)).find? (· ∈ known) with
    | none =>
      rw [Option.getD_none]
      constructor
      · rintro ⟨hsame, hmem⟩
        exact absurd (Option.some_inj.mp hsame ▸ hmem) hknown
      · exact fun h => absurd h (by simp)
    | some found =>
      rw [Option.getD_some]
      constructor
      · exact fun h => h.1
      · intro h
        have hmem := List.find?_some hfind
        exact ⟨h, Option.some_inj.mp h ▸ by simpa using hmem⟩

/-! ### Suffixes -/

/-- An extension has one dot, at its front. -/
def Dotted (ext : List Char) : Prop := ∃ rest, ext = '.' :: rest ∧ '.' ∉ rest

variable {ext path stem c : List Char}

theorem dotted_source (h : ext ∈ SOURCE_EXTENSIONS) : Dotted ext := by
  revert ext
  simp only [SOURCE_EXTENSIONS, List.forall_mem_cons, List.not_mem_nil, false_implies, implies_true]
  exact ⟨⟨_, rfl, by decide⟩, ⟨_, rfl, by decide⟩, ⟨_, rfl, by decide⟩, ⟨_, rfl, by decide⟩,
    ⟨_, rfl, by decide⟩, ⟨_, rfl, by decide⟩, trivial⟩

theorem eq_of_suffix {a b stem : List Char} (ha : Dotted a) (hb : Dotted b)
    (h : b.IsSuffix (stem ++ a)) : b = a := by
  obtain ⟨a', rfl, hna⟩ := ha
  obtain ⟨b', rfl, hnb⟩ := hb
  -- of two ends of one text, one is an end of the other
  rcases List.suffix_or_suffix_of_suffix h (List.suffix_append stem _) with hba | hab
  · rcases List.suffix_cons_iff.mp hba with heq | hin
    · exact heq
    · exact absurd (hin.subset List.mem_cons_self) hna
  · rcases List.suffix_cons_iff.mp hab with heq | hin
    · exact heq.symm
    · exact absurd (hin.subset List.mem_cons_self) hnb

theorem dropSuffix?_eq_some :
    path.dropSuffix? ext = some stem ↔ path = stem ++ ext := by
  rw [List.dropSuffix?_eq_some_iff]
  constructor
  · rintro ⟨ext', rfl, heq⟩
    rw [beq_iff_eq.mp heq]
  · rintro rfl
    exact ⟨ext, rfl, beq_self_eq_true ext⟩

theorem dropSuffix_dotted {b : List Char} (ha : Dotted a) (hb : Dotted b) :
    (stem ++ a).dropSuffix? b = if a = b then some stem else none := by
  split_ifs with h
  · rw [h]
    exact dropSuffix?_eq_some.mpr rfl
  · cases hdrop : (stem ++ a).dropSuffix? b with
    | none => rfl
    | some stem' =>
      have hsuffix : b.IsSuffix (stem ++ a) := ⟨stem', (dropSuffix?_eq_some.mp hdrop).symm⟩
      exact absurd (eq_of_suffix ha hb hsuffix).symm h

theorem dotted_asset (h : ext ∈ ASSET_EXTENSIONS) : Dotted ext := by
  obtain ⟨name, hname, rfl⟩ := List.mem_map.mp h
  have hfront : ∀ name ∈ [".css", ".scss", ".sass", ".less", ".styl", ".json", ".svg", ".png",
      ".jpg", ".jpeg", ".gif", ".webp", ".avif", ".ico", ".woff", ".woff2", ".ttf", ".otf",
      ".html", ".md", ".mdx", ".txt", ".wasm", ".vue", ".svelte", ".graphql", ".gql", ".yaml",
      ".yml"], name.toList.head? = some '.' ∧ '.' ∉ name.toList.tail := by
    decide
  obtain ⟨hhead, htail⟩ := hfront name hname
  obtain ⟨rest, hrest⟩ := List.head?_eq_some_iff.mp hhead
  exact ⟨rest, hrest, by rwa [hrest] at htail⟩

theorem noHash_ext (h : ext ∈ SOURCE_EXTENSIONS ++ ASSET_EXTENSIONS) :
    '#' ∉ ext := by
  revert ext
  decide

theorem dotted_ext (h : ext ∈ SOURCE_EXTENSIONS ++ ASSET_EXTENSIONS) :
    Dotted ext := by
  rcases List.mem_append.mp h with h | h
  · exact dotted_source h
  · exact dotted_asset h

theorem siblings_dotted (h : Dotted ext) : siblings (stem ++ ext)
    = (NODENEXT_SIBLINGS.find? fun entry => ext = entry.1).map fun entry => (stem, entry.2) := by
  have hjs : Dotted ".js".toList := dotted_source (by decide)
  have hjsx : Dotted ".jsx".toList := dotted_source (by decide)
  rw [siblings, NODENEXT_SIBLINGS, List.findSome?_cons, List.findSome?_cons, List.findSome?_nil,
    dropSuffix_dotted h hjs, dropSuffix_dotted h hjsx]
  by_cases h1 : ext = ['.', 'j', 's']
  · simp [h1]
  · by_cases h2 : ext = ['.', 'j', 's', 'x']
    · simp [h2]
    · simp [h1, h2]

/-! ### Ids and their `#` -/

theorem splitHash_of_notMem (h : '#' ∉ id) : splitHash id = (id, none) := by
  have hdrop : id.dropWhile (· ≠ '#') = [] :=
    List.dropWhile_eq_nil_iff.mpr fun c hc => by simpa using fun hhash : c = '#' => h (hhash ▸ hc)
  rw [splitHash, hdrop]

theorem splitHash_append {head symbol : List Char} (h : '#' ∉ head) :
    splitHash (head ++ '#' :: symbol) = (head, some symbol) := by
  have hpos : ∀ c ∈ head, (decide (c ≠ '#')) = true := fun c hc => by
    simpa using fun hhash : c = '#' => h (hhash ▸ hc)
  rw [splitHash, List.dropWhile_append_of_pos hpos, List.dropWhile_cons_of_neg (by simp),
    List.takeWhile_append_of_pos hpos, List.takeWhile_cons_of_neg (by simp), List.append_nil]

theorem splitHash_cases (id : List Char) : ∃ head, '#' ∉ head ∧
    ((splitHash id = (head, none) ∧ id = head)
      ∨ ∃ symbol, splitHash id = (head, some symbol) ∧ id = head ++ '#' :: symbol) := by
  by_cases h : '#' ∈ id
  · obtain ⟨head, symbol, rfl, hhead⟩ := List.eq_append_cons_of_mem h
    exact ⟨head, hhead, .inr ⟨symbol, splitHash_append hhead, rfl⟩⟩
  · exact ⟨id, h, .inl ⟨splitHash_of_notMem h, rfl⟩⟩

theorem splitHash_rebuild {rest : List Char} (h : '#' ∉ stem ++ rest)
    (symbol : Option (List Char)) : splitHash (rebuild stem rest symbol) = (stem ++ rest, symbol) := by
  cases symbol with
  | none => exact splitHash_of_notMem h
  | some symbol => exact splitHash_append h

theorem splitHash_head (h : '#' ∈ a) (x : List Char) :
    (splitHash (a ++ x)).1 = (splitHash a).1 := by
  obtain ⟨head, symbol, rfl, hhead⟩ := List.eq_append_cons_of_mem h
  rw [List.append_assoc, List.cons_append, splitHash_append hhead, splitHash_append hhead]

theorem candidates_head (h : c ∈ candidates id) :
    (splitHash c).1 ≠ (splitHash id).1 := by
  obtain ⟨head, hhead, hid⟩ := splitHash_cases id
  obtain ⟨symbol, hsplit⟩ : ∃ symbol, splitHash id = (head, symbol) := by
    rcases hid with ⟨h, -⟩ | ⟨symbol, h, -⟩
    · exact ⟨none, h⟩
    · exact ⟨some symbol, h⟩
  have hnew : ∀ stem ext rest, head = stem ++ ext → '#' ∉ rest → rest ≠ ext →
      c = rebuild stem rest symbol → (splitHash c).1 ≠ (splitHash id).1 := by
    rintro stem ext rest rfl hrest hne rfl
    have hstem : '#' ∉ stem ++ rest := fun hmem => by
      rcases List.mem_append.mp hmem with hmem | hmem
      · exact hhead (List.mem_append_left _ hmem)
      · exact hrest hmem
    rw [splitHash_rebuild hstem, hsplit]
    exact fun heq => hne (List.append_cancel_left heq)
  rw [candidates, hsplit] at h
  simp only at h
  cases hts : head.dropSuffix? ".ts".toList with
  | some stem =>
    rw [hts] at h
    have hsplit' := dropSuffix?_eq_some.mp hts
    rcases List.mem_append.mp h with h | h
    · obtain ⟨ext, hext, rfl⟩ := List.mem_map.mp h
      have hfree : ∀ ext ∈ otherExtensions, '#' ∉ ext ∧ ext ≠ ".ts".toList := by decide
      exact hnew stem _ ext hsplit' (hfree ext hext).1 (hfree ext hext).2 rfl
    · obtain ⟨name, hname, rfl⟩ := List.mem_map.mp h
      have hfree : ∀ name ∈ indexNames, '#' ∉ '/' :: name ∧ '/' :: name ≠ ".ts".toList := by decide
      exact hnew stem _ ('/' :: name) hsplit' (hfree name hname).1 (hfree name hname).2 rfl
  | none =>
    rw [hts] at h
    cases hsib : siblings head with
    | none =>
      rw [hsib] at h
      exact absurd h List.not_mem_nil
    | some entry =>
      rw [hsib] at h
      obtain ⟨spelled, hspelled, hstem⟩ := List.exists_of_findSome?_eq_some hsib
      obtain ⟨stem, hdrop, rfl⟩ := Option.map_eq_some_iff.mp hstem
      obtain ⟨ext, hext, rfl⟩ := List.mem_map.mp h
      have hfree : ∀ spelled ∈ NODENEXT_SIBLINGS, ∀ ext ∈ spelled.2, '#' ∉ ext ∧ ext ≠ spelled.1 := by
        decide
      exact hnew stem _ ext (dropSuffix?_eq_some.mp hdrop)
        (hfree spelled hspelled ext hext).1 (hfree spelled hspelled ext hext).2 rfl

theorem candidates_ts (h : '#' ∉ stem) : candidates (stem ++ ".ts".toList)
    = otherExtensions.map (stem ++ ·) ++ indexNames.map fun name => stem ++ '/' :: name := by
  have hts : Dotted ".ts".toList := dotted_source (by decide)
  have hid : '#' ∉ stem ++ ".ts".toList := by
    rw [List.mem_append, not_or]
    exact ⟨h, by decide⟩
  rw [candidates, splitHash_of_notMem hid]
  simp only [dropSuffix_dotted hts hts, if_true]
  rfl

theorem candidates_explicit (hext : Dotted ext) (hts : ext ≠ ".ts".toList) (h : '#' ∉ stem ++ ext) :
    candidates (stem ++ ext)
    = match siblings (stem ++ ext) with
      | some (stem, exts) => exts.map (stem ++ ·)
      | none => [] := by
  have hdotted : Dotted ".ts".toList := dotted_source (by decide)
  rw [candidates, splitHash_of_notMem h]
  simp only [dropSuffix_dotted hext hdotted, if_neg hts]
  cases siblings (stem ++ ext) with
  | none => rfl
  | some entry => rfl

/-! ### The files of a path -/

theorem fileId_append (repo a b : List Char) : fileId repo (a ++ b) = fileId repo a ++ b :=
  (List.append_assoc ("file:".toList ++ repo) ('@' :: a) b).symm

theorem explicit_split (h : isExplicit path = true) :
    ∃ stem ext, path = stem ++ ext ∧ ext ∈ SOURCE_EXTENSIONS ++ ASSET_EXTENSIONS := by
  obtain ⟨ext, hext, hsuffix⟩ := List.any_eq_true.mp h
  obtain ⟨stem, hstem⟩ := List.isSuffixOf_iff_suffix.mp hsuffix
  exact ⟨stem, ext, hstem.symm, hext⟩

theorem intercalate_snoc {sep : List Char} {names : List (List Char)} (h : names ≠ []) :
    sep.intercalate (names ++ [name]) = sep.intercalate names ++ sep ++ name := by
  induction names with
  | nil => exact absurd rfl h
  | cons a rest ih =>
    cases rest with
    | nil => simp
    | cons b rest =>
      have hstep := ih (List.cons_ne_nil b rest)
      rw [List.cons_append] at hstep
      rw [List.cons_append, List.cons_append, List.intercalate_cons_cons, hstep,
        List.intercalate_cons_cons]
      simp only [List.append_assoc]

theorem forwardSlashes_eq_self (h : '\\' ∉ path) : forwardSlashes path = path := by
  rw [forwardSlashes]
  conv_rhs => rw [← List.map_id path]
  refine List.map_congr_left fun c hc => if_neg fun hback : c = '\\' => h (hback ▸ hc)

theorem written_file (c : Components) (h : '\\' ∉ name) :
    ({ c with names := c.names ++ [name] } : Components).written
      = c.written ++ (if c.names = [] then [] else ['/']) ++ name := by
  have hname : List.map (fun c => if c = '\\' then '/' else c) name = name := forwardSlashes_eq_self h
  by_cases hnil : c.names = []
  · simp [Components.written, hnil, forwardSlashes, hname]
  · simp [Components.written, intercalate_snoc hnil, hnil, forwardSlashes, hname]

/-! ### When the passes follow the rules -/

/-- The path of a specifier, with the names above the root left out. -/
def clampedPath (importer spec : List Char) : Components := (joined importer spec).normal

/-- The specifier spells `.ts`. -/
def SpellsTs (importer spec : List Char) : Prop :=
  ".ts".toList.IsSuffix (clampedPath importer spec).written

/-- Nothing that the passes try, and nothing that the specifier may denote, is a known file. -/
def NothingKnown (known : Finset (List Char)) (repo importer spec : List Char) : Prop :=
  ∀ c ∈ trail repo importer spec ++ denotedIds repo importer spec, c ∉ known

/-- A specifier that climbs out of the repository or names its root leads to no known file; one
that spells `.ts` or whose id has a `#` either is a known file or leads to none. -/
structure Settled (known : Finset (List Char)) (repo importer spec : List Char) : Prop where
  inside : escapesRoot importer spec = true ∨ (clampedPath importer spec).names = [] →
    NothingKnown known repo importer spec
  exact : SpellsTs importer spec ∨ '#' ∈ guessId repo importer spec →
    guessId repo importer spec ∈ known ∨ NothingKnown known repo importer spec

section

variable {repo importer spec : List Char}

variable (repo importer spec) in
theorem guess_cases : ∃ stem ext, guessId repo importer spec = fileId repo stem ++ ext
    ∧ ext ∈ SOURCE_EXTENSIONS ++ ASSET_EXTENSIONS
    ∧ ((isExplicit (clampedPath importer spec).written = true
        ∧ (clampedPath importer spec).written = stem ++ ext)
      ∨ (isExplicit (clampedPath importer spec).written = false
        ∧ (clampedPath importer spec).written = stem ∧ ext = ".ts".toList)) := by
  by_cases h : isExplicit (clampedPath importer spec).written = true
  · obtain ⟨stem, ext, hpath, hext⟩ := explicit_split h
    refine ⟨stem, ext, ?_, hext, .inl ⟨h, hpath⟩⟩
    rw [← fileId_append, ← hpath]
    exact congrArg (fileId repo) (if_pos h)
  · refine ⟨(clampedPath importer spec).written, ".ts".toList, ?_, by decide,
      .inr ⟨Bool.eq_false_iff.mpr h, rfl, rfl⟩⟩
    rw [← fileId_append]
    exact congrArg (fileId repo) (if_neg h)

theorem files_explicit {c : Components} (h : isExplicit c.written = true)
    (hpath : c.written = stem ++ ext) (hext : Dotted ext) : c.files = c.written ::
      match NODENEXT_SIBLINGS.find? fun entry => ext = entry.1 with
      | some entry => entry.2.map (stem ++ ·)
      | none => [] := by
  rw [Components.files, if_pos h]
  conv_lhs => rw [hpath, siblings_dotted hext]
  rw [hpath]
  cases NODENEXT_SIBLINGS.find? fun entry => ext = entry.1 with
  | none => rfl
  | some entry => rfl

theorem files_guessed {c : Components} (h : isExplicit c.written = false) : c.files
    = (if c.names = [] then [] else SOURCE_EXTENSIONS.map (c.written ++ ·))
      ++ indexNames.map fun name => c.written ++ (if c.names = [] then [] else ['/']) ++ name := by
  rw [Components.files, if_neg (by simp [h])]
  congr 1
  have hplain : ∀ name ∈ indexNames, '\\' ∉ name := by decide
  exact List.map_congr_left fun name hname => written_file c (hplain name hname)

theorem denotedIds_inside (h : spec.head? = some '.') (hin : escapesRoot importer spec = false) :
    denotedIds repo importer spec = (clampedPath importer spec).files.map (fileId repo) := by
  rw [denotedIds, namedPath, if_pos ⟨h, hin⟩]
  rfl

theorem denotedIds_outside (h : ¬(spec.head? = some '.' ∧ escapesRoot importer spec = false)) :
    denotedIds repo importer spec = [] := by
  rw [denotedIds, namedPath, if_neg h]

theorem denotedIds_escape (h : escapesRoot importer spec = true) :
    denotedIds repo importer spec = [] :=
  denotedIds_outside fun hin => by simp [h] at hin

/-- What is in front of the extension of the guess is in front of every file that the specifier
may denote. -/
theorem denoted_stem (hguess : (isExplicit (clampedPath importer spec).written = true
        ∧ (clampedPath importer spec).written = stem ++ ext)
      ∨ (isExplicit (clampedPath importer spec).written = false
        ∧ (clampedPath importer spec).written = stem ∧ ext = ".ts".toList)) (hext : Dotted ext)
    (hc : c ∈ denotedIds repo importer spec) :
    ∃ x, c = fileId repo stem ++ x := by
  by_cases hin : spec.head? = some '.' ∧ escapesRoot importer spec = false
  · rw [denotedIds_inside hin.1 hin.2] at hc
    obtain ⟨path, hpath, rfl⟩ := List.mem_map.mp hc
    have hstem : ∃ x, path = stem ++ x := by
      rcases hguess with ⟨hexplicit, hwritten⟩ | ⟨hguessed, rfl, -⟩
      · rw [files_explicit hexplicit hwritten hext] at hpath
        rcases List.mem_cons.mp hpath with rfl | hpath
        · exact ⟨ext, hwritten⟩
        · split at hpath
          · obtain ⟨e, -, rfl⟩ := List.mem_map.mp hpath
            exact ⟨e, rfl⟩
          · exact absurd hpath List.not_mem_nil
      · rw [files_guessed hguessed] at hpath
        rcases List.mem_append.mp hpath with hpath | hpath
        · split_ifs at hpath
          · exact absurd hpath List.not_mem_nil
          · obtain ⟨e, -, rfl⟩ := List.mem_map.mp hpath
            exact ⟨e, rfl⟩
        · obtain ⟨name, -, rfl⟩ := List.mem_map.mp hpath
          exact ⟨_, List.append_assoc _ _ _⟩
    obtain ⟨x, rfl⟩ := hstem
    exact ⟨x, fileId_append repo stem x⟩
  · rw [denotedIds_outside hin] at hc
    exact absurd hc List.not_mem_nil

/-- **The rules.**  Where no exception applies, the passes try what the specifier may denote, in
the same order. -/
theorem trail_eq_denoted (h : spec.head? = some '.') (hin : escapesRoot importer spec = false)
    (hnamed : (clampedPath importer spec).names ≠ []) (hts : ¬SpellsTs importer spec)
    (hhash : '#' ∉ guessId repo importer spec) :
    trail repo importer spec = denotedIds repo importer spec := by
  obtain ⟨stem, ext, hguess, hknown, hcases⟩ := guess_cases repo importer spec
  have hext := dotted_ext hknown
  rw [trail, hguess]
  rw [hguess] at hhash
  rw [denotedIds_inside h hin]
  rcases hcases with ⟨hexplicit, hwritten⟩ | ⟨hguessed, rfl, rfl⟩
  · have hne : ext ≠ ".ts".toList := by
      rintro rfl
      exact hts ⟨stem, hwritten.symm⟩
    rw [files_explicit hexplicit hwritten hext, candidates_explicit hext hne hhash,
      siblings_dotted hext, List.map_cons, hwritten, fileId_append]
    cases NODENEXT_SIBLINGS.find? fun entry => ext = entry.1 with
    | none => rfl
    | some entry => simp [fileId_append]
  · have hstem : '#' ∉ fileId repo (clampedPath importer spec).written := fun hmem =>
      hhash (List.mem_append_left _ hmem)
    have hsource : SOURCE_EXTENSIONS = ".ts".toList :: otherExtensions := by decide
    rw [files_guessed hguessed, if_neg hnamed, if_neg hnamed, candidates_ts hstem, hsource]
    simp [fileId_append, Function.comp_def]

variable (repo) in
theorem denoted_guess (h : spec.head? = some '.') (hin : escapesRoot importer spec = false)
    (hnamed : (clampedPath importer spec).names ≠ []) :
    ∃ rest, denotedIds repo importer spec = guessId repo importer spec :: rest := by
  obtain ⟨stem, ext, hguess, hknown, hcases⟩ := guess_cases repo importer spec
  rw [denotedIds_inside h hin, hguess]
  rcases hcases with ⟨hexplicit, hwritten⟩ | ⟨hguessed, rfl, rfl⟩
  · rw [files_explicit hexplicit hwritten (dotted_ext hknown), List.map_cons, hwritten,
      fileId_append]
    exact ⟨_, rfl⟩
  · have hsource : SOURCE_EXTENSIONS = ".ts".toList :: otherExtensions := by decide
    rw [files_guessed hguessed, if_neg hnamed, hsource, List.map_cons, List.cons_append,
      List.map_cons, fileId_append]
    exact ⟨_, rfl⟩

theorem root_disjoint (hroot : (clampedPath importer spec).names = [])
    (hc : c ∈ trail repo importer spec) : c ∉ denotedIds repo importer spec := by
  intro hdenoted
  have hwritten : (clampedPath importer spec).written = [] ∨
      (clampedPath importer spec).written = ['/'] := by
    rw [Components.written, hroot]
    cases (clampedPath importer spec).absolute with
    | false => exact .inl rfl
    | true => exact .inr rfl
  have hguessed : isExplicit (clampedPath importer spec).written = false := by
    rcases hwritten with h | h
    · rw [h]
      decide
    · rw [h]
      decide
  have hguess : guessId repo importer spec
      = fileId repo (clampedPath importer spec).written ++ ".ts".toList := by
    rw [← fileId_append]
    exact congrArg (fileId repo) (if_neg (by simp [show isExplicit
      (joined importer spec).normal.written = false from hguessed]))
  -- the only files of the root are its index files
  obtain ⟨name, hname, rfl⟩ : ∃ name ∈ indexNames,
      c = fileId repo (clampedPath importer spec).written ++ name := by
    by_cases hin : spec.head? = some '.' ∧ escapesRoot importer spec = false
    · rw [denotedIds_inside hin.1 hin.2, files_guessed hguessed, if_pos hroot, if_pos hroot,
        List.nil_append] at hdenoted
      obtain ⟨path, hpath, rfl⟩ := List.mem_map.mp hdenoted
      obtain ⟨name, hname, rfl⟩ := List.mem_map.mp hpath
      exact ⟨name, hname, by rw [List.append_nil, fileId_append]⟩
    · rw [denotedIds_outside hin] at hdenoted
      exact absurd hdenoted List.not_mem_nil
  rw [trail, List.mem_cons] at hc
  rcases hc with hc | hc
  · rw [hguess] at hc
    have hfree : ∀ name ∈ indexNames, name ≠ ".ts".toList := by decide
    exact hfree name hname (List.append_cancel_left hc)
  · by_cases hhash : '#' ∈ fileId repo (clampedPath importer spec).written
    · have hhead := candidates_head hc
      rw [hguess, splitHash_head hhash, splitHash_head hhash] at hhead
      exact hhead rfl
    · rw [hguess, candidates_ts hhash] at hc
      rcases List.mem_append.mp hc with hc | hc
      · obtain ⟨ext, hext, heq⟩ := List.mem_map.mp hc
        have hfree : ∀ name ∈ indexNames, name ∉ otherExtensions := by decide
        exact hfree name hname (List.append_cancel_left heq ▸ hext)
      · obtain ⟨other, -, heq⟩ := List.mem_map.mp hc
        have hfree : ∀ name ∈ indexNames, name.head? ≠ some '/' := by decide
        exact hfree name hname (List.append_cancel_left heq ▸ rfl)

end

theorem find?_known_eq_none {l : List (List Char)} :
    l.find? (· ∈ known) = none ↔ ∀ c ∈ l, c ∉ known := by
  simp [List.find?_eq_none]

/-- **Relative imports.**  For a relative specifier, the target that an import ends up with is a
known file just when it is the file that the specifier denotes, exactly when the specifier is
settled. -/
theorem resolved_iff (known : Finset (List Char)) (repo importer spec : List Char) :
    (∀ f, (resolvedTarget known repo importer spec = some f ∧ f ∈ known)
        ↔ denotes known repo importer spec = some f)
      ↔ (spec.head? = some '.' → Settled known repo importer spec) := by
  by_cases hhead : spec.head? = some '.'
  · have hfind : (∀ f, (resolvedTarget known repo importer spec = some f ∧ f ∈ known)
        ↔ denotes known repo importer spec = some f)
        ↔ (trail repo importer spec).find? (· ∈ known)
          = (denotedIds repo importer spec).find? (· ∈ known) := by
      rw [Option.ext_iff]
      exact forall_congr' fun f => by rw [resolvedTarget_eq hhead, denotes]
    have hnothing : (trail repo importer spec).find? (· ∈ known) = none →
        (denotedIds repo importer spec).find? (· ∈ known) = none →
        NothingKnown known repo importer spec := by
      intro ht hd c hc
      rcases List.mem_append.mp hc with hc | hc
      · exact find?_known_eq_none.mp ht c hc
      · exact find?_known_eq_none.mp hd c hc
    have hboth : NothingKnown known repo importer spec →
        (trail repo importer spec).find? (· ∈ known)
          = (denotedIds repo importer spec).find? (· ∈ known) := by
      intro h
      rw [find?_known_eq_none.mpr fun c hc => h c (List.mem_append_left _ hc),
        find?_known_eq_none.mpr fun c hc => h c (List.mem_append_right _ hc)]
    rw [hfind, forall_prop_of_true hhead]
    constructor
    · intro heq
      -- a file that both find is in both lists
      have hnone : (∀ f ∈ trail repo importer spec, f ∈ known → f ∉ denotedIds repo importer spec) →
          NothingKnown known repo importer spec := by
        intro hdisjoint
        have ht : (trail repo importer spec).find? (· ∈ known) = none := by
          cases hf : (trail repo importer spec).find? (· ∈ known) with
          | none => rfl
          | some f =>
            have hmem := List.mem_of_find?_eq_some hf
            have hknown : f ∈ known := by simpa using List.find?_some hf
            rw [hf] at heq
            exact absurd (List.mem_of_find?_eq_some heq.symm) (hdisjoint f hmem hknown)
        exact hnothing ht (heq ▸ ht)
      refine ⟨fun hout => hnone fun f hf _ hdenoted => ?_, fun hexact => ?_⟩
      · rcases hout with hescape | hroot
        · rw [denotedIds_escape hescape] at hdenoted
          exact List.not_mem_nil hdenoted
        · exact root_disjoint hroot hf hdenoted
      · by_cases hguessKnown : guessId repo importer spec ∈ known
        · exact .inl hguessKnown
        refine .inr (hnone fun f hf hknown hdenoted => ?_)
        have hcandidate : f ∈ candidates (guessId repo importer spec) := by
          rcases List.mem_cons.mp hf with rfl | hf
          · exact absurd hknown hguessKnown
          · exact hf
        obtain ⟨stem, ext, hguess, hext, hcases⟩ := guess_cases repo importer spec
        by_cases hhash : '#' ∈ guessId repo importer spec
        · -- a `#` stands in front of the extension, where the candidates differ
          have hstem : '#' ∈ fileId repo stem := by
            rw [hguess] at hhash
            exact (List.mem_append.mp hhash).resolve_right (noHash_ext hext)
          obtain ⟨x, rfl⟩ := denoted_stem hcases (dotted_ext hext) hdenoted
          have hne := candidates_head hcandidate
          rw [hguess, splitHash_head hstem, splitHash_head hstem] at hne
          exact hne rfl
        · -- a path that spells `.ts` denotes nothing but itself
          have hspells := hexact.resolve_right hhash
          have hexplicit : isExplicit (clampedPath importer spec).written = true :=
            List.any_eq_true.mpr ⟨".ts".toList, by decide, List.isSuffixOf_iff_suffix.mpr hspells⟩
          obtain ⟨-, hwritten⟩ := hcases.resolve_right fun h => by
            rw [hexplicit] at h
            exact absurd h.1 (by decide)
          have hts : ".ts".toList = ext := by
            refine @eq_of_suffix _ _ stem (dotted_ext hext) (dotted_source (by decide)) ?_
            rw [← hwritten]
            exact hspells
          subst hts
          cases hescape : escapesRoot importer spec with
          | true =>
            rw [denotedIds_escape hescape] at hdenoted
            exact List.not_mem_nil hdenoted
          | false =>
            rw [denotedIds_inside hhead hescape, files_explicit hexplicit hwritten (dotted_ext hext)]
              at hdenoted
            have hnosibling : (NODENEXT_SIBLINGS.find? fun entry => ".ts".toList = entry.1) = none := by
              decide
            rw [hnosibling, List.map_singleton, List.mem_singleton, hwritten, fileId_append,
              ← hguess] at hdenoted
            exact hguessKnown (hdenoted ▸ hknown)
    · rintro ⟨hinside, hexact⟩
      by_cases hout : escapesRoot importer spec = true ∨ (clampedPath importer spec).names = []
      · exact hboth (hinside hout)
      obtain ⟨hescape, hnamed⟩ := not_or.mp hout
      have hin := Bool.eq_false_iff.mpr hescape
      by_cases hodd : SpellsTs importer spec ∨ '#' ∈ guessId repo importer spec
      · rcases hexact hodd with hknown | hnone
        · obtain ⟨rest, hrest⟩ := denoted_guess repo hhead hin hnamed
          rw [hrest, trail, List.find?_cons_of_pos (by simpa using hknown),
            List.find?_cons_of_pos (by simpa using hknown)]
        · exact hboth hnone
      · obtain ⟨hts, hhash⟩ := not_or.mp hodd
        rw [trail_eq_denoted hhead hin hnamed hts hhash]
  · have htarget : resolvedTarget known repo importer spec = none := by
      rw [resolvedTarget, resolveRelative, if_neg hhead]
      rfl
    have hdenotes : denotes known repo importer spec = none := by
      rw [denotes, denotedIds_outside fun hin => hhead hin.1]
      rfl
    simp [htarget, hdenotes, hhead]

/-- `../a` in a file of the root directory is taken for `a.ts` there. -/
theorem escaping_import_resolved : ¬∀ (known : Finset (List Char))
    (repo importer spec f : List Char),
    (resolvedTarget known repo importer spec = some f ∧ f ∈ known)
      ↔ denotes known repo importer spec = some f := by
  intro hall
  have hclamped := hall {"file:o/r@a.ts".toList} "o/r".toList "m.ts".toList "../a".toList
    "file:o/r@a.ts".toList
  revert hclamped
  decide +kernel

end LangTs

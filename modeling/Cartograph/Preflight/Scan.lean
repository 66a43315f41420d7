/-
The preflight scan (`crates/ingest/src/preflight.rs`).

`preflight_scan` walks a source tree, counts its languages, and looks for risky constructs in
the text of its scripts, one line at a time.  It cannot prove what an `eval(` is given; the
claims of an adapter, which parsed the sources, refine the hits of the text.  With a capture,
a script is scanned from the bytes its claims were proven on, and a member of the capture that
the walk no longer reaches is scanned as well.

Findings are pushed on two lanes, here on one list in the order of the pushes, each with its
lane.  The toolchain registry is a parameter (`detect`).

* `mem_scanned_iff` — the `inline-eval` findings of a scan are those of the scripts it reads;
* `preflightScan_detectors` — a finding names the detector of the scan.
-/
import Cartograph.Lib.Table
import Cartograph.SourceWalk.Walk
import Cartograph.Sources.Origin
import Cartograph.Preflight.Runs

namespace Preflight.Scan

open SortBy SourceWalk

/-! ### Adapters -/

def SKIP_DIRS : List String :=
  ["node_modules", ".git", "target", "dist", "build", ".venv", ".cartograph"]

def skipDir (name : String) : Bool := SKIP_DIRS.contains name

/-- `AdapterInfo`, less what it says of its coverage. -/
structure AdapterInfo where
  id : String
  language : String
  extensions : List String

def INSTALLED_ADAPTERS : List AdapterInfo :=
  [⟨"t0.adapter-ts", "TypeScript", ["ts", "tsx"]⟩,
    ⟨"t0.adapter-ts", "JavaScript", ["js", "jsx", "mjs", "cjs"]⟩,
    ⟨"t0.webextension", "WebExtension", []⟩,
    ⟨"t0.adapter-python", "Python", ["py"]⟩,
    ⟨"t0.adapter-go", "Go", ["go"]⟩,
    ⟨"t0.adapter-java", "Java", ["java"]⟩,
    ⟨"t0.adapter-kotlin", "Kotlin", ["kt", "kts"]⟩,
    ⟨"t0.iac-terraform", "Terraform", ["tf"]⟩]

structure PlannedAdapter where
  language : String
  extensions : List String

def PLANNED_ADAPTERS : List PlannedAdapter :=
  [⟨"C", ["c", "h"]⟩, ⟨"C++", ["cc", "cpp", "cxx", "hpp", "hh"]⟩, ⟨"Swift", ["swift"]⟩,
    ⟨"Objective-C", ["m", "mm"]⟩]

/-- The language of an extension, and the adapter that covers it. -/
def adapterFor (extension : String) : Option (String × String) :=
  (INSTALLED_ADAPTERS.find? fun a => a.extensions.contains extension).map fun a => (a.language, a.id)

/-- A language that can be named, and no adapter covers. -/
def uncoveredLanguage (extension : String) : Option String :=
  match PLANNED_ADAPTERS.find? fun p => p.extensions.contains extension with
  | some planned => some planned.language
  | none =>
    match extension with
    | "rb" => some "Ruby"
    | "cs" => some "C#"
    | "php" => some "PHP"
    | "rs" => some "Rust"
    | "wasm" => some "WebAssembly"
    | _ => none

def plannedAdapterFor (language : String) : Bool :=
  PLANNED_ADAPTERS.any fun p => p.language == language

structure PluginCoverage where
  pluginId : String
  extensions : List String

/-! ### Claims of the adapter -/

inductive EvalProof
  | covered
  | constUnproven
  | dynamic
  deriving DecidableEq

structure EvalSiteCoverage where
  path : String
  line : ℕ
  proof : EvalProof
  deriving DecidableEq

inductive EvalProofSource
  | pendingRecovery
  | claims (sites : List EvalSiteCoverage)
  | captured (paths : List String) (sites : List EvalSiteCoverage)
      (bytes : String → Option (List UInt8))

namespace EvalProofSource

/-- `EvalProofSource::claims`. -/
def claimed : EvalProofSource → Option (List EvalSiteCoverage)
  | pendingRecovery => none
  | claims sites => some sites
  | captured _ sites _ => some sites

/-- The members of the capture. -/
def members : EvalProofSource → List String
  | captured paths _ _ => paths
  | _ => []

/-- The retained bytes of a file. -/
def retained : EvalProofSource → String → Option (List UInt8)
  | captured _ _ bytes, rel => bytes rel
  | _, _ => none

end EvalProofSource

/-! ### Findings -/

structure PatternFinding where
  kind : String
  path : String
  line : ℕ
  message : String
  detector : String
  requestAdapter : Option String
  deriving DecidableEq

inductive Lane
  | unsupported
  | potentialGap
  deriving DecidableEq

/-- A finding, and where it is pushed. -/
abbrev Pushed : Type := Lane × PatternFinding

def finding (kind path : String) (line : ℕ) (message : String) : PatternFinding :=
  ⟨kind, path, line, message, DETECTOR_ID, none⟩

/-! ### Text -/

/-- The text of bytes that are UTF-8. -/
def utf8 (bytes : List UInt8) : Option (List Char) :=
  (String.fromUTF8? ⟨bytes.toArray⟩).map String.toList

/-- A line that was ended, without its end. -/
def stripReturn (line : List Char) : List Char :=
  if line.getLast? = some '\r' then line.dropLast else line

/-- `str::lines`: what follows the last line break is a line when there is something. -/
def lines (text : List Char) : List (List Char) :=
  let parts := text.splitOn '\n'
  parts.dropLast.map stripReturn ++ parts.getLast?.toList.filter fun part => part != []

/-- The lines of a text with their numbers, from one. -/
def numbered (text : List Char) : List (ℕ × List Char) :=
  (lines text).zipIdx.map fun l => (l.2 + 1, l.1)

def contains (needle : String) (line : List Char) : Bool := decide (needle.toList <:+: line)

/-- What follows the first occurrence in a line. -/
def following (needle : List Char) : List Char → Option (List Char)
  | [] => if needle = [] then some [] else none
  | c :: rest =>
    if needle.isPrefixOf (c :: rest) then some ((c :: rest).drop needle.length)
    else following needle rest

/-- A line with a textual hit. -/
def textualHit (line : List Char) : Bool := contains "eval(" line || contains "new Function(" line

/-! ### The scan of a source -/

/-- The claims at a line. -/
def claimsAt (sites : List EvalSiteCoverage) (rel : String) (line : ℕ) : List EvalProof :=
  (sites.filter fun claim => claim.path == rel && claim.line == line).map EvalSiteCoverage.proof

def pendingMessage (hasEval : Bool) : String :=
  if hasEval then
    "inline eval() — pending AST proof at recovery: closes if its "
      ++ "argument proves to a literal, becomes a potential Gap if "
      ++ "const-shaped but unproven, otherwise stays Unsupported"
  else
    "new Function() — pending AST proof at recovery: closes if its "
      ++ "body proves to a literal, becomes a potential Gap if "
      ++ "const-shaped but unproven, otherwise stays Unsupported"

def dynamicMessage (hasEval : Bool) : String :=
  if hasEval then
    "inline eval() — no adapter can extract facts from dynamically evaluated code"
  else "new Function() — no adapter can extract facts from dynamically constructed code"

/-- The lane of a hit, from the claims at its line. -/
def laneOf (claims : List EvalProof) : Option Lane :=
  if claims = [] ∨ .dynamic ∈ claims then some .unsupported
  else if .constUnproven ∈ claims then some .potentialGap
  else none

def evalMessage (hasEval : Bool) : Lane → String
  | .unsupported => dynamicMessage hasEval
  | .potentialGap =>
    "a const-shaped eval()/new Function() argument the "
      ++ "adapter could not prove to a literal — recovery records "
      ++ "it as an explicit Gap owned by its enclosing symbol, or by "
      ++ "its File at top level"

/-- The `inline-eval` finding of a line. -/
def inlineEval (eval : EvalProofSource) (rel : String) (lineNo : ℕ) (line : List Char) :
    List Pushed :=
  let hasEval := contains "eval(" line
  if hasEval || contains "new Function(" line then
    match eval.claimed with
    | none => [(.unsupported, finding "inline-eval" rel lineNo (pendingMessage hasEval))]
    | some sites =>
      (laneOf (claimsAt sites rel lineNo)).toList.map fun lane =>
        (lane, finding "inline-eval" rel lineNo (evalMessage hasEval lane))
  else []

/-- The other detectors of a line. -/
def otherFindings (rel : String) (lineNo : ℕ) (line : List Char) : List Pushed :=
  (if contains "WebAssembly.instantiate" line then
    [(.unsupported, finding "wasm-module" rel lineNo
      "WebAssembly module instantiation — no adapter covers WASM")] else [])
  ++ (if contains "executeScript" line then
    [(.potentialGap, finding "dynamic-injection" rel lineNo
      ("dynamically injected script body — becomes an explicit Gap "
        ++ "if recovery cannot resolve the injected function statically"))]
    else [])
  -- an import that is not given a string
  ++ match following "import(".toList line with
    | none => []
    | some after =>
      if ((after.dropWhile Sources.isWhitespace).head?.any fun c => "'\"`".toList.contains c) then []
      else [(.potentialGap, finding "computed-import" rel lineNo
        ("dynamic import with a runtime-computed specifier — "
          ++ "becomes an explicit Gap if unresolvable"))]

/-- What the toolchain registry detects in one file. -/
structure DetectedTool where
  display : String
  settingsBehindCode : Bool

structure Detection where
  frameworkLabels : List String
  tools : List DetectedTool

/-- The tree at the root of a scan: how its directories list, and what its files read as. -/
structure SourceTree (γ : Type) where
  ignore : Ignore γ
  listing : Listing
  openIgnore : String → Except String (List UInt8)
  read : String → Option (List UInt8)
  detect : String → String → Detection

variable {γ : Type} (tree : SourceTree γ) (eval : EvalProofSource)

/-- The text a source is scanned from: its captured bytes when there are some. -/
def sourceText (rel : String) : Option (List Char) :=
  match eval.retained rel with
  | some bytes => utf8 bytes
  | none => (tree.read rel).bind utf8

def scanSource (rel : String) : List Pushed :=
  match sourceText tree eval rel with
  | none => []
  | some text => (numbered text).flatMap fun l =>
      inlineEval eval rel l.1 l.2 ++ otherFindings rel l.1 l.2

/-! ### Languages -/

structure LanguageDetection where
  language : String
  files : ℕ
  adapter : Option String
  deriving DecidableEq

/-- What a scan has gathered; `walked` are the scripts of the walk. -/
structure Progress where
  languages : Table String LanguageDetection
  frameworks : List String
  pushed : List Pushed
  walked : List String

/-- A source file of a language; the adapter is that of its first file. -/
def Progress.count (p : Progress) (language : String) (adapter : Option String) : Progress :=
  let entry := (p.languages.find? language).getD ⟨language, 0, adapter⟩
  { p with languages := p.languages.put language { entry with files := entry.files + 1 } }

def uncoveredMessage (language : String) : String :=
  if plannedAdapterFor language then
    language ++ " sources present but no adapter covers them — "
      ++ "a tool limitation, not a System Gap. A " ++ language ++ " adapter "
      ++ "is a known adapter type: request it from Settings → Adapters"
  else
    language ++ " sources present but no adapter covers them — "
      ++ "a tool limitation, not a System Gap"

/-- `detect_language`: the first file of a language that is not covered is a finding. -/
def Progress.detectLanguage (plugins : List PluginCoverage) (extension rel : String)
    (p : Progress) : Progress :=
  match adapterFor extension with
  | some (language, adapter) => p.count language (some adapter)
  | none =>
    match plugins.find? fun plugin => plugin.extensions.contains extension with
    | some plugin =>
      p.count ((uncoveredLanguage extension).getD ("." ++ extension)) (some plugin.pluginId)
    | none =>
      match uncoveredLanguage extension with
      | none => p
      | some language =>
        let p := p.count language none
        if (p.languages.find? language).map LanguageDetection.files = some 1 then
          { p with pushed := p.pushed ++ [(.unsupported, ⟨"uncovered-language", rel, 1,
              uncoveredMessage language, DETECTOR_ID, some language⟩)] }
        else p

/-! ### Paths -/

/-- `Path::extension` of a file name: what follows its last dot, which is not its first
character. -/
def extensionOf (name : String) : Option String :=
  let reversed := name.toList.reverse
  match reversed.dropWhile (· ≠ '.') with
  | _ :: _ :: _ =>
    if name = ".." then none else some (String.ofList (reversed.takeWhile (· ≠ '.')).reverse)
  | _ => none

def isScript (extension : String) : Bool :=
  ["ts", "tsx", "js", "jsx", "mjs", "cjs"].contains extension

def components (rel : String) : List String :=
  (rel.toList.splitOn '/').map String.ofList |>.filter fun part => part != "" && part != "."

def isScriptName (name : String) : Bool := (extensionOf name).any isScript

/-- The extension of a member. -/
def memberExtension (rel : String) : Option String :=
  (components rel).getLast?.bind extensionOf

/-- A member that is scanned: a script, in no directory that is skipped. -/
def scansMember (rel : String) : Bool :=
  (memberExtension rel).any isScript && !(components rel).dropLast.any skipDir

/-! ### The scan of a tree -/

structure ScanStep where
  path : String
  done : ℕ
  total : Option ℕ
  deriving DecidableEq

structure Report where
  languages : List LanguageDetection
  frameworks : List String
  unsupported : List PatternFinding
  potentialGaps : List PatternFinding
  detector : String
  deriving DecidableEq

def behindCode (rel : String) (tools : List DetectedTool) : List Pushed :=
  (tools.filter DetectedTool.settingsBehindCode).map fun tool =>
    (.unsupported, finding "config-behind-code" rel 1
      (tool.display ++ " is authored in code — detected by presence; its "
        ++ "settings are not evaluated and stay uncited"))

variable (plugins : List PluginCoverage)

/-- The scan of a file of the walk. -/
def scanFile (p : Progress) (file : WalkedFile) : Progress :=
  let detection := tree.detect file.name file.rel
  let p := { p with
    frameworks := p.frameworks ++ detection.frameworkLabels
    pushed := p.pushed ++ behindCode file.rel detection.tools }
  match extensionOf file.name with
  | none => p
  | some extension =>
    let p := if isScript extension then
      { p with
        pushed := p.pushed ++ scanSource tree eval file.rel
        walked := p.walked ++ [file.rel] }
      else p
    p.detectLanguage plugins extension file.rel

/-- The loop over the files; nothing is left of a scan that its hook stops. -/
def scanFiles (onFile : ScanStep → Bool) (total : ℕ) :
    ℕ → List WalkedFile → Progress → Option Progress
  | _, [], p => some p
  | done, file :: rest, p =>
    if onFile ⟨file.rel, done, some total⟩ then none
    else scanFiles onFile total (done + 1) rest (scanFile tree eval plugins p file)

/-- The scan of a member that the walk did not reach. -/
def scanMember (p : Progress) (rel : String) : Progress :=
  if scansMember rel then
    { p with pushed := p.pushed ++ scanSource tree eval rel }.detectLanguage plugins
      ((memberExtension rel).getD "") rel
  else p

/-- The walk of a scan. -/
def walkOf (onFile : ScanStep → Bool) : Walk γ where
  ignore := tree.ignore
  openIgnore := tree.openIgnore
  skipDir := skipDir
  gitignores := .honor
  onDir step := onFile ⟨step.dir, step.found, none⟩

def laneFindings (lane : Lane) (pushed : List Pushed) : List PatternFinding :=
  (pushed.filter fun f => f.1 = lane).map Prod.snd

def Progress.report (p : Progress) : Report where
  languages := p.languages.rows.map Prod.snd
  frameworks := distinct id (sortBy id p.frameworks)
  unsupported := laneFindings .unsupported p.pushed
  potentialGaps := laneFindings .potentialGap p.pushed
  detector := DETECTOR_ID

/-- The members are those the walk did not scan. -/
def scanMembers (p : Progress) : Progress :=
  (eval.members.filter fun rel => !p.walked.contains rel).foldl (scanMember tree eval plugins) p

def Progress.start : Progress := ⟨.empty, [], [], []⟩

/-- `preflight_scan`; there is no report when the hook breaks. -/
def preflightScan (onFile : ScanStep → Bool) : Except String (Option Report) :=
  match filesUntil (walkOf tree onFile) tree.listing with
  | .error error => .error error
  | .ok none => .ok none
  | .ok (some files) =>
    .ok ((scanFiles tree eval plugins onFile files.length 0 files .start).map fun p =>
      (scanMembers tree eval plugins p).report)

/-! ### The findings of a source -/

variable {tree eval plugins}

variable {rel : String} {p : Progress} {onFile : ScanStep → Bool} {files : List WalkedFile}
  {report : Report}

variable {n total : ℕ} {line : List Char} {x : Pushed} {p' : Progress} {lane : Lane}
  {f : PatternFinding}

theorem otherFindings_eq :
    ∀ x ∈ otherFindings rel n line,
      ∃ kind message, kind ≠ "inline-eval" ∧ x.2 = finding kind rel n message := by
  intro x hx
  rw [otherFindings, List.mem_append, List.mem_append, List.mem_ite_nil_right,
    List.mem_ite_nil_right] at hx
  rcases hx with (⟨-, hx⟩ | ⟨-, hx⟩) | hx
  · rw [List.mem_singleton.mp hx]
    exact ⟨_, _, by decide, rfl⟩
  · rw [List.mem_singleton.mp hx]
    exact ⟨_, _, by decide, rfl⟩
  · split at hx
    · cases hx
    rw [List.mem_ite_nil_left] at hx
    rw [List.mem_singleton.mp hx.2]
    exact ⟨_, _, by decide, rfl⟩

theorem mem_scanSource (hx : x.2.kind = "inline-eval") :
    x ∈ scanSource tree eval rel ↔ ∃ text, sourceText tree eval rel = some text
      ∧ ∃ l ∈ numbered text, x ∈ inlineEval eval rel l.1 l.2 := by
  rw [scanSource]
  cases htext : sourceText tree eval rel with
  | none => simp
  | some text =>
    rw [List.mem_flatMap]
    constructor
    · rintro ⟨l, hl, hmem⟩
      rcases List.mem_append.mp hmem with hmem | hmem
      · exact ⟨text, rfl, l, hl, hmem⟩
      · obtain ⟨kind, message, hkind, hfinding⟩ := otherFindings_eq x hmem
        rw [hfinding] at hx
        exact absurd hx hkind
    · rintro ⟨text', htext', l, hl, hmem⟩
      obtain rfl := Option.some.inj htext'
      exact ⟨l, hl, List.mem_append_left _ hmem⟩

theorem mem_inlineEval {sites : List EvalSiteCoverage} (hsites : eval.claimed = some sites) :
    x ∈ inlineEval eval rel n line ↔ textualHit line = true
      ∧ laneOf (claimsAt sites rel n) = some x.1
      ∧ x.2 = finding "inline-eval" rel n (evalMessage (contains "eval(" line) x.1) := by
  rw [inlineEval, hsites]
  show x ∈ (if textualHit line = true then _ else []) ↔ _
  split_ifs with hhit
  · rw [List.mem_map]
    constructor
    · rintro ⟨lane, hlane, rfl⟩
      exact ⟨hhit, Option.mem_toList.mp hlane, rfl⟩
    · rintro ⟨-, hlane, hfinding⟩
      exact ⟨x.1, Option.mem_toList.mpr hlane, Prod.ext rfl hfinding.symm⟩
  · exact ⟨fun hmem => absurd hmem List.not_mem_nil, fun h => absurd h.1 hhit⟩

/-! ### What a step of a scan pushes -/

/-- From one state to a later one, findings of this detector are pushed, and of those of kind
`inline-eval` just the ones of the sources. -/
def Adds (p p' : Progress) (sources : List Pushed) : Prop :=
  ∃ added, p'.pushed = p.pushed ++ added ∧ (∀ x ∈ added, x.2.detector = DETECTOR_ID)
    ∧ ∀ x : Pushed, x.2.kind = "inline-eval" → (x ∈ added ↔ x ∈ sources)

theorem Adds.refl (p : Progress) : Adds p p [] :=
  ⟨[], (List.append_nil _).symm, fun _ hx => absurd hx List.not_mem_nil, fun _ _ => Iff.rfl⟩

theorem Adds.trans {p'' : Progress} {sources sources' : List Pushed} (h : Adds p p' sources)
    (h' : Adds p' p'' sources') : Adds p p'' (sources ++ sources') := by
  obtain ⟨added, hpushed, hdetector, hmem⟩ := h
  obtain ⟨added', hpushed', hdetector', hmem'⟩ := h'
  refine ⟨added ++ added', ?_, ?_, ?_⟩
  · rw [hpushed', hpushed, List.append_assoc]
  · intro x hx
    exact (List.mem_append.mp hx).elim (hdetector x) (hdetector' x)
  · intro x hx
    rw [List.mem_append, List.mem_append, hmem x hx, hmem' x hx]

theorem scanSource_detector :
    ∀ x ∈ scanSource tree eval rel, x.2.detector = DETECTOR_ID := by
  intro x hx
  rw [scanSource] at hx
  split at hx
  · cases hx
  obtain ⟨l, -, hl⟩ := List.mem_flatMap.mp hx
  rcases List.mem_append.mp hl with hl | hl
  · -- an `inline-eval` finding, with claims or before them
    rw [inlineEval] at hl
    split at hl
    · split at hl
      · rw [List.mem_singleton.mp hl, finding]
      · obtain ⟨lane, -, rfl⟩ := List.mem_map.mp hl
        rfl
    · cases hl
  · obtain ⟨kind, message, -, hfinding⟩ := otherFindings_eq x hl
    rw [hfinding, finding]

variable (tree eval) in
theorem adds_scanSource (p : Progress) (rel : String) (walked : List String) :
    Adds p { p with pushed := p.pushed ++ scanSource tree eval rel, walked := walked }
      (scanSource tree eval rel) :=
  ⟨_, rfl, scanSource_detector, fun _ _ => Iff.rfl⟩

theorem adds_count (p : Progress) (language : String) (adapter : Option String) :
    Adds p (p.count language adapter) [] := Adds.refl p

variable (plugins) in
theorem adds_detectLanguage (p : Progress) (extension rel : String) :
    Adds p (p.detectLanguage plugins extension rel) [] := by
  rw [Progress.detectLanguage]
  split
  · exact adds_count p _ _
  split
  · exact adds_count p _ _
  split
  · exact Adds.refl p
  dsimp only
  split
  · refine ⟨_, rfl, fun x hx => ?_, fun x hx => ?_⟩
    · rw [List.mem_singleton.mp hx]
    · refine iff_of_false (fun hmem => ?_) List.not_mem_nil
      rw [List.mem_singleton.mp hmem] at hx
      have hkind : "uncovered-language" = "inline-eval" := hx
      exact absurd hkind (by decide)
  · exact adds_count p _ _

theorem detectLanguage_walked (p : Progress) (extension rel : String) :
    (p.detectLanguage plugins extension rel).walked = p.walked := by
  rw [Progress.detectLanguage]
  split
  · rfl
  split
  · rfl
  split
  · rfl
  dsimp only
  split <;> rfl

theorem adds_behindCode (p : Progress) (rel : String) (tools : List DetectedTool)
    (frameworks : List String) :
    Adds p { p with frameworks := frameworks, pushed := p.pushed ++ behindCode rel tools } [] := by
  refine ⟨_, rfl, fun x hx => ?_, fun x hx => iff_of_false (fun hmem => ?_) List.not_mem_nil⟩
  · obtain ⟨tool, -, rfl⟩ := List.mem_map.mp hx
    rfl
  · obtain ⟨tool, -, rfl⟩ := List.mem_map.mp hmem
    have hkind : "config-behind-code" = "inline-eval" := hx
    exact absurd hkind (by decide)

/-! ### What a scan reads -/

/-- The findings of a file of the walk. -/
def fileSources (tree : SourceTree γ) (eval : EvalProofSource) (file : WalkedFile) : List Pushed :=
  if isScriptName file.name then scanSource tree eval file.rel else []

def memberSources (tree : SourceTree γ) (eval : EvalProofSource) (rel : String) : List Pushed :=
  if scansMember rel then scanSource tree eval rel else []

variable (tree eval plugins) in
theorem adds_scanFile (p : Progress) (file : WalkedFile) :
    Adds p (scanFile tree eval plugins p file) (fileSources tree eval file)
      ∧ (scanFile tree eval plugins p file).walked
        = p.walked ++ if isScriptName file.name then [file.rel] else [] := by
  rw [scanFile, fileSources, isScriptName]
  have hcode := adds_behindCode p file.rel (tree.detect file.name file.rel).tools
    (p.frameworks ++ (tree.detect file.name file.rel).frameworkLabels)
  cases extensionOf file.name with
  | none => exact ⟨hcode, (List.append_nil _).symm⟩
  | some extension =>
    simp only [Option.any_some]
    split_ifs with hscript
    · have hsource := hcode.trans (adds_scanSource tree eval _ file.rel (p.walked ++ [file.rel]))
      have hall := hsource.trans (adds_detectLanguage plugins _ extension file.rel)
      rw [List.nil_append, List.append_nil] at hall
      exact ⟨hall, detectLanguage_walked _ extension file.rel⟩
    · refine ⟨hcode.trans (adds_detectLanguage plugins _ extension file.rel), ?_⟩
      rw [detectLanguage_walked, List.append_nil]

theorem adds_scanFiles {done : ℕ}
    (h : scanFiles tree eval plugins onFile total done files p = some p') :
    Adds p p' (files.flatMap (fileSources tree eval))
      ∧ p'.walked = p.walked ++ (files.filter fun file => isScriptName file.name).map (·.rel) := by
  induction files generalizing done p with
  | nil =>
    obtain rfl := Option.some.inj h
    exact ⟨Adds.refl _, (List.append_nil _).symm⟩
  | cons file rest ih =>
    rw [scanFiles] at h
    split at h
    · cases h
    obtain ⟨hadds, hwalked⟩ := adds_scanFile tree eval plugins p file
    obtain ⟨hrest, hrestWalked⟩ := ih h
    refine ⟨hadds.trans hrest, ?_⟩
    rw [hrestWalked, hwalked, List.append_assoc, List.filter_cons]
    split_ifs <;> rfl

theorem adds_scanMember (p : Progress) (rel : String) :
    Adds p (scanMember tree eval plugins p rel) (memberSources tree eval rel) := by
  rw [scanMember, memberSources]
  split_ifs with hscans
  · have hsource := adds_scanSource tree eval p rel p.walked
    have hall := hsource.trans (adds_detectLanguage plugins _ ((memberExtension rel).getD "") rel)
    rwa [List.append_nil] at hall
  · exact Adds.refl p

variable (plugins) in
theorem adds_foldl_scanMember (rels : List String) (p : Progress) :
    Adds p (rels.foldl (scanMember tree eval plugins) p)
      (rels.flatMap (memberSources tree eval)) := by
  induction rels generalizing p with
  | nil => exact Adds.refl p
  | cons rel rels ih => exact (adds_scanMember p rel).trans (ih _)

/-- A script the scan reads: a file of the walk, or a member of the capture. -/
def Scans (eval : EvalProofSource) (files : List WalkedFile) (rel : String) : Prop :=
  (∃ file ∈ files, isScriptName file.name = true ∧ file.rel = rel)
    ∨ (rel ∈ eval.members ∧ scansMember rel = true)

theorem preflightScan_eq (h : preflightScan tree eval plugins onFile = .ok (some report)) :
    ∃ files p, filesUntil (walkOf tree onFile) tree.listing = .ok (some files)
      ∧ scanFiles tree eval plugins onFile files.length 0 files .start = some p
      ∧ report = (scanMembers tree eval plugins p).report := by
  rw [preflightScan] at h
  split at h
  · cases h
  · cases h
  · next files hfiles =>
    obtain ⟨p, hp, rfl⟩ := Option.map_eq_some_iff.mp (Except.ok.inj h)
    exact ⟨files, p, hfiles, hp, rfl⟩

theorem scan_adds (h : scanFiles tree eval plugins onFile total 0 files .start = some p) :
    (∀ x ∈ (scanMembers tree eval plugins p).pushed, x.2.detector = DETECTOR_ID)
      ∧ ∀ x : Pushed, x.2.kind = "inline-eval" →
        (x ∈ (scanMembers tree eval plugins p).pushed
          ↔ ∃ rel, Scans eval files rel ∧ x ∈ scanSource tree eval rel) := by
  obtain ⟨hfiles, hwalked⟩ := adds_scanFiles h
  obtain ⟨added, hpushed, hdetector, hmem⟩ := hfiles.trans (adds_foldl_scanMember plugins
    (eval.members.filter fun rel => !p.walked.contains rel) p)
  rw [scanMembers, hpushed]
  refine ⟨hdetector, fun x hx => (hmem x hx).trans ?_⟩
  rw [List.mem_append, List.mem_flatMap, List.mem_flatMap]
  constructor
  · rintro (⟨file, hfile, hin⟩ | ⟨rel, hrel, hin⟩)
    · rw [fileSources] at hin
      split_ifs at hin with hscript
      · exact ⟨file.rel, .inl ⟨file, hfile, hscript, rfl⟩, hin⟩
      · cases hin
    · rw [memberSources] at hin
      split_ifs at hin with hscans
      · exact ⟨rel, .inr ⟨(List.mem_filter.mp hrel).1, hscans⟩, hin⟩
      · cases hin
  · rintro ⟨rel, hscans, hin⟩
    -- a member that the walk scanned is not scanned again
    by_cases hwalk : rel ∈ p.walked
    · rw [hwalked, Progress.start, List.nil_append, List.mem_map] at hwalk
      obtain ⟨file, hfile, rfl⟩ := hwalk
      obtain ⟨hfile, hscript⟩ := List.mem_filter.mp hfile
      exact .inl ⟨file, hfile, by rwa [fileSources, if_pos hscript]⟩
    · rcases hscans with ⟨file, hfile, hscript, rfl⟩ | ⟨hmember, hscans⟩
      · exact .inl ⟨file, hfile, by rwa [fileSources, if_pos hscript]⟩
      · refine .inr ⟨rel, List.mem_filter.mpr ⟨hmember, ?_⟩, by rwa [memberSources, if_pos hscans]⟩
        rwa [Bool.not_eq_true', ← Bool.not_eq_true, List.contains_iff_mem]

theorem mem_laneFindings {pushed : List Pushed} :
    f ∈ laneFindings lane pushed ↔ (lane, f) ∈ pushed := by
  rw [laneFindings, List.mem_map]
  constructor
  · rintro ⟨x, hx, rfl⟩
    obtain ⟨hmem, hlane⟩ := List.mem_filter.mp hx
    rwa [← of_decide_eq_true hlane]
  · intro h
    exact ⟨(lane, f), List.mem_filter.mpr ⟨h, decide_eq_true rfl⟩, rfl⟩

/-- The findings of a report on a lane. -/
def Report.on (report : Report) : Lane → List PatternFinding
  | .unsupported => report.unsupported
  | .potentialGap => report.potentialGaps

theorem Progress.report_on (p : Progress) (lane : Lane) :
    p.report.on lane = laneFindings lane p.pushed := by
  cases lane <;> rfl

section

variable (h : preflightScan tree eval plugins onFile = .ok (some report))
include h

/-- **Scanned findings.**  The `inline-eval` findings of a report are those of the scripts that
the scan reads. -/
theorem mem_scanned_iff (hfiles : filesUntil (walkOf tree onFile) tree.listing = .ok (some files))
    (hf : f.kind = "inline-eval") :
    f ∈ report.on lane ↔ ∃ rel, Scans eval files rel ∧ (lane, f) ∈ scanSource tree eval rel := by
  obtain ⟨files', p, hfiles', hp, rfl⟩ := preflightScan_eq h
  obtain rfl : files = files' := by
    rw [hfiles] at hfiles'
    exact Option.some.inj (Except.ok.inj hfiles')
  rw [Progress.report_on, mem_laneFindings]
  exact (scan_adds hp).2 (lane, f) hf

theorem preflightScan_detectors (lane : Lane) :
    ∀ f ∈ report.on lane, f.detector = DETECTOR_ID := by
  obtain ⟨files, p, -, hp, rfl⟩ := preflightScan_eq h
  intro f hf
  rw [Progress.report_on, mem_laneFindings] at hf
  exact (scan_adds hp).1 (lane, f) hf

end

/-- What the register takes of a report. -/
def registered {onFile : ScanStep → Bool} {report : Report}
    (h : preflightScan tree eval plugins onFile = .ok (some report)) : PreflightReport where
  unsupported := report.unsupported.map fun f => ⟨f.detector, f.path, f.line, f.message⟩
  potentialGaps := report.potentialGaps.map fun f => ⟨f.detector, f.path, f.line, f.message⟩
  detectors f hf := by
    obtain ⟨g, hg, rfl⟩ := List.mem_map.mp hf
    exact preflightScan_detectors h .unsupported g hg

end Preflight.Scan

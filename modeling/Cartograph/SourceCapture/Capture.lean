/-
Captures of source bytes (`crates/source-capture/src/lib.rs`).

A capture is a manifest of selected files and the bytes of each.  Its identity is the hash
of the manifest's text; a file is bound to its bytes by length, digest and, for a capture
of Git objects, the blob id.  `assembleCapture` is the only way a `Capture` comes about.

The digests are parameters (`Env`), and so is how a blob is named by Git.
-/
import Cartograph.Investigation.Records
import Cartograph.Lib.Checked
import Cartograph.Lib.Table

namespace SourceCapture

open Checked Investigation

def CAPTURE_SCHEMA_VERSION : ℕ := 1
def MAX_FILES : ℕ := 8192
def MAX_PATH_BYTES : ℕ := 1024
def MAX_SOURCE_ID_BYTES : ℕ := 256
def MAX_FILE_BYTES : ℕ := 16 * 1024 * 1024
def MAX_CAPTURE_BYTES : ℕ := 128 * 1024 * 1024
def MAX_MANIFEST_BYTES : ℕ := 8 * 1024 * 1024
def MAX_SPAN_BYTES : ℕ := 256 * 1024

abbrev Bytes := List UInt8

/-- The hash of bytes, and the name Git gives them as a blob. -/
structure Env where
  hash : Bytes → Hash
  gitBlobOid : Bytes → String

inductive CaptureError
  | invalid (what : String)
  | limit (what : String)
  | missing (what : String)
  | corrupt (what : String)
  | sqlite
  deriving DecidableEq

/-- `SourceId`: a bounded identity the host assigns. -/
structure SourceId where
  value : String
  valid : value ≠ "" ∧ (Json.utf8 value).length ≤ MAX_SOURCE_ID_BYTES ∧ '\x00' ∉ value.toList
  deriving DecidableEq

structure CaptureLimits where
  maxFiles : ℕ := MAX_FILES
  maxPathBytes : ℕ := MAX_PATH_BYTES
  maxSourceIdBytes : ℕ := MAX_SOURCE_ID_BYTES
  maxFileBytes : ℕ := MAX_FILE_BYTES
  maxTotalBytes : ℕ := MAX_CAPTURE_BYTES
  maxManifestBytes : ℕ := MAX_MANIFEST_BYTES
  maxSpanBytes : ℕ := MAX_SPAN_BYTES

def CaptureLimits.validate (l : CaptureLimits) : Except CaptureError Unit :=
  ensure (l.maxFiles ≤ MAX_FILES ∧ l.maxPathBytes ≤ MAX_PATH_BYTES
    ∧ l.maxSourceIdBytes ≤ MAX_SOURCE_ID_BYTES ∧ l.maxFileBytes ≤ MAX_FILE_BYTES
    ∧ l.maxTotalBytes ≤ MAX_CAPTURE_BYTES ∧ l.maxManifestBytes ≤ MAX_MANIFEST_BYTES
    ∧ l.maxSpanBytes ≤ MAX_SPAN_BYTES) (.invalid "limits exceed hard maxima")

/-! ### Manifests -/

inductive CaptureKind
  | workingTree
  | git (commit tree : String)
  deriving DecidableEq

structure GitFile where
  oid : String
  mode : ℕ
  deriving DecidableEq

structure FileEntry where
  path : String
  digest : String
  byteLen : ℕ
  git : Option GitFile
  deriving DecidableEq

structure CaptureManifest where
  schemaVersion : ℕ
  sourceId : SourceId
  kind : CaptureKind
  files : List FileEntry
  deriving DecidableEq

def CaptureKind.toJson : CaptureKind → Json
  | .workingTree => .obj [("kind", .str "working_tree")]
  | .git commit tree => .obj [("kind", .str "git"), ("commit", .str commit), ("tree", .str tree)]

def GitFile.toJson (g : GitFile) : Json := .obj [("oid", .str g.oid), ("mode", .nat g.mode)]

def FileEntry.toJson (e : FileEntry) : Json :=
  .obj [("path", .str e.path), ("digest", .str e.digest), ("byte_len", .nat e.byteLen),
    ("git", .opt GitFile.toJson e.git)]

def CaptureManifest.toJson (m : CaptureManifest) : Json :=
  .obj [("schema_version", .nat m.schemaVersion), ("source_id", .str m.sourceId.value),
    ("kind", m.kind.toJson), ("files", .arr (m.files.map FileEntry.toJson))]

/-- `is_hex`: this many lower-case hexadecimal digits. -/
def isHex (value : String) (length : ℕ) : Bool :=
  (Json.utf8 value).length == length && (Json.utf8 value).all lowerHex

def pathPart (part : List Char) : Bool := part != [] && part != ['.'] && part != ['.', '.']

def validatePath (path : String) (limit : ℕ) : Except CaptureError Unit := do
  ensure ((Json.utf8 path).length ≤ limit) (.limit "path bytes")
  ensure (path ≠ "" ∧ (path.toList.all fun c => c != '\\' && c != ':' && c != '\x00') = true
    ∧ (path.toList.splitOn '/').all pathPart = true) (.invalid "canonical relative path required")

/-- The acquisition and the Git metadata of an entry agree. -/
def gitAgrees (kind : CaptureKind) (git : Option GitFile) : Bool :=
  match kind, git with
  | .workingTree, none => true
  | .git _ _, some g => isHex g.oid 40 && (g.mode == 0o100644 || g.mode == 0o100755)
  | _, _ => false

/-- The loop over the entries, after `prior` and `total` bytes. -/
def validateFiles (kind : CaptureKind) (limits : CaptureLimits) :
    Option String → ℕ → List FileEntry → Except CaptureError Unit
  | _, _, [] => .ok ()
  | prior, total, entry :: rest => do
    validatePath entry.path limits.maxPathBytes
    ensure (∀ path ∈ prior, path < entry.path) (.corrupt "duplicate or unsorted manifest path")
    ensure (isHex entry.digest 64 = true) (.corrupt "invalid raw digest")
    ensure (entry.byteLen ≤ limits.maxFileBytes) (.limit "file bytes")
    ensure (total + entry.byteLen ≤ limits.maxTotalBytes) (.limit "capture bytes")
    ensure (gitAgrees kind entry.git = true) (.corrupt "capture kind and Git entry disagree")
    validateFiles kind limits (some entry.path) (total + entry.byteLen) rest

def kindValid : CaptureKind → Bool
  | .workingTree => true
  | .git commit tree => isHex commit 40 && isHex tree 40

def validateManifest (m : CaptureManifest) (limits : CaptureLimits) : Except CaptureError Unit := do
  limits.validate
  ensure (m.schemaVersion = CAPTURE_SCHEMA_VERSION) (.corrupt "unsupported manifest version")
  ensure ((Json.utf8 m.sourceId.value).length ≤ limits.maxSourceIdBytes)
    (.limit "source identity bytes")
  ensure (m.files.length ≤ limits.maxFiles) (.limit "selected files")
  ensure (kindValid m.kind = true) (.corrupt "invalid Git identity")
  validateFiles m.kind limits none 0 m.files

/-- `canonical_manifest`: the text, unless it is too long. -/
def canonicalManifest (m : CaptureManifest) (limit : ℕ) : Except CaptureError String := do
  ensure (m.toJson.size ≤ limit) (.limit "manifest bytes")
  return m.toJson.render

def manifestId (env : Env) (text : String) : String :=
  "capture-v1:" ++ (env.hash (Json.utf8 text)).text

/-- `strip_prefix`, on characters. -/
def afterLead : List Char → List Char → Option (List Char)
  | [], rest => some rest
  | _ :: _, [] => none
  | c :: lead, c' :: rest => if c = c' then afterLead lead rest else none

def validateCaptureId (id : String) : Except CaptureError Unit :=
  ensure (((afterLead "capture-v1:".toList id.toList).any fun hash =>
    isHex (String.ofList hash) 64) = true) (.invalid "capture identity")

/-! ### Captures -/

structure CaptureFileRef where
  sourceId : SourceId
  captureId : String
  path : String
  digest : String
  byteLen : ℕ
  deriving DecidableEq

structure CaptureSpanRef where
  file : CaptureFileRef
  byteStart : ℕ
  byteEnd : ℕ
  deriving DecidableEq

structure CapturedFile where
  reference : CaptureFileRef
  bytes : Bytes
  maxSpanBytes : ℕ
  deriving DecidableEq

structure Capture where
  id : String
  manifest : CaptureManifest
  files : Table String CapturedFile
  maxSpanBytes : ℕ

/-- The complete binding of an entry. -/
def fileRef (m : CaptureManifest) (id : String) (entry : FileEntry) : CaptureFileRef :=
  ⟨m.sourceId, id, entry.path, entry.digest, entry.byteLen⟩

/-- A Git blob has the id its entry names. -/
def gitMatches (env : Env) (entry : FileEntry) (raw : Bytes) : Bool :=
  entry.git.all fun g => env.gitBlobOid raw == g.oid

def assembleFiles (env : Env) (m : CaptureManifest) (id : String) (limits : CaptureLimits) :
    List FileEntry → Table String Bytes → Table String CapturedFile →
    Except CaptureError (Table String CapturedFile)
  | [], bytes, files => do
    ensure (bytes.rows = []) (.corrupt "extra captured bytes")
    return files
  | entry :: rest, bytes, files => do
    let raw ← orFail (bytes.find? entry.path) (.corrupt "missing captured bytes")
    ensure (raw.length = entry.byteLen ∧ (env.hash raw).text = entry.digest)
      (.corrupt "raw bytes disagree with manifest")
    ensure (gitMatches env entry raw = true) (.corrupt "Git blob identity mismatch")
    assembleFiles env m id limits rest (bytes.erase entry.path)
      (files.put entry.path ⟨fileRef m id entry, raw, limits.maxSpanBytes⟩)

def assembleCapture (env : Env) (m : CaptureManifest) (bytes : Table String Bytes)
    (limits : CaptureLimits) : Except CaptureError Capture := do
  validateManifest m limits
  let text ← canonicalManifest m limits.maxManifestBytes
  let id := manifestId env text
  let files ← assembleFiles env m id limits m.files bytes .empty
  return ⟨id, m, files, limits.maxSpanBytes⟩

def validateRange (start stop length maximum : ℕ) : Except CaptureError Unit := do
  ensure (start < stop ∧ stop ≤ length) (.invalid "span must be nonempty and within the file")
  ensure (stop - start ≤ maximum) (.limit "span bytes")

/-- `file`: an exact selected path. -/
def Capture.file (c : Capture) (path : String) : Except CaptureError CapturedFile := do
  validatePath path MAX_PATH_BYTES
  orFail (c.files.find? path) (.missing "path outside capture")

/-- `Capture::read_span`. -/
def Capture.readSpan (c : Capture) (reference : CaptureSpanRef) : Except CaptureError Bytes := do
  let file ← c.file reference.file.path
  ensure (reference.file = file.reference) (.corrupt "file reference mismatch")
  validateRange reference.byteStart reference.byteEnd file.reference.byteLen file.maxSpanBytes
  return (file.bytes.take reference.byteEnd).drop reference.byteStart

/-! ### Valid manifests -/

variable {limits : CaptureLimits} {kind : CaptureKind}

theorem validateFiles_ok :
    ∀ {files : List FileEntry} {prior : Option String} {total : ℕ},
    validateFiles kind limits prior total files = .ok () →
      (files.map FileEntry.path).Pairwise (· < ·)
      ∧ (∀ path ∈ prior, ∀ entry ∈ files, path < entry.path)
  | [], _, _, _ => ⟨List.Pairwise.nil, fun _ _ _ h => absurd h (by simp)⟩
  | entry :: rest, prior, total, h => by
    simp only [validateFiles, bind_eq_ok, ensure_eq_ok] at h
    obtain ⟨_, -, _, hprior, _, -, _, -, _, -, _, -, hrest⟩ := h
    obtain ⟨hsorted, hlater⟩ := validateFiles_ok hrest
    have hall : ∀ e ∈ rest, entry.path < e.path := hlater entry.path rfl
    refine ⟨List.pairwise_cons.mpr ⟨?_, hsorted⟩, fun path hpath e he => ?_⟩
    · intro path hpath
      obtain ⟨e, he, rfl⟩ := List.mem_map.mp hpath
      exact hall e he
    · rcases List.mem_cons.mp he with rfl | he
      · exact hprior path hpath
      · exact (hprior path hpath).trans (hall e he)

variable {m : CaptureManifest}

theorem validateManifest_paths (h : validateManifest m limits = .ok ()) :
    (m.files.map FileEntry.path).Nodup := by
  simp only [validateManifest, bind_eq_ok] at h
  obtain ⟨_, -, _, -, _, -, _, -, _, -, hfiles⟩ := h
  exact (validateFiles_ok hfiles).1.imp fun h => ne_of_lt h

theorem validateFiles_byteLen :
    ∀ {files : List FileEntry} {prior : Option String} {total : ℕ},
    validateFiles kind limits prior total files = .ok () →
      ∀ entry ∈ files, entry.byteLen ≤ limits.maxFileBytes
  | [], _, _, _ => fun _ h => absurd h (by simp)
  | entry :: rest, prior, total, h => by
    simp only [validateFiles, bind_eq_ok, ensure_eq_ok] at h
    obtain ⟨_, -, _, -, _, -, _, hlen, _, -, _, -, hrest⟩ := h
    intro e he
    rcases List.mem_cons.mp he with rfl | he
    · exact hlen
    · exact validateFiles_byteLen hrest e he

theorem validateManifest_byteLen (h : validateManifest m limits = .ok ()) :
    ∀ entry ∈ m.files, entry.byteLen ≤ limits.maxFileBytes := by
  simp only [validateManifest, bind_eq_ok] at h
  obtain ⟨_, -, _, -, _, -, _, -, _, -, hfiles⟩ := h
  exact validateFiles_byteLen hfiles

theorem validateFiles_path :
    ∀ {files : List FileEntry} {prior : Option String} {total : ℕ},
    validateFiles kind limits prior total files = .ok () →
      ∀ entry ∈ files, validatePath entry.path limits.maxPathBytes = .ok ()
  | [], _, _, _ => fun _ h => absurd h (by simp)
  | entry :: rest, prior, total, h => by
    simp only [validateFiles, bind_eq_ok] at h
    obtain ⟨_, hpath, _, -, _, -, _, -, _, -, _, -, hrest⟩ := h
    intro e he
    rcases List.mem_cons.mp he with rfl | he
    · exact hpath
    · exact validateFiles_path hrest e he

theorem validateManifest_path (h : validateManifest m limits = .ok ()) :
    ∀ entry ∈ m.files, validatePath entry.path limits.maxPathBytes = .ok () := by
  simp only [validateManifest, bind_eq_ok] at h
  obtain ⟨_, -, _, -, _, -, _, -, _, -, hfiles⟩ := h
  exact validateFiles_path hfiles

theorem validateFiles_cap (kind : CaptureKind) (cap : ℕ) :
    ∀ (files : List FileEntry) (prior : Option String) (total : ℕ),
      validateFiles kind { maxSpanBytes := cap } prior total files
        = validateFiles kind {} prior total files
  | [], _, _ => rfl
  | entry :: rest, prior, total => by
    simp only [validateFiles, validateFiles_cap kind cap rest]

theorem validateManifest_cap {cap : ℕ} :
    validateManifest m { maxSpanBytes := cap } = .ok ()
      ↔ cap ≤ MAX_SPAN_BYTES ∧ validateManifest m {} = .ok () := by
  have hvalid : ∀ {u : Unit}, CaptureLimits.validate { maxSpanBytes := cap } = .ok u
      ↔ cap ≤ MAX_SPAN_BYTES := by
    intro u
    simp [CaptureLimits.validate, ensure_eq_ok]
  have hdefault : ∀ {u : Unit}, CaptureLimits.validate {} = .ok u ↔ True := by
    intro u
    simp [CaptureLimits.validate, ensure_eq_ok]
  simp only [validateManifest, bind_eq_ok, hvalid, hdefault, validateFiles_cap]
  simp

/-- The bytes an entry is bound to. -/
structure Bound (env : Env) (entry : FileEntry) (raw : Bytes) : Prop where
  length : raw.length = entry.byteLen
  digest : (env.hash raw).text = entry.digest
  git : gitMatches env entry raw = true

/-! ### Assembly -/

variable {env : Env}

theorem assembleFiles_ok {m : CaptureManifest} {id : String} :
    ∀ {entries : List FileEntry} {bytes : Table String Bytes} {files result : Table String CapturedFile},
    (entries.map FileEntry.path).Nodup →
    assembleFiles env m id limits entries bytes files = .ok result →
      (∀ entry ∈ entries, ∃ raw, bytes.find? entry.path = some raw ∧ Bound env entry raw
        ∧ result.find? entry.path = some ⟨fileRef m id entry, raw, limits.maxSpanBytes⟩)
      ∧ ∀ path ∉ entries.map FileEntry.path, result.find? path = files.find? path
  | [], bytes, files, result, _, h => by
    simp only [assembleFiles, bind_eq_ok, ensure_eq_ok, pure_eq_ok] at h
    obtain ⟨_, -, rfl⟩ := h
    exact ⟨fun _ h => absurd h (by simp), fun _ _ => rfl⟩
  | entry :: rest, bytes, files, result, hnodup, h => by
    simp only [assembleFiles, bind_eq_ok, ensure_eq_ok, orFail_eq_ok] at h
    obtain ⟨raw, hraw, _, ⟨hlen, hdigest⟩, _, hgit, hrest⟩ := h
    obtain ⟨hfresh, hnodup'⟩ := List.nodup_cons.mp hnodup
    obtain ⟨hentries, hothers⟩ := assembleFiles_ok hnodup' hrest
    refine ⟨?_, ?_⟩
    · intro e he
      rcases List.mem_cons.mp he with rfl | he
      · refine ⟨raw, hraw, ⟨hlen, hdigest, hgit⟩, ?_⟩
        rw [hothers _ hfresh, Table.find?_put, if_pos rfl]
      · obtain ⟨raw', hraw', hbound, hfile⟩ := hentries e he
        have hne : e.path ≠ entry.path := by
          intro heq
          exact hfresh (heq ▸ List.mem_map_of_mem he)
        rw [Table.find?_erase, if_neg hne] at hraw'
        exact ⟨raw', hraw', hbound, hfile⟩
    · intro path hpath
      have hne : path ≠ entry.path := fun heq => hpath (by simp [heq])
      have hrest' : path ∉ rest.map FileEntry.path := fun hmem => hpath (by simp [hmem])
      rw [hothers path hrest', Table.find?_put, if_neg hne]

theorem assembleFiles_total {m : CaptureManifest} {id : String} :
    ∀ {entries : List FileEntry} {bytes : Table String Bytes} {files : Table String CapturedFile},
    (entries.map FileEntry.path).Nodup →
    (∀ entry ∈ entries, ∃ raw, bytes.find? entry.path = some raw ∧ Bound env entry raw) →
    (∀ path ∉ entries.map FileEntry.path, bytes.find? path = none) →
      ∃ result, assembleFiles env m id limits entries bytes files = .ok result
  | [], bytes, files, _, _, hothers => by
    have hempty : bytes = .empty := Table.ext_find? fun path => hothers path (by simp)
    refine ⟨files, ?_⟩
    simp only [assembleFiles, bind_eq_ok, ensure_eq_ok, pure_eq_ok, hempty, Table.empty]
    exact ⟨(), trivial, trivial⟩
  | entry :: rest, bytes, files, hnodup, hentries, hothers => by
    obtain ⟨hfresh, hnodup'⟩ := List.nodup_cons.mp hnodup
    obtain ⟨raw, hraw, hbound⟩ := hentries entry (by simp)
    have hrest : ∀ e ∈ rest, ∃ raw, (bytes.erase entry.path).find? e.path = some raw
        ∧ Bound env e raw := by
      intro e he
      have hne : e.path ≠ entry.path := by
        intro heq
        exact hfresh (heq ▸ List.mem_map_of_mem he)
      rw [Table.find?_erase, if_neg hne]
      exact hentries e (List.mem_cons_of_mem _ he)
    have hothers' : ∀ path ∉ rest.map FileEntry.path,
        (bytes.erase entry.path).find? path = none := by
      intro path hpath
      rw [Table.find?_erase]
      split
      · rfl
      · rename_i hne
        exact hothers path (by simpa [hne] using hpath)
    obtain ⟨result, hresult⟩ := assembleFiles_total hnodup' hrest hothers'
    refine ⟨result, ?_⟩
    simp only [assembleFiles, bind_eq_ok, ensure_eq_ok, orFail_eq_ok]
    exact ⟨raw, hraw, (), ⟨hbound.length, hbound.digest⟩, (), hbound.git, hresult⟩

/-- The parts of a capture that was assembled. -/
structure Complete (env : Env) (c : Capture) : Prop where
  id : c.id = manifestId env c.manifest.toJson.render
  entry : ∀ entry ∈ c.manifest.files, ∃ raw, Bound env entry raw
    ∧ c.files.find? entry.path = some ⟨fileRef c.manifest c.id entry, raw, c.maxSpanBytes⟩
  others : ∀ path ∉ c.manifest.files.map FileEntry.path, c.files.find? path = none

theorem Complete.file {c : Capture} (h : Complete env c) {path : String} {file : CapturedFile}
    (hfile : c.files.find? path = some file) :
    ∃ entry ∈ c.manifest.files, entry.path = path ∧ file.reference = fileRef c.manifest c.id entry
      ∧ Bound env entry file.bytes := by
  by_cases hpath : path ∈ c.manifest.files.map FileEntry.path
  · obtain ⟨entry, he, rfl⟩ := List.mem_map.mp hpath
    obtain ⟨raw, hbound, hraw⟩ := h.entry entry he
    obtain rfl := Option.some.inj (hraw.symm.trans hfile)
    exact ⟨entry, he, rfl, rfl, hbound⟩
  · rw [h.others path hpath] at hfile
    cases hfile

theorem assembleCapture_ok {bytes : Table String Bytes} {c : Capture}
    (h : assembleCapture env m bytes limits = .ok c) :
    c.manifest = m ∧ c.maxSpanBytes = limits.maxSpanBytes ∧ Complete env c
      ∧ ∀ entry ∈ m.files, (c.files.find? entry.path).map CapturedFile.bytes
        = bytes.find? entry.path := by
  simp only [assembleCapture, canonicalManifest, bind_eq_ok, ensure_eq_ok, pure_eq_ok] at h
  obtain ⟨_, hvalid, _, ⟨_, -, rfl⟩, files, hfiles, rfl⟩ := h
  obtain ⟨hentries, hothers⟩ := assembleFiles_ok (validateManifest_paths hvalid) hfiles
  refine ⟨rfl, rfl, ⟨rfl, ?_, hothers⟩, ?_⟩
  · intro entry he
    obtain ⟨raw, -, hbound, hfile⟩ := hentries entry he
    exact ⟨raw, hbound, hfile⟩
  · intro entry he
    obtain ⟨raw, hraw, -, hfile⟩ := hentries entry he
    rw [hraw, hfile]
    rfl

end SourceCapture

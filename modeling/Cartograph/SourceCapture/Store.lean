/-
The store of captures (`crates/source-capture/src/store.rs`).

Captures are kept by identity, and the bytes of their files apart, by digest, so files with
the same bytes share one object.  A write runs in one transaction: `persistIn` and
`forgetIn` compute what it would commit, and `CaptureStore.machine` commits that or nothing.

A row keeps the manifest whose canonical text is in the column, so reading the column back
is not modelled; the schema checks of the database are not either.  A statement that the
database fails, wherever it stands in the transaction, is the fault of an operation.
-/
import Cartograph.SourceCapture.Capture
import Cartograph.Lib.OrderedSet
import Cartograph.Lib.Runs

namespace SourceCapture

open Checked

def MAX_STORE_BYTES : ℕ := 2 * 1024 * 1024 * 1024
def MAX_STORED_CAPTURES : ℕ := 10000

structure StoreLimits where
  maxBytes : ℕ := MAX_STORE_BYTES
  maxCaptures : ℕ := MAX_STORED_CAPTURES

def StoreLimits.validate (l : StoreLimits) : Except CaptureError Unit :=
  ensure (l.maxBytes ≤ MAX_STORE_BYTES ∧ l.maxCaptures ≤ MAX_STORED_CAPTURES)
    (.invalid "store limits exceed hard maxima")

structure CaptureRow where
  manifest : CaptureManifest
  maxSpanBytes : ℕ
  deriving DecidableEq

/-- The bytes in the `manifest` column. -/
def CaptureRow.raw (row : CaptureRow) : String := row.manifest.toJson.render

structure CaptureStore where
  captures : Table String CaptureRow
  objects : Table String Bytes

namespace CaptureStore

def empty : CaptureStore := ⟨.empty, .empty⟩

/-- `sum(length(manifest))`. -/
def manifestBytes (s : CaptureStore) : ℕ :=
  (s.captures.rows.map fun r => r.2.manifest.toJson.size).sum

/-- `sum(length(bytes))`. -/
def objectBytes (s : CaptureStore) : ℕ := (s.objects.rows.map fun r => r.2.length).sum

end CaptureStore

/-- `INSERT`: the key must be new. -/
def insertRow {ν : Type} (t : Table String ν) (k : String) (v : ν) :
    Except CaptureError (Table String ν) := do
  ensure (t.find? k = none) .sqlite
  return t.put k v

/-! ### Reading -/

def readObject (env : Env) (s : CaptureStore) (digest : String) :
    Except CaptureError (Option Bytes) :=
  match s.objects.find? digest with
  | none => .ok none
  | some bytes => do
    ensure (bytes.length ≤ MAX_FILE_BYTES) (.corrupt "invalid stored object type or length")
    ensure ((env.hash bytes).text = digest) (.corrupt "stored object digest or length mismatch")
    return some bytes

def loadManifest (env : Env) (s : CaptureStore) (id : String) :
    Except CaptureError (CaptureManifest × ℕ) := do
  validateCaptureId id
  let row ← orFail (s.captures.find? id) (.missing "capture manifest")
  ensure (row.maxSpanBytes ≤ MAX_SPAN_BYTES) (.corrupt "invalid retained span policy")
  ensure (row.manifest.toJson.size ≤ MAX_MANIFEST_BYTES)
    (.corrupt "invalid stored manifest type or length")
  ensure (manifestId env row.raw = id) (.corrupt "stored manifest identity mismatch")
  validateManifest row.manifest {}
  let text ← canonicalManifest row.manifest MAX_MANIFEST_BYTES
  ensure (text = row.raw) (.corrupt "noncanonical stored manifest")
  return (row.manifest, row.maxSpanBytes)

/-- The bytes of every entry, by path. -/
def loadBuffers (env : Env) (s : CaptureStore) :
    List FileEntry → Table String Bytes → Except CaptureError (Table String Bytes)
  | [], buffers => .ok buffers
  | entry :: rest, buffers => do
    let found ← readObject env s entry.digest
    let bytes ← orFail found (.missing "captured object")
    ensure (bytes.length = entry.byteLen) (.corrupt "manifest and object length disagree")
    loadBuffers env s rest (buffers.put entry.path bytes)

def loadCapture (env : Env) (s : CaptureStore) (id : String) : Except CaptureError Capture := do
  let (manifest, maxSpanBytes) ← loadManifest env s id
  let buffers ← loadBuffers env s manifest.files .empty
  let capture ← assembleCapture env manifest buffers { maxSpanBytes := maxSpanBytes }
  ensure (capture.id = id) (.corrupt "loaded capture identity mismatch")
  return capture

def readSpan (env : Env) (s : CaptureStore) (reference : CaptureSpanRef) :
    Except CaptureError Bytes := do
  let (manifest, maxSpanBytes) ← loadManifest env s reference.file.captureId
  let entry ← orFail (manifest.files.find? fun entry => entry.path == reference.file.path)
    (.missing "path outside capture")
  ensure (reference.file = fileRef manifest reference.file.captureId entry)
    (.corrupt "file reference mismatch")
  validateRange reference.byteStart reference.byteEnd entry.byteLen maxSpanBytes
  let found ← readObject env s entry.digest
  let bytes ← orFail found (.missing "captured object")
  ensure (bytes.length = entry.byteLen) (.corrupt "manifest and object length disagree")
  ensure (gitMatches env entry bytes = true) (.corrupt "Git blob identity mismatch")
  return (bytes.take reference.byteEnd).drop reference.byteStart

/-- Load the manifests of these captures, in order. -/
def loadManifests (env : Env) (s : CaptureStore) :
    List String → Except CaptureError (List (String × CaptureManifest))
  | [] => .ok []
  | id :: rest => do
    let (manifest, _) ← loadManifest env s id
    let manifests ← loadManifests env s rest
    return (id, manifest) :: manifests

/-- `visit_manifests`: what the visitor is given, in order.  No visitor of the source
fails. -/
def visitManifests (env : Env) (s : CaptureStore) :
    Except CaptureError (List (String × CaptureManifest)) := do
  ensure (s.captures.rows.length ≤ MAX_STORED_CAPTURES) (.limit "capture inventory count")
  ensure (∀ r ∈ s.captures.rows, (Json.utf8 r.1).length = 75
    ∧ r.2.manifest.toJson.size ≤ MAX_MANIFEST_BYTES ∧ r.2.maxSpanBytes ≤ MAX_SPAN_BYTES)
    (.corrupt "invalid capture inventory metadata")
  ensure (s.manifestBytes ≤ MAX_STORE_BYTES) (.limit "capture inventory bytes")
  loadManifests env s (s.captures.rows.map Prod.fst)

/-! ### Persisting -/

/-- `UPDATE captures SET max_span_bytes`, which must change one row. -/
def updateCap (s : CaptureStore) (id : String) (cap : ℕ) : Except CaptureError CaptureStore := do
  let row ← orFail (s.captures.find? id) (.corrupt "capture policy update failed")
  return { s with captures := s.captures.put id { row with maxSpanBytes := cap } }

/-- The capture is stored already: its retained policy can only tighten. -/
def replay (env : Env) (s : CaptureStore) (c : Capture) : Except CaptureError CaptureStore := do
  let stored ← loadCapture env s c.id
  ensure (stored.manifest = c.manifest
    ∧ ∀ r ∈ c.files.rows, (stored.files.find? r.1).map CapturedFile.bytes = some r.2.bytes)
    (.corrupt "conflicting existing capture")
  if min stored.maxSpanBytes c.maxSpanBytes ≠ stored.maxSpanBytes then
    updateCap s c.id (min stored.maxSpanBytes c.maxSpanBytes)
  else
    return s

/-- One file of the loop over `missing`; `stored` is what the store has under its digest. -/
def addMissing (file : CapturedFile) (missing : Table String Bytes) :
    Option Bytes → Except CaptureError (Table String Bytes)
  | some stored => do
    ensure (stored = file.bytes) (.corrupt "conflicting existing object")
    return missing
  | none => do
    ensure (∀ prior ∈ missing.find? file.reference.digest, prior = file.bytes)
      (.corrupt "conflicting object identity")
    return missing.put file.reference.digest file.bytes

/-- The objects that are not stored yet. -/
def collectMissing (env : Env) (s : CaptureStore) :
    List CapturedFile → Table String Bytes → Except CaptureError (Table String Bytes)
  | [], missing => .ok missing
  | file :: rest, missing => do
    let stored ← readObject env s file.reference.digest
    let missing ← addMissing file missing stored
    collectMissing env s rest missing

def insertObjects : List (String × Bytes) → Table String Bytes →
    Except CaptureError (Table String Bytes)
  | [], objects => .ok objects
  | (digest, bytes) :: rest, objects => do
    let objects ← insertRow objects digest bytes
    insertObjects rest objects

/-- The capture is new. -/
def publish (env : Env) (limits : StoreLimits) (s : CaptureStore) (c : Capture) (text : String) :
    Except CaptureError CaptureStore := do
  ensure ((∀ r ∈ s.captures.rows, r.2.manifest.toJson.size ≤ MAX_MANIFEST_BYTES
      ∧ r.2.maxSpanBytes ≤ MAX_SPAN_BYTES)
    ∧ ∀ r ∈ s.objects.rows, r.2.length ≤ MAX_FILE_BYTES)
    (.corrupt "invalid retained payload type or length")
  let missing ← collectMissing env s (c.files.rows.map Prod.snd) .empty
  let newBytes := (missing.rows.map fun r => r.2.length).sum
  let total := s.manifestBytes + s.objectBytes + text.utf8ByteSize + newBytes
  ensure (total < 2 ^ 64) (.limit "stored logical bytes")
  ensure (s.captures.rows.length < limits.maxCaptures ∧ total ≤ limits.maxBytes)
    (.limit "store capacity")
  let objects ← insertObjects missing.rows s.objects
  let captures ← insertRow s.captures c.id ⟨c.manifest, c.maxSpanBytes⟩
  return ⟨captures, objects⟩

def persistIn (env : Env) (limits : StoreLimits) (c : Capture) (s : CaptureStore) :
    Except CaptureError CaptureStore := do
  validateManifest c.manifest { maxSpanBytes := c.maxSpanBytes }
  let text ← canonicalManifest c.manifest MAX_MANIFEST_BYTES
  ensure (manifestId env text = c.id) (.corrupt "capture identity mismatch")
  if (s.captures.find? c.id).isSome then replay env s c else publish env limits s c text

/-! ### Forgetting -/

def digests (m : CaptureManifest) : List String := m.files.map FileEntry.digest

/-- `DELETE FROM captures` for each id, each of which must remove one row. -/
def deleteCaptures : List String → Table String CaptureRow →
    Except CaptureError (Table String CaptureRow)
  | [], captures => .ok captures
  | id :: rest, captures => do
    ensure ((captures.find? id).isSome = true) (.corrupt "capture deletion did not remove one row")
    deleteCaptures rest (captures.erase id)

def deleteObjects (removable : List String) (objects : Table String Bytes) : Table String Bytes :=
  removable.foldl Table.erase objects

/-- What the source's captures reference, less what the others do. -/
def removableObjects (source : SourceId) (visited : List (String × CaptureManifest)) :
    OrderedSet String :=
  let own := OrderedSet.ofList
    ((visited.filter fun v => decide (v.2.sourceId = source)).flatMap fun v => digests v.2)
  ((visited.filter fun v => decide (v.2.sourceId ≠ source)).flatMap fun v => digests v.2).foldl
    Table.erase own

def forgetIn (env : Env) (source : SourceId) (expected : List String) (s : CaptureStore) :
    Except CaptureError (ℕ × CaptureStore) := do
  ensure (expected.length ≤ MAX_STORED_CAPTURES) (.limit "capture inventory count")
  expected.forM validateCaptureId
  ensure (expected.IsChain (· < ·)) (.invalid "sorted unique capture inventory required")
  let visited ← visitManifests env s
  let actual := (visited.filter fun v => decide (v.2.sourceId = source)).map Prod.fst
  ensure (actual = expected) (.invalid "source inventory changed; refresh required")
  let captures ← deleteCaptures actual s.captures
  return (actual.length,
    ⟨captures, deleteObjects (removableObjects source visited).elements s.objects⟩)

/-! ### Runs -/

/-- A capture is what `assembleCapture` returns for some manifest, bytes and limits. -/
def Assembled (env : Env) (c : Capture) : Prop :=
  ∃ manifest bytes limits, assembleCapture env manifest bytes limits = .ok c

inductive Op (env : Env)
  | persist (c : Capture) (assembled : Assembled env c) (fault : Bool)
  | forgetSource (source : SourceId) (expected : List String) (fault : Bool)
  | reopen (fault : Bool)

inductive Report
  | persisted
  | forgot (captures : ℕ)
  | opened
  deriving DecidableEq

/-- Commit, unless the database failed. -/
def commit {α : Type} (fault : Bool) (a : α) : Except CaptureError α := do
  ensure (fault = false) .sqlite
  return a

def perform (env : Env) (limits : StoreLimits) (op : Op env) (s : CaptureStore) :
    Except CaptureError (Report × CaptureStore) :=
  match op with
  | .persist c _ fault => do
    let s' ← persistIn env limits c s
    commit fault (.persisted, s')
  | .forgetSource source expected fault => do
    let (captures, s') ← forgetIn env source expected s
    commit fault (.forgot captures, s')
  | .reopen fault => do
    limits.validate
    commit fault (.opened, s)

/-- A store opened empty under these limits, and any calls on it. -/
def CaptureStore.machine (env : Env) (limits : StoreLimits) :
    Machine CaptureStore (Op env) (Except CaptureError Report) where
  init s := limits.validate = .ok () ∧ s = .empty
  enabled _ _ := True
  step s op := transact (perform env limits op) s

end SourceCapture

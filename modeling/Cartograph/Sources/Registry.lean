/-
The registry of sources (`src-tauri/src/sources.rs`).

A source is a local directory or a managed clone, under an identity the host draws once.
Rows are checked when they are inserted and again, by other code, whenever they are read:
`checkState` over all rows and `readRow` over one.  A call runs in one transaction.

What the file system answers and what the database draws are inputs of each call.  The
schema checks and the unrelated tables of the database are left out.
-/
import Cartograph.Investigation.Records
import Cartograph.Lib.Runs
import Cartograph.Lib.Table
import Cartograph.Sources.Origin

namespace Sources

open Checked Investigation

def MAX_PATH_BYTES : ℕ := 128 * 1024
def MAX_ORIGIN_TEXT_BYTES : ℕ := 128 * 1024
def MAX_DISPLAY_BYTES : ℕ := 4096
def MAX_REPO_BYTES : ℕ := 512
def ID_RETRIES : ℕ := 8

inductive RegistryError
  | value
  | utf8
  | normalized
  | unavailable
  | directory
  | origin
  | identifier
  | unregistered
  | localReadiness
  | exhausted
  | state
  | storage
  deriving DecidableEq

/-- The text of an error. -/
def RegistryError.text : RegistryError → String
  | .value => "Source registration value is empty, too large, or invalid"
  | .utf8 => "Source registration requires a UTF-8 path"
  | .normalized => "Source registration requires an absolute normalized path"
  | .unavailable => "Source directory is unavailable"
  | .directory => "Source root must be a directory"
  | .origin => "Managed source origin is unsupported or unavailable"
  | .identifier => "Invalid registered source identifier"
  | .unregistered => "Registered source is unavailable"
  | .localReadiness => "Only managed sources have mutable readiness"
  | .exhausted => "Could not allocate a unique registered source identifier"
  | .state => "Source registry state is incompatible or corrupt"
  | .storage => "Source registry storage is unavailable or invalid"

/-! ### Values -/

def validId (value lead : String) : Bool :=
  (value.toList.dropPrefix? lead.toList).any fun rest => isToken (String.ofList rest)

def boundedText (value : String) (max : ℕ) : Except RegistryError Unit :=
  ensure (value ≠ "" ∧ value.utf8ByteSize ≤ max ∧ '\x00' ∉ value.toList) .value

/-- An absolute path whose text is that of its components. -/
def normalized (path : List Char) : Bool :=
  isAbsolute path && !(components path).contains ['.', '.']
    && '/' :: ['/'].intercalate (components path) == path

def pathText (path : Option String) : Except RegistryError String := do
  let text ← orFail path .utf8
  boundedText text MAX_PATH_BYTES
  ensure (normalized text.toList = true) .normalized
  return text

def canonicalDirectory (fs : FileSystem) (path : Option String) : Except RegistryError String := do
  let input ← orFail path .utf8
  boundedText input MAX_PATH_BYTES
  let canonical ← orFail (fs.canonicalize path) .unavailable
  let canonical ← pathText canonical
  ensure (fs.isDir canonical = true) .directory
  return canonical

/-- `Path::join` with one component. -/
def join (dir part : String) : String :=
  if dir.toList.getLast? = some '/' then dir ++ part else dir ++ "/" ++ part

/-- The root of `ManagedCheckout::new`. -/
def checkoutRoot (appDataDir registryId sourceId : String) : Option String :=
  if validId registryId "reg_" && validId sourceId "src_"
    && absoluteNormalPath appDataDir.toList then
    some (join (join (join appDataDir "sources") sourceId) "checkout")
  else none

/-! ### Rows -/

inductive Kind
  | localRoot
  | managed
  deriving DecidableEq

/-- A row of `registered_sources`, less its key. -/
structure SourceRow where
  repoKey : String
  root : String
  displayName : String
  kind : Kind
  originKey : Option String
  cloneUrl : Option String
  githubRepo : Option String
  ready : Bool
  deriving DecidableEq

structure RegisteredSource where
  sourceId : String
  repoKey : String
  displayName : String
  root : String
  origin : Option ManagedOrigin
  ready : Bool
  deriving DecidableEq

structure Registry where
  registryId : String
  appDataDir : String
  rows : Table String SourceRow

/-- `length(CAST(.. AS BLOB)) BETWEEN 1 AND max`. -/
def lengthWithin (max : ℕ) (text : String) : Bool :=
  1 ≤ text.utf8ByteSize && text.utf8ByteSize ≤ max

/-- The bounds a stored row is held to. -/
def rowWithin (id : String) (row : SourceRow) : Bool :=
  id.utf8ByteSize == 36 && lengthWithin MAX_REPO_BYTES row.repoKey
    && lengthWithin MAX_PATH_BYTES row.root && lengthWithin MAX_DISPLAY_BYTES row.displayName
    && row.originKey.all (lengthWithin MAX_ORIGIN_TEXT_BYTES)
    && row.cloneUrl.all (lengthWithin MAX_ORIGIN_TEXT_BYTES)
    && row.githubRepo.all (lengthWithin MAX_REPO_BYTES)

def checkState (s : Registry) (expected : Option String) : Except RegistryError String := do
  ensure (s.registryId.utf8ByteSize = 36) .state
  ensure (validId s.registryId "reg_" = true ∧ ∀ id ∈ expected, id = s.registryId) .state
  ensure (∀ r ∈ s.rows.rows, rowWithin r.1 r.2 = true) .state
  return s.registryId

def localRepo (sourceId : String) : String := "local/" ++ sourceId

/-- The managed branch of the read check. -/
def readManaged (url : UrlCrate) (appDataDir registryId id : String) (row : SourceRow) :
    Except RegistryError (Option ManagedOrigin) := do
  let key ← orFail row.originKey .state
  let cloneUrl ← orFail row.cloneUrl .state
  let origin : ManagedOrigin := ⟨key, cloneUrl, row.displayName, row.githubRepo⟩
  ensure (origin.validate url = .ok ()) .state
  let expectedRoot ← orFail (checkoutRoot appDataDir registryId id) .state
  ensure (components row.root.toList = components expectedRoot.toList
    ∧ row.repoKey = origin.githubRepo.getD (localRepo id)) .state
  return some origin

def readLocal (id : String) (row : SourceRow) :
    Except RegistryError (Option ManagedOrigin) := do
  ensure (row.originKey = none ∧ row.cloneUrl = none ∧ row.githubRepo = none ∧ row.ready = true
    ∧ row.repoKey = localRepo id) .state
  return none

/-- The body of the loop of `read_sources`. -/
def readRow (url : UrlCrate) (appDataDir registryId id : String) (row : SourceRow) :
    Except RegistryError RegisteredSource := do
  ensure (validId id "src_" = true) .state
  ensure ((pathText (some row.root)).toBool = true) .state
  ensure ((boundedText row.displayName MAX_DISPLAY_BYTES).toBool = true) .state
  let origin ← match row.kind with
    | .managed => readManaged url appDataDir registryId id row
    | .localRoot => readLocal id row
  return ⟨id, row.repoKey, row.displayName, row.root, origin, row.ready⟩

/-- A column a row is looked up by. -/
inductive Field
  | sourceId
  | repoKey
  | root
  | originKey
  deriving DecidableEq

def Field.matches (field : Field) (value id : String) (row : SourceRow) : Bool :=
  match field with
  | .sourceId => id == value
  | .repoKey => row.repoKey == value
  | .root => row.root == value
  | .originKey => row.originKey == some value

def readSources (url : UrlCrate) (s : Registry) (filter : Option (Field × String)) :
    Except RegistryError (List RegisteredSource) :=
  (s.rows.rows.filter fun r => filter.all fun f => f.1.matches f.2 r.1 r.2).mapM
    fun r => readRow url s.appDataDir s.registryId r.1 r.2

def readOne (url : UrlCrate) (s : Registry) (field : Field) (value : String) :
    Except RegistryError (Option RegisteredSource) := do
  let sources ← readSources url s (some (field, value))
  ensure (sources.length ≤ 1) .state
  return sources.getLast?

def lookup (url : UrlCrate) (s : Registry) (field : Field) (value : String) :
    Except RegistryError (Option RegisteredSource) := do
  let _ ← checkState s (some s.registryId)
  readOne url s field value

def getById (url : UrlCrate) (s : Registry) (id : String) :
    Except RegistryError (Option RegisteredSource) := do
  ensure (validId id "src_" = true) .identifier
  lookup url s .sourceId id

def getByRepo (url : UrlCrate) (s : Registry) (repo : String) :
    Except RegistryError (Option RegisteredSource) := do
  boundedText repo MAX_REPO_BYTES
  lookup url s .repoKey repo

def getByRoot (url : UrlCrate) (s : Registry) (root : Option String) :
    Except RegistryError (Option RegisteredSource) := do
  let text ← pathText root
  lookup url s .root text

def list (url : UrlCrate) (s : Registry) : Except RegistryError (List RegisteredSource) := do
  let _ ← checkState s (some s.registryId)
  readSources url s none

/-! ### Calls -/

/-- The constraints of the table on a new row. -/
def insertSource (s : Registry) (id : String) (row : SourceRow) :
    Except RegistryError Registry := do
  ensure (s.rows.find? id = none ∧ (∀ r ∈ s.rows.rows, r.2.repoKey ≠ row.repoKey)
    ∧ (∀ r ∈ s.rows.rows, r.2.root ≠ row.root)
    ∧ ∀ key ∈ row.originKey, ∀ r ∈ s.rows.rows, r.2.originKey ≠ some key) .storage
  return { s with rows := s.rows.put id row }

/-- `vacant_source_id`: the first of the draws that is not in use. -/
def vacantSourceId (s : Registry) (draws : ℕ → String) : ℕ → Except RegistryError String
  | 0 => .error .exhausted
  | tries + 1 => do
    let id := "src_" ++ draws (ID_RETRIES - (tries + 1))
    ensure (validId id "src_" = true) .state
    if s.rows.find? id = none then return id else vacantSourceId s draws tries

/-- Insert a row and read it back. -/
def insertAndRead (url : UrlCrate) (s : Registry) (id : String) (row : SourceRow) :
    Except RegistryError (RegisteredSource × Registry) := do
  let s' ← insertSource s id row
  let found ← readOne url s' .sourceId id
  let source ← orFail found .state
  return (source, s')

def localDisplayName (root : String) : String :=
  ((fileName root.toList).filter fun name => name != []).elim "Local source" String.ofList

def registerNewLocal (url : UrlCrate) (s : Registry) (draws : ℕ → String) (root : String) :
    Except RegistryError (RegisteredSource × Registry) := do
  let id ← vacantSourceId s draws ID_RETRIES
  insertAndRead url s id
    ⟨localRepo id, root, localDisplayName root, .localRoot, none, none, none, true⟩

def registerLocal (url : UrlCrate) (fs : FileSystem) (draws : ℕ → String) (path : Option String)
    (s : Registry) : Except RegistryError (RegisteredSource × Registry) := do
  let root ← canonicalDirectory fs path
  boundedText (localDisplayName root) MAX_DISPLAY_BYTES
  let _ ← checkState s (some s.registryId)
  let found ← readOne url s .root root
  match found with
  | some source => return (source, s)
  | none => registerNewLocal url s draws root

def reserveNewManaged (url : UrlCrate) (s : Registry) (draws : ℕ → String)
    (origin : ManagedOrigin) : Except RegistryError (RegisteredSource × Registry) := do
  let id ← vacantSourceId s draws ID_RETRIES
  let root ← orFail (checkoutRoot s.appDataDir s.registryId id) .state
  let root ← pathText (some root)
  boundedText (origin.githubRepo.getD (localRepo id)) MAX_REPO_BYTES
  insertAndRead url s id ⟨origin.githubRepo.getD (localRepo id), root, origin.displayName, .managed,
    some origin.key, some origin.cloneUrl, origin.githubRepo, false⟩

def reserveManaged (url : UrlCrate) (fs : FileSystem) (draws : ℕ → String) (input : String)
    (s : Registry) : Except RegistryError (RegisteredSource × Registry) := do
  boundedText input MAX_ORIGIN_TEXT_BYTES
  let origin ← orFail (parseManagedOrigin url fs input).toOption .origin
  ensure (origin.validate url = .ok ()) .state
  boundedText origin.displayName MAX_DISPLAY_BYTES
  let _ ← checkState s (some s.registryId)
  let found ← readOne url s .originKey origin.key
  match found with
  | some source => return (source, s)
  | none => reserveNewManaged url s draws origin

/-- `UPDATE registered_sources SET ready`, which must change one row. -/
def updateReady (s : Registry) (id : String) (ready : Bool) : Except RegistryError Registry := do
  let row ← orFail (s.rows.find? id) .state
  return { s with rows := s.rows.put id { row with ready := ready } }

/-- The loop of `set_ready_batch`. -/
def setReadyEach (url : UrlCrate) (ready : Bool) :
    List String → Registry → Except RegistryError Registry
  | [], s => .ok s
  | id :: rest, s => do
    let found ← readOne url s .sourceId id
    let source ← orFail found .unregistered
    ensure (source.origin.isSome = true) .localReadiness
    let s ← updateReady s id ready
    setReadyEach url ready rest s

def setReadyBatch (url : UrlCrate) (ids : List String) (ready : Bool) (s : Registry) :
    Except RegistryError Registry := do
  ensure (ids.all (validId · "src_") = true) .identifier
  let _ ← checkState s (some s.registryId)
  setReadyEach url ready ids s

/-- Opening a database that is there: every row is read. -/
def reopen (url : UrlCrate) (fs : FileSystem) (dir : Option String) (s : Registry) :
    Except RegistryError Registry := do
  let appDataDir ← canonicalDirectory fs dir
  let s := { s with appDataDir := appDataDir }
  let _ ← checkState s none
  let _ ← readSources url s none
  return s

/-- Opening a fresh database. -/
def create (fs : FileSystem) (draw : String) (dir : Option String) :
    Except RegistryError Registry := do
  let appDataDir ← canonicalDirectory fs dir
  ensure (validId ("reg_" ++ draw) "reg_" = true) .state
  let s : Registry := ⟨"reg_" ++ draw, appDataDir, .empty⟩
  let _ ← checkState s none
  return s

/-! ### Runs -/

inductive Op
  | registerLocal (fs : FileSystem) (draws : ℕ → String) (path : Option String)
  | reserveManaged (fs : FileSystem) (draws : ℕ → String) (input : String)
  | setReadyBatch (ids : List String) (ready : Bool)
  | reopen (fs : FileSystem) (dir : Option String)

/-- `set_ready` is a batch of one. -/
def Op.setReady (id : String) (ready : Bool) : Op := .setReadyBatch [id] ready

/-- A call returns the source it registered, if any; the database may fail it. -/
def perform (url : UrlCrate) (op : Op) (s : Registry) :
    Except RegistryError (Option RegisteredSource × Registry) :=
  match op with
  | .registerLocal fs draws path => do
    let (source, s') ← registerLocal url fs draws path s
    return (some source, s')
  | .reserveManaged fs draws input => do
    let (source, s') ← reserveManaged url fs draws input s
    return (some source, s')
  | .setReadyBatch ids ready => do
    let s' ← setReadyBatch url ids ready s
    return (none, s')
  | .reopen fs dir => do
    let s' ← reopen url fs dir s
    return (none, s')

/-- A call, failed by the database at any point or not. -/
structure Call where
  op : Op
  fault : Bool

def Call.run (url : UrlCrate) (call : Call) (s : Registry) :
    Except RegistryError (Option RegisteredSource × Registry) := do
  let result ← perform url call.op s
  ensure (call.fault = false) .storage
  return result

def Registry.machine (url : UrlCrate) :
    Machine Registry Call (Except RegistryError (Option RegisteredSource)) where
  init s := ∃ fs draw dir, create fs draw dir = .ok s
  enabled _ _ := True
  step s call := transact (call.run url) s

end Sources

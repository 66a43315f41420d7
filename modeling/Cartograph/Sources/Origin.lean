/-
Origins of managed sources (`crates/ingest/src/managed.rs`).

A managed source is cloned from GitHub or from a local mirror.  Every accepted spelling of
an origin is brought to one form, and the form is checked again when it is read back.

The crate `url` and the file system are parameters (`UrlCrate`, `FileSystem`).  Paths are
those of Unix: a text, or `none` for a path that is not UTF-8.
-/
import Cartograph.Lib.Checked

namespace Sources

open Checked

def MAX_ORIGIN_BYTES : ℕ := 8 * 1024

/-! ### Text -/

/-- `char::is_control`. -/
def isControl (c : Char) : Bool := c.toNat ≤ 0x1f || (0x7f ≤ c.toNat && c.toNat ≤ 0x9f)

/-- `char::is_whitespace`. -/
def isWhitespace (c : Char) : Bool :=
  (0x09 ≤ c.toNat && c.toNat ≤ 0x0d) || c.toNat == 0x20 || c.toNat == 0x85 || c.toNat == 0xa0
    || c.toNat == 0x1680 || (0x2000 ≤ c.toNat && c.toNat ≤ 0x200a) || c.toNat == 0x2028
    || c.toNat == 0x2029 || c.toNat == 0x202f || c.toNat == 0x205f || c.toNat == 0x3000

def trim (text : List Char) : List Char :=
  (text.dropWhile isWhitespace).rdropWhile isWhitespace

/-- `to_ascii_lowercase`. -/
def lower (text : List Char) : List Char := text.map Char.toLower

def splitOnce (c : Char) (text : List Char) : Option (List Char × List Char) :=
  if c ∈ text then some (text.takeWhile (· ≠ c), (text.dropWhile (· ≠ c)).tail) else none

/-- `strip_suffix(".git").unwrap_or(name)`. -/
def withoutGit (name : List Char) : List Char := (name.dropSuffix? ".git".toList).getD name

def asciiAlphanumeric (c : Char) : Bool :=
  (0x30 ≤ c.toNat && c.toNat ≤ 0x39) || (0x41 ≤ c.toNat && c.toNat ≤ 0x5a)
    || (0x61 ≤ c.toNat && c.toNat ≤ 0x7a)

/-! ### Paths -/

/-- The components of an absolute path: `.` and repeated separators are passed over. -/
def components (path : List Char) : List (List Char) :=
  (path.splitOn '/').filter fun part => part != [] && part != ['.']

def isAbsolute (path : List Char) : Bool := path.head? == some '/'

/-- `absolute_normal_path`. -/
def absoluteNormalPath (path : List Char) : Bool :=
  isAbsolute path && !path.contains '\x00' && !(components path).contains ['.', '.']

/-- `file_name`: the last component. -/
def fileName (path : List Char) : Option (List Char) :=
  (components path).getLast?.filter fun part => part != ['.', '.']

/-! ### Origins -/

/-- What is read of a URL. -/
structure Url where
  scheme : String
  username : String
  password : Option String
  host : Option String
  port : Option ℕ
  path : String
  query : Option String
  fragment : Option String

structure UrlCrate where
  parse : String → Option Url
  /-- `to_file_path`; the path may not be UTF-8. -/
  toFilePath : Url → Option (Option String)
  /-- `Url::from_file_path`, as text. -/
  fromFilePath : String → Option String

structure FileSystem where
  canonicalize : Option String → Option (Option String)
  isDir : String → Bool

inductive OriginError
  | invalid
  | io
  deriving DecidableEq

structure ManagedOrigin where
  key : String
  cloneUrl : String
  displayName : String
  githubRepo : Option String
  deriving DecidableEq

def localFileUrl (url : UrlCrate) (input : String) : Except OriginError Url := do
  let parsed ← orFail (url.parse input) .invalid
  ensure (parsed.scheme = "file" ∧ parsed.username = "" ∧ parsed.password = none
    ∧ parsed.query = none ∧ parsed.fragment = none ∧ parsed.port = none
    ∧ ∀ host ∈ parsed.host, host = "localhost") .invalid
  return parsed

def fileOrigin (url : UrlCrate) (path : String) : Except OriginError ManagedOrigin := do
  let cloneUrl ← orFail (url.fromFilePath path) .invalid
  let name ← orFail ((fileName path.toList).filter fun name => name != []) .invalid
  ensure (withoutGit name ≠ []) .invalid
  return ⟨cloneUrl, cloneUrl, String.ofList (withoutGit name), none⟩

/-- The URL that is parsed for a spelling: SSH and shorthand become `https`. -/
def candidate (input : List Char) : List Char :=
  match splitOnce ':' input with
  | some (host, path) =>
    if lower host = "git@github.com".toList then "https://github.com/".toList ++ path else input
  | none => "https://github.com/".toList ++ input

def ownerValid (owner : List Char) : Bool :=
  owner != [] && owner.length ≤ 100 && owner.all fun c => asciiAlphanumeric c || c == '-'

def nameValid (name : List Char) : Bool :=
  name != [] && name.length ≤ 100 && name != ['.'] && name != ['.', '.']
    && name.all fun c => asciiAlphanumeric c || c == '.' || c == '_' || c == '-'

/-- The origin of a repository. -/
def githubRepo (owner name : List Char) : ManagedOrigin :=
  let repo := owner ++ '/' :: name
  ⟨String.ofList ("github:".toList ++ repo),
    String.ofList ("https://github.com/".toList ++ repo ++ ".git".toList),
    String.ofList name, some (String.ofList repo)⟩

/-- The owner and the name a URL's path is read as. -/
def repoOfPath (path : List Char) : Option (List Char × List Char) :=
  let path := lower (path.rdropWhile (· == '/'))
  match ((path.dropPrefix? ['/']).getD path).splitOn '/' with
  | [owner, name] =>
    if ownerValid owner && nameValid (withoutGit name) then some (owner, withoutGit name) else none
  | _ => none

def githubOrigin (url : UrlCrate) (input : String) : Except OriginError ManagedOrigin := do
  let parsed ← orFail (url.parse (String.ofList (candidate input.toList))) .invalid
  ensure (parsed.scheme = "https" ∧ parsed.host = some "github.com" ∧ parsed.username = ""
    ∧ parsed.password = none ∧ parsed.query = none ∧ parsed.fragment = none ∧ parsed.port = none
    ∧ (input.toList.any fun c => isControl c || isWhitespace c || c == '\\') = false) .invalid
  let (owner, name) ← orFail (repoOfPath parsed.path.toList) .invalid
  return githubRepo owner name

/-- The mirror of a `file:` URL, as an origin. -/
def mirrorOrigin (url : UrlCrate) (cloneUrl : String) : Except OriginError ManagedOrigin := do
  let parsed ← localFileUrl url cloneUrl
  let path ← orFail (url.toFilePath parsed) .invalid
  let path ← orFail (path.filter fun path => absoluteNormalPath path.toList) .invalid
  fileOrigin url path

/-- The origin a stored clone URL stands for. -/
def expectedOrigin (url : UrlCrate) (cloneUrl : String) : Except OriginError ManagedOrigin :=
  if "file:".toList.isPrefixOf cloneUrl.toList then mirrorOrigin url cloneUrl
  else githubOrigin url cloneUrl

def ManagedOrigin.validate (url : UrlCrate) (o : ManagedOrigin) : Except OriginError Unit := do
  ensure (o.key.utf8ByteSize ≤ MAX_ORIGIN_BYTES ∧ o.cloneUrl.utf8ByteSize ≤ MAX_ORIGIN_BYTES
    ∧ o.displayName.utf8ByteSize ≤ MAX_ORIGIN_BYTES
    ∧ ∀ repo ∈ o.githubRepo, repo.utf8ByteSize ≤ 201) .invalid
  let expected ← expectedOrigin url o.cloneUrl
  ensure (expected = o) .invalid

/-- The `file:` branch of `parse_managed_origin`. -/
def canonicalMirror (url : UrlCrate) (fs : FileSystem) (input : String) :
    Except OriginError ManagedOrigin := do
  let parsed ← localFileUrl url input
  let path ← orFail (url.toFilePath parsed) .invalid
  let canonical ← orFail (fs.canonicalize path) .io
  let canonical ← orFail (canonical.filter fs.isDir) .invalid
  fileOrigin url canonical

/-- The origin of a trimmed input. -/
def originOf (url : UrlCrate) (fs : FileSystem) (input : String) :
    Except OriginError ManagedOrigin :=
  if lower (input.toList.take 5) = "file:".toList then canonicalMirror url fs input
  else githubOrigin url input

def parseManagedOrigin (url : UrlCrate) (fs : FileSystem) (input : String) :
    Except OriginError ManagedOrigin := do
  let input := String.ofList (trim input.toList)
  ensure (input ≠ "" ∧ input.utf8ByteSize ≤ MAX_ORIGIN_BYTES
    ∧ input.toList.any isControl = false) .invalid
  let origin ← originOf url fs input
  origin.validate url
  return origin

end Sources

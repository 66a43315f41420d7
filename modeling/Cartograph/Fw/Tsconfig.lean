/-
Compiler options (`crates/adapters-fw/src/tsconfig.rs`).

`parse` takes the comments and trailing commas out of a config and reads it as JSON.  `from_str` of
the JSON library is a parameter; a text that it refuses has no facts.

* `jsonc_faithful_iff` — the facts and the text are those of the strict JSON where all strings are
  ASCII;
* `accented_base_url` — a base URL with an accent is read as another one.
-/
import Cartograph.Fw.Jsonc
import Cartograph.Lib.JsonTree

namespace Fw

open Utf8 (bytes encode offsetOf)

/-! ### Facts -/

def SETTING_KEYS : List String :=
  ["target", "module", "moduleResolution", "strict", "jsx", "baseUrl", "paths"]

structure TsconfigFacts where
  settings : Table String Json
  baseUrl : Option String
  paths : List (String × List String)
  span : ℕ × ℕ
  pathsSpan : ℕ × ℕ

/-- `span_of`. -/
def spanOf (text : List Char) (needle : String) : ℕ × ℕ :=
  match offsetOf needle.toList text with
  | some start => (start, start + bytes needle.toList)
  | none => (0, bytes text)

/-- `value[key]`. -/
def index (value : Json) (key : String) : Json := (value.field key).getD .null

def isNull : Json → Bool
  | .null => true
  | _ => false

def asStr : Json → Option String
  | .str s => some s
  | _ => none

/-- A setting, unless it is null. -/
def keep (settings : Table String Json) (key : String) (value : Json) : Table String Json :=
  if isNull value then settings else settings.put key value

def readSettings (json : Json) : Table String Json :=
  keep (SETTING_KEYS.foldl (fun t key => keep t key (index (index json "compilerOptions") key))
    Table.empty) "extends" (index json "extends")

def readPaths (paths : Json) : List (String × List String) :=
  match paths with
  | .obj fields => fields.map fun f =>
    (f.1, match f.2 with
      | .arr targets => targets.filterMap asStr
      | _ => [])
  | _ => []

/-- `parse`, after the text was read. -/
def readFacts (text : List Char) (json : Option Json) : TsconfigFacts :=
  let span := spanOf text "\"compilerOptions\""
  match json with
  | none => ⟨Table.empty, none, [], span, span⟩
  | some json =>
    let paths := index (index json "compilerOptions") "paths"
    { settings := readSettings json
      baseUrl := asStr (index (index json "compilerOptions") "baseUrl")
      paths := readPaths paths
      span := span
      pathsSpan := match paths with
        | .obj _ => spanOf text "\"paths\""
        | _ => span }

/-- `parse`. -/
def parse (fromStr : List Char → Option Json) (text : List Char) : TsconfigFacts :=
  readFacts text (fromStr (sanitizeJsonc text))

/-! ### Documents -/

/-- A strict JSON text with comments and trailing commas between its parts. -/
structure Document where
  lexemes : List Lexeme
  valid : DocValid lexemes

namespace Document

variable (d : Document)

def text : List Char := docText d.lexemes

def strictText : List Char := docText (strict d.lexemes)

/-- The text that is read instead of the strict one. -/
def misreadText : List Char := docText ((strict d.lexemes).map Lexeme.misread)

end Document

/-- The settings, the base URL and the paths are those of the strict text. -/
def SameFacts (fromStr : List Char → Option Json) (d : Document) : Prop :=
  let facts := parse fromStr d.text
  let strictFacts := readFacts d.strictText (fromStr d.strictText)
  facts.settings = strictFacts.settings ∧ facts.baseUrl = strictFacts.baseUrl
    ∧ facts.paths = strictFacts.paths

/-! ### Misread strings -/

theorem length_latin (t : List Char) : (latin t).length = bytes t := by
  rw [latin, List.length_map, Utf8.length_encode]

theorem length_le_latin (t : List Char) : t.length ≤ (latin t).length
    ∧ ((latin t).length = t.length → ∀ c ∈ t, c.toNat < 128) := by
  rw [length_latin]
  induction t with
  | nil => exact ⟨le_rfl, fun _ c hc => absurd hc List.not_mem_nil⟩
  | cons c t ih =>
    obtain ⟨hle, hascii⟩ := ih
    have hpos := c.utf8Size_pos
    rw [Utf8.bytes_cons, List.length_cons]
    refine ⟨by omega, ?_⟩
    intro hlength
    have hone : c.utf8Size = 1 := by omega
    rw [Char.utf8Size_eq_one_iff, UInt32.le_iff_toNat_le] at hone
    exact List.forall_mem_cons.mpr ⟨Nat.lt_succ_of_le hone, hascii (by omega)⟩

theorem misread_of_ascii {body : List Char} (h : ∀ c ∈ body, c.toNat < 128) :
    (Lexeme.str body).misread = .str body := by
  show Lexeme.str (latin (latin body)) = _
  rw [latin_ascii h, latin_ascii h]

theorem misread_of_not_str {l : Lexeme} (h : ∀ body, l ≠ .str body) : l.misread = l := by
  cases l with
  | str body => exact absurd rfl (h body)
  | mark c => rfl
  | line body => rfl
  | block body => rfl
  | trailing => rfl

theorem length_le_misread (l : Lexeme) : l.text.length ≤ l.misread.text.length
    ∧ (l.misread.text.length = l.text.length → ∀ body, l = .str body → ∀ c ∈ body, c.toNat < 128) := by
  by_cases hstr : ∃ body, l = .str body
  · obtain ⟨body, rfl⟩ := hstr
    obtain ⟨hfirst, hascii⟩ := length_le_latin body
    have hsecond := (length_le_latin (latin body)).1
    have htext : ∀ t, (Lexeme.str t).text.length = t.length + 2 := by
      intro t
      rw [Lexeme.text, List.length_cons, List.length_append]
      rfl
    show (Lexeme.str body).text.length ≤ (Lexeme.str (latin (latin body))).text.length
      ∧ ((Lexeme.str (latin (latin body))).text.length = (Lexeme.str body).text.length → _)
    rw [htext, htext]
    refine ⟨by omega, ?_⟩
    rintro hlength body' ⟨⟩
    exact hascii (by omega)
  · rw [misread_of_not_str fun body hbody => hstr ⟨body, hbody⟩]
    exact ⟨le_rfl, fun _ body hbody => absurd ⟨body, hbody⟩ hstr⟩

theorem sanitizeJsonc_document (d : Document) : sanitizeJsonc d.text = d.misreadText :=
  sanitizeJsonc_text d.valid

theorem ascii_of_length {lexemes : List Lexeme}
    (h : (docText (lexemes.map Lexeme.misread)).length = (docText lexemes).length) :
    ∀ body, .str body ∈ lexemes → ∀ c ∈ body, c.toNat < 128 := by
  have hle : ∀ lexemes : List Lexeme,
      (docText lexemes).length ≤ (docText (lexemes.map Lexeme.misread)).length := by
    intro lexemes
    rw [docText, docText, List.length_flatMap, List.length_flatMap, List.map_map]
    exact List.sum_le_sum fun l _ => (length_le_misread l).1
  induction lexemes with
  | nil => exact fun body hbody => absurd hbody List.not_mem_nil
  | cons l lexemes ih =>
    obtain ⟨hl, hascii⟩ := length_le_misread l
    have hrest := hle lexemes
    rw [List.map_cons, docText_cons, docText_cons, List.length_append, List.length_append] at h
    intro body hbody
    obtain hbody | hbody := List.mem_cons.mp hbody
    · exact hascii (by omega) body hbody.symm
    · exact ih (by omega) body hbody

theorem sanitizeJsonc_eq_iff (d : Document) : sanitizeJsonc d.text = d.strictText
    ↔ ∀ body, .str body ∈ d.lexemes → ∀ c ∈ body, c.toNat < 128 := by
  have hmem : ∀ body, .str body ∈ d.lexemes ↔ .str body ∈ strict d.lexemes := by
    intro body
    rw [strict, List.mem_filter]
    exact (and_iff_left rfl).symm
  rw [sanitizeJsonc_document]
  simp only [hmem]
  constructor
  · intro h
    exact ascii_of_length (congrArg List.length h)
  · intro h
    have hkept : (strict d.lexemes).map Lexeme.misread = (strict d.lexemes).map id := by
      refine List.map_congr_left ?_
      intro l hl
      by_cases hstr : ∃ body, l = .str body
      · obtain ⟨body, rfl⟩ := hstr
        exact misread_of_ascii (h body hl)
      · exact misread_of_not_str fun body hbody => hstr ⟨body, hbody⟩
    rw [Document.misreadText, hkept, List.map_id]
    rfl

/-- Exactly the comments and trailing commas are taken out, and the facts are those of the strict
text, where all strings are written in ASCII. -/
theorem jsonc_faithful_iff (d : Document) (fromStr : List Char → Option Json) :
    sanitizeJsonc d.text = d.strictText ∧ SameFacts fromStr d
      ↔ ∀ body, .str body ∈ d.lexemes → ∀ c ∈ body, c.toNat < 128 := by
  rw [← sanitizeJsonc_eq_iff]
  refine and_iff_left_of_imp ?_
  intro htext
  rw [SameFacts, parse, htext]
  cases fromStr d.strictText with
  | none => exact ⟨rfl, rfl, rfl⟩
  | some json => exact ⟨rfl, rfl, rfl⟩

/-! ### Configs -/

/-- A config with a base URL. -/
def config (url : String) : Json := .obj [("compilerOptions", .obj [("baseUrl", .str url)])]

/-- A reader of configs with two base URLs, one with an accent. -/
def reader (text : List Char) : Option Json :=
  if text = "\x7b\"compilerOptions\":\x7b\"baseUrl\":\"é\"\x7d\x7d".toList then some (config "é")
  else if text = "\x7b\"compilerOptions\":\x7b\"baseUrl\":\"Ã\u0083Â©\"\x7d\x7d".toList then
    some (config "Ã\u0083Â©")
  else none

theorem body_of_all {text : List Char} (h : text.all (fun c => c != '"' && c != '\\') = true) :
    Body text := by
  rw [← List.append_nil text]
  refine body_append ?_ .nil
  intro c hc
  have hchar := List.all_eq_true.mp h c hc
  rwa [Bool.and_eq_true, bne_iff_ne, bne_iff_ne] at hchar

theorem mark_valid {c : Char} {d : List Lexeme}
    (h : c.toNat < 128 ∧ c ≠ '"' ∧ c ≠ '/' ∧ c ≠ ',') : (Lexeme.mark c).Valid d :=
  ⟨h.1, h.2.1, h.2.2.1, fun hc => absurd hc h.2.2.2⟩

/-- A base URL with an accent. -/
def accented : Document where
  lexemes := [.mark '\x7b', .str "compilerOptions".toList, .mark ':', .mark '\x7b',
    .str "baseUrl".toList, .mark ':', .str ['é'], .mark '\x7d', .mark '\x7d']
  valid := ⟨mark_valid (by decide), body_of_all rfl, mark_valid (by decide), mark_valid (by decide),
    body_of_all rfl, mark_valid (by decide), body_of_all rfl, mark_valid (by decide),
    mark_valid (by decide), trivial⟩

theorem accented_base_url :
    accented.text = "\x7b\"compilerOptions\":\x7b\"baseUrl\":\"é\"\x7d\x7d".toList
      ∧ accented.strictText = accented.text
      ∧ (readFacts accented.strictText (reader accented.strictText)).baseUrl = some "é"
      ∧ (parse reader accented.text).baseUrl = some "Ã\u0083Â©"
      ∧ ¬SameFacts reader accented := by
  have hread : reader accented.strictText = some (config "é") := if_pos rfl
  have hmisread : reader accented.misreadText = some (config "Ã\u0083Â©") := by
    have hne : accented.misreadText
        ≠ "\x7b\"compilerOptions\":\x7b\"baseUrl\":\"é\"\x7d\x7d".toList := by decide
    have heq : accented.misreadText
        = "\x7b\"compilerOptions\":\x7b\"baseUrl\":\"Ã\u0083Â©\"\x7d\x7d".toList := by decide
    rw [reader, if_neg hne, if_pos heq]
  have hstrict : (readFacts accented.strictText (reader accented.strictText)).baseUrl
      = some "é" := by
    rw [hread]
    rfl
  have hparse : (parse reader accented.text).baseUrl = some "Ã\u0083Â©" := by
    rw [parse, sanitizeJsonc_document, hmisread]
    rfl
  refine ⟨rfl, rfl, hstrict, hparse, ?_⟩
  intro hsame
  have hurl := hsame.2.1
  rw [hstrict, hparse] at hurl
  exact absurd hurl (by decide)

end Fw

/-
Traces (`crates/dynamic/src/lib.rs`).

A trace file has one export request in JSON a line.  Every span with an id is an observation, and
its evidence is a byte range of the file, found by searching the line for the text of the id.
The JSON reader is a parameter: it says how a line is written, or why it is not JSON.  So is the
conversion of a number to a double.

* `parse_spans` — the spans are the span objects with an id, in the order of the file;
* `evidence_delimits_iff` — when the range is the one of the id;
* `evidence_elsewhere` — a span whose evidence is in another span.
-/
import Cartograph.Lib.Json
import Cartograph.Lib.JsonSyntax
import Cartograph.Lib.Table
import Cartograph.Sources.Origin

namespace Dynamic

open Utf8 JsonSyntax Sources

inductive TraceError
  | json (line : ℕ) (reason : String)
  | shape
  deriving DecidableEq

structure ObservedSpan where
  traceId : String
  spanId : String
  name : String
  attributes : Table String Json
  resourceAttributes : Table String Json
  evidenceSpan : ℕ × ℕ

/-! ### Fields -/

/-- The items of the first of the members that is an array. -/
def arrayField (l : Located) (names : List String) : List Located :=
  (names.findSome? fun name => (l.get name).bind Located.elements).getD []

/-- The first of the members that is a string. -/
def stringPart (l : Located) (names : List String) : Option Located :=
  names.findSome? fun name => (l.get name).filter fun m => m.pieces.isSome

/-- What a string stands for. -/
def asChars (l : Located) : Option (List Char) := l.pieces.map chars

def stringField (l : Located) (names : List String) : List Char :=
  ((stringPart l names).bind asChars).getD []

def asScalar (l : Located) : Option (List Char) :=
  match l.part with
  | .scalar text => some text
  | _ => none

def unsigned (negative : Bool) (digits : List Char) : Option ℤ :=
  let n : ℤ := digits.foldl (fun n c => 10 * n + (c.toNat - '0'.toNat : ℕ)) 0
  let signed := if negative then -n else n
  if digits ≠ [] ∧ (digits.all fun c => '0' ≤ c ∧ c ≤ '9') ∧ -2 ^ 63 ≤ signed ∧ signed < 2 ^ 63 then
    some signed
  else none

/-- `str::parse::<i64>`. -/
def parseI64 : List Char → Option ℤ
  | '-' :: digits => unsigned true digits
  | '+' :: digits => unsigned false digits
  | digits => unsigned false digits

/-- `as_i64`: a negative zero is a double. -/
def asI64 (text : List Char) : Option ℤ := if text = ['-', '0'] then none else parseI64 text

section

variable (double : List Char → Option Json)

/-- `any_value`: the scalars of OTLP. -/
def anyValue (value : Located) : Option Json :=
  let named (names : List String) (read : Located → Option Json) : Option Json :=
    names.findSome? fun name => (value.get name).bind read
  (named ["stringValue", "string_value"] fun v => (asChars v).map fun s => .str (String.ofList s)).or <|
  (named ["intValue", "int_value"] fun v =>
    (((asScalar v).bind asI64).or ((asChars v).bind parseI64)).map fun n => .num (toString n)).or <|
  (named ["doubleValue", "double_value"] fun v => (asScalar v).bind double).or <|
  named ["boolValue", "bool_value"] fun v => (asScalar v).bind fun text =>
    if text = "true".toList then some (.bool true)
    else if text = "false".toList then some (.bool false) else none

def attributes (value : Located) : Table String Json :=
  ((arrayField value ["attributes"]).filterMap fun l => do
    let key ← (l.get "key").bind asChars
    let value ← (l.get "value").bind (anyValue double)
    pure (String.ofList key, value)).foldl (fun t kv => t.put kv.1 kv.2) Table.empty

/-! ### Lines -/

/-- `split_inclusive('\n')`. -/
def splitInclusive : List Char → List (List Char)
  | [] => []
  | c :: rest =>
    if c = '\n' then [c] :: splitInclusive rest
    else match splitInclusive rest with
      | [] => [[c]]
      | line :: lines => (c :: line) :: lines

/-- The document of a line, in its line. -/
def lineDocument (line : List Char) (document : JsonSyntax) : Located :=
  ⟨line.takeWhile isWhitespace, document, (line.dropWhile isWhitespace).rtakeWhile isWhitespace⟩

def resourceSpans (document : Located) : List Located :=
  arrayField document ["resourceSpans", "resource_spans"]

/-- The span objects of a document, with the resource that each is under. -/
def spanObjects (document : Located) : List (Located × Located) :=
  (resourceSpans document).flatMap fun resource =>
    (arrayField resource ["scopeSpans", "scope_spans"]).flatMap fun scope =>
      (arrayField scope ["spans"]).map fun span => (resource, span)

/-- A span object of a file, with the text before its line. -/
structure SpanPart where
  before : List Char
  line : List Char
  resource : Located
  span : Located

namespace SpanPart

variable (p : SpanPart)

def id : List Char := stringField p.span ["spanId", "span_id"]

/-- Where the id is searched for, and found or not. -/
def start : ℕ := bytes p.before + (offsetOf p.id p.line).getD 0

def observed : ObservedSpan where
  traceId := String.ofList (stringField p.span ["traceId", "trace_id"])
  spanId := String.ofList p.id
  name := String.ofList (stringField p.span ["name"])
  attributes := attributes double p.span
  resourceAttributes := ((p.resource.get "resource").map (attributes double)).getD Table.empty
  evidenceSpan := (p.start, p.start + bytes p.id)

end SpanPart

def lineParts (before line : List Char) (document : JsonSyntax) : List SpanPart :=
  ((spanObjects (lineDocument line document)).map fun s => ⟨before, line, s.1, s.2⟩).filter
    fun p => !p.id.isEmpty

variable (read : List Char → Except String JsonSyntax)

/-- The loop over the lines: the spans, and whether there was an export request. -/
def parseLines (index : ℕ) (before : List Char) :
    List (List Char) → Except TraceError (List ObservedSpan × Bool)
  | [] => .ok ([], false)
  | line :: rest =>
    if (trim line).isEmpty then parseLines (index + 1) (before ++ line) rest
    else
      match read (trim line) with
      | .error reason => .error (.json (index + 1) reason)
      | .ok document =>
        (parseLines (index + 1) (before ++ line) rest).map fun later =>
          ((lineParts before line document).map (SpanPart.observed double) ++ later.1,
            !(resourceSpans (lineDocument line document)).isEmpty || later.2)

def parseOtlpJsonl (raw : List Char) : Except TraceError (List ObservedSpan) :=
  match parseLines double read 0 [] (splitInclusive raw) with
  | .error e => .error e
  | .ok (spans, sawTraceShape) => if sawTraceShape then .ok spans else .error .shape

end

/-! ### Span objects -/

variable {lines : List (List Char)} {before : List Char} {l : Located} {names : List String}

section

variable {double : List Char → Option Json} {read : List Char → Except String JsonSyntax}

theorem flatten_splitInclusive (raw : List Char) : (splitInclusive raw).flatten = raw := by
  induction raw with
  | nil => rfl
  | cons c rest ih =>
    rw [splitInclusive]
    split_ifs with hc
    · rw [List.flatten_cons, ih, List.singleton_append]
    · cases hrest : splitInclusive rest with
      | nil =>
        rw [hrest] at ih
        rw [← ih]
        rfl
      | cons line lines =>
        rw [hrest] at ih
        rw [List.flatten_cons, List.cons_append, ← List.flatten_cons, ih]

theorem text_lineDocument {line : List Char} {document : JsonSyntax}
    (h : document.text = trim line) : (lineDocument line document).text = line := by
  show line.takeWhile isWhitespace ++ document.text
    ++ (line.dropWhile isWhitespace).rtakeWhile isWhitespace = line
  have hright : ∀ l : List Char, l.rdropWhile isWhitespace ++ l.rtakeWhile isWhitespace = l := by
    intro l
    rw [List.rdropWhile, List.rtakeWhile, ← List.reverse_append, List.takeWhile_append_dropWhile,
      List.reverse_reverse]
  rw [h, trim, List.append_assoc, hright, List.takeWhile_append_dropWhile]

/-- The span objects of the lines that are read, with an id. -/
def spanParts (read : List Char → Except String JsonSyntax) (before : List Char) :
    List (List Char) → List SpanPart
  | [] => []
  | line :: rest =>
    (if (trim line).isEmpty then []
      else match read (trim line) with
        | .error _ => []
        | .ok document => lineParts before line document)
      ++ spanParts read (before ++ line) rest

theorem parseLines_spans {index : ℕ} {r : List ObservedSpan × Bool}
    (h : parseLines double read index before lines = .ok r) :
    r.1 = (spanParts read before lines).map (SpanPart.observed double) := by
  induction lines generalizing index before r with
  | nil =>
    obtain rfl := Except.ok.inj h
    rfl
  | cons line rest ih =>
    rw [parseLines] at h
    rw [spanParts]
    split_ifs at h ⊢ with hempty
    · exact ih h
    · cases hread : read (trim line) with
      | error reason =>
        rw [hread] at h
        cases h
      | ok document =>
        simp only [hread] at h ⊢
        cases hlater : parseLines double read (index + 1) (before ++ line) rest with
        | error e =>
          rw [hlater] at h
          cases h
        | ok later =>
          rw [hlater] at h
          obtain rfl := Except.ok.inj h
          show (lineParts before line document).map (SpanPart.observed double) ++ later.1 = _
          rw [ih hlater, List.map_append]

theorem parse_spans {raw : List Char} {spans : List ObservedSpan}
    (h : parseOtlpJsonl double read raw = .ok spans) :
    spans = (spanParts read [] (splitInclusive raw)).map (SpanPart.observed double) := by
  rw [parseOtlpJsonl] at h
  cases hlines : parseLines double read 0 [] (splitInclusive raw) with
  | error e =>
    rw [hlines] at h
    cases h
  | ok r =>
    rw [hlines] at h
    simp only at h
    split_ifs at h
    rw [← Except.ok.inj h]
    exact parseLines_spans hlines

/-! ### Evidence -/

theorem text_of_arrayField {item : Located} (h : item ∈ arrayField l names) :
    item.text = l.text := by
  rw [arrayField] at h
  cases hfound : names.findSome? fun name => (l.get name).bind Located.elements with
  | none =>
    rw [hfound] at h
    cases h
  | some items =>
    rw [hfound] at h
    obtain ⟨name, -, hname⟩ := List.exists_of_findSome?_eq_some hfound
    obtain ⟨m, hget, helements⟩ := Option.bind_eq_some_iff.mp hname
    rw [Located.text_of_mem_elements helements h, Located.text_of_get hget]

theorem text_of_stringPart {m : Located} (h : stringPart l names = some m) :
    m.text = l.text ∧ ∃ ps, m.pieces = some ps := by
  obtain ⟨name, -, hname⟩ := List.exists_of_findSome?_eq_some h
  obtain ⟨hget, hpieces⟩ := Option.filter_eq_some_iff.mp hname
  exact ⟨Located.text_of_get hget, Option.isSome_iff_exists.mp hpieces⟩

theorem text_of_spanObjects {document : Located} {s : Located × Located}
    (h : s ∈ spanObjects document) : s.2.text = document.text := by
  obtain ⟨resource, hresource, hs⟩ := List.mem_flatMap.mp h
  obtain ⟨scope, hscope, hs⟩ := List.mem_flatMap.mp hs
  obtain ⟨span, hspan, rfl⟩ := List.mem_map.mp hs
  rw [text_of_arrayField hspan, text_of_arrayField hscope, text_of_arrayField hresource]

/-- A span object of a file is in its line, and the line in the file. -/
structure SpanPart.InFile (p : SpanPart) (raw : List Char) : Prop where
  line : p.span.text = p.line
  file : ∃ after, raw = p.before ++ p.line ++ after
  named : p.id ≠ []

variable {p : SpanPart}

theorem spanParts_inFile (hread : ∀ t s, read t = .ok s → s.text = t)
    (h : p ∈ spanParts read before lines) :
    p.InFile (before ++ lines.flatten) := by
  induction lines generalizing before with
  | nil => cases h
  | cons line rest ih =>
    rw [spanParts] at h
    rcases List.mem_append.mp h with h | h
    · split_ifs at h with hempty
      · cases h
      cases hline : read (trim line) with
      | error reason =>
        rw [hline] at h
        cases h
      | ok document =>
        rw [hline] at h
        obtain ⟨hpart, hnamed⟩ := List.mem_filter.mp h
        obtain ⟨s, hs, rfl⟩ := List.mem_map.mp hpart
        refine ⟨?_, ⟨rest.flatten, ?_⟩, ?_⟩
        · show s.2.text = line
          rw [text_of_spanObjects hs, text_lineDocument (hread _ _ hline)]
        · rw [List.flatten_cons, List.append_assoc]
        · simpa using hnamed
    · have hrest := ih h
      rwa [List.append_assoc, ← List.flatten_cons] at hrest

theorem SpanPart.idPart (h : p.id ≠ []) :
    ∃ value ps, stringPart p.span ["spanId", "span_id"] = some value ∧ value.pieces = some ps
      ∧ p.id = chars ps := by
  have hid : p.id = ((stringPart p.span ["spanId", "span_id"]).bind asChars).getD [] := rfl
  cases hvalue : stringPart p.span ["spanId", "span_id"] with
  | none =>
    rw [hvalue] at hid
    exact absurd hid h
  | some value =>
    obtain ⟨-, ps, hps⟩ := text_of_stringPart hvalue
    refine ⟨value, ps, rfl, hps, ?_⟩
    rw [hid, hvalue, Option.bind_some, asChars, hps]
    rfl

/-- The range that is searched for is the one of the id when the id is written as it is, and
nowhere before. -/
theorem evidence_iff {lead rest : List Char} {ps : List Piece} (hid : p.id = chars ps)
    (hline : p.line = lead ++ written ps ++ rest) :
    (p.observed double).evidenceSpan
        = (bytes (p.before ++ lead), bytes (p.before ++ lead ++ written ps)) ↔
      written ps = chars ps
        ∧ ∀ pre, OccursAfter (chars ps) p.line pre → lead.length ≤ pre.length := by
  have hocc : written ps = chars ps → OccursAfter (chars ps) p.line lead := by
    intro hplain
    rw [OccursAfter, hline, hplain]
    exact List.prefix_append _ _
  have hspan : (p.observed double).evidenceSpan
      = (bytes p.before + (offsetOf (chars ps) p.line).getD 0,
        bytes p.before + (offsetOf (chars ps) p.line).getD 0 + bytes (chars ps)) := by
    rw [← hid]
    rfl
  rw [hspan, Prod.mk.injEq]
  simp only [bytes_append]
  constructor
  · rintro ⟨hstart, hend⟩
    have hplain := (bytes_written_iff ps).mp (by omega)
    exact ⟨hplain, (offsetOf_eq_bytes_iff (hocc hplain)).mp (by omega)⟩
  · rintro ⟨hplain, hfirst⟩
    have hstart := (offsetOf_eq_bytes_iff (hocc hplain)).mpr hfirst
    rw [hstart, hplain]
    exact ⟨rfl, rfl⟩

end

/-- **Evidence of spans.**  The spans of a file are its span objects with an id, in order.  The
evidence of a span is the range of its id in the file exactly when the id is written without
escapes and its text does not occur in the line before its value. -/
theorem evidence_delimits_iff {double : List Char → Option Json}
    {read : List Char → Except String JsonSyntax} {raw : List Char} {spans : List ObservedSpan}
    (hread : ∀ t s, read t = .ok s → s.text = t) (hparse : parseOtlpJsonl double read raw = .ok spans) :
    spans = (spanParts read [] (splitInclusive raw)).map (SpanPart.observed double)
      ∧ ∀ p ∈ spanParts read [] (splitInclusive raw), ∃ value ps after,
        stringPart p.span ["spanId", "span_id"] = some value ∧ value.pieces = some ps
          ∧ raw = p.before ++ (value.before ++ ['"']) ++ written ps ++ after
          ∧ ((p.observed double).evidenceSpan
              = (bytes (p.before ++ (value.before ++ ['"'])),
                bytes (p.before ++ (value.before ++ ['"']) ++ written ps)) ↔
            written ps = chars ps ∧ ∀ pre, OccursAfter (chars ps) p.line pre →
              (value.before ++ ['"']).length ≤ pre.length) := by
  refine ⟨parse_spans hparse, fun p hp => ?_⟩
  have hfile := spanParts_inFile hread hp
  rw [List.nil_append, flatten_splitInclusive] at hfile
  obtain ⟨value, ps, hvalue, hps, hid⟩ := SpanPart.idPart hfile.named
  obtain ⟨after, hraw⟩ := hfile.file
  have hline : p.line = value.before ++ ['"'] ++ written ps ++ '"' :: value.after := by
    rw [← hfile.line, ← (text_of_stringPart hvalue).1, Located.text_of_pieces hps]
  refine ⟨value, ps, '"' :: value.after ++ after, hvalue, hps, ?_, evidence_iff hid hline⟩
  rw [hraw, hline]
  simp only [List.append_assoc]

namespace Sample

def quoted (s : String) : List Piece := s.toList.map .plain

/-- Parts with a comma after all but the last. -/
def separated {α : Type} : List α → List (α × List Char)
  | [] => []
  | [a] => [(a, [])]
  | a :: rest => (a, [',']) :: separated rest

def array (items : List JsonSyntax) : JsonSyntax := .arr [] (separated items)

def object (members : List (String × JsonSyntax)) : JsonSyntax :=
  .obj [] ((separated members).map fun m => (quoted m.1.1, [':'], m.1.2, m.2))

/-- A span whose parent comes after it, and the parent. -/
def traceDocument : JsonSyntax :=
  object [("resourceSpans", array [object [("scopeSpans", array [object [("spans", array [
    object [("spanId", .str (quoted "a1")), ("parentSpanId", .str (quoted "b2"))],
    object [("spanId", .str (quoted "b2"))]])]])]])]

def readTrace (t : List Char) : Except String JsonSyntax :=
  if t = traceDocument.text then .ok traceDocument else .error "expected value"

theorem readTrace_text : ∀ t s, readTrace t = .ok s → s.text = t := by
  intro t s h
  rw [readTrace] at h
  split_ifs at h with ht
  rw [ht, ← Except.ok.inj h]

theorem readTrace_spans : ∃ spans,
    parseOtlpJsonl (fun _ => none) readTrace traceDocument.text = .ok spans := by
  have hok : (parseOtlpJsonl (fun _ => none) readTrace traceDocument.text).isOk = true := by
    decide
  cases h : parseOtlpJsonl (fun _ => none) readTrace traceDocument.text with
  | error e =>
    rw [h] at hok
    cases hok
  | ok spans => exact ⟨spans, rfl⟩

end Sample

/-- The spans of the sample. -/
theorem evidence_delimits_iff_sample : ∃ spans,
    parseOtlpJsonl (fun _ => none) Sample.readTrace Sample.traceDocument.text = .ok spans
      ∧ spans = (spanParts Sample.readTrace [] (splitInclusive Sample.traceDocument.text)).map
        (SpanPart.observed fun _ => none) := by
  obtain ⟨spans, hspans⟩ := Sample.readTrace_spans
  exact ⟨spans, hspans, (evidence_delimits_iff Sample.readTrace_text hspans).1⟩

/-- The evidence of the parent is where its child names it. -/
theorem evidence_elsewhere : ¬∀ (double : List Char → Option Json)
    (read : List Char → Except String JsonSyntax) (raw : List Char) (spans : List ObservedSpan),
    (∀ t s, read t = .ok s → s.text = t) → parseOtlpJsonl double read raw = .ok spans →
    ∀ p ∈ spanParts read [] (splitInclusive raw), ∀ value ps,
      stringPart p.span ["spanId", "span_id"] = some value → value.pieces = some ps →
      (p.observed double).evidenceSpan
        = (bytes (p.before ++ (value.before ++ ['"'])),
          bytes (p.before ++ (value.before ++ ['"']) ++ written ps)) := by
  intro hall
  obtain ⟨spans, hspans⟩ := Sample.readTrace_spans
  have hranges : ((spanParts Sample.readTrace [] (splitInclusive Sample.traceDocument.text))[1]?.bind
      fun p => (stringPart p.span ["spanId", "span_id"]).bind fun value =>
        value.pieces.map fun ps => decide ((p.observed fun _ => none).evidenceSpan
          = (bytes (p.before ++ (value.before ++ ['"'])),
            bytes (p.before ++ (value.before ++ ['"']) ++ written ps)))) = some false := by
    decide
  obtain ⟨p, hp, hrest⟩ := Option.bind_eq_some_iff.mp hranges
  obtain ⟨value, hvalue, hrest⟩ := Option.bind_eq_some_iff.mp hrest
  obtain ⟨ps, hps, hne⟩ := Option.map_eq_some_iff.mp hrest
  exact of_decide_eq_false hne (hall _ _ _ spans Sample.readTrace_text hspans p
    (List.mem_of_getElem? hp) value ps hvalue hps)

end Dynamic

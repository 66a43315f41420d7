/-
Found decisions (`crates/spec/src/adr.rs`).

A Markdown decision names what it governs in a field of one line, and cites other ids as inline
code.  The field is read once for its items, and once more, by a search for the text of each
item, for their places.

The functions that read a field look at characters only, so they are given for any elements
that have one: a text, or a text whose characters know their offsets, in which the items have
places.

* `field_map`, `listField_map` — only the characters are read;
* `find?_mentions` — the place that is cited for an id;
* `governed_recorded_iff` — when every item is cited at its own place.
-/
import Cartograph.Lib.Utf8
import Cartograph.Sources.Origin
import Cartograph.Spec.Decisions

namespace Spec

open GraphStore Investigation
open Utf8 (bytes offsetOf OccursAfter)

def FOUND_ADR_EXTRACTOR_ID : String := "t0.adr-markdown"

/-! ### Fields -/

section Fields

variable {α : Type} (char : α → Char)

/-- `str::split_inclusive('\n')`. -/
def splitInclusive : List α → List (List α)
  | [] => []
  | a :: rest =>
    if char a = '\n' then [a] :: splitInclusive rest
    else
      match splitInclusive rest with
      | [] => [[a]]
      | line :: lines => (a :: line) :: lines

/-- A line without its end. -/
def chomp (line : List α) : List α :=
  match line.reverse with
  | [] => []
  | a :: before =>
    if char a = '\n' then
      match before with
      | [] => []
      | b :: more => if char b = '\r' then more.reverse else before.reverse
    else line

/-- `str::lines`. -/
def textLines (text : List α) : List (List α) := (splitInclusive char text).map (chomp char)

/-- `str::trim`. -/
def trimmed (text : List α) : List α :=
  (text.dropWhile fun a => Sources.isWhitespace (char a)).rdropWhile fun a =>
    Sources.isWhitespace (char a)

/-- `replace("**", "")`. -/
def withoutBold : List α → List α
  | a :: b :: rest =>
    if char a = '*' ∧ char b = '*' then withoutBold rest else a :: withoutBold (b :: rest)
  | text => text

/-- A line without list marks and emphasis. -/
def normalized (line : List α) : List α :=
  withoutBold char ((trimmed char line).dropWhile fun a => ['-', '*', ' '].contains (char a))

/-- `to_ascii_lowercase().starts_with(needle)`. -/
def beginsWith (needle : List Char) (text : List α) : Bool :=
  needle.isPrefixOf (text.map fun a => (char a).toLower)

/-- The name of a field with its colon. -/
def fieldNeedle (name : String) : List Char := name.toList.map Char.toLower ++ [':']

def field (text : List α) (name : String) : Option (List α) :=
  (textLines char text).findSome? fun line =>
    if beginsWith char (fieldNeedle name) (normalized char line) then
      let value := trimmed char ((normalized char line).drop (fieldNeedle name).length)
      if value.isEmpty then none else some value
    else none

/-- `trim_matches` of the marks around an item. -/
def unmarked (item : List α) : List α :=
  (item.dropWhile fun a => ['\x60', '[', ']', '(', ')', ' '].contains (char a)).rdropWhile
    fun a => ['\x60', '[', ']', '(', ')', ' '].contains (char a)

def listField (text : List α) (name : String) : List (List α) :=
  match field char text name with
  | none => []
  | some value =>
    ((value.splitOnP fun a => [',', ';'].contains (char a)).map fun item =>
      unmarked char (trimmed char item)).filter fun item => !item.isEmpty

end Fields

/-! ### Places -/

/-- The search of `field_target_span`, after so many bytes. -/
def lineTargetSpan (name : String) (target : List Char) : ℕ → List (List Char) → Option (ℕ × ℕ)
  | _, [] => none
  | offset, line :: lines =>
    if beginsWith id (fieldNeedle name) (normalized id line) then
      (offsetOf target line).map fun at_ => (offset + at_, offset + at_ + bytes target)
    else lineTargetSpan name target (offset + bytes line) lines

def fieldTargetSpan (text : List Char) (name : String) (target : List Char) : Option (ℕ × ℕ) :=
  lineTargetSpan name target 0 (splitInclusive id text)

/-- The rest of `inline_code` at a byte; `opened` is what stands since an opening backtick, with
its place. -/
def inlineCodeFrom : ℕ → Option (ℕ × List Char) → List Char → List (List Char × ℕ × ℕ)
  | _, _, [] => []
  | cursor, none, c :: rest =>
    if c = '\x60' then inlineCodeFrom (cursor + c.utf8Size) (some (cursor + c.utf8Size, [])) rest
    else inlineCodeFrom (cursor + c.utf8Size) none rest
  | cursor, some (start, code), c :: rest =>
    if c = '\x60' then
      (if start < cursor then [(code, start, cursor)] else [])
        ++ inlineCodeFrom (cursor + c.utf8Size) none rest
    else inlineCodeFrom (cursor + c.utf8Size) (some (start, code ++ [c])) rest

def inlineCode (text : List Char) : List (List Char × ℕ × ℕ) := inlineCodeFrom 0 none text

/-! ### The facts of one file -/

/-- A governed target, where it is a candidate and found. -/
def govern (candidates : List String) (text : List Char) (mentions : Table String (ℕ × ℕ))
    (target : List Char) : Table String (ℕ × ℕ) :=
  if candidates.contains (String.ofList target) then
    match fieldTargetSpan text "Governs" target with
    | some span => mentions.put (String.ofList target) span
    | none => mentions
  else mentions

/-- A candidate in inline code, unless there is a place for it. -/
def cite (candidates : List String) (mentions : Table String (ℕ × ℕ))
    (code : List Char × ℕ × ℕ) : Table String (ℕ × ℕ) :=
  if candidates.contains (String.ofList code.1)
      && (mentions.find? (String.ofList code.1)).isNone then
    mentions.put (String.ofList code.1) code.2
  else mentions

/-- The ids that a decision names, each with a place. -/
def mentions (candidates : List String) (text : List Char) : Table String (ℕ × ℕ) :=
  (inlineCode text).foldl (cite candidates)
    ((listField id text "Governs").foldl (govern candidates text) .empty)

/-- What follows `# ` at the beginning of a line. -/
def headingOf (line : List Char) : Option (List Char) :=
  (line.dropPrefix? "# ".toList).map fun title => trimmed id title

def heading (text : List Char) (fallback : String) : String :=
  match (textLines id text).findSome? headingOf with
  | none => fallback
  | some title => if title.isEmpty then fallback else String.ofList title

/-- The labels that a decision forbids. -/
def forbids (text : List Char) : List String :=
  ((listField id text "Forbids").filter fun label =>
    label.all fun c => c.isUpper || c == '_').map String.ofList

section Found

variable (contentHash : String → Hash) (repo relative commit : String)

def adrEvidence (start stop : ℕ) : EvidenceRef := ⟨repo, relative, start, stop, commit⟩

def adrProvenance (evidence : EvidenceRef) (fact : String) : Provenance :=
  ⟨.deterministic, .confirmed, [evidence], FOUND_ADR_EXTRACTOR_ID, (contentHash fact).text⟩

def adrId : String := "adr:" ++ repo ++ "@" ++ relative

def decidesEdge (target : String) (span : ℕ × ℕ) : Edge Json :=
  { src := adrId repo relative
    dst := target
    label := "DECIDES"
    props := .obj [("prov", (adrProvenance contentHash
      (adrEvidence repo relative commit span.1 span.2)
      (adrId repo relative ++ " DECIDES " ++ target)).toJson)] }

def adrNode (markdown : String) (stem : Option String) : Node Json :=
  { id := adrId repo relative
    label := "ADR"
    props := .obj [("title", .str (heading markdown.toList (stem.getD "Untitled decision"))),
      ("status", .str (((field id markdown.toList "Status").map String.ofList).getD "Found")),
      ("body", .str markdown), ("path", .str relative), ("origin", .str "found"),
      ("recovered", .bool false), ("forbids", .arr ((forbids markdown.toList).map .str)),
      ("prov", (adrProvenance contentHash
        (adrEvidence repo relative commit 0 markdown.utf8ByteSize)
        (Json.render (.arr [.str (adrId repo relative), .str markdown]))).toJson)] }

/-- `extract_found_adrs`, of one file that was read. -/
def foundAdr (candidates : List String) (stem : Option String) (markdown : String) : AdrFacts :=
  ⟨[adrNode contentHash repo relative commit markdown stem],
    (mentions candidates markdown.toList).rows.map fun m =>
      decidesEdge contentHash repo relative commit m.1 m.2⟩

end Found

/-! ### Only characters are read -/

variable {β : Type} {offset : ℕ} {item line : List (Char × ℕ)} {name : String}
  {lines : List (List (Char × ℕ))} {span : ℕ × ℕ}

section Map

variable {α : Type} (char : α → Char)

theorem splitInclusive_map (text : List α) :
    splitInclusive id (text.map char) = (splitInclusive char text).map (List.map char) := by
  induction text with
  | nil => rfl
  | cons a rest ih =>
    rw [List.map_cons, splitInclusive, splitInclusive, ih]
    by_cases ha : char a = '\n'
    · rw [if_pos ha]
      exact if_pos ha
    · rw [if_neg ha]
      refine (if_neg ha).trans ?_
      cases splitInclusive char rest with
      | nil => rfl
      | cons line lines => rfl

theorem chomp_map (line : List α) : chomp id (line.map char) = (chomp char line).map char := by
  rw [chomp, chomp, ← List.map_reverse]
  cases line.reverse with
  | nil => rfl
  | cons a before =>
    by_cases ha : char a = '\n'
    · simp only [List.map_cons, id, ha, if_true]
      cases before with
      | nil => rfl
      | cons b more =>
        by_cases hb : char b = '\r'
        · simp [hb]
        · simp [hb]
    · simp [ha]

theorem textLines_map (text : List α) :
    textLines id (text.map char) = (textLines char text).map (List.map char) := by
  rw [textLines, splitInclusive_map, List.map_map, textLines, List.map_map]
  exact List.map_congr_left fun line _ => chomp_map char line

theorem rdropWhile_map (f : α → β) (p : β → Bool) (l : List α) :
    (l.map f).rdropWhile p = (l.rdropWhile (p ∘ f)).map f := by
  rw [List.rdropWhile, ← List.map_reverse, List.dropWhile_map, ← List.map_reverse, List.rdropWhile]

theorem trimmed_map (text : List α) : trimmed id (text.map char) = (trimmed char text).map char := by
  rw [trimmed, List.dropWhile_map, rdropWhile_map]
  rfl

theorem unmarked_map (item : List α) :
    unmarked id (item.map char) = (unmarked char item).map char := by
  rw [unmarked, List.dropWhile_map, rdropWhile_map]
  rfl

theorem withoutBold_map (text : List α) :
    withoutBold id (text.map char) = (withoutBold char text).map char := by
  induction text using withoutBold.induct char with
  | case1 a b rest hbold ih =>
    rw [withoutBold, if_pos hbold, ← ih]
    exact if_pos hbold
  | case2 a b rest hbold ih =>
    have hmap : (withoutBold char (a :: b :: rest)).map char
        = char a :: (withoutBold char (b :: rest)).map char := by
      rw [withoutBold, if_neg hbold, List.map_cons]
    rw [hmap, ← ih]
    exact if_neg hbold
  | case3 text hshort =>
    cases text with
    | nil => rfl
    | cons a rest =>
      cases rest with
      | nil => rfl
      | cons b rest => exact absurd rfl (hshort a b rest)

theorem normalized_map (line : List α) :
    normalized id (line.map char) = (normalized char line).map char := by
  rw [normalized, trimmed_map, List.dropWhile_map, withoutBold_map]
  rfl

theorem beginsWith_map (needle : List Char) (text : List α) :
    beginsWith id needle (text.map char) = beginsWith char needle text := by
  rw [beginsWith, List.map_map]
  rfl

theorem field_map (text : List α) (name : String) :
    field id (text.map char) name = (field char text name).map (List.map char) := by
  rw [field, textLines_map, field]
  induction textLines char text with
  | nil => rfl
  | cons line lines ih =>
    rw [List.map_cons, List.findSome?_cons, List.findSome?_cons, ih, normalized_map, beginsWith_map,
      ← List.map_drop, trimmed_map]
    by_cases hbegins : beginsWith char (fieldNeedle name) (normalized char line) = true
    · rw [if_pos hbegins, if_pos hbegins]
      dsimp only
      rw [List.isEmpty_map]
      cases (trimmed char ((normalized char line).drop (fieldNeedle name).length)).isEmpty with
      | true => rfl
      | false => rfl
    · rw [if_neg hbegins, if_neg hbegins]

theorem splitOnP_map (f : α → β) (p : β → Bool) (l : List α) :
    (l.map f).splitOnP p = (l.splitOnP (p ∘ f)).map (List.map f) := by
  induction l with
  | nil => rfl
  | cons a rest ih =>
    rw [List.map_cons, List.splitOnP_cons_eq_if_modifyHead, List.splitOnP_cons_eq_if_modifyHead, ih]
    by_cases ha : p (f a) = true
    · rw [if_pos ha, if_pos (by exact ha)]
      rfl
    · rw [if_neg ha, if_neg (by exact ha)]
      cases rest.splitOnP (p ∘ f) with
      | nil => rfl
      | cons part parts => rfl

theorem listField_map (text : List α) (name : String) :
    listField id (text.map char) name = (listField char text name).map (List.map char) := by
  rw [listField, field_map, listField]
  cases field char text name with
  | none => rfl
  | some value =>
    have hitem : ∀ item : List α,
        unmarked id (trimmed id (item.map char)) = (unmarked char (trimmed char item)).map char := by
      intro item
      rw [trimmed_map, unmarked_map]
    have hsplit : (value.map char).splitOnP (fun a => [',', ';'].contains (id a))
        = (value.splitOnP fun a => [',', ';'].contains (char a)).map (List.map char) :=
      splitOnP_map char _ value
    dsimp only [Option.map_some]
    rw [hsplit]
    induction value.splitOnP fun a => [',', ';'].contains (char a) with
    | nil => rfl
    | cons item items ih =>
      rw [List.map_cons, List.map_cons, List.filter_cons, ih, List.map_cons, List.filter_cons, hitem,
        List.isEmpty_map]
      cases (unmarked char (trimmed char item)).isEmpty with
      | true => rfl
      | false => rfl

end Map

/-! ### Items and their places -/

/-- A text whose characters know their offsets, from one on. -/
def located : ℕ → List Char → List (Char × ℕ)
  | _, [] => []
  | offset, c :: rest => (c, offset) :: located (offset + c.utf8Size) rest

/-- The items of the field, with the places of their characters. -/
def governedItems (text : List Char) : List (List (Char × ℕ)) :=
  listField Prod.fst (located 0 text) "Governs"

/-- The text of an item. -/
abbrev chars (item : List (Char × ℕ)) : List Char := item.map Prod.fst

/-- These bytes of the text are exactly this item. -/
def Delimits (text : List Char) (item : List (Char × ℕ)) (start stop : ℕ) : Prop :=
  ∃ before after, located 0 text = before ++ item ++ after ∧ bytes (chars before) = start
    ∧ start + bytes (chars item) = stop

/-- Every governed target is recorded with its own span: one edge cites an item of this text. -/
def GovernedRecorded (contentHash : String → Hash) (repo relative commit : String)
    (candidates : List String) (stem : Option String) (markdown : String) : Prop :=
  ∀ item ∈ governedItems markdown.toList, candidates.contains (String.ofList (chars item)) = true →
    ∃ start stop,
      (foundAdr contentHash repo relative commit candidates stem markdown).edges.filter
          (fun e => e.dst == String.ofList (chars item))
        = [decidesEdge contentHash repo relative commit (String.ofList (chars item)) (start, stop)]
      ∧ ∃ item' ∈ governedItems markdown.toList, chars item' = chars item
          ∧ Delimits markdown.toList item' start stop

/-- The first line that begins with the name of the field. -/
def governsLine (text : List Char) : Option (List (Char × ℕ)) :=
  (splitInclusive Prod.fst (located 0 text)).find? fun line =>
    beginsWith Prod.fst (fieldNeedle "Governs") (normalized Prod.fst line)

/-- An item with this text stands in the first line that begins with the name of the field, and
nothing before it in this line contains the text. -/
def StandsFirst (text target : List Char) : Prop :=
  ∃ line, governsLine text = some line ∧ ∃ item ∈ governedItems text, chars item = target
    ∧ ∃ before after, line = before ++ item ++ after
      ∧ ∀ before', OccursAfter target (chars line) before' → before.length ≤ before'.length

/-- The text does not occur in the first line that begins with the name of the field, and the
first code in the document with this text is an item. -/
def StandsInCode (text target : List Char) : Prop :=
  (∀ line, governsLine text = some line → ∀ before, ¬OccursAfter target (chars line) before)
    ∧ ∃ code start stop, (inlineCode text).find? (fun code => code.1 == target)
        = some (code, start, stop)
      ∧ ∃ item ∈ governedItems text, chars item = target ∧ Delimits text item start stop

theorem chars_located (offset : ℕ) (text : List Char) : chars (located offset text) = text := by
  induction text generalizing offset with
  | nil => rfl
  | cons c rest ih => exact congrArg (c :: ·) (ih _)

theorem located_append (offset : ℕ) (s t : List Char) :
    located offset (s ++ t) = located offset s ++ located (offset + bytes s) t := by
  induction s generalizing offset with
  | nil => rfl
  | cons c rest ih =>
    rw [List.cons_append, located, ih, located, Utf8.bytes_cons, List.cons_append, Nat.add_assoc]

theorem length_located (offset : ℕ) (text : List Char) :
    (located offset text).length = text.length := by
  have hlength := congrArg List.length (chars_located offset text)
  rwa [List.length_map] at hlength

variable {text : List Char}

theorem eq_located {before part after : List (Char × ℕ)}
    (h : located offset text = before ++ part ++ after) :
    text = chars before ++ chars part ++ chars after
      ∧ part = located (offset + bytes (chars before)) (chars part) := by
  have htext : text = chars before ++ chars part ++ chars after := by
    rw [← chars_located offset text, h, chars, List.map_append, List.map_append]
  refine ⟨htext, ?_⟩
  rw [htext, located_append, located_append] at h
  have hleft := (List.append_inj' h (by rw [length_located, List.length_map])).1
  exact (List.append_inj hleft (by rw [length_located, List.length_map])).2.symm

theorem delimits_iff {start stop : ℕ} :
    Delimits text item start stop ↔ item = located start (chars item)
      ∧ ∃ before after, text = before ++ chars item ++ after ∧ bytes before = start
        ∧ start + bytes (chars item) = stop := by
  constructor
  · rintro ⟨before, after, h, rfl, hstop⟩
    obtain ⟨htext, hitem⟩ := eq_located h
    rw [Nat.zero_add] at hitem
    exact ⟨hitem, chars before, chars after, htext, rfl, hstop⟩
  · rintro ⟨hitem, before, after, rfl, hstart, hstop⟩
    refine ⟨located 0 before, located (0 + bytes (before ++ chars item)) after, ?_, ?_, hstop⟩
    · rw [located_append, located_append, Nat.zero_add, hstart, ← hitem]
    · rw [chars_located, hstart]

theorem splitInclusive_flatten {α : Type} (char : α → Char) (text : List α) :
    (splitInclusive char text).flatten = text := by
  induction text with
  | nil => rfl
  | cons a rest ih =>
    rw [splitInclusive]
    split
    · rw [List.flatten_cons, ih]
      rfl
    · cases hrest : splitInclusive char rest with
      | nil | cons line lines =>
        rw [hrest] at ih
        rw [← ih]
        rfl

/-! ### The place that is searched -/

variable {target : List Char}

theorem lineTargetSpan_eq {before after : List (List (Char × ℕ))}
    (hlines : lines = before ++ line :: after)
    (hbefore : ∀ l ∈ before, beginsWith Prod.fst (fieldNeedle name) (normalized Prod.fst l) = false)
    (hline : beginsWith Prod.fst (fieldNeedle name) (normalized Prod.fst line) = true) :
    lineTargetSpan name target offset (lines.map chars)
      = (offsetOf target (chars line)).map fun at_ =>
          (offset + bytes (chars before.flatten) + at_,
            offset + bytes (chars before.flatten) + at_ + bytes target) := by
  subst hlines
  have hbegins : ∀ l : List (Char × ℕ), beginsWith id (fieldNeedle name) (normalized id (chars l))
      = beginsWith Prod.fst (fieldNeedle name) (normalized Prod.fst l) := by
    intro l
    rw [chars, normalized_map, beginsWith_map]
  induction before generalizing offset with
  | nil =>
    rw [List.nil_append, List.map_cons, lineTargetSpan, hbegins, if_pos hline]
    rfl
  | cons l before ih =>
    obtain ⟨hl, hrest⟩ := List.forall_mem_cons.mp hbefore
    have hbytes : bytes (chars (l :: before).flatten)
        = bytes (chars l) + bytes (chars before.flatten) := by
      rw [List.flatten_cons, chars, List.map_append, Utf8.bytes_append]
    rw [List.cons_append, List.map_cons, lineTargetSpan, hbegins, hl, if_neg Bool.false_ne_true,
      ih hrest, hbytes, ← Nat.add_assoc]

theorem lineTargetSpan_none
    (h : ∀ l ∈ lines, beginsWith Prod.fst (fieldNeedle name) (normalized Prod.fst l) = false) :
    lineTargetSpan name target offset (lines.map chars) = none := by
  induction lines generalizing offset with
  | nil => rfl
  | cons l lines ih =>
    obtain ⟨hl, hrest⟩ := List.forall_mem_cons.mp h
    rw [List.map_cons, lineTargetSpan, chars, normalized_map, beginsWith_map, hl,
      if_neg Bool.false_ne_true]
    exact ih hrest

section Search

theorem lines_located (text : List Char) :
    splitInclusive id text = (splitInclusive Prod.fst (located 0 text)).map chars := by
  conv_lhs => rw [← chars_located 0 text]
  exact splitInclusive_map Prod.fst (located 0 text)

theorem fieldTargetSpan_eq (target : List Char) (h : governsLine text = some line) :
    ∃ before after, located 0 text = before ++ line ++ after
      ∧ fieldTargetSpan text "Governs" target = (offsetOf target (chars line)).map fun at_ =>
          (bytes (chars before) + at_, bytes (chars before) + at_ + bytes target) := by
  obtain ⟨hline, before, after, hlines, hbefore⟩ := List.find?_eq_some_iff_append.mp h
  refine ⟨before.flatten, after.flatten, ?_, ?_⟩
  · rw [← splitInclusive_flatten Prod.fst (located 0 text), hlines]
    simp
  · have hnone : ∀ l ∈ before,
        beginsWith Prod.fst (fieldNeedle "Governs") (normalized Prod.fst l) = false := by
      intro l hl
      simpa using hbefore l hl
    rw [fieldTargetSpan, lines_located, lineTargetSpan_eq hlines hnone hline]
    simp only [Nat.zero_add]

theorem fieldTargetSpan_eq_none (h : governsLine text = none) :
    fieldTargetSpan text "Governs" target = none := by
  rw [fieldTargetSpan, lines_located]
  refine lineTargetSpan_none fun l hl => ?_
  simpa using List.find?_eq_none.mp h l hl

theorem fieldTargetSpan_none_iff :
    fieldTargetSpan text "Governs" target = none ↔
      ∀ line, governsLine text = some line → ∀ before, ¬OccursAfter target (chars line) before := by
  cases hline : governsLine text with
  | none => simp [fieldTargetSpan_eq_none hline]
  | some line =>
    obtain ⟨before, after, -, hspan⟩ := fieldTargetSpan_eq target hline
    rw [hspan, Option.map_eq_none_iff]
    constructor
    · rintro h line' ⟨⟩ before'
      exact Utf8.offsetOf_none h
    · intro h
      cases hfound : offsetOf target (chars line) with
      | none => rfl
      | some at_ =>
        obtain ⟨first, hfirst, -⟩ := Utf8.offsetOf_some hfound
        exact absurd hfirst (h line rfl first)

theorem standsFirst_iff :
    StandsFirst text target ↔ ∃ start stop,
      fieldTargetSpan text "Governs" target = some (start, stop)
        ∧ ∃ item ∈ governedItems text, chars item = target ∧ Delimits text item start stop := by
  constructor
  · rintro ⟨line, hline, item, hitem, rfl, before, after, rfl, hfirst⟩
    obtain ⟨front, back, htext, hspan⟩ := fieldTargetSpan_eq (chars item) hline
    have hoccurs : OccursAfter (chars item) (chars (before ++ item ++ after)) (chars before) := by
      have hchars : chars (before ++ item ++ after) = chars before ++ chars item ++ chars after := by
        rw [chars, List.map_append, List.map_append]
      rw [OccursAfter, hchars]
      exact List.prefix_append _ _
    have hleast : ∀ before', OccursAfter (chars item) (chars (before ++ item ++ after)) before' →
        (chars before).length ≤ before'.length := by
      intro before' h
      rw [List.length_map]
      exact hfirst before' h
    cases hfound : offsetOf (chars item) (chars (before ++ item ++ after)) with
    | none => exact absurd hoccurs (Utf8.offsetOf_none hfound)
    | some at_ =>
      have hat := (Utf8.offsetOf_eq_bytes_iff hoccurs).mpr hleast
      rw [hfound, Option.getD_some] at hat
      rw [hfound, Option.map_some] at hspan
      refine ⟨_, _, hspan, item, hitem, rfl, front ++ before, after ++ back, ?_, ?_, rfl⟩
      · rw [htext]
        simp only [List.append_assoc]
      · rw [chars, List.map_append, Utf8.bytes_append, hat]
  · rintro ⟨start, stop, hspan, item, hitem, rfl, hdelimits⟩
    cases hline : governsLine text with
    | none =>
      rw [fieldTargetSpan_eq_none hline] at hspan
      cases hspan
    | some line =>
      obtain ⟨front, back, htext, hfound⟩ := fieldTargetSpan_eq (chars item) hline
      rw [hspan] at hfound
      obtain ⟨at_, hat, hstart⟩ := Option.map_eq_some_iff.mp hfound.symm
      obtain ⟨first, ⟨rest, hrest⟩, rfl, hleast⟩ := Utf8.offsetOf_some hat
      obtain ⟨rfl, rfl⟩ := Prod.mk.inj hstart
      refine ⟨line, hline, item, hitem, rfl, located (bytes (chars front)) first,
        located (bytes (chars front) + bytes (first ++ chars item)) rest, ?_, ?_⟩
      · -- the line is located after what is before it, and the item in it
        have hlocated := (eq_located htext).2
        rw [Nat.zero_add] at hlocated
        have hpart := (delimits_iff.mp hdelimits).1
        rw [hlocated, ← hrest, located_append, located_append, ← hpart]
      · intro before' h
        rw [length_located]
        exact hleast before' h

end Search

/-! ### Mentions -/

section Mentions

variable {candidates : List String}

section

variable (hcandidate : candidates.contains (String.ofList target) = true)
include hcandidate

theorem find?_govern (t : Table String (ℕ × ℕ)) (target' : List Char) :
    (govern candidates text t target').find? (String.ofList target)
      = if target' = target then
          (fieldTargetSpan text "Governs" target).or (t.find? (String.ofList target))
        else t.find? (String.ofList target) := by
  rw [govern]
  by_cases hsame : target' = target
  · rw [hsame, if_pos hcandidate, if_pos rfl]
    cases fieldTargetSpan text "Governs" target with
    | none => rfl
    | some span => rw [Table.find?_put, if_pos rfl, Option.some_or]
  · have hne : String.ofList target ≠ String.ofList target' :=
      fun h => hsame (String.ofList_injective h).symm
    rw [if_neg hsame]
    split
    · split
      · rw [Table.find?_put, if_neg hne]
      · rfl
    · rfl

theorem find?_governed (targets : List (List Char)) (t : Table String (ℕ × ℕ)) :
    (targets.foldl (govern candidates text) t).find? (String.ofList target)
      = if target ∈ targets then
          (fieldTargetSpan text "Governs" target).or (t.find? (String.ofList target))
        else t.find? (String.ofList target) := by
  induction targets generalizing t with
  | nil => rfl
  | cons target' targets ih =>
    rw [List.foldl_cons, ih, find?_govern hcandidate]
    by_cases hsame : target' = target
    · rw [if_pos hsame, if_pos (List.mem_cons.mpr (.inl hsame.symm)), ← Option.or_assoc,
        Option.or_self, ite_self]
    · have hmem : target ∈ target' :: targets ↔ target ∈ targets := by
        simp [Ne.symm hsame]
      simp only [if_neg hsame, hmem]

theorem find?_cite (t : Table String (ℕ × ℕ)) (code : List Char × ℕ × ℕ) :
    (cite candidates t code).find? (String.ofList target)
      = (t.find? (String.ofList target)).or (if code.1 = target then some code.2 else none) := by
  rw [cite]
  by_cases hsame : code.1 = target
  · rw [hsame, hcandidate, if_pos rfl, Bool.true_and]
    cases hfind : t.find? (String.ofList target) with
    | none => rw [if_pos Option.isNone_none, Table.find?_put, if_pos rfl, Option.none_or]
    | some span => rw [Option.isNone_some, if_neg Bool.false_ne_true, hfind, Option.some_or]
  · have hne : String.ofList target ≠ String.ofList code.1 :=
      fun h => hsame (String.ofList_injective h).symm
    rw [if_neg hsame, Option.or_none]
    split
    · rw [Table.find?_put, if_neg hne]
    · rfl

theorem find?_cited (codes : List (List Char × ℕ × ℕ)) (t : Table String (ℕ × ℕ)) :
    (codes.foldl (cite candidates) t).find? (String.ofList target)
      = (t.find? (String.ofList target)).or
          ((codes.find? fun code => code.1 == target).map Prod.snd) := by
  induction codes generalizing t with
  | nil => rw [List.foldl_nil, List.find?_nil, Option.map_none, Option.or_none]
  | cons code codes ih =>
    rw [List.foldl_cons, ih, find?_cite hcandidate, Option.or_assoc, List.find?_cons]
    by_cases hsame : code.1 = target
    · rw [if_pos hsame, Option.some_or, beq_iff_eq.mpr hsame]
      rfl
    · rw [if_neg hsame, Option.none_or, beq_eq_false_iff_ne.mpr hsame]

/-- The place that is cited for an item: where the search finds it, or else the first code with
its text. -/
theorem find?_mentions (htarget : target ∈ listField id text "Governs") :
    (mentions candidates text).find? (String.ofList target)
      = (fieldTargetSpan text "Governs" target).or
          (((inlineCode text).find? fun code => code.1 == target).map Prod.snd) := by
  rw [mentions, find?_cited hcandidate, find?_governed hcandidate, if_pos htarget, Table.find?_empty,
    Option.or_none]

end

end Mentions

theorem mem_listField_of_governed (h : item ∈ governedItems text) :
    chars item ∈ listField id text "Governs" := by
  rw [← chars_located 0 text, listField_map]
  exact List.mem_map_of_mem h

/-! ### Edges -/

theorem filter_rows {t : Table String (ℕ × ℕ)} (target : String) :
    t.rows.filter (fun r => r.1 == target)
      = ((t.find? target).map fun span => (target, span)).toList := by
  have hnone : ∀ {l : List (String × ℕ × ℕ)}, target ∉ l.map Prod.fst →
      l.filter (fun r => r.1 == target) = [] := by
    intro l h
    rw [List.filter_eq_nil_iff]
    intro r hr hkey
    exact h (List.mem_map.mpr ⟨r, hr, beq_iff_eq.mp hkey⟩)
  cases hfind : t.find? target with
  | none =>
    refine hnone fun hmem => ?_
    obtain ⟨⟨k, span⟩, hr, rfl⟩ := List.mem_map.mp hmem
    rw [Table.find?_eq_some_iff.mpr hr] at hfind
    cases hfind
  | some span =>
    obtain ⟨before, after, hrows⟩ := List.append_of_mem (Table.find?_eq_some_iff.mp hfind)
    have hnodup := t.keys_nodup
    rw [hrows, List.map_append, List.map_cons, List.nodup_append] at hnodup
    obtain ⟨-, hafter, hbefore⟩ := hnodup
    have hfirst : target ∉ before.map Prod.fst :=
      fun h => hbefore target h target List.mem_cons_self rfl
    rw [hrows, List.filter_append, hnone hfirst, List.nil_append, List.filter_cons,
      if_pos (beq_self_eq_true target), hnone (List.nodup_cons.mp hafter).1]
    rfl

theorem edges_to (contentHash : String → Hash) (repo relative commit : String)
    (candidates : List String) (stem : Option String) (markdown target : String) :
    (foundAdr contentHash repo relative commit candidates stem markdown).edges.filter
        (fun e => e.dst == target)
      = (((mentions candidates markdown.toList).find? target).map fun span =>
          decidesEdge contentHash repo relative commit target span).toList := by
  show ((mentions candidates markdown.toList).rows.map _).filter _ = _
  rw [List.filter_map]
  have hrows := filter_rows (t := mentions candidates markdown.toList) target
  have hcomp : (fun e : Edge Json => e.dst == target) ∘
      (fun m : String × ℕ × ℕ => decidesEdge contentHash repo relative commit m.1 m.2)
      = fun r => r.1 == target := rfl
  rw [hcomp, hrows]
  cases (mentions candidates markdown.toList).find? target with
  | none => rfl
  | some span => rfl

variable {contentHash : String → Hash}

theorem decidesEdge_injective {repo relative commit target : String}
    {span' : ℕ × ℕ} (h : decidesEdge contentHash repo relative commit target span
      = decidesEdge contentHash repo relative commit target span') : span = span' := by
  have hprops := congrArg Edge.props h
  simp only [decidesEdge, Provenance.toJson, adrProvenance, adrEvidence, List.map_cons,
    List.map_nil, EvidenceRef.toJson, Json.obj.injEq, List.cons.injEq, Prod.mk.injEq, true_and,
    and_true, Json.arr.injEq] at hprops
  exact Prod.ext (Json.nat_injective hprops.1) (Json.nat_injective hprops.2)

theorem edges_eq_iff {repo relative commit : String} {candidates : List String}
    {stem : Option String} {markdown target : String} :
    (foundAdr contentHash repo relative commit candidates stem markdown).edges.filter
          (fun e => e.dst == target) = [decidesEdge contentHash repo relative commit target span]
      ↔ (mentions candidates markdown.toList).find? target = some span := by
  rw [edges_to]
  cases (mentions candidates markdown.toList).find? target with
  | none => simp
  | some span' =>
    rw [Option.map_some, Option.toList_some, Option.some_inj]
    constructor
    · intro h
      exact decidesEdge_injective (List.cons.inj h).1
    · rintro rfl
      rfl

/-- **Governed targets.**  Every item that is a candidate is cited at its own place exactly where
its text first occurs as an item in the first line that begins with the name of the field, or does
not occur there, and is first cited as code in an item. -/
theorem governed_recorded_iff (contentHash : String → Hash) (repo relative commit : String)
    (candidates : List String) (stem : Option String) (markdown : String) :
    GovernedRecorded contentHash repo relative commit candidates stem markdown ↔
      ∀ item ∈ governedItems markdown.toList,
        candidates.contains (String.ofList (chars item)) = true →
          StandsFirst markdown.toList (chars item) ∨ StandsInCode markdown.toList (chars item) := by
  refine forall_congr' fun item => forall_congr' fun hitem => forall_congr' fun hcandidate => ?_
  rw [standsFirst_iff, StandsInCode, ← fieldTargetSpan_none_iff]
  simp only [edges_eq_iff, find?_mentions hcandidate (mem_listField_of_governed hitem)]
  cases hspan : fieldTargetSpan markdown.toList "Governs" (chars item) with
  | some span =>
    constructor
    · rintro ⟨start, stop, hfound, hdelimits⟩
      exact .inl ⟨start, stop, hfound, hdelimits⟩
    · rintro (⟨start, stop, hfound, hdelimits⟩ | ⟨hnone, -⟩)
      · exact ⟨start, stop, hfound, hdelimits⟩
      · cases hnone
  | none =>
    constructor
    · rintro ⟨start, stop, hfound, hdelimits⟩
      obtain ⟨⟨code, place⟩, hcode, rfl⟩ := Option.map_eq_some_iff.mp hfound
      exact .inr ⟨rfl, code, start, stop, hcode, hdelimits⟩
    · rintro (⟨start, stop, hfound, -⟩ | ⟨-, code, start, stop, hcode, hdelimits⟩)
      · cases hfound
      · exact ⟨start, stop, by rw [hcode]; rfl, hdelimits⟩

/-- A governed id with which the one before it begins is cited inside that one. -/
theorem prefix_cited_elsewhere :
    ¬ GovernedRecorded Ingest.Sample.noHash "r" "adr/a.md" "c" ["chan:orders", "chan:orders-eu"] none
        "Governs: chan:orders-eu, chan:orders" := by
  have hitems : governedItems "Governs: chan:orders-eu, chan:orders".toList
      = [located 9 "chan:orders-eu".toList, located 25 "chan:orders".toList] := by decide
  have hfound : (mentions ["chan:orders", "chan:orders-eu"]
      "Governs: chan:orders-eu, chan:orders".toList).find? "chan:orders" = some (9, 20) := by
    decide
  have hid : String.ofList (chars (located 25 "chan:orders".toList)) = "chan:orders" := by
    decide
  intro h
  have hgoverned : located 25 "chan:orders".toList
      ∈ governedItems "Governs: chan:orders-eu, chan:orders".toList := by
    rw [hitems]
    exact List.mem_cons_of_mem _ List.mem_cons_self
  obtain ⟨start, stop, hedges, item, hitem, hchars, hdelimits⟩ :=
    h (located 25 "chan:orders".toList) hgoverned (by rw [hid]; decide)
  rw [hid, edges_eq_iff, hfound, Option.some_inj] at hedges
  obtain ⟨rfl, rfl⟩ := Prod.mk.inj hedges
  rw [hitems] at hitem
  have hat := (delimits_iff.mp hdelimits).1
  rw [hchars, chars_located] at hat
  rw [hat] at hitem
  exact absurd hitem (by decide)

end Spec

/-
Strict decoding (`crates/agents/src/investigation/strict.rs`, `mod.rs` and `protocol.rs`, and
`src-tauri/src/jobs/investigations/storage.rs`).

A record is read three times: a visitor bounds the shape of the text and refuses repeated names,
the typed reader builds the record, and an untyped one the value that the record has to be
written as.  The reader of texts is a parameter, as elsewhere: a text is what the deserializer
reports of it.

* `visit_eq_some` — what the visitor charges, and which texts it takes;
* `preflight_written` — of a text that was written, it takes those with the shapes of `preflight`;
* `decodeBody_written` — a record that was written is read back exactly then;
* `strict_decoding` — what a decoded text has to be, and which values come back.
-/
import Cartograph.Investigation.Codecs
import Cartograph.Investigation.Shapes
import Cartograph.Jobs.Storage
import Cartograph.Lib.JsonTree

namespace Investigation

open Checked GraphStore

/-! ### The visitor -/

/-- The bounds of one call; a string may be as long as the text. -/
structure Bounds where
  bytes : ℕ
  depth : ℕ
  values : ℕ
  arrayItems : ℕ

namespace Bounds

variable (b : Bounds)

/-- `Seed::deserialize`: a value at a depth, out of the remaining ones. -/
def enter (depth remaining : ℕ) : Option ℕ :=
  if b.depth < depth ∨ remaining = 0 then none else some (remaining - 1)

mutual

/-- The visitor, for a value that `enter` has admitted at `depth`. -/
def visit : Raw → ℕ → ℕ → Option ℕ
  | .null, _, r | .bool _, _, r | .num _, _, r => some r
  | .str s, _, r => if b.bytes < s.utf8ByteSize then none else some r
  | .seq items closed, depth, r => do
    let r ← visitSeq items 0 (depth + 1) r
    if closed then some r else none
  | .map members closed, depth, r => do
    let r ← visitMap members [] (depth + 1) r
    if closed then some r else none
  | .bad, _, _ => none

def visitSeq : List Raw → ℕ → ℕ → ℕ → Option ℕ
  | [], _, _, r => some r
  | x :: rest, count, depth, r => do
    let r ← b.enter depth r
    let r ← visit x depth r
    if b.arrayItems < count + 1 then none else visitSeq rest (count + 1) depth r

def visitMap : List (String × Raw) → List String → ℕ → ℕ → Option ℕ
  | [], _, _, r => some r
  | (key, x) :: rest, keys, depth, r =>
    if 128 < key.utf8ByteSize ∨ 64 ≤ keys.length ∨ key ∈ keys then none else do
      let r ← b.enter depth r
      let r ← visit x depth r
      visitMap rest (key :: keys) depth r

end

mutual

/-- Complete texts with short arrays and strings, and few, short and distinct names. -/
def Admits : Raw → Prop
  | .null | .bool _ | .num _ => True
  | .str s => s.utf8ByteSize ≤ b.bytes
  | .seq items closed => closed = true ∧ items.length ≤ b.arrayItems ∧ AdmitsItems items
  | .map members closed =>
    closed = true ∧ members.length ≤ 64 ∧ (members.map Prod.fst).Nodup
      ∧ (∀ m ∈ members, m.1.utf8ByteSize ≤ 128) ∧ AdmitsMembers members
  | .bad => False

def AdmitsItems : List Raw → Prop
  | [] => True
  | x :: rest => Admits x ∧ AdmitsItems rest

def AdmitsMembers : List (String × Raw) → Prop
  | [] => True
  | (_, x) :: rest => Admits x ∧ AdmitsMembers rest

end

end Bounds

section

variable {b : Bounds}

theorem enter_eq_some {depth r r' : ℕ} :
    b.enter depth r = some r' ↔ depth ≤ b.depth ∧ r = r' + 1 := by
  rw [Bounds.enter]
  by_cases h : b.depth < depth ∨ r = 0
  · rw [if_pos h]
    refine iff_of_false (by simp) ?_
    omega
  · rw [if_neg h, Option.some_inj]
    omega

mutual

theorem visit_eq_some : ∀ (x : Raw) {depth r r' : ℕ}, depth ≤ b.depth →
    (b.visit x depth r = some r' ↔
      b.Admits x ∧ depth + x.height ≤ b.depth ∧ r = r' + x.inner)
  | .null, depth, r, r', hd | .bool _, depth, r, r', hd | .num _, depth, r, r', hd
  | .str s, depth, r, r', hd => by
    simp [Bounds.visit, Bounds.Admits, Raw.height, Raw.inner, hd]
  | .bad, depth, r, r', hd => by simp [Bounds.visit, Bounds.Admits]
  | .seq items closed, depth, r, r', hd => by
    simp only [Bounds.visit, Option.bind_eq_bind, Option.bind_eq_some_iff,
      visitSeq_eq_some items hd (Nat.zero_le _), Option.ite_none_right_eq_some, Option.some_inj,
      Bounds.Admits, Raw.height, Raw.inner, Nat.zero_add]
    constructor
    · rintro ⟨r1, ⟨hitems, hlength, hdepth, hr⟩, hclosed, rfl⟩
      exact ⟨⟨hclosed, hlength, hitems⟩, hdepth, hr⟩
    · rintro ⟨⟨hclosed, hlength, hitems⟩, hdepth, hr⟩
      exact ⟨r', ⟨hitems, hlength, hdepth, hr⟩, hclosed, rfl⟩
  | .map members closed, depth, r, r', hd => by
    have hnil : ([] : List String).length ≤ 64 := by simp
    simp only [Bounds.visit, Option.bind_eq_bind, Option.bind_eq_some_iff,
      visitMap_eq_some members hd hnil, Option.ite_none_right_eq_some, Option.some_inj,
      Bounds.Admits, Raw.height, Raw.inner, List.length_nil, Nat.zero_add]
    constructor
    · rintro ⟨r1, ⟨⟨hlength, hkeys, hnodup, -, hmembers⟩, hdepth, hr⟩, hclosed, rfl⟩
      exact ⟨⟨hclosed, hlength, hnodup, hkeys, hmembers⟩, hdepth, hr⟩
    · rintro ⟨⟨hclosed, hlength, hnodup, hkeys, hmembers⟩, hdepth, hr⟩
      exact ⟨r', ⟨⟨hlength, hkeys, hnodup, by simp, hmembers⟩, hdepth, hr⟩, hclosed, rfl⟩

theorem visitSeq_eq_some : ∀ (l : List Raw) {count depth r r' : ℕ}, depth ≤ b.depth →
    count ≤ b.arrayItems →
    (b.visitSeq l count (depth + 1) r = some r' ↔
      b.AdmitsItems l ∧ count + l.length ≤ b.arrayItems
        ∧ depth + Raw.itemsHeight l ≤ b.depth ∧ r = r' + Raw.itemsInner l)
  | [], count, depth, r, r', hd, hc => by
    simp [Bounds.visitSeq, Bounds.AdmitsItems, Raw.itemsHeight, Raw.itemsInner, hd, hc]
  | x :: rest, count, depth, r, r', hd, hc => by
    simp only [Bounds.visitSeq, Option.bind_eq_bind, Option.bind_eq_some_iff, enter_eq_some,
      Bounds.AdmitsItems, Raw.itemsHeight, Raw.itemsInner, List.length_cons]
    constructor
    · rintro ⟨r1, ⟨hd1, rfl⟩, r2, hx, hrest⟩
      obtain ⟨hadmits, hheight, rfl⟩ := (visit_eq_some x hd1).mp hx
      simp only [Option.ite_none_left_eq_some, not_lt] at hrest
      obtain ⟨hcount, hrest⟩ := hrest
      obtain ⟨hitems, hlength, hdepth, rfl⟩ := (visitSeq_eq_some rest hd hcount).mp hrest
      exact ⟨⟨hadmits, hitems⟩, by omega, by omega, by omega⟩
    · rintro ⟨⟨hadmits, hitems⟩, hlength, hdepth, rfl⟩
      have hd1 : depth + 1 ≤ b.depth := by omega
      have hcount : count + 1 ≤ b.arrayItems := by omega
      refine ⟨r' + Raw.itemsInner rest + x.inner, ⟨hd1, by omega⟩, r' + Raw.itemsInner rest,
        (visit_eq_some x hd1).mpr ⟨hadmits, by omega, rfl⟩, ?_⟩
      rw [if_neg (not_lt.mpr hcount)]
      exact (visitSeq_eq_some rest hd hcount).mpr ⟨hitems, by omega, by omega, rfl⟩

theorem visitMap_eq_some : ∀ (l : List (String × Raw)) {keys : List String} {depth r r' : ℕ},
    depth ≤ b.depth → keys.length ≤ 64 →
    (b.visitMap l keys (depth + 1) r = some r' ↔
      (keys.length + l.length ≤ 64 ∧ (∀ m ∈ l, m.1.utf8ByteSize ≤ 128)
          ∧ (l.map Prod.fst).Nodup ∧ (∀ m ∈ l, m.1 ∉ keys) ∧ b.AdmitsMembers l)
        ∧ depth + Raw.membersHeight l ≤ b.depth ∧ r = r' + Raw.membersInner l)
  | [], keys, depth, r, r', hd, hk => by
    simp [Bounds.visitMap, Bounds.AdmitsMembers, Raw.membersHeight, Raw.membersInner, hd, hk]
  | (key, x) :: rest, keys, depth, r, r', hd, hk => by
    simp only [Bounds.visitMap, Option.ite_none_left_eq_some, not_or, not_lt, not_le,
      Option.bind_eq_bind, Option.bind_eq_some_iff, enter_eq_some, Bounds.AdmitsMembers,
      Raw.membersHeight, Raw.membersInner, List.length_cons, List.forall_mem_cons, List.map_cons,
      List.nodup_cons]
    constructor
    · rintro ⟨⟨hsize, hlength, hfresh⟩, r1, ⟨hd1, rfl⟩, r2, hx, hrest⟩
      obtain ⟨hadmits, hheight, rfl⟩ := (visit_eq_some x hd1).mp hx
      obtain ⟨⟨hlengths, hsizes, hnodup, hkeys, hmembers⟩, hdepth, rfl⟩ :=
        (visitMap_eq_some rest hd (by simpa using hlength)).mp hrest
      have hnew : key ∉ rest.map Prod.fst := by
        intro hmem
        obtain ⟨m, hm, hname⟩ := List.mem_map.mp hmem
        exact hkeys m hm (hname ▸ List.mem_cons_self)
      rw [List.length_cons] at hlengths
      exact ⟨⟨by omega, ⟨hsize, hsizes⟩, ⟨hnew, hnodup⟩,
        ⟨hfresh, fun m hm hmem => hkeys m hm (List.mem_cons_of_mem _ hmem)⟩, hadmits, hmembers⟩,
        by omega, by omega⟩
    · rintro ⟨⟨hlengths, ⟨hsize, hsizes⟩, ⟨hnew, hnodup⟩, ⟨hfresh, hkeys⟩, hadmits, hmembers⟩,
        hdepth, rfl⟩
      have hd1 : depth + 1 ≤ b.depth := by omega
      refine ⟨⟨hsize, by omega, hfresh⟩, r' + Raw.membersInner rest + x.inner, ⟨hd1, by omega⟩,
        r' + Raw.membersInner rest, (visit_eq_some x hd1).mpr ⟨hadmits, by omega, rfl⟩,
        (visitMap_eq_some rest hd ?_).mpr ⟨⟨?_, hsizes, hnodup, ?_, hmembers⟩, by omega, rfl⟩⟩
      · rw [List.length_cons]
        omega
      · rw [List.length_cons]
        omega
      · intro m hm hmem
        rcases List.mem_cons.mp hmem with hname | hmem
        · exact hnew (hname ▸ List.mem_map_of_mem hm)
        · exact hkeys m hm hmem

end

mutual

theorem noRepeats_of_admits : ∀ {x : Raw}, b.Admits x → x.NoRepeats
  | .null, _ => trivial
  | .bool _, _ => trivial
  | .num _, _ => trivial
  | .str _, _ => trivial
  | .bad, h => absurd h id
  | .seq _ _, h => noRepeats_of_admitsItems h.2.2
  | .map _ _, h => ⟨h.2.2.1, noRepeats_of_admitsMembers h.2.2.2.2⟩

theorem noRepeats_of_admitsItems : ∀ {l : List Raw}, b.AdmitsItems l → Raw.itemsNoRepeats l
  | [], _ => trivial
  | _ :: _, h => ⟨noRepeats_of_admits h.1, noRepeats_of_admitsItems h.2⟩

theorem noRepeats_of_admitsMembers : ∀ {l : List (String × Raw)},
    b.AdmitsMembers l → Raw.membersNoRepeats l
  | [], _ => trivial
  | (_, _) :: _, h => ⟨noRepeats_of_admits h.1, noRepeats_of_admitsMembers h.2⟩

end

end

/-! ### What is reported of a text that was written -/

mutual

/-- The reports for the text of a value. -/
def raw : Json → Raw
  | .null => .null
  | .bool b => .bool b
  | .num text => .num text
  | .str s => .str s
  | .arr items => .seq (rawItems items) true
  | .obj fields => .map (rawMembers fields) true

def rawItems : List Json → List Raw
  | [] => []
  | j :: rest => raw j :: rawItems rest

def rawMembers : List (String × Json) → List (String × Raw)
  | [] => []
  | (k, j) :: rest => (k, raw j) :: rawMembers rest

end

theorem length_rawItems (l : List Json) : (rawItems l).length = l.length := by
  induction l with
  | nil => rfl
  | cons j rest ih => rw [rawItems, List.length_cons, ih, List.length_cons]

theorem map_fst_rawMembers (l : List (String × Json)) :
    (rawMembers l).map Prod.fst = l.map Prod.fst := by
  induction l with
  | nil => rfl
  | cons f rest ih =>
    obtain ⟨k, j⟩ := f
    rw [rawMembers, List.map_cons, ih, List.map_cons]

mutual

theorem raw_value : ∀ {j : Json}, j.Distinct → (raw j).value = some j
  | .null, _ => rfl
  | .bool _, _ => rfl
  | .num _, _ => rfl
  | .str _, _ => rfl
  | .arr items, h => by
    rw [raw, Raw.value, raw_values h]
    rfl
  | .obj fields, h => by
    rw [raw, Raw.value, raw_object [] (by simpa using h.1) h.2]
    rfl

theorem raw_values : ∀ {l : List Json}, Json.itemsDistinct l → Raw.values (rawItems l) = some l
  | [], _ => rfl
  | j :: rest, h => by
    rw [rawItems, Raw.values, raw_value h.1, raw_values h.2]
    rfl

theorem raw_object : ∀ {l : List (String × Json)} (acc : List (String × Json)),
    (acc.map Prod.fst ++ l.map Prod.fst).Nodup → Json.fieldsDistinct l →
    Raw.object (rawMembers l) acc = some (acc ++ l)
  | [], acc, _, _ => by rw [rawMembers, Raw.object, List.append_nil]
  | (k, j) :: rest, acc, hkeys, h => by
    have hk : k ∉ acc.map Prod.fst := by
      intro hmem
      exact (List.nodup_append.mp hkeys).2.2 k hmem k (by simp) rfl
    rw [rawMembers, Raw.object, raw_value h.1]
    simp only [Raw.insertMember_of_notMem hk]
    rw [raw_object _ (by simpa using hkeys) h.2, List.append_assoc, List.singleton_append]

end

mutual

theorem raw_size : ∀ j : Json, (raw j).height = j.height ∧ 1 + (raw j).inner = values j
  | .null | .bool _ | .num _ | .str _ => ⟨rfl, by simp [raw, Raw.inner]⟩
  | .arr items => by
    obtain ⟨hheight, hinner⟩ := rawItems_size items
    exact ⟨hheight, by rw [raw, Raw.inner, hinner, values]⟩
  | .obj fields => by
    obtain ⟨hheight, hinner⟩ := rawMembers_size fields
    exact ⟨hheight, by rw [raw, Raw.inner, hinner, values]⟩

theorem rawItems_size : ∀ l : List Json, Raw.itemsHeight (rawItems l) = Json.itemsHeight l
    ∧ Raw.itemsInner (rawItems l) = itemValues l
  | [] => ⟨rfl, rfl⟩
  | j :: rest => by
    obtain ⟨hheight, hinner⟩ := raw_size j
    obtain ⟨hheights, hinners⟩ := rawItems_size rest
    refine ⟨by rw [rawItems, Raw.itemsHeight, hheight, hheights, Json.itemsHeight], ?_⟩
    rw [rawItems, Raw.itemsInner, hinner, hinners, itemValues]

theorem rawMembers_size : ∀ l : List (String × Json),
    Raw.membersHeight (rawMembers l) = Json.fieldsHeight l
      ∧ Raw.membersInner (rawMembers l) = fieldValues l
  | [] => ⟨rfl, rfl⟩
  | (k, j) :: rest => by
    obtain ⟨hheight, hinner⟩ := raw_size j
    obtain ⟨hheights, hinners⟩ := rawMembers_size rest
    refine ⟨by rw [rawMembers, Raw.membersHeight, hheight, hheights, Json.fieldsHeight], ?_⟩
    rw [rawMembers, Raw.membersInner, hinner, hinners, fieldValues]

end

/-! ### Texts of bounded values -/

theorem size_le_of_mem_items {j : Json} {l : List Json} (h : j ∈ l) :
    j.size ≤ (Json.arr l).size := by
  have hsum := List.single_le_sum (fun _ _ => Nat.zero_le _) (1 + j.size)
    (List.mem_map_of_mem (f := fun j => 1 + Json.size j) h)
  have hsize := Json.size_arr l
  omega

theorem size_le_of_mem_fields {f : String × Json} {l : List (String × Json)} (h : f ∈ l) :
    f.2.size ≤ (Json.obj l).size := by
  have hsum := List.single_le_sum (fun _ _ => Nat.zero_le _) (1 + Json.fieldSize f)
    (List.mem_map_of_mem (f := fun f => 1 + Json.fieldSize f) h)
  have hsize := Json.size_obj l
  rw [Json.fieldSize] at hsum
  omega

section

variable {b : Bounds}

mutual

theorem admits_raw : ∀ {j : Json}, j.size ≤ b.bytes →
    (b.Admits (raw j) ↔ shaped b.arrayItems j = true)
  | .null, _ | .bool _, _ | .num _, _ => by simp [raw, Bounds.Admits, shaped]
  | .str s, h => by
    have hbounds := Json.strSize_bounds s
    rw [Json.size_str] at h
    simp only [raw, Bounds.Admits, shaped, iff_true]
    omega
  | .arr items, h => by
    have hitems := admitsItems_raw fun j hj => (size_le_of_mem_items hj).trans h
    simp [raw, Bounds.Admits, shaped, length_rawItems, hitems]
  | .obj fields, h => by
    have hfields := admitsMembers_raw fun f hf => (size_le_of_mem_fields hf).trans h
    have hlength : (rawMembers fields).length = fields.length := by
      rw [← List.length_map (f := Prod.fst), map_fst_rawMembers, List.length_map]
    have hnames : (∀ m ∈ rawMembers fields, m.1.utf8ByteSize ≤ 128)
        ↔ ∀ k ∈ fields.map Prod.fst, k.utf8ByteSize ≤ 128 := by
      rw [← map_fst_rawMembers, List.forall_mem_map]
    simp only [raw, Bounds.Admits, shaped, map_fst_rawMembers, hlength, hnames, hfields,
      true_and, Bool.and_eq_true, decide_eq_true_eq, List.all_eq_true]
    tauto

theorem admitsItems_raw : ∀ {l : List Json}, (∀ j ∈ l, j.size ≤ b.bytes) →
    (b.AdmitsItems (rawItems l) ↔ itemsShaped b.arrayItems l = true)
  | [], _ => by simp [rawItems, Bounds.AdmitsItems, itemsShaped]
  | j :: rest, h => by
    obtain ⟨hj, hrest⟩ := List.forall_mem_cons.mp h
    rw [rawItems, Bounds.AdmitsItems, itemsShaped, Bool.and_eq_true, admits_raw hj,
      admitsItems_raw hrest]

theorem admitsMembers_raw : ∀ {l : List (String × Json)}, (∀ f ∈ l, f.2.size ≤ b.bytes) →
    (b.AdmitsMembers (rawMembers l) ↔ fieldsShaped b.arrayItems l = true)
  | [], _ => by simp [rawMembers, Bounds.AdmitsMembers, fieldsShaped]
  | (k, j) :: rest, h => by
    obtain ⟨hj, hrest⟩ := List.forall_mem_cons.mp h
    rw [rawMembers, Bounds.AdmitsMembers, fieldsShaped, Bool.and_eq_true, admits_raw hj,
      admitsMembers_raw hrest]

end

end

/-! ### Decoding -/

def MAX_ACTION_BYTES : ℕ := 32 * 1024

namespace Bounds

/-- Those of `decode_record`. -/
def record : Bounds := ⟨MAX_RECORD_BYTES, 32, 16384, 128⟩

/-- Those of `InvestigationAction::decode`. -/
def action : Bounds := ⟨MAX_ACTION_BYTES, 16, 4096, 32⟩

/-- `strict::preflight`; after the value, `end` wants nothing but blanks. -/
def preflight (b : Bounds) (read : String → Document) (json : String) :
    Except InvestigationError Unit := do
  ensure (json.utf8ByteSize ≤ b.bytes) .limitExceeded
  let remaining ← orFail (b.enter 0 b.values) .invalidInput
  let _ ← orFail (b.visit (read json).root 0 remaining) .invalidInput
  ensure (read json).ended .invalidInput

end Bounds

/-- The typed reader, and the comparison of what it read with the untyped value.  Unknown members,
members that were filled in and structs from arrays all differ there. -/
def roundTrip {α : Type} (read : String → Document) (S : Serde α) (body : String)
    (e : InvestigationError) : Except InvestigationError α := do
  let value ← orFail ((read body).value.bind S.read) e
  let original ← orFail (read body).value e
  ensure (valueEq (S.write value) original) e
  pure value

/-- `decode_record`. -/
def decodeRecord {α : Type} (read : String → Document) (S : Serde α) (body : String) :
    Except InvestigationError α := do
  Bounds.record.preflight read body
  roundTrip read S body .invalidInput

def ProposedInvestigationFinding.toJson (f : ProposedInvestigationFinding) : Json :=
  .obj [("claim_kind", .str f.claimKind.text), ("title", .str f.title),
    ("statement", .str f.statement), ("citation_ids", .arr (f.citationIds.map .str)),
    ("limitations", .arr (f.limitations.map .str))]

def ProposedInvestigationFinding.serde : Serde ProposedInvestigationFinding :=
  ((Fields.and (.one "claim_kind" InvestigationClaimKind.serde) <| .and (.one "title" Serde.str) <|
      .and (.one "statement" Serde.str) <| .and (.one "citation_ids" Serde.str.list) <|
      .one "limitations" Serde.str.list).iso
    (fun f => (f.claimKind, f.title, f.statement, f.citationIds, f.limitations))
    (fun (claimKind, title, statement, citationIds, limitations) =>
      ⟨claimKind, title, statement, citationIds, limitations⟩)
    fun _ => rfl).obj.writing toJson rfl

def InvestigationAction.toJson : InvestigationAction → Json
  | .queryContext query => .obj [("type", .str "query_context"), ("query", query.toJson)]
  | .readEvidence fact role index =>
    .obj [("type", .str "read_evidence"), ("fact", fact.toJson), ("role", .str role.text),
      ("index", .nat index)]
  | .finish findings knowledgeCompleteness limitations =>
    .obj [("type", .str "finish"),
      ("findings", .arr (findings.map ProposedInvestigationFinding.toJson)),
      ("knowledge_completeness", .str knowledgeCompleteness.text),
      ("limitations", .arr (limitations.map .str))]

def InvestigationAction.serde : Serde InvestigationAction :=
  (((Variants.one "type" "query_context" <| .one "query" InvestigationQuery.serde).or <|
      (Variants.one "type" "read_evidence" <| .and (.one "fact" TaskFactKey.serde) <|
        .and (.one "role" TaskRangeRole.serde) <| .one "index" u32).or <|
      .one "type" "finish" <| .and (.one "findings" ProposedInvestigationFinding.serde.list) <|
        .and (.one "knowledge_completeness" KnowledgeCompleteness.serde) <|
        .one "limitations" Serde.str.list).toFields.iso
    (fun action => match action with
      | .queryContext query => .inl query
      | .readEvidence fact role index => .inr (.inl (fact, role, index))
      | .finish findings knowledgeCompleteness limitations =>
        .inr (.inr (findings, knowledgeCompleteness, limitations)))
    (fun x => match x with
      | .inl query => .queryContext query
      | .inr (.inl (fact, role, index)) => .readEvidence fact role index
      | .inr (.inr (findings, knowledgeCompleteness, limitations)) =>
        .finish findings knowledgeCompleteness limitations)
    (by intro action; cases action <;> rfl)).obj.writing toJson
      (by funext action; cases action <;> rfl)

/-- `InvestigationAction::decode`; it reports every error of the visitor as its own. -/
def InvestigationAction.decode (read : String → Document) (raw : String) :
    Except InvestigationError InvestigationAction := do
  let _ ← orFail (Bounds.action.preflight read raw).toOption .invalidAction
  let action ← roundTrip read InvestigationAction.serde raw .invalidAction
  action.validateShape
  pure action

/-! ### What was decoded -/

/-- The text of a value that a decoder with these bounds took. -/
structure Faithful {α : Type} (b : Bounds) (read : String → Document) (S : Serde α)
    (body : String) (v : α) : Prop where
  same : ∃ original, (read body).value = some original ∧ valueEq (S.write v) original = true
  noRepeats : (read body).root.NoRepeats
  bytes : body.utf8ByteSize ≤ b.bytes
  depth : (read body).root.height ≤ b.depth
  values : 1 + (read body).root.inner ≤ b.values
  shape : b.Admits (read body).root

section

variable {α : Type} {b : Bounds} {read : String → Document} {S : Serde α} {body : String}

theorem preflight_eq_ok : b.preflight read body = .ok () ↔
    body.utf8ByteSize ≤ b.bytes ∧ b.Admits (read body).root ∧ (read body).root.height ≤ b.depth
      ∧ 1 + (read body).root.inner ≤ b.values ∧ (read body).ended = true := by
  simp only [Bounds.preflight, bind_eq_ok, ensure_eq_ok, orFail_eq_ok, enter_eq_some]
  constructor
  · rintro ⟨-, hbytes, remaining, ⟨hdepth, hvalues⟩, r, hvisit, hended⟩
    obtain ⟨hadmits, hheight, rfl⟩ := (visit_eq_some _ hdepth).mp hvisit
    exact ⟨hbytes, hadmits, by omega, by omega, hended⟩
  · rintro ⟨hbytes, hadmits, hheight, hvalues, hended⟩
    -- what is left over when all values are charged
    have hvisit : b.visit (read body).root 0
        (b.values - (1 + (read body).root.inner) + (read body).root.inner)
          = some (b.values - (1 + (read body).root.inner)) :=
      (visit_eq_some _ (Nat.zero_le _)).mpr ⟨hadmits, by omega, rfl⟩
    exact ⟨(), hbytes, _, ⟨Nat.zero_le _, by omega⟩, _, hvisit, hended⟩

variable {e : InvestigationError}

theorem roundTrip_eq_ok {v : α} :
    roundTrip read S body e = .ok v ↔ ∃ original, (read body).value = some original
      ∧ S.read original = some v ∧ valueEq (S.write v) original = true := by
  simp only [roundTrip, bind_eq_ok, orFail_eq_ok, ensure_eq_ok, pure_eq_ok, Option.bind_eq_some_iff]
  constructor
  · rintro ⟨v', ⟨original, hvalue, hread⟩, original', hvalue', -, hsame, rfl⟩
    rw [hvalue, Option.some_inj] at hvalue'
    exact ⟨original, hvalue, hread, hvalue' ▸ hsame⟩
  · rintro ⟨original, hvalue, hread, hsame⟩
    exact ⟨v, ⟨original, hvalue, hread⟩, original, hvalue, (), hsame, rfl⟩

theorem faithful {v : α} (hpreflight : b.preflight read body = .ok ())
    (h : roundTrip read S body e = .ok v) : Faithful b read S body v := by
  obtain ⟨hbytes, hadmits, hdepth, hvalues, -⟩ := preflight_eq_ok.mp hpreflight
  obtain ⟨original, hvalue, -, hsame⟩ := roundTrip_eq_ok.mp h
  exact ⟨⟨original, hvalue, hsame⟩, noRepeats_of_admits hadmits, hbytes, hdepth, hvalues, hadmits⟩

theorem decodeRecord_eq_ok {v : α} : decodeRecord read S body = .ok v ↔
    Bounds.record.preflight read body = .ok () ∧ roundTrip read S body .invalidInput = .ok v := by
  simp only [decodeRecord, bind_eq_ok]
  constructor
  · rintro ⟨⟨⟩, hpreflight, htrip⟩
    exact ⟨hpreflight, htrip⟩
  · rintro ⟨hpreflight, htrip⟩
    exact ⟨(), hpreflight, htrip⟩

theorem InvestigationAction.decode_eq_ok {action : InvestigationAction} :
    InvestigationAction.decode read body = .ok action ↔
      Bounds.action.preflight read body = .ok ()
      ∧ roundTrip read InvestigationAction.serde body .invalidAction = .ok action
      ∧ action.validateShape = .ok () := by
  simp only [InvestigationAction.decode, bind_eq_ok, orFail_eq_ok, toOption_eq_some, pure_eq_ok]
  constructor
  · rintro ⟨⟨⟩, hpreflight, action', htrip, ⟨⟩, hshape, rfl⟩
    exact ⟨hpreflight, htrip, hshape⟩
  · rintro ⟨hpreflight, htrip, hshape⟩
    exact ⟨(), hpreflight, action, htrip, (), hshape, rfl⟩

/-! ### What was written -/

theorem preflight_written {j : Json} (hread : read j.render = ⟨raw j, true⟩) :
    b.preflight read j.render = .ok ()
      ↔ preflight j b.bytes b.depth b.values b.arrayItems = true := by
  obtain ⟨hheight, hinner⟩ := raw_size j
  rw [preflight_eq_ok, hread, ← Json.size_eq, hheight, hinner, preflight]
  simp only [Bool.and_eq_true, decide_eq_true_eq, and_true]
  constructor
  · rintro ⟨hbytes, hadmits, hdepth, hvalues⟩
    exact ⟨⟨⟨hbytes, hdepth⟩, hvalues⟩, (admits_raw hbytes).mp hadmits⟩
  · rintro ⟨⟨⟨hbytes, hdepth⟩, hvalues⟩, hshaped⟩
    exact ⟨hbytes, (admits_raw hbytes).mpr hshaped, hdepth, hvalues⟩

theorem roundTrip_written {v : α} (hfits : S.Fits v)
    (hread : read (S.write v).render = ⟨raw (S.write v), true⟩) :
    roundTrip read S (S.write v).render e = .ok v := by
  have hvalue : (read (S.write v).render).value = some (S.write v) := by
    rw [hread, Document.value, if_pos rfl, raw_value (S.distinct v)]
  exact roundTrip_eq_ok.mpr ⟨S.write v, hvalue, S.read_write v hfits, valueEq_self (S.distinct v)⟩

theorem decodeRecord_written {v : α} (hfits : S.Fits v)
    (hread : read (S.write v).render = ⟨raw (S.write v), true⟩) :
    decodeRecord read S (S.write v).render = .ok v ↔ decodable (S.write v) = true := by
  rw [decodeRecord_eq_ok, and_iff_left (roundTrip_written hfits hread)]
  exact preflight_written hread

end

end Investigation

/-! ### Stored bodies -/

namespace Jobs

open Investigation Checked GraphStore

/-- `encode`: the text of a record, as bytes. -/
def encodeBody {α : Type} (S : Serde α) (value : α) (maximum : ℕ) :
    Except InvestigationStoreError ByteArray := do
  encode (S.write value) maximum
  pure (S.write value).render.toUTF8

/-- `decode`: bytes with their hash, which are the ones that the record is written as. -/
def decodeBody {α : Type} (contentHash : ByteArray → Hash) (read : String → Document) (S : Serde α)
    (bytes : ByteArray) (hash : String) : Except InvestigationStoreError α := do
  ensure (hashValid hash ∧ (contentHash bytes).text = hash) .invalid
  let text ← orFail (String.fromUTF8? bytes) .invalid
  let value ← admitted (decodeRecord read S text)
  let again ← encodeBody S value MAX_RECORD_BYTES
  ensure (again = bytes) .invalid
  pure value

section

variable {α : Type} {contentHash : ByteArray → Hash} {read : String → Document} {S : Serde α}

theorem fromUTF8?_toUTF8 (s : String) : String.fromUTF8? s.toUTF8 = some s := by
  have hvalid : s.toUTF8.IsValidUTF8 := s.isValidUTF8
  rw [String.fromUTF8?, dif_pos hvalid]
  rfl

theorem encodeBody_eq_ok {v : α} {maximum : ℕ} {bytes : ByteArray} :
    encodeBody S v maximum = .ok bytes
      ↔ (S.write v).size ≤ maximum ∧ bytes = (S.write v).render.toUTF8 := by
  simp only [encodeBody, encode, bind_eq_ok, ensure_eq_ok, pure_eq_ok]
  constructor
  · rintro ⟨-, hsize, rfl⟩
    exact ⟨hsize, rfl⟩
  · rintro ⟨hsize, rfl⟩
    exact ⟨(), hsize, rfl⟩

theorem decodeBody_eq_ok {bytes : ByteArray} {hash : String} {v : α} :
    decodeBody contentHash read S bytes hash = .ok v ↔ (contentHash bytes).text = hash
      ∧ ∃ text, String.fromUTF8? bytes = some text ∧ decodeRecord read S text = .ok v
        ∧ encodeBody S v MAX_RECORD_BYTES = .ok bytes := by
  simp only [decodeBody, bind_eq_ok, ensure_eq_ok, orFail_eq_ok, admitted_eq_ok, pure_eq_ok]
  constructor
  · rintro ⟨-, ⟨-, hhash⟩, text, htext, v', hdecode, bytes', hencode, -, rfl, rfl⟩
    exact ⟨hhash, text, htext, hdecode, hencode⟩
  · rintro ⟨hhash, text, htext, hdecode, hencode⟩
    exact ⟨(), ⟨hhash ▸ (contentHash bytes).valid, hhash⟩, text, htext, v, hdecode, bytes, hencode,
      (), rfl, rfl⟩

theorem decodeBody_written {v : α} (hfits : S.Fits v)
    (hread : read (S.write v).render = ⟨raw (S.write v), true⟩) :
    decodeBody contentHash read S (S.write v).render.toUTF8
        (contentHash (S.write v).render.toUTF8).text = .ok v
      ↔ decodable (S.write v) = true := by
  rw [decodeBody_eq_ok, fromUTF8?_toUTF8]
  constructor
  · rintro ⟨-, text, htext, hdecode, -⟩
    rw [Option.some_inj] at htext
    subst htext
    exact (decodeRecord_written hfits hread).mp hdecode
  · intro hdecodable
    have hsize : (S.write v).size ≤ MAX_RECORD_BYTES := by
      simp only [decodable, Investigation.preflight, Bool.and_eq_true, decide_eq_true_eq]
        at hdecodable
      exact hdecodable.1.1.1
    exact ⟨rfl, _, rfl, (decodeRecord_written hfits hread).mpr hdecodable,
      encodeBody_eq_ok.mpr ⟨hsize, rfl⟩⟩

end

/-- Decoding is strict, and undoes the encoding of records: whatever a decoder accepts is written as
an equal value, names no member twice and is within its bounds; whatever record was encoded is
decoded again exactly when it has the shape of one. -/
theorem strict_decoding {α : Type} (S : Serde α) (read : String → Document)
    (contentHash : ByteArray → Hash) :
    (∀ body v, decodeRecord read S body = .ok v → Faithful .record read S body v)
      ∧ (∀ body action, InvestigationAction.decode read body = .ok action →
        Faithful .action read InvestigationAction.serde body action)
      ∧ (∀ bytes hash v, decodeBody contentHash read S bytes hash = .ok v →
        ∃ body, String.fromUTF8? bytes = some body ∧ Faithful .record read S body v
          ∧ bytes = (S.write v).render.toUTF8)
      ∧ ∀ v maximum bytes, S.Fits v → encodeBody S v maximum = .ok bytes →
        read (S.write v).render = ⟨raw (S.write v), true⟩ →
        (decodeBody contentHash read S bytes (contentHash bytes).text = .ok v
          ↔ decodable (S.write v) = true) := by
  refine ⟨fun body v h => ?_, fun body action h => ?_, fun bytes hash v h => ?_,
    fun v maximum bytes hfits hencode hread => ?_⟩
  · obtain ⟨hpreflight, htrip⟩ := decodeRecord_eq_ok.mp h
    exact faithful hpreflight htrip
  · obtain ⟨hpreflight, htrip, -⟩ := InvestigationAction.decode_eq_ok.mp h
    exact faithful hpreflight htrip
  · obtain ⟨-, body, hbody, hdecode, hencode⟩ := decodeBody_eq_ok.mp h
    obtain ⟨hpreflight, htrip⟩ := decodeRecord_eq_ok.mp hdecode
    exact ⟨body, hbody, faithful hpreflight htrip, (encodeBody_eq_ok.mp hencode).2⟩
  · obtain ⟨-, rfl⟩ := encodeBody_eq_ok.mp hencode
    exact decodeBody_written hfits hread

namespace Sample

/-- A reader that knows one text. -/
def readOnly (j : Json) (text : String) : Document :=
  if text = j.render then ⟨raw j, true⟩ else ⟨.bad, false⟩

def zeroHash (_ : ByteArray) : Hash := ⟨"".pushn '0' 64, by decide⟩

def smallStep : PendingInvestigationStep := ⟨"step:1", "payload", "ledger", 40, 0⟩

/-- One limitation more than a stored array can have. -/
def limitedResult : InvestigationResult where
  schemaVersion := 1
  investigationId := "investigation:1"
  resultId := ""
  inputLedgerHash := ""
  graphSnapshotId := ""
  findings := []
  knowledgeCompleteness := .insufficientEvidence
  limitations := List.replicate 129 "unknown"
  observedResponseModel := none
  createdAt := ""

end Sample

theorem strict_decoding_sample :
    decodeBody Sample.zeroHash (Sample.readOnly Sample.smallStep.toJson)
        PendingInvestigationStep.serde Sample.smallStep.toJson.render.toUTF8
        (Sample.zeroHash Sample.smallStep.toJson.render.toUTF8).text = .ok Sample.smallStep
      ∧ ∃ body, Faithful .record (Sample.readOnly Sample.smallStep.toJson)
          PendingInvestigationStep.serde body Sample.smallStep := by
  obtain ⟨hrecord, -, hbody, hback⟩ := strict_decoding PendingInvestigationStep.serde
    (Sample.readOnly Sample.smallStep.toJson) Sample.zeroHash
  have hsize : Sample.smallStep.toJson.size ≤ 4096 := by decide
  have hdecodable : decodable Sample.smallStep.toJson = true := by
    refine decodable_of_shape (shape_step _) (by omega) (hsize.trans (by decide)) ?_
    rw [values_step]
    omega
  have hbytes : Sample.smallStep.inputBytes < 2 ^ 64 := by decide
  have htokens : Sample.smallStep.generatedTokens < 2 ^ 32 := by decide
  have hdecode := (hback Sample.smallStep 4096 _ ⟨trivial, trivial, trivial, hbytes, htokens⟩
    (encodeBody_eq_ok.mpr ⟨hsize, rfl⟩) (if_pos rfl)).mpr hdecodable
  obtain ⟨body, -, hfaithful, -⟩ := hbody _ _ _ hdecode
  exact ⟨hdecode, body, hfaithful⟩

/-- The encoder only looks at the length of the text. -/
theorem strict_decoding_fails :
    ∃ bytes, encodeBody InvestigationResult.serde Sample.limitedResult MAX_RESULT_BYTES = .ok bytes
      ∧ decodeBody Sample.zeroHash (Sample.readOnly Sample.limitedResult.toJson)
          InvestigationResult.serde bytes (Sample.zeroHash bytes).text ≠ .ok Sample.limitedResult := by
  have hsize : Sample.limitedResult.toJson.size ≤ MAX_RESULT_BYTES := by decide +kernel
  refine ⟨_, encodeBody_eq_ok.mpr ⟨hsize, rfl⟩, fun hdecode => ?_⟩
  have hversion : Sample.limitedResult.schemaVersion < 2 ^ 32 := by decide
  have hdecodable := (decodeBody_written (InvestigationResult.fits hversion) (if_pos rfl)).mp hdecode
  have hshaped : shaped 128 Sample.limitedResult.toJson = false := by decide +kernel
  have hdecodable : decodable Sample.limitedResult.toJson = true := hdecodable
  rw [decodable, Investigation.preflight, hshaped, Bool.and_false] at hdecodable
  exact Bool.false_ne_true hdecodable

end Jobs

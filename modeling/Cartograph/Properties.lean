/-
Property values of facts.

`serde_json` turns a text into a sequence of visitor events before any value is
built; a `Raw` tree is that sequence, with the place where the text stops being
JSON.  Both readers of the store visit the same events: the plain one builds a
`Json` value (`Raw.value`), the bounded one also charges a budget.  An object is
an insertion-ordered map in which the last member of a name wins.

`canonicalize` sorts every object by name; the digests of complete facts are
taken over the canonical text.
-/
import Cartograph.Lib.Json
import Cartograph.GraphStore

namespace GraphStore

/-! ### Events of the deserializer -/

/-- What the deserializer reports for one value.  A container that is not
`closed` fails after its listed members; `bad` fails at once. -/
inductive Raw
  | null
  | bool (b : Bool)
  | num (text : String)
  | str (s : String)
  | seq (items : List Raw) (closed : Bool)
  | map (members : List (String × Raw)) (closed : Bool)
  | bad

/-- A property text: its value, and whether nothing but blanks follows. -/
structure Document where
  root : Raw
  ended : Bool

/-- `Map::insert`: a known name keeps its place and takes the new value. -/
def insertMember (k : String) (v : Json) : List (String × Json) → List (String × Json)
  | [] => [(k, v)]
  | (k', v') :: rest => if k' = k then (k, v) :: rest else (k', v') :: insertMember k v rest

namespace Raw

mutual

/-- The value the ordinary visitor builds. -/
def value : Raw → Option Json
  | .null => some .null
  | .bool b => some (.bool b)
  | .num text => some (.num text)
  | .str s => some (.str s)
  | .seq items closed =>
    match values items with
    | some vs => if closed then some (.arr vs) else none
    | none => none
  | .map members closed =>
    match object members [] with
    | some fields => if closed then some (.obj fields) else none
    | none => none
  | .bad => none

def values : List Raw → Option (List Json)
  | [] => some []
  | x :: rest =>
    match value x with
    | some v => (values rest).map (v :: ·)
    | none => none

def object : List (String × Raw) → List (String × Json) → Option (List (String × Json))
  | [], fields => some fields
  | (k, x) :: rest, fields =>
    match value x with
    | some v => object rest (insertMember k v fields)
    | none => none

end

end Raw

/-- `serde_json::from_str::<Value>`. -/
def Document.value (d : Document) : Option Json := if d.ended then d.root.value else none

/-! ### Equality of values -/

/-- Numbers are equal as numbers: only the two zeros have different texts. -/
def numEq (a b : String) : Bool :=
  a == b || (a == "0.0" && b == "-0.0") || (a == "-0.0" && b == "0.0")

def findMember (k : String) : List (String × Json) → Option Json
  | [] => none
  | (k', v) :: rest => if k' = k then some v else findMember k rest

mutual

/-- `Value::eq`; objects are equal as maps, in any order. -/
def valueEq : Json → Json → Bool
  | .null, .null => true
  | .bool a, .bool b => a == b
  | .num a, .num b => numEq a b
  | .str a, .str b => a == b
  | .arr items, .arr items' => itemsEq items items'
  | .obj fields, .obj fields' => fields.length == fields'.length && membersEq fields fields'
  | _, _ => false

def itemsEq : List Json → List Json → Bool
  | [], [] => true
  | j :: rest, j' :: rest' => valueEq j j' && itemsEq rest rest'
  | _, _ => false

def membersEq : List (String × Json) → List (String × Json) → Bool
  | [], _ => true
  | (k, j) :: rest, fields' =>
    (match findMember k fields' with
      | some j' => valueEq j j'
      | none => false) && membersEq rest fields'

end

instance : BEq Json := ⟨valueEq⟩

/-! ### Canonical form and digests -/

/-- A `BTreeMap` of the members, in name order. -/
def sortMembers (fields : List (String × Json)) : List (String × Json) :=
  (fields.foldl (fun (t : Table String Json) f => t.put f.1 f.2) Table.empty).rows

mutual

/-- `canonicalize`: every object in name order. -/
def canonicalize : Json → Json
  | .obj fields => .obj (sortMembers (canonicalizeMembers fields))
  | .arr items => .arr (canonicalizeItems items)
  | .null => .null
  | .bool b => .bool b
  | .num text => .num text
  | .str s => .str s

def canonicalizeItems : List Json → List Json
  | [] => []
  | j :: rest => canonicalize j :: canonicalizeItems rest

def canonicalizeMembers : List (String × Json) → List (String × Json)
  | [] => []
  | (k, j) :: rest => (k, canonicalize j) :: canonicalizeMembers rest

end

/-- `digest`, over the content hash of the canonical text. -/
def digest (contentHash : String → String) (version : String) (value : Json) : String :=
  version ++ ":" ++
    contentHash (Json.render (.arr [.str ("cartograph.source." ++ version), canonicalize value]))

def nodeDigest (contentHash : String → String) (n : Node Json) : String :=
  digest contentHash "node-v1"
    (.obj [("id", .str n.id), ("label", .str n.label), ("props", n.props)])

def edgeDigest (contentHash : String → String) (e : Edge Json) : String :=
  digest contentHash "edge-v1"
    (.obj [("src", .str e.src), ("dst", .str e.dst), ("label", .str e.label),
      ("props", e.props)])

/-- The codec of the store: `read` is what the deserializer makes of a text. -/
def propsCodec (read : String → Document) (contentHash : String → String) : Codec Json where
  toText := Json.render
  fromText text := (read text).value
  nodeDigest := GraphStore.nodeDigest contentHash
  edgeDigest := GraphStore.edgeDigest contentHash

/-! ### Depth and number of the parsed values -/

namespace Raw

mutual

/-- Levels below a value. -/
def height : Raw → ℕ
  | .seq items _ => itemsHeight items
  | .map members _ => membersHeight members
  | .null | .bool _ | .num _ | .str _ | .bad => 0

def itemsHeight : List Raw → ℕ
  | [] => 0
  | x :: rest => max (1 + height x) (itemsHeight rest)

def membersHeight : List (String × Raw) → ℕ
  | [] => 0
  | (_, x) :: rest => max (1 + height x) (membersHeight rest)

end

mutual

/-- Values inside a value, replaced members included. -/
def inner : Raw → ℕ
  | .seq items _ => itemsInner items
  | .map members _ => membersInner members
  | .null | .bool _ | .num _ | .str _ | .bad => 0

def itemsInner : List Raw → ℕ
  | [] => 0
  | x :: rest => 1 + inner x + itemsInner rest

def membersInner : List (String × Raw) → ℕ
  | [] => 0
  | (_, x) :: rest => 1 + inner x + membersInner rest

end

end Raw

/-! ### Texts without repeated names -/

namespace Raw

mutual

/-- No object of the text names a member twice. -/
def NoRepeats : Raw → Prop
  | .seq items _ => itemsNoRepeats items
  | .map members _ => (members.map Prod.fst).Nodup ∧ membersNoRepeats members
  | .null | .bool _ | .num _ | .str _ | .bad => True

def itemsNoRepeats : List Raw → Prop
  | [] => True
  | x :: rest => NoRepeats x ∧ itemsNoRepeats rest

def membersNoRepeats : List (String × Raw) → Prop
  | [] => True
  | (_, x) :: rest => NoRepeats x ∧ membersNoRepeats rest

end

theorem insertMember_of_notMem {k : String} {v : Json} : ∀ {l : List (String × Json)},
    k ∉ l.map Prod.fst → insertMember k v l = l ++ [(k, v)]
  | [], _ => rfl
  | (k', v') :: rest, h => by
    rw [List.map_cons, List.mem_cons, not_or] at h
    rw [insertMember, if_neg (Ne.symm h.1), insertMember_of_notMem h.2, List.cons_append]

mutual

theorem value_height : ∀ (x : Raw) {v : Json}, x.NoRepeats → x.value = some v →
    v.height = x.height ∧ v.Distinct
  | .null, v, _, h | .bool b, v, _, h | .num text, v, _, h | .str s, v, _, h =>
    by cases h; exact ⟨rfl, trivial⟩
  | .bad, v, _, h => by cases h
  | .seq items closed, v, hx, h => by
    cases hvs : values items with
    | none => simp [value, hvs] at h
    | some vs =>
      cases closed with
      | false => simp [value, hvs] at h
      | true =>
        simp only [value, hvs, if_true, Option.some_inj] at h
        subst h
        exact values_height items hx hvs
  | .map members closed, v, hx, h => by
    cases hvs : object members [] with
    | none => simp [value, hvs] at h
    | some fields =>
      cases closed with
      | false => simp [value, hvs] at h
      | true =>
        simp only [value, hvs, if_true, Option.some_inj] at h
        subst h
        obtain ⟨hheight, hkeys, hdist⟩ := @object_height members [] fields hx.2 hx.1 trivial hvs
        refine ⟨by simpa [Json.height, Json.fieldsHeight, height] using hheight, ?_, hdist⟩
        rw [hkeys]
        exact hx.1

theorem values_height : ∀ (l : List Raw) {vs : List Json}, itemsNoRepeats l →
    values l = some vs → Json.itemsHeight vs = itemsHeight l ∧ Json.itemsDistinct vs
  | [], vs, _, h => by cases h; exact ⟨rfl, trivial⟩
  | x :: rest, vs, hl, h => by
    cases hv : x.value with
    | none => simp [values, hv] at h
    | some v =>
      simp only [values, hv, Option.map_eq_some_iff] at h
      obtain ⟨vs', hvs', rfl⟩ := h
      obtain ⟨hx, hxd⟩ := value_height x hl.1 hv
      obtain ⟨hr, hrd⟩ := values_height rest hl.2 hvs'
      exact ⟨by rw [Json.itemsHeight, itemsHeight, hx, hr], hxd, hrd⟩

theorem object_height : ∀ (l : List (String × Raw)) {acc fields : List (String × Json)},
    membersNoRepeats l → (acc.map Prod.fst ++ l.map Prod.fst).Nodup → Json.fieldsDistinct acc →
    object l acc = some fields →
      Json.fieldsHeight fields = max (Json.fieldsHeight acc) (membersHeight l) ∧
        fields.map Prod.fst = acc.map Prod.fst ++ l.map Prod.fst ∧ Json.fieldsDistinct fields
  | [], acc, fields, _, _, hacc, h => by
    cases h
    simp [membersHeight, hacc]
  | (k, x) :: rest, acc, fields, hl, hkeys, hacc, h => by
    cases hv : x.value with
    | none => simp [object, hv] at h
    | some v =>
      obtain ⟨hx, hxd⟩ := value_height x hl.1 hv
      have hk : k ∉ acc.map Prod.fst := by
        intro hmem
        have := List.nodup_append.mp hkeys
        exact this.2.2 k hmem k (by simp) rfl
      simp only [object, hv, insertMember_of_notMem hk] at h
      have hkeys' : ((acc ++ [(k, v)]).map Prod.fst ++ rest.map Prod.fst).Nodup := by
        simpa using hkeys
      have hacc' : Json.fieldsDistinct (acc ++ [(k, v)]) :=
        Json.fieldsDistinct_append.mpr ⟨hacc, hxd, trivial⟩
      obtain ⟨hheight, hnames, hdist⟩ := object_height rest hl.2 hkeys' hacc' h
      refine ⟨?_, by simpa using hnames, hdist⟩
      rw [hheight, Json.fieldsHeight_append, membersHeight, ← hx]
      simp [Json.fieldsHeight, max_assoc]

end

end Raw

/-! ### Sorting keeps the depth -/

theorem find?_foldl_put (l : List (String × Json)) (t : Table String Json) {k : String} {v : Json}
    (h : (l.map Prod.fst).Nodup) :
    (l.foldl (fun (t : Table String Json) f => t.put f.1 f.2) t).find? k = some v ↔
      (k, v) ∈ l ∨ (k ∉ l.map Prod.fst ∧ t.find? k = some v) := by
  induction l generalizing t with
  | nil => simp
  | cons f rest ih =>
    obtain ⟨k', v'⟩ := f
    rw [List.map_cons, List.nodup_cons] at h
    rw [List.foldl_cons, ih _ h.2, Table.find?_put, List.map_cons, List.mem_cons, List.mem_cons,
      Prod.mk.injEq]
    by_cases hk : k = k'
    · subst hk
      have hrest : (k, v) ∉ rest := fun hmem => h.1 (List.mem_map.mpr ⟨_, hmem, rfl⟩)
      simp [h.1, hrest, eq_comm]
    · simp [hk]

theorem mem_sortMembers {l : List (String × Json)} (h : (l.map Prod.fst).Nodup)
    (f : String × Json) : f ∈ sortMembers l ↔ f ∈ l := by
  obtain ⟨k, v⟩ := f
  rw [sortMembers, ← Table.find?_eq_some_iff, find?_foldl_put l _ h]
  simp

theorem canonicalizeMembers_keys (l : List (String × Json)) :
    (canonicalizeMembers l).map Prod.fst = l.map Prod.fst := by
  induction l with
  | nil => rfl
  | cons f rest ih =>
    obtain ⟨k, j⟩ := f
    rw [canonicalizeMembers, List.map_cons, ih, List.map_cons]

mutual

theorem canonicalize_height : ∀ (j : Json), j.Distinct → (canonicalize j).height = j.height
  | .null, _ => rfl
  | .bool _, _ => rfl
  | .num _, _ => rfl
  | .str _, _ => rfl
  | .arr items, h => canonicalizeItems_height items h
  | .obj fields, h => by
    have hkeys : ((canonicalizeMembers fields).map Prod.fst).Nodup := by
      rw [canonicalizeMembers_keys]
      exact h.1
    rw [canonicalize, Json.height, Json.fieldsHeight_congr (mem_sortMembers hkeys), Json.height]
    exact canonicalizeMembers_height fields h.2

theorem canonicalizeItems_height : ∀ (l : List Json), Json.itemsDistinct l →
    Json.itemsHeight (canonicalizeItems l) = Json.itemsHeight l
  | [], _ => rfl
  | j :: rest, h => by
    rw [canonicalizeItems, Json.itemsHeight, Json.itemsHeight, canonicalize_height j h.1,
      canonicalizeItems_height rest h.2]

theorem canonicalizeMembers_height : ∀ (l : List (String × Json)), Json.fieldsDistinct l →
    Json.fieldsHeight (canonicalizeMembers l) = Json.fieldsHeight l
  | [], _ => rfl
  | (k, j) :: rest, h => by
    rw [canonicalizeMembers, Json.fieldsHeight, Json.fieldsHeight, canonicalize_height j h.1,
      canonicalizeMembers_height rest h.2]

end

theorem Document.canonicalize_height {d : Document} {v : Json} (hd : d.root.NoRepeats)
    (h : d.value = some v) : (canonicalize v).height = d.root.height := by
  have hroot : d.root.value = some v := by
    rw [Document.value] at h
    by_cases he : d.ended = true
    · rwa [if_pos he] at h
    · rw [if_neg he] at h
      exact absurd h (by simp)
  obtain ⟨hheight, hdist⟩ := d.root.value_height hd hroot
  rw [GraphStore.canonicalize_height v hdist, hheight]

/-- A reader of the one text `\x7b\x7d`. -/
def emptyRead (text : String) : Document :=
  if text = "\x7b\x7d" then ⟨.map [] true, true⟩ else ⟨.bad, true⟩

/-- The codec on that text, with the content hash of the node `a` of label
`Symbol` that carries it. -/
def emptyPropsCodec : Codec Json :=
  propsCodec emptyRead
    fun _ => "088b25b383a6695b7614e46efba91b99df1343c8e6f8a38bbd96b4aedf338d84"

end GraphStore

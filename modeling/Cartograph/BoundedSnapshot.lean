/-
The bounded snapshot agrees with the plain one (`crates/core-graph/src/bounded.rs`).

The bounded reader charges rows, stored bytes, JSON depth, JSON values and
canonical bytes as it goes; the plain reader only parses.  Both see the same
deserializer events, so that

* `visit_eq_ok` — the budgeted visitor succeeds exactly when the plain one does
  and the depth and the number of values fit, and builds the same value;
* `boundedNodes_eq_ok`, `boundedEdges_eq_ok` — the same for whole tables;
* `readSnapshotBounded_iff` — the public operation.

Depth and values are those of the parsed texts: a member that a later one of the
same name replaces is charged like any other.  `parsedDepth_eq` says that for
texts without repeated names the depth is that of the canonical graph.
-/
import Cartograph.Properties
import Cartograph.SourceStore

namespace GraphStore

open Checked

/-! ### Limits -/

structure SnapshotReadLimits where
  maxBytes : ℕ
  maxRows : ℕ
  maxDepth : ℕ
  maxValues : ℕ
  deriving DecidableEq

namespace SnapshotReadLimits

def MAX_BYTES : ℕ := 32 * 1024 * 1024
def MAX_ROWS : ℕ := 50000
def MAX_DEPTH : ℕ := 32
def MAX_VALUES : ℕ := 1000000

/-- The limits lie within the hard profile. -/
def Valid (l : SnapshotReadLimits) : Prop :=
  l.maxBytes ≠ 0 ∧ l.maxBytes ≤ MAX_BYTES ∧ l.maxRows ≤ MAX_ROWS ∧ l.maxDepth ≠ 0 ∧
    l.maxDepth ≤ MAX_DEPTH ∧ l.maxValues ≠ 0 ∧ l.maxValues ≤ MAX_VALUES

instance (l : SnapshotReadLimits) : Decidable l.Valid := by unfold Valid; infer_instance

def validate (l : SnapshotReadLimits) : Except SnapshotBoundsError Unit :=
  ensure l.Valid .invalidLimits

end SnapshotReadLimits

/-! ### The budget and the property visitor -/

section Reader

variable (limits : SnapshotReadLimits)

/-- `JsonBudget::enter`: one value at `depth`, out of the remaining values. -/
def enter (depth remaining : ℕ) : Except SnapshotBoundsError ℕ := do
  ensure (depth ≤ limits.maxDepth) .jsonDepthLimit
  ensure (1 ≤ remaining) .jsonValueLimit
  pure (remaining - 1)

mutual

/-- The visitor of `JsonSeed`, for a value that `enter` has admitted at `depth`. -/
def visit : Raw → ℕ → ℕ → Except SnapshotBoundsError (Json × ℕ)
  | .null, _, r => .ok (.null, r)
  | .bool b, _, r => .ok (.bool b, r)
  | .num text, _, r => .ok (.num text, r)
  | .str s, _, r => .ok (.str s, r)
  | .seq items closed, depth, r => do
    let (vs, r) ← visitSeq items (depth + 1) r
    ensure (closed = true) .invalidJson
    pure (.arr vs, r)
  | .map members closed, depth, r => do
    let (fields, r) ← visitMap members [] (depth + 1) r
    ensure (closed = true) .invalidJson
    pure (.obj fields, r)
  | .bad, _, _ => .error .invalidJson

def visitSeq : List Raw → ℕ → ℕ → Except SnapshotBoundsError (List Json × ℕ)
  | [], _, r => .ok ([], r)
  | x :: rest, depth, r => do
    let r ← enter limits depth r
    let (v, r) ← visit x depth r
    let (vs, r) ← visitSeq rest depth r
    pure (v :: vs, r)

def visitMap : List (String × Raw) → List (String × Json) → ℕ → ℕ →
    Except SnapshotBoundsError (List (String × Json) × ℕ)
  | [], fields, _, r => .ok (fields, r)
  | (k, x) :: rest, fields, depth, r => do
    let r ← enter limits depth r
    let (v, r) ← visit x depth r
    visitMap rest (insertMember k v fields) depth r

end

/-- `parse_properties`: properties are at depth four of the graph. -/
def parseProperties (read : String → Document) (input : String) (r : ℕ) :
    Except SnapshotBoundsError (Json × ℕ) := do
  let r ← enter limits 4 r
  let (v, r) ← visit limits (read input).root 4 r
  ensure ((read input).ended = true) .invalidJson
  pure (v, r)

/-! ### Rows -/

def nodeFields (r : String × NodeRow) : List String := [r.1, r.2.label, r.2.props]

def edgeFields (r : EdgeKey × String) : List String := [r.1.src, r.1.dst, r.1.label, r.2]

/-- `preflight_rows`: row count, then the bytes of every stored field. -/
def preflightRows (s : Store) : Except SnapshotBoundsError Unit := do
  ensure (s.nodes.rows.length + s.edges.rows.length ≤ limits.maxRows) .rowLimit
  let fields := s.nodes.rows.flatMap nodeFields ++ s.edges.rows.flatMap edgeFields
  let _ ← spend .rawByteLimit limits.maxBytes (fields.map String.utf8ByteSize)
  pure ()

variable (read : String → Document)

def boundedNodes : List (String × NodeRow) → ℕ → Except SnapshotBoundsError (List (Node Json) × ℕ)
  | [], r => .ok ([], r)
  | (id, row) :: rest, r => do
    let r ← enter limits 3 r
    let r ← enter limits 4 r -- id
    let r ← enter limits 4 r -- label
    let (props, r) ← parseProperties limits read row.props r
    let (nodes, r) ← boundedNodes rest r
    pure (⟨id, row.label, props⟩ :: nodes, r)

def boundedEdges : List (EdgeKey × String) → ℕ → Except SnapshotBoundsError (List (Edge Json) × ℕ)
  | [], r => .ok ([], r)
  | (k, text) :: rest, r => do
    let r ← enter limits 3 r
    let r ← enter limits 4 r -- src
    let r ← enter limits 4 r -- dst
    let r ← enter limits 4 r -- label
    let (props, r) ← parseProperties limits read text r
    let (edges, r) ← boundedEdges rest r
    pure (⟨k.src, k.dst, k.label, props⟩ :: edges, r)

/-! ### Canonical bytes -/

/-- What `CanonicalNode` serializes. -/
def canonicalNode (n : Node Json) : Json :=
  .obj [("id", .str n.id), ("label", .str n.label), ("props", canonicalize n.props)]

/-- What `CanonicalEdge` serializes. -/
def canonicalEdge (e : Edge Json) : Json :=
  .obj [("dst", .str e.dst), ("label", .str e.label), ("props", canonicalize e.props),
    ("src", .str e.src)]

/-- What `CanonicalGraph` serializes. -/
def canonicalGraph (g : List (Node Json) × List (Edge Json)) : Json :=
  .arr [.arr (g.1.map canonicalNode), .arr (g.2.map canonicalEdge)]

/-- The counting writer: each piece of the text, out of the remaining bytes. -/
def countCanonical (g : List (Node Json) × List (Edge Json)) : Except SnapshotBoundsError Unit := do
  let _ ← spend .canonicalByteLimit limits.maxBytes
    ((canonicalGraph g).chunks.map String.utf8ByteSize)
  pure ()

/-- `read_snapshot_rows_bounded`, inside the caller's transaction. -/
def readSnapshotRowsBounded (s : Store) :
    Except SnapshotBoundsError (List (Node Json) × List (Edge Json)) := do
  preflightRows limits s
  let r := limits.maxValues
  let r ← enter limits 1 r -- complete graph tuple
  let r ← enter limits 2 r -- nodes array
  let r ← enter limits 2 r -- edges array
  let (nodes, r) ← boundedNodes limits read s.nodes.rows r
  let (edges, _) ← boundedEdges limits read s.edges.rows r
  countCanonical limits (nodes, edges)
  pure (nodes, edges)

/-- `read_snapshot_bounded`. -/
def readSnapshotBounded (s : Store) : Except GraphError (List (Node Json) × List (Edge Json)) :=
  match limits.validate with
  | .error e => .error (.snapshotBounds e)
  | .ok () =>
    match readSnapshotRowsBounded limits read s with
    | .error e => .error (.snapshotBounds e)
    | .ok g => .ok g

end Reader

/-! ### What the budget decides -/

variable {s : Store} {g : List (Node Json) × List (Edge Json)} {contentHash : String → String}

variable {r r' n : ℕ} {ns : List (Node Json)} {es : List (Edge Json)}

section Spec

variable {limits : SnapshotReadLimits} {read : String → Document}

theorem enter_eq_ok {depth : ℕ} :
    enter limits depth r = .ok r' ↔ depth ≤ limits.maxDepth ∧ r = r' + 1 := by
  simp only [enter, bind_eq_ok, ensure_eq_ok, pure_eq_ok]
  constructor
  · rintro ⟨-, hd, -, hr, rfl⟩
    exact ⟨hd, by omega⟩
  · rintro ⟨hd, rfl⟩
    exact ⟨(), hd, (), by omega, by omega⟩

mutual

/-- The budgeted visitor builds what the plain one does, and charges the depth
and the number of the values it meets. -/
theorem visit_eq_ok : ∀ (x : Raw) {depth r r' : ℕ} {v : Json}, depth ≤ limits.maxDepth →
    (visit limits x depth r = .ok (v, r') ↔
      x.value = some v ∧ depth + x.height ≤ limits.maxDepth ∧ r = r' + x.inner)
  | .null, depth, r, r', v, hd | .bool b, depth, r, r', v, hd | .num text, depth, r, r', v, hd
  | .str s, depth, r, r', v, hd => by simp [visit, Raw.value, Raw.height, Raw.inner, hd]
  | .bad, depth, r, r', v, hd => by simp [visit, Raw.value]
  | .seq items closed, depth, r, r', v, hd => by
    simp only [visit, bind_eq_ok, ensure_eq_ok, pure_eq_ok, Prod.exists, Prod.mk.injEq,
      visitSeq_eq_ok items hd, Raw.value, Raw.height, Raw.inner]
    constructor
    · rintro ⟨vs, r1, ⟨hvs, hdepth, hr⟩, -, hc, rfl, rfl⟩
      rw [hvs]
      exact ⟨by simp [hc], hdepth, hr⟩
    · rintro ⟨hv, hdepth, hr⟩
      cases hvs : Raw.values items with
      | none => simp [hvs] at hv
      | some vs =>
        cases closed with
        | false => simp [hvs] at hv
        | true => exact ⟨vs, r', ⟨rfl, hdepth, hr⟩, (), rfl, by simpa [hvs] using hv, rfl⟩
  | .map members closed, depth, r, r', v, hd => by
    simp only [visit, bind_eq_ok, ensure_eq_ok, pure_eq_ok, Prod.exists, Prod.mk.injEq,
      visitMap_eq_ok members hd, Raw.value, Raw.height, Raw.inner]
    constructor
    · rintro ⟨fields, r1, ⟨hvs, hdepth, hr⟩, -, hc, rfl, rfl⟩
      rw [hvs]
      exact ⟨by simp [hc], hdepth, hr⟩
    · rintro ⟨hv, hdepth, hr⟩
      cases hvs : Raw.object members [] with
      | none => simp [hvs] at hv
      | some fields =>
        cases closed with
        | false => simp [hvs] at hv
        | true => exact ⟨fields, r', ⟨rfl, hdepth, hr⟩, (), rfl, by simpa [hvs] using hv, rfl⟩

theorem visitSeq_eq_ok : ∀ (l : List Raw) {depth r r' : ℕ} {vs : List Json},
    depth ≤ limits.maxDepth →
    (visitSeq limits l (depth + 1) r = .ok (vs, r') ↔
      Raw.values l = some vs ∧ depth + Raw.itemsHeight l ≤ limits.maxDepth ∧
        r = r' + Raw.itemsInner l)
  | [], depth, r, r', vs, hd => by
    simp [visitSeq, Raw.values, Raw.itemsHeight, Raw.itemsInner, hd]
  | x :: rest, depth, r, r', vs, hd => by
    simp only [visitSeq, bind_eq_ok, enter_eq_ok, pure_eq_ok, Prod.exists, Prod.mk.injEq,
      Raw.values, Raw.itemsHeight, Raw.itemsInner]
    constructor
    · rintro ⟨r1, ⟨hd1, rfl⟩, v, r2, hv, vs', r3, hvs, rfl, rfl⟩
      obtain ⟨hval, hdv, rfl⟩ := (visit_eq_ok x hd1).mp hv
      obtain ⟨hvals, hdr, rfl⟩ := (visitSeq_eq_ok rest hd).mp hvs
      rw [hval, hvals]
      exact ⟨rfl, by omega, by omega⟩
    · rintro ⟨hvals, hdepth, hr⟩
      cases hv : x.value with
      | none => simp [hv] at hvals
      | some v =>
        simp only [hv, Option.map_eq_some_iff] at hvals
        obtain ⟨vs', hvs', rfl⟩ := hvals
        have hd1 : depth + 1 ≤ limits.maxDepth := by omega
        refine ⟨r' + Raw.itemsInner rest + x.inner, ⟨hd1, by omega⟩, v, r' + Raw.itemsInner rest,
          (visit_eq_ok x hd1).mpr ⟨hv, by omega, rfl⟩, vs', r',
          (visitSeq_eq_ok rest hd).mpr ⟨hvs', by omega, rfl⟩, rfl, rfl⟩

theorem visitMap_eq_ok : ∀ (l : List (String × Raw)) {acc : List (String × Json)}
    {depth r r' : ℕ} {fields : List (String × Json)}, depth ≤ limits.maxDepth →
    (visitMap limits l acc (depth + 1) r = .ok (fields, r') ↔
      Raw.object l acc = some fields ∧ depth + Raw.membersHeight l ≤ limits.maxDepth ∧
        r = r' + Raw.membersInner l)
  | [], acc, depth, r, r', fields, hd => by
    simp [visitMap, Raw.object, Raw.membersHeight, Raw.membersInner, hd]
  | (k, x) :: rest, acc, depth, r, r', fields, hd => by
    simp only [visitMap, bind_eq_ok, enter_eq_ok, Prod.exists, Raw.object, Raw.membersHeight,
      Raw.membersInner]
    constructor
    · rintro ⟨r1, ⟨hd1, rfl⟩, v, r2, hv, hvs⟩
      obtain ⟨hval, hdv, rfl⟩ := (visit_eq_ok x hd1).mp hv
      obtain ⟨hvals, hdr, rfl⟩ := (visitMap_eq_ok rest hd).mp hvs
      rw [hval]
      exact ⟨hvals, by omega, by omega⟩
    · rintro ⟨hvals, hdepth, hr⟩
      cases hv : x.value with
      | none => simp [hv] at hvals
      | some v =>
        simp only [hv] at hvals
        have hd1 : depth + 1 ≤ limits.maxDepth := by omega
        exact ⟨r' + Raw.membersInner rest + x.inner, ⟨hd1, by omega⟩, v,
          r' + Raw.membersInner rest, (visit_eq_ok x hd1).mpr ⟨hv, by omega, rfl⟩,
          (visitMap_eq_ok rest hd).mpr ⟨hvals, by omega, rfl⟩⟩

end

theorem parseProperties_eq_ok {input : String} {v : Json} :
    parseProperties limits read input r = .ok (v, r') ↔
      (read input).value = some v ∧ 4 + (read input).root.height ≤ limits.maxDepth ∧
        r = r' + (1 + (read input).root.inner) := by
  simp only [parseProperties, bind_eq_ok, enter_eq_ok, ensure_eq_ok, pure_eq_ok, Prod.exists,
    Prod.mk.injEq, Document.value]
  constructor
  · rintro ⟨r1, ⟨hd, rfl⟩, v', r2, hv, -, hend, rfl, rfl⟩
    obtain ⟨hval, hdepth, rfl⟩ := (visit_eq_ok _ hd).mp hv
    exact ⟨by rw [if_pos hend, hval], hdepth, by omega⟩
  · rintro ⟨hv, hdepth, rfl⟩
    have hend : (read input).ended = true := by
      by_contra hne
      rw [if_neg hne] at hv
      exact absurd hv (by simp)
    rw [if_pos hend] at hv
    have hd : 4 ≤ limits.maxDepth := by omega
    exact ⟨r' + (read input).root.inner, ⟨hd, by omega⟩, v, r',
      (visit_eq_ok _ hd).mpr ⟨hv, hdepth, rfl⟩, (), hend, rfl, rfl⟩

/-! ### Whole tables -/

/-- Values charged for one node: the object, two fixed fields and the properties. -/
def nodeValues (read : String → Document) (r : String × NodeRow) : ℕ :=
  4 + (read r.2.props).root.inner

/-- Values charged for one edge: the object, three fixed fields and the properties. -/
def edgeValues (read : String → Document) (r : EdgeKey × String) : ℕ :=
  5 + (read r.2).root.inner

def nodeDepth (read : String → Document) (r : String × NodeRow) : ℕ :=
  4 + (read r.2.props).root.height

def edgeDepth (read : String → Document) (r : EdgeKey × String) : ℕ :=
  4 + (read r.2).root.height

/-- The plain reader on one row of `nodes`. -/
def plainNode (read : String → Document) (r : String × NodeRow) : Except GraphError (Node Json) := do
  let props ← orFail (read r.2.props).value .props
  pure ⟨r.1, r.2.label, props⟩

/-- The plain reader on one row of `edges`. -/
def plainEdge (read : String → Document) (r : EdgeKey × String) : Except GraphError (Edge Json) := do
  let props ← orFail (read r.2).value .props
  pure ⟨r.1.src, r.1.dst, r.1.label, props⟩

theorem boundedNodes_eq_ok : ∀ (rows : List (String × NodeRow)) {r r' : ℕ} {ns : List (Node Json)},
    boundedNodes limits read rows r = .ok (ns, r') ↔
      rows.mapM (plainNode read) = .ok ns ∧ (∀ row ∈ rows, nodeDepth read row ≤ limits.maxDepth) ∧
        r = r' + (rows.map (nodeValues read)).sum
  | [], r, r', ns => by simp [boundedNodes, pure, Except.pure]
  | row :: rest, r, r', ns => by
    obtain ⟨id, row⟩ := row
    simp only [boundedNodes, List.mapM_cons, plainNode, bind_eq_ok, enter_eq_ok,
      parseProperties_eq_ok, orFail_eq_ok, pure_eq_ok, Prod.exists, Prod.mk.injEq,
      List.forall_mem_cons, List.map_cons, List.sum_cons, nodeDepth, nodeValues,
      boundedNodes_eq_ok rest]
    constructor
    · rintro ⟨_, ⟨-, rfl⟩, _, ⟨-, rfl⟩, _, ⟨-, rfl⟩, v, _, ⟨hv, hd, rfl⟩, ns', _,
        ⟨hns, hrest, rfl⟩, rfl, rfl⟩
      exact ⟨⟨_, ⟨v, hv, rfl⟩, ns', hns, rfl⟩, ⟨hd, hrest⟩, by omega⟩
    · rintro ⟨⟨_, ⟨v, hv, rfl⟩, ns', hns, rfl⟩, ⟨hd, hrest⟩, rfl⟩
      obtain ⟨n, hn⟩ : ∃ n, n = r' + (rest.map (nodeValues read)).sum := ⟨_, rfl⟩
      obtain ⟨m, hm⟩ : ∃ m, m = n + (1 + (read row.props).root.inner) := ⟨_, rfl⟩
      exact ⟨m + 2, ⟨by omega, by omega⟩, m + 1, ⟨by omega, rfl⟩, m, ⟨by omega, rfl⟩, v, n,
        ⟨hv, hd, hm⟩, ns', r', ⟨hns, hrest, hn⟩, rfl, rfl⟩

theorem boundedEdges_eq_ok : ∀ (rows : List (EdgeKey × String)) {r r' : ℕ} {es : List (Edge Json)},
    boundedEdges limits read rows r = .ok (es, r') ↔
      rows.mapM (plainEdge read) = .ok es ∧ (∀ row ∈ rows, edgeDepth read row ≤ limits.maxDepth) ∧
        r = r' + (rows.map (edgeValues read)).sum
  | [], r, r', es => by simp [boundedEdges, pure, Except.pure]
  | row :: rest, r, r', es => by
    obtain ⟨k, text⟩ := row
    simp only [boundedEdges, List.mapM_cons, plainEdge, bind_eq_ok, enter_eq_ok,
      parseProperties_eq_ok, orFail_eq_ok, pure_eq_ok, Prod.exists, Prod.mk.injEq,
      List.forall_mem_cons, List.map_cons, List.sum_cons, edgeDepth, edgeValues,
      boundedEdges_eq_ok rest]
    constructor
    · rintro ⟨_, ⟨-, rfl⟩, _, ⟨-, rfl⟩, _, ⟨-, rfl⟩, _, ⟨-, rfl⟩, v, _, ⟨hv, hd, rfl⟩, es', _,
        ⟨hes, hrest, rfl⟩, rfl, rfl⟩
      exact ⟨⟨_, ⟨v, hv, rfl⟩, es', hes, rfl⟩, ⟨hd, hrest⟩, by omega⟩
    · rintro ⟨⟨_, ⟨v, hv, rfl⟩, es', hes, rfl⟩, ⟨hd, hrest⟩, rfl⟩
      obtain ⟨n, hn⟩ : ∃ n, n = r' + (rest.map (edgeValues read)).sum := ⟨_, rfl⟩
      obtain ⟨m, hm⟩ : ∃ m, m = n + (1 + (read text).root.inner) := ⟨_, rfl⟩
      exact ⟨m + 3, ⟨by omega, by omega⟩, m + 2, ⟨by omega, rfl⟩, m + 1, ⟨by omega, rfl⟩, m,
        ⟨by omega, rfl⟩, v, n, ⟨hv, hd, hm⟩, es', r', ⟨hes, hrest, hn⟩, rfl, rfl⟩

/-- Bytes of all stored fields. -/
def storedBytes (s : Store) : ℕ :=
  ((s.nodes.rows.flatMap nodeFields ++ s.edges.rows.flatMap edgeFields).map
    String.utf8ByteSize).sum

/-- Values of the graph: the three arrays, the facts and their properties. -/
def parsedValues (read : String → Document) (s : Store) : ℕ :=
  3 + (s.nodes.rows.map (nodeValues read)).sum + (s.edges.rows.map (edgeValues read)).sum

/-- Depth of the graph: two for the arrays, more as soon as there is a fact. -/
def parsedDepth (read : String → Document) (s : Store) : ℕ :=
  (s.nodes.rows.map (nodeDepth read) ++ s.edges.rows.map (edgeDepth read)).foldr max 2

theorem foldr_max_le_iff {l : List ℕ} {a : ℕ} :
    l.foldr max a ≤ n ↔ a ≤ n ∧ ∀ x ∈ l, x ≤ n := by
  induction l with
  | nil => simp
  | cons x rest ih =>
    rw [List.foldr_cons, max_le_iff, ih, List.forall_mem_cons]
    tauto

theorem parsedDepth_le_iff :
    parsedDepth read s ≤ n ↔ 2 ≤ n ∧ (∀ row ∈ s.nodes.rows, nodeDepth read row ≤ n) ∧
      ∀ row ∈ s.edges.rows, edgeDepth read row ≤ n := by
  rw [parsedDepth, foldr_max_le_iff, List.forall_mem_append, List.forall_mem_map,
    List.forall_mem_map]

theorem preflightRows_eq_ok :
    preflightRows limits s = .ok () ↔
      s.nodes.rows.length + s.edges.rows.length ≤ limits.maxRows ∧
        storedBytes s ≤ limits.maxBytes := by
  simp only [preflightRows, bind_eq_ok, ensure_eq_ok, spend_eq_ok, pure_eq_ok, storedBytes]
  constructor
  · rintro ⟨-, hrows, r, hr, -⟩
    exact ⟨hrows, by omega⟩
  · rintro ⟨hrows, hbytes⟩
    exact ⟨(), hrows, _, (Nat.sub_add_cancel hbytes).symm, trivial⟩

theorem countCanonical_eq_ok :
    countCanonical limits g = .ok () ↔
      (canonicalGraph g).render.utf8ByteSize ≤ limits.maxBytes := by
  simp only [countCanonical, bind_eq_ok, spend_eq_ok, pure_eq_ok, ← Json.size_eq,
    Json.size_eq_bytes, Json.bytes]
  constructor
  · rintro ⟨r, hr, -⟩
    omega
  · intro hbytes
    exact ⟨_, (Nat.sub_add_cancel hbytes).symm, trivial⟩

theorem readSnapshot_eq_ok :
    s.readSnapshot (propsCodec read contentHash) = .ok (ns, es) ↔
      s.nodes.rows.mapM (plainNode read) = .ok ns ∧
        s.edges.rows.mapM (plainEdge read) = .ok es := by
  rw [Store.readSnapshot]
  simp only [bind_eq_ok, pure_eq_ok, Prod.mk.injEq]
  constructor
  · rintro ⟨ns', hns, es', hes, rfl, rfl⟩
    exact ⟨hns, hes⟩
  · rintro ⟨hns, hes⟩
    exact ⟨ns, hns, es, hes, rfl, rfl⟩

theorem readSnapshotRowsBounded_eq_ok :
    readSnapshotRowsBounded limits read s = .ok g ↔
      s.readSnapshot (propsCodec read contentHash) = .ok g ∧
      s.nodes.rows.length + s.edges.rows.length ≤ limits.maxRows ∧
      storedBytes s ≤ limits.maxBytes ∧
      (canonicalGraph g).render.utf8ByteSize ≤ limits.maxBytes ∧
      parsedDepth read s ≤ limits.maxDepth ∧ parsedValues read s ≤ limits.maxValues := by
  obtain ⟨ns, es⟩ := g
  rw [readSnapshot_eq_ok, parsedDepth_le_iff, parsedValues]
  simp only [readSnapshotRowsBounded, bind_eq_ok, pure_eq_ok, enter_eq_ok, boundedNodes_eq_ok,
    boundedEdges_eq_ok, Prod.exists, Prod.mk.injEq]
  constructor
  · rintro ⟨⟨⟩, hpre, r1, ⟨-, h1⟩, r2, ⟨hd, rfl⟩, r3, ⟨-, rfl⟩, ns', r4, ⟨hns, hdn, rfl⟩, es', r5,
      ⟨hes, hde, rfl⟩, ⟨⟩, hcount, rfl, rfl⟩
    obtain ⟨hrows, hbytes⟩ := preflightRows_eq_ok.mp hpre
    exact ⟨⟨hns, hes⟩, hrows, hbytes, countCanonical_eq_ok.mp hcount, ⟨hd, hdn, hde⟩, by omega⟩
  · rintro ⟨⟨hns, hes⟩, hrows, hbytes, hcount, ⟨hd, hdn, hde⟩, hvalues⟩
    obtain ⟨r, hr⟩ := Nat.exists_eq_add_of_le' hvalues
    obtain ⟨e, he⟩ : ∃ e, e = r + (s.edges.rows.map (edgeValues read)).sum := ⟨_, rfl⟩
    obtain ⟨n, hn⟩ : ∃ n, n = e + (s.nodes.rows.map (nodeValues read)).sum := ⟨_, rfl⟩
    exact ⟨(), preflightRows_eq_ok.mpr ⟨hrows, hbytes⟩, n + 2, ⟨by omega, by omega⟩, n + 1,
      ⟨hd, rfl⟩, n, ⟨hd, rfl⟩, ns, e, ⟨hns, hdn, hn⟩, es, r, ⟨hes, hde, he⟩, (),
      countCanonical_eq_ok.mpr hcount, rfl, rfl⟩

theorem readSnapshotBounded_eq_ok :
    readSnapshotBounded limits read s = .ok g ↔
      limits.Valid ∧ readSnapshotRowsBounded limits read s = .ok g := by
  rw [readSnapshotBounded]
  by_cases hv : limits.Valid
  · rw [show limits.validate = .ok () from ensure_eq_ok.mpr hv]
    cases hr : readSnapshotRowsBounded limits read s with
    | ok g' => simp [hv]
    | error e => simp
  · rw [show limits.validate = .error .invalidLimits from ensure_eq_error.mpr ⟨hv, rfl⟩]
    simp [hv]

/-! ### The depth of the canonical graph -/

theorem canonicalNode_height (n : Node Json) :
    (canonicalNode n).height = 1 + (canonicalize n.props).height := by
  simp [canonicalNode, Json.height, Json.fieldsHeight]

theorem canonicalEdge_height (e : Edge Json) :
    (canonicalEdge e).height = 1 + (canonicalize e.props).height := by
  simp [canonicalEdge, Json.height, Json.fieldsHeight]

theorem mem_of_mapM_node {rows : List (String × NodeRow)} : ∀ {ns : List (Node Json)},
    rows.mapM (plainNode read) = .ok ns →
    (∀ row ∈ rows, (read row.2.props).root.NoRepeats) →
    ∀ k, (∀ n ∈ ns, 4 + (canonicalize n.props).height ≤ k) ↔ ∀ row ∈ rows, nodeDepth read row ≤ k := by
  induction rows with
  | nil =>
    intro ns h _ k
    rw [List.mapM_nil, pure_eq_ok] at h
    simp [← h]
  | cons row rest ih =>
    intro ns h hrep k
    simp only [List.mapM_cons, plainNode, bind_eq_ok, orFail_eq_ok, pure_eq_ok] at h
    obtain ⟨n, ⟨v, hv, rfl⟩, ns', hns', rfl⟩ := h
    rw [List.forall_mem_cons] at hrep
    rw [List.forall_mem_cons, List.forall_mem_cons, ih hns' hrep.2, nodeDepth,
      Document.canonicalize_height hrep.1 hv]

theorem mem_of_mapM_edge {rows : List (EdgeKey × String)} : ∀ {es : List (Edge Json)},
    rows.mapM (plainEdge read) = .ok es →
    (∀ row ∈ rows, (read row.2).root.NoRepeats) →
    ∀ k, (∀ e ∈ es, 4 + (canonicalize e.props).height ≤ k) ↔ ∀ row ∈ rows, edgeDepth read row ≤ k := by
  induction rows with
  | nil =>
    intro es h _ k
    rw [List.mapM_nil, pure_eq_ok] at h
    simp [← h]
  | cons row rest ih =>
    intro es h hrep k
    simp only [List.mapM_cons, plainEdge, bind_eq_ok, orFail_eq_ok, pure_eq_ok] at h
    obtain ⟨e, ⟨v, hv, rfl⟩, es', hes', rfl⟩ := h
    rw [List.forall_mem_cons] at hrep
    rw [List.forall_mem_cons, List.forall_mem_cons, ih hes' hrep.2, edgeDepth,
      Document.canonicalize_height hrep.1 hv]

theorem canonicalGraph_depth_le_iff {k : ℕ} :
    (canonicalGraph (ns, es)).depth ≤ k ↔ 2 ≤ k ∧
      (∀ n ∈ ns, 4 + (canonicalize n.props).height ≤ k) ∧
      ∀ e ∈ es, 4 + (canonicalize e.props).height ≤ k := by
  have harr : ∀ l : List Json, ∀ m, (Json.arr l).height ≤ m ↔ ∀ j ∈ l, 1 + j.height ≤ m :=
    fun l m => Json.itemsHeight_le_iff
  by_cases hk : 2 ≤ k
  · obtain ⟨m, rfl⟩ : ∃ m, k = m + 2 := ⟨k - 2, by omega⟩
    rw [Json.depth, show 1 + (canonicalGraph (ns, es)).height ≤ m + 2 ↔
      (canonicalGraph (ns, es)).height ≤ m + 1 by omega, canonicalGraph, harr]
    simp only [List.forall_mem_cons, List.not_mem_nil, false_imp_iff, implies_true, and_true]
    rw [show 1 + (Json.arr (ns.map canonicalNode)).height ≤ m + 1 ↔
      (Json.arr (ns.map canonicalNode)).height ≤ m by omega,
      show 1 + (Json.arr (es.map canonicalEdge)).height ≤ m + 1 ↔
      (Json.arr (es.map canonicalEdge)).height ≤ m by omega, harr, harr,
      List.forall_mem_map, List.forall_mem_map]
    simp only [canonicalNode_height, canonicalEdge_height]
    constructor
    · rintro ⟨hn, he⟩
      refine ⟨hk, fun n hn' => ?_, fun e he' => ?_⟩
      · have := hn n hn'
        omega
      · have := he e he'
        omega
    · rintro ⟨-, hn, he⟩
      refine ⟨fun n hn' => ?_, fun e he' => ?_⟩
      · have := hn n hn'
        omega
      · have := he e he'
        omega
  · have h2 : 2 ≤ (canonicalGraph (ns, es)).depth := by
      simp only [Json.depth, canonicalGraph, Json.height, Json.itemsHeight]
      omega
    exact ⟨fun h => by omega, fun h => absurd h.1 hk⟩

/-- No stored property text names a member twice; the store writes only such
texts. -/
def NoRepeatedNames (read : String → Document) (s : Store) : Prop :=
  (∀ row ∈ s.nodes.rows, (read row.2.props).root.NoRepeats) ∧
    ∀ row ∈ s.edges.rows, (read row.2).root.NoRepeats

theorem parsedDepth_eq (hs : NoRepeatedNames read s)
    (hg : s.readSnapshot (propsCodec read contentHash) = .ok g) :
    parsedDepth read s = (canonicalGraph g).depth := by
  obtain ⟨ns, es⟩ := g
  obtain ⟨hns, hes⟩ := readSnapshot_eq_ok.mp hg
  have hiff : ∀ k, parsedDepth read s ≤ k ↔ (canonicalGraph (ns, es)).depth ≤ k := by
    intro k
    rw [parsedDepth_le_iff, canonicalGraph_depth_le_iff, mem_of_mapM_node hns hs.1,
      mem_of_mapM_edge hes hs.2]
  exact le_antisymm ((hiff _).mpr le_rfl) ((hiff _).mp le_rfl)

end Spec

/-- **The bounded snapshot.**  For limits of the hard profile the bounded reader
returns a graph exactly when the plain reader returns it and rows, stored bytes,
canonical bytes, depth and values of the parsed texts all fit; other limits are
refused.  Without repeated names the depth is that of the canonical graph. -/
theorem readSnapshotBounded_iff (limits : SnapshotReadLimits) (read : String → Document)
    (contentHash : String → String) (s : Store) (g : List (Node Json) × List (Edge Json)) :
    (readSnapshotBounded limits read s = .ok g ↔
      limits.Valid ∧ s.readSnapshot (propsCodec read contentHash) = .ok g ∧
      s.nodes.rows.length + s.edges.rows.length ≤ limits.maxRows ∧
      storedBytes s ≤ limits.maxBytes ∧
      (canonicalGraph g).render.utf8ByteSize ≤ limits.maxBytes ∧
      parsedDepth read s ≤ limits.maxDepth ∧ parsedValues read s ≤ limits.maxValues) ∧
    (NoRepeatedNames read s → s.readSnapshot (propsCodec read contentHash) = .ok g →
      parsedDepth read s = (canonicalGraph g).depth) := by
  refine ⟨?_, parsedDepth_eq⟩
  rw [readSnapshotBounded_eq_ok, readSnapshotRowsBounded_eq_ok]

/-- One node `a` of label `Symbol` with the properties `\x7b\x7d`. -/
def oneNodeStore : Store :=
  { Store.empty with nodes := Table.empty.put "a" ⟨"Symbol", "\x7b\x7d"⟩ }

theorem readSnapshotBounded_oneNode :
    NoRepeatedNames emptyRead oneNodeStore ∧
      readSnapshotBounded ⟨64, 1, 4, 7⟩ emptyRead oneNodeStore
        = .ok ([⟨"a", "Symbol", .obj []⟩], []) ∧
      parsedDepth emptyRead oneNodeStore
        = (canonicalGraph ([⟨"a", "Symbol", .obj []⟩], [])).depth := by
  have hno : NoRepeatedNames emptyRead oneNodeStore := by
    refine ⟨fun row hrow => ?_, fun row hrow => ?_⟩
    · rw [List.mem_singleton.mp (show row ∈ [("a", ⟨"Symbol", "\x7b\x7d"⟩)] from hrow)]
      exact ⟨List.nodup_nil, trivial⟩
    · exact absurd (show row ∈ [] from hrow) (by simp)
  have hboth := readSnapshotBounded_iff ⟨64, 1, 4, 7⟩ emptyRead (fun _ => "") oneNodeStore
    ([⟨"a", "Symbol", .obj []⟩], [])
  refine ⟨hno, hboth.1.mpr ⟨?_, rfl, ?_, ?_, ?_, ?_, ?_⟩, hboth.2 hno rfl⟩ <;> decide

/-- Limits outside the hard profile are refused even where the graph fits them. -/
theorem readSnapshotBounded_refuses_limits :
    ¬∀ (limits : SnapshotReadLimits) (s : Store) (g : List (Node Json) × List (Edge Json)),
      readSnapshotBounded limits emptyRead s = .ok g ↔
        s.readSnapshot (propsCodec emptyRead fun _ => "") = .ok g ∧
        s.nodes.rows.length + s.edges.rows.length ≤ limits.maxRows ∧
        storedBytes s ≤ limits.maxBytes ∧
        (canonicalGraph g).render.utf8ByteSize ≤ limits.maxBytes ∧
        (canonicalGraph g).depth ≤ limits.maxDepth ∧
        parsedValues emptyRead s ≤ limits.maxValues := by
  intro hclaim
  have hrefused : readSnapshotBounded ⟨1024, 50001, 32, 1000⟩ emptyRead Store.empty
      = .error (.snapshotBounds .invalidLimits) := rfl
  have haccepted := (hclaim ⟨1024, 50001, 32, 1000⟩ Store.empty ([], [])).mpr
    ⟨rfl, by decide, by decide, by decide, by decide, by decide⟩
  rw [hrefused] at haccepted
  exact absurd haccepted (by simp)

end GraphStore

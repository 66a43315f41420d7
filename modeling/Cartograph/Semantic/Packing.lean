/-
Packing a context (`pack_context`, `crates/semantic/src/context.rs`).

The statements of a subgraph, one for each node and edge, are put in the order of their
relevance, and as many of the first as the budget has room for make the text.

* `pack_eq` — the loop cites the statements of the longest prefix that fits;
* `node_precedes_edge` — a node is before the edges at it;
* `pack_context_prefix` — what is cited under every budget.
-/
import Cartograph.Semantic.Context
import Cartograph.Semantic.Overlay

namespace Semantic

open GraphStore Investigation SortBy

/-! ### Statements -/

/-- The confidence of valid provenance; of anything else, that of a gap. -/
def validatedConfidence (props : Json) : String :=
  match (Provenance.fromValue (index props "prov")).filter fun p => p.validate.isOk with
  | some p => p.confidenceTier.text
  | none => "Gap"

/-- The first property that is a text, or the id. -/
def nodeName (n : Node Json) : String :=
  (["title", "name", "identity", "path", "reason"].findSome? fun key =>
    stringValue (index n.props key)).getD n.id

def nodeLine (hop : ℕ) (n : Node Json) : String :=
  "[node:" ++ n.id ++ "] hop=" ++ toString hop ++ " " ++ n.label ++ " " ++ nodeName n ++ " ("
    ++ validatedConfidence n.props ++ ")"

def edgeLine (e : Edge Json) : String :=
  "[edge:" ++ edgeIdentity e ++ "] (" ++ validatedConfidence e.props ++ ")"

/-- One line of the context, and what puts it in order: nodes have rank 0 and edges rank 1. -/
structure Statement where
  hop : ℕ
  rank : ℕ
  id : String
  line : String
  deriving DecidableEq

/-- `hop_of`; an endpoint that is not in the subgraph is farther than any node. -/
def hopOf (g : Subgraph Json) (id : String) : ℕ :=
  ((g.nodes.find? fun m => m.2.id == id).map Prod.fst).getD (2 ^ 32 - 1)

def nodeStatement (m : ℕ × Node Json) : Statement :=
  ⟨m.1, 0, "node:" ++ m.2.id, nodeLine m.1 m.2⟩

def edgeStatement (g : Subgraph Json) (e : Edge Json) : Statement :=
  ⟨max (hopOf g e.src) (hopOf g e.dst), 1, "edge:" ++ edgeIdentity e, edgeLine e⟩

def Statement.key (s : Statement) : ℕ ×ₗ ℕ ×ₗ String := toLex (s.hop, toLex (s.rank, s.id))

/-- The statements in the order of their relevance. -/
def relevance (g : Subgraph Json) : List Statement :=
  sortBy Statement.key (g.nodes.map nodeStatement ++ g.edges.map (edgeStatement g))

/-! ### Packing -/

structure ContextBundle where
  text : String
  cited : List String
  dropped : List String

/-- The loop over the lines: `overflowed` from the first that does not fit on. -/
def pack (maxChars : ℕ) : List Statement → Bool → ContextBundle → ContextBundle
  | [], _, b => b
  | s :: rest, overflowed, b =>
    if overflowed || decide (maxChars < b.text.utf8ByteSize + s.line.utf8ByteSize + 1) then
      pack maxChars rest true { b with dropped := b.dropped ++ [s.id] }
    else
      pack maxChars rest false { b with text := b.text ++ s.line ++ "\n", cited := b.cited ++ [s.id] }

def packContext (g : Subgraph Json) (maxChars : ℕ) : ContextBundle :=
  pack maxChars (relevance g) false ⟨"", [], []⟩

/-! ### The prefix that fits -/

/-- The bytes a statement takes. -/
def Statement.size (s : Statement) : ℕ := s.line.utf8ByteSize + 1

/-- The longest prefix with room in the budget, of which some is used. -/
def fitting (maxChars : ℕ) : ℕ → List Statement → List Statement
  | _, [] => []
  | used, s :: rest =>
    if used + s.size ≤ maxChars then s :: fitting maxChars (used + s.size) rest else []

theorem fitting_prefix (maxChars : ℕ) : ∀ (used : ℕ) (l : List Statement),
    fitting maxChars used l <+: l
  | _, [] => List.prefix_rfl
  | used, s :: rest => by
    rw [fitting]
    split_ifs
    · exact List.prefix_cons_inj s |>.mpr ( fitting_prefix maxChars (used + s.size) rest)
    · exact List.nil_prefix

theorem fitting_mono {small large : ℕ} (h : small ≤ large) : ∀ (used : ℕ) (l : List Statement),
    fitting small used l <+: fitting large used l
  | _, [] => List.prefix_rfl
  | used, s :: rest => by
    rw [fitting, fitting]
    by_cases hfits : used + s.size ≤ small
    · rw [if_pos hfits, if_pos (hfits.trans h), List.prefix_cons_inj]
      exact fitting_mono h (used + s.size) rest
    · rw [if_neg hfits]
      exact List.nil_prefix

theorem fitting_size (maxChars : ℕ) : ∀ (used : ℕ) (l : List Statement), used ≤ maxChars →
    used + ((fitting maxChars used l).map Statement.size).sum ≤ maxChars
  | _, [], h => by simpa [fitting] using h
  | used, s :: rest, h => by
    rw [fitting]
    split_ifs with hfits
    · have hrest := fitting_size maxChars (used + s.size) rest hfits
      rw [List.map_cons, List.sum_cons]
      omega
    · simpa using h

/-- The text of some statements, a line each. -/
def textOf (l : List Statement) : String := l.foldr (fun s text => s.line ++ "\n" ++ text) ""

theorem length_le_utf8ByteSize (s : String) : s.length ≤ s.utf8ByteSize := by
  rw [← Json.length_utf8, Json.utf8_eq, List.length_flatMap, ← String.length_toList]
  have hone := List.length_le_sum_of_one_le (s.toList.map fun c => (String.utf8EncodeChar c).length)
    fun n hn => by
      obtain ⟨c, -, rfl⟩ := List.mem_map.mp hn
      rw [String.length_utf8EncodeChar]
      exact c.utf8Size_pos
  rwa [List.length_map] at hone

theorem utf8ByteSize_textOf (l : List Statement) :
    (textOf l).utf8ByteSize = (l.map Statement.size).sum := by
  induction l with
  | nil => rfl
  | cons s rest ih =>
    rw [textOf, List.foldr_cons, String.utf8ByteSize_append, String.utf8ByteSize_append]
    rw [List.map_cons, List.sum_cons, ← ih]
    rfl

theorem pack_overflowed (maxChars : ℕ) : ∀ (l : List Statement) (b : ContextBundle),
    pack maxChars l true b = { b with dropped := b.dropped ++ l.map Statement.id }
  | [], b => by simp [pack]
  | s :: rest, b => by
    rw [pack, Bool.true_or, if_pos rfl, pack_overflowed maxChars rest]
    simp

/-- **The loop** cites the prefix that fits and drops the rest. -/
theorem pack_eq (maxChars : ℕ) : ∀ (l : List Statement) (b : ContextBundle),
    pack maxChars l false b =
      ⟨b.text ++ textOf (fitting maxChars b.text.utf8ByteSize l),
        b.cited ++ (fitting maxChars b.text.utf8ByteSize l).map Statement.id,
        b.dropped ++ (l.drop (fitting maxChars b.text.utf8ByteSize l).length).map Statement.id⟩
  | [], b => by simp [pack, fitting, textOf]
  | s :: rest, b => by
    rw [pack, fitting, Bool.false_or]
    by_cases hfits : b.text.utf8ByteSize + s.size ≤ maxChars
    · have hroom : ¬ maxChars < b.text.utf8ByteSize + s.line.utf8ByteSize + 1 := by
        rw [Statement.size] at hfits
        omega
      have hused : (b.text ++ s.line ++ "\n").utf8ByteSize = b.text.utf8ByteSize + s.size := by
        rw [String.utf8ByteSize_append, String.utf8ByteSize_append, Nat.add_assoc]
        rfl
      rw [if_pos hfits, if_neg (by simpa using hroom), pack_eq maxChars rest]
      simp only [hused]
      simp only [textOf, List.foldr_cons, List.map_cons, List.length_cons, List.drop_succ_cons,
        String.append_assoc, List.append_assoc, List.cons_append, List.nil_append]
    · have hfull : maxChars < b.text.utf8ByteSize + s.line.utf8ByteSize + 1 := by
        rw [Statement.size] at hfits
        omega
      rw [if_neg hfits, if_pos (by simpa using hfull), pack_overflowed]
      simp [textOf]

/-! ### The order -/

variable {i : ℕ} {g : Subgraph Json} {id : String}

theorem before_of_key_lt {α β : Type} [LinearOrder β] {key : α → β} {l : List α} {a b : α}
    (hb : (sortBy key l)[i]? = some b) (ha : a ∈ l) (hlt : key a < key b) :
    ∃ j < i, (sortBy key l)[j]? = some a := by
  obtain ⟨j, hj, hget⟩ := List.mem_iff_getElem.mp ((sortBy_perm key l).mem_iff.mpr ha)
  obtain ⟨hi, rfl⟩ := List.getElem?_eq_some_iff.mp hb
  refine ⟨j, ?_, List.getElem?_eq_some_iff.mpr ⟨hj, hget⟩⟩
  by_contra hle
  -- at or after `b`, the key would be at least that of `b`
  have hge : key (sortBy key l)[i] ≤ key (sortBy key l)[j] := by
    rcases Nat.lt_or_eq_of_le (Nat.le_of_not_lt hle) with hij | rfl
    · exact List.pairwise_iff_getElem.mp (sortBy_pairwise key l) i j hi hj hij
    · exact le_rfl
  rw [hget] at hge
  exact absurd hlt hge.not_gt

theorem exists_hopOf (h : id ∈ g.nodes.map fun m => m.2.id) :
    ∃ m ∈ g.nodes, m.2.id = id ∧ hopOf g id = m.1 := by
  have hsome : (g.nodes.find? fun m => m.2.id == id).isSome = true := by
    obtain ⟨m, hm, hid⟩ := List.mem_map.mp h
    exact List.find?_isSome.mpr ⟨m, hm, by simpa using hid⟩
  obtain ⟨m, hfind⟩ := Option.isSome_iff_exists.mp hsome
  have hid : m.2.id = id := by simpa using List.find?_some hfind
  refine ⟨m, List.mem_of_find?_eq_some hfind, hid, ?_⟩
  rw [hopOf, hfind]
  rfl

theorem node_precedes_edge {e : Edge Json} (hi : (relevance g)[i]? = some (edgeStatement g e))
    (hend : id = e.src ∨ id = e.dst) (hid : id ∈ g.nodes.map fun m => m.2.id) :
    ∃ j < i, ∃ s, (relevance g)[j]? = some s ∧ s.id = "node:" ++ id := by
  obtain ⟨m, hm, rfl, hhop⟩ := exists_hopOf hid
  have hle : m.1 ≤ max (hopOf g e.src) (hopOf g e.dst) := by
    rcases hend with hend | hend
    · exact le_max_of_le_left (by rw [← hend, hhop])
    · exact le_max_of_le_right (by rw [← hend, hhop])
  have hlt : (nodeStatement m).key < (edgeStatement g e).key := by
    rw [Statement.key, Statement.key, Prod.Lex.toLex_lt_toLex]
    rcases Nat.lt_or_eq_of_le hle with hlt | heq
    · exact .inl hlt
    · exact .inr ⟨heq, Prod.Lex.toLex_lt_toLex.mpr (.inl Nat.zero_lt_one)⟩
  obtain ⟨j, hj, hget⟩ := before_of_key_lt hi
    (List.mem_append_left _ (List.mem_map_of_mem hm)) hlt
  exact ⟨j, hj, _, hget, rfl⟩

/-- **Context packing.**  For every subgraph and budget: what is cited and then what is dropped
is the order of relevance; the text has no more characters than the budget; a larger budget
cites what a smaller one cites, and then more; and an edge is cited after those of its endpoints
that are in the subgraph. -/
theorem pack_context_prefix (g : Subgraph Json) (maxChars : ℕ) :
    (packContext g maxChars).cited ++ (packContext g maxChars).dropped
        = (relevance g).map Statement.id
    ∧ (packContext g maxChars).text.length ≤ maxChars
    ∧ (∀ larger, maxChars ≤ larger →
      (packContext g maxChars).cited <+: (packContext g larger).cited)
    ∧ ∀ i < (packContext g maxChars).cited.length, ∀ e ∈ g.edges,
      (relevance g)[i]? = some (edgeStatement g e) →
      ∀ id, id = e.src ∨ id = e.dst → id ∈ (g.nodes.map fun m => m.2.id) →
        ∃ j < i, (packContext g maxChars).cited[j]? = some ("node:" ++ id) := by
  have hpack : ∀ budget, packContext g budget = ⟨textOf (fitting budget 0 (relevance g)),
      (fitting budget 0 (relevance g)).map Statement.id,
      ((relevance g).drop (fitting budget 0 (relevance g)).length).map Statement.id⟩ := by
    intro budget
    rw [packContext, pack_eq]
    simp
  have hprefix := fitting_prefix maxChars 0 (relevance g)
  rw [hpack maxChars]
  refine ⟨?_, ?_, ?_, ?_⟩
  · show List.map _ _ ++ List.map _ _ = _
    rw [← List.map_append, List.prefix_iff_eq_append.mp hprefix]
  · have hbytes := fitting_size maxChars 0 (relevance g) (Nat.zero_le _)
    rw [Nat.zero_add, ← utf8ByteSize_textOf] at hbytes
    exact (length_le_utf8ByteSize _).trans hbytes
  · intro larger hle
    rw [hpack larger]
    exact (fitting_mono hle 0 (relevance g)).map Statement.id
  · intro i hi e he hget id hend hid
    obtain ⟨j, hj, s, hs, hcited⟩ := node_precedes_edge hget hend hid
    refine ⟨j, hj, ?_⟩
    show (List.map Statement.id _)[j]? = _
    have hlen : j < (fitting maxChars 0 (relevance g)).length := by
      rw [List.length_map] at hi
      omega
    obtain ⟨rest, hrest⟩ := hprefix
    rw [← hrest, List.getElem?_append_left hlen] at hs
    rw [List.getElem?_map, hs, ← hcited]
    rfl

end Semantic

/-
A valid rule is read from its payload.

Validation bounds the collections and the texts of a rule and the bytes of its payload; the
preflight bounds the values of the payload, their nesting and the lengths of arrays.  A value of
the payload takes four bytes of it (`Roomy`), so that the bound on the bytes is one on the values.

* `look_ok` — what the preflight lets through;
* `fine_rule` — the payload of a valid rule is let through;
* `rule_round_trip` — and is read as the rule.
-/
import Cartograph.Rules.Arena
import Cartograph.Rules.RoundTrip

namespace Rules

open Investigation Checked Json
open GraphStore (canonicalize)

/-! ### What the preflight lets through -/

/-- What is asked of one value. -/
def Wire : Json → Prop
  | .str s => s.utf8ByteSize ≤ MAX_TEXT_BYTES
  | .arr items => items.length ≤ 1024
  | .obj fields => fields.length ≤ 64 ∧ (∀ f ∈ fields, f.1.utf8ByteSize ≤ 128)
      ∧ sourceWire fields = true
  | _ => True

variable {l : List (String × Json)} {n : ℕ} {α : Type} {toJson : α → Json} {primary : EvidenceRef}
  {gaps : List String} {rule : GuardedExitEvidence} {definitions : List LocalDefinition}

variable {l' : List (String × Json)} {j : Json} {s : String} {e : EvidenceRef}
  {definition : LocalDefinition}

theorem sourceWire_perm (h : (l.map Prod.fst).Perm (l'.map Prod.fst)) :
    sourceWire l = sourceWire l' := by
  have hhas (name : String) : (l.any fun f => f.1 == name) = l'.any fun f => f.1 == name := by
    have hmem : name ∈ l.map Prod.fst ↔ name ∈ l'.map Prod.fst := h.mem_iff
    rw [List.mem_map, List.mem_map] at hmem
    rw [Bool.eq_iff_iff, List.any_eq_true, List.any_eq_true]
    simpa only [beq_iff_eq] using hmem
  have hlength : l.length = l'.length := by simpa using h.length_eq
  simp only [sourceWire, hhas, hlength]

theorem wire_perm (h : (l.map Prod.fst).Perm (l'.map Prod.fst)) (hl : Wire (.obj l)) :
    Wire (.obj l') := by
  obtain ⟨hlength, hnames, hsource⟩ := hl
  have hlength' : l'.length = l.length := by simpa using h.symm.length_eq
  refine ⟨hlength' ▸ hlength, fun f hf => ?_, sourceWire_perm h ▸ hsource⟩
  obtain ⟨g, hg, hname⟩ := List.mem_map.mp (h.mem_iff.mpr (List.mem_map_of_mem hf))
  exact hname ▸ hnames g hg

theorem wire_reordered {j' : Json} (h : Reordered j j') (hj : Wire j) : Wire j' := by
  induction h with
  | refl j => exact hj
  | trans _ _ ih ih' => exact ih' (ih hj)
  | item before after _ _ => simpa [Wire] using hj
  | member before after name _ _ => exact wire_perm (by simp) hj
  | members hperm => exact wire_perm (hperm.map _) hj

/-- Pending values within the bounds, when `room` more values may be visited. -/
structure Within (room : ℕ) (pending : List (Json × ℕ)) : Prop where
  count : (pending.map fun p => p.1.count).sum ≤ room
  wire : ∀ p ∈ pending, p.1.All Wire
  depth : ∀ p ∈ pending, p.2 + p.1.height ≤ MAX_WIRE_DEPTH

variable {pending : List (Json × ℕ)}

theorem Within.length {room : ℕ} (h : Within room pending) :
    pending.length ≤ room := by
  refine le_trans ?_ h.count
  have hone := List.length_le_sum_of_one_le (pending.map fun p => p.1.count) fun n hn => by
    obtain ⟨p, -, rfl⟩ := List.mem_map.mp hn
    exact count_pos p.1
  simpa using hone

theorem Within.cons {room depth : ℕ} {j : Json} (children : List Json)
    (h : Within (room + 1) ((j, depth) :: pending))
    (hcount : j.count = 1 + (children.map Json.count).sum) (hwire : ∀ c ∈ children, c.All Wire)
    (hheight : ∀ c ∈ children, 1 + c.height ≤ j.height) :
    depth ≤ MAX_WIRE_DEPTH
      ∧ Within room ((children.map fun c => (c, depth + 1)).reverse ++ pending) := by
  obtain ⟨hsum, hall, hdepth⟩ := h
  have hfirst : depth + j.height ≤ MAX_WIRE_DEPTH := hdepth _ List.mem_cons_self
  refine ⟨by omega, ?_, ?_, ?_⟩
  · rw [List.map_cons, List.sum_cons] at hsum
    have hreverse : ((children.map fun c => (c, depth + 1)).reverse.map fun p => p.1.count).sum
        = (children.map Json.count).sum := by
      rw [List.map_reverse, List.sum_reverse, List.map_map]
      rfl
    have hj : j.count = (j, depth).1.count := rfl
    rw [List.map_append, List.sum_append, hreverse]
    omega
  · intro p hp
    rcases List.mem_append.mp hp with hp | hp
    · obtain ⟨c, hc, rfl⟩ := List.mem_map.mp (List.mem_reverse.mp hp)
      exact hwire c hc
    · exact hall p (List.mem_cons_of_mem _ hp)
  · intro p hp
    rcases List.mem_append.mp hp with hp | hp
    · obtain ⟨c, hc, rfl⟩ := List.mem_map.mp (List.mem_reverse.mp hp)
      have hc := hheight c hc
      show depth + 1 + c.height ≤ MAX_WIRE_DEPTH
      omega
    · exact hdepth p (List.mem_cons_of_mem _ hp)

/-- **The preflight lets through** what is within its bounds. -/
theorem look_ok : ∀ (room : ℕ) (pending : List (Json × ℕ)), Within room pending →
    look room pending = .ok ()
  | _, [], _ => by simp [look, pure, Except.pure]
  | 0, p :: pending, h => absurd h.length (by simp)
  | room + 1, (j, depth) :: pending, h => by
    have hj : j.All Wire := h.wire _ List.mem_cons_self
    -- a scalar has no values in it
    have hscalar (hcount : j.count = 1) : depth ≤ MAX_WIRE_DEPTH ∧ Within room pending :=
      Within.cons [] h (by simpa using hcount) (by simp) (by simp)
    cases j with
    | str s =>
      obtain ⟨hlevel, hrest⟩ := hscalar rfl
      have hs : s.utf8ByteSize ≤ MAX_TEXT_BYTES := hj.self
      simp only [look, ensure_of hlevel, ensure_of hs, ok_bind]
      exact look_ok room pending hrest
    | arr values =>
      obtain ⟨hlength, hvalues⟩ := all_arr.mp hj
      obtain ⟨hlevel, hrest⟩ := Within.cons values h
        (by rw [Json.count, countItems_eq]) hvalues fun c hc => itemsHeight_le_iff.mp le_rfl c hc
      have hfits : values.length ≤ 1024 ∧ pending.length + values.length ≤ room := by
        have hpending := hrest.length
        rw [List.length_append, List.length_reverse, List.length_map] at hpending
        exact ⟨hlength, by omega⟩
      simp only [look, ensure_of hlevel, ensure_of hfits, ok_bind]
      exact look_ok room _ hrest
    | obj fields =>
      obtain ⟨⟨hlength, hnames, hsource⟩, hfields⟩ := all_obj.mp hj
      obtain ⟨hlevel, hrest⟩ := Within.cons (fields.map Prod.snd) h
        (by rw [Json.count, countFields_eq, List.map_map]; rfl)
        (fun c hc => by
          obtain ⟨f, hf, rfl⟩ := List.mem_map.mp hc
          exact hfields f hf)
        (fun c hc => by
          obtain ⟨f, hf, rfl⟩ := List.mem_map.mp hc
          exact fieldsHeight_le_iff.mp le_rfl f hf)
      rw [List.map_map] at hrest
      have hshape : fields.length ≤ 64 ∧ ∀ f ∈ fields, f.1.utf8ByteSize ≤ 128 := ⟨hlength, hnames⟩
      simp only [look, ensure_of hlevel, ensure_of hshape, ensure_of hsource, ok_bind]
      exact look_ok room _ hrest
    | null | bool b | num text =>
      obtain ⟨hlevel, hrest⟩ := hscalar rfl
      simp only [look, ensure_of hlevel, ok_bind]
      exact look_ok room pending hrest

/-! ### Parts of a payload -/

/-- The names of an object: distinct, neither short nor long, and those of a reference if one of
them is a bound of a span. -/
def namesOk (names : List String) : Bool :=
  decide names.Nodup && decide (names.length ≤ 64)
    && names.all (fun name => decide (2 ≤ name.utf8ByteSize) && decide (name.utf8ByteSize ≤ 128))
    && sourceWire (names.map fun name => (name, .null))

/-- A part of a payload with at most `n` levels in it. -/
structure Fine (n : ℕ) (j : Json) : Prop where
  wire : j.All Wire
  roomy : j.All Roomy
  distinct : j.Distinct
  height : j.height ≤ n

theorem Fine.mono {m : ℕ} (h : Fine n j) (hle : n ≤ m) : Fine m j :=
  ⟨h.wire, h.roomy, h.distinct, h.height.trans hle⟩

theorem fine_obj (names : List String) (hl : l.map Prod.fst = names) (hok : namesOk names = true)
    (h : ∀ f ∈ l, Fine n f.2) :
    Fine (n + 1) (.obj l) := by
  simp only [namesOk, Bool.and_eq_true, decide_eq_true_eq, List.all_eq_true] at hok
  obtain ⟨⟨⟨hnodup, hlength⟩, hsizes⟩, hsource⟩ := hok
  have hname : ∀ f ∈ l, 2 ≤ f.1.utf8ByteSize ∧ f.1.utf8ByteSize ≤ 128 := fun f hf =>
    hsizes f.1 (hl ▸ List.mem_map_of_mem hf)
  have hnames : ((names.map fun name => (name, Json.null)).map Prod.fst).Perm (l.map Prod.fst) := by
    rw [List.map_map, hl]
    simp [Function.comp_def]
  have hshort : l.length ≤ 64 := by
    rw [← hl, List.length_map] at hlength
    exact hlength
  refine ⟨all_obj.mpr ⟨⟨hshort, fun f hf => (hname f hf).2, ?_⟩, fun f hf => (h f hf).wire⟩,
    all_obj.mpr ⟨fun f hf => (hname f hf).1, fun f hf => (h f hf).roomy⟩,
    ⟨hl ▸ hnodup, fieldsDistinct_iff.mpr fun f hf => (h f hf).distinct⟩,
    fieldsHeight_le_iff.mpr fun f hf => ?_⟩
  · rw [← sourceWire_perm hnames]
    exact hsource
  · have := (h f hf).height
    omega

theorem fine_arr {l : List α} (hlength : l.length ≤ 1024) (hwide : ∀ x ∈ l, wide (toJson x))
    (h : ∀ x ∈ l, Fine n (toJson x)) :
    Fine (n + 1) (.arr (l.map toJson)) := by
  have hitem (P : Json → Prop) (hP : ∀ x ∈ l, P (toJson x)) : ∀ j ∈ l.map toJson, P j := by
    intro j hj
    obtain ⟨x, hx, rfl⟩ := List.mem_map.mp hj
    exact hP x hx
  refine ⟨all_arr.mpr ⟨?_, hitem _ fun x hx => (h x hx).wire⟩,
    all_arr.mpr ⟨hitem _ hwide, hitem _ fun x hx => (h x hx).roomy⟩,
    itemsDistinct_iff.mpr (hitem _ fun x hx => (h x hx).distinct),
    itemsHeight_le_iff.mpr (hitem _ fun x hx => ?_)⟩
  · show (l.map toJson).length ≤ 1024
    rw [List.length_map]
    exact hlength
  · have := (h x hx).height
    omega

theorem fine_str (h : s.utf8ByteSize ≤ MAX_TEXT_BYTES) : Fine n (.str s) :=
  ⟨h, trivial, trivial, Nat.zero_le n⟩

theorem fine_bool (n : ℕ) (b : Bool) : Fine n (.bool b) :=
  ⟨trivial, trivial, trivial, Nat.zero_le n⟩

theorem fine_null (n : ℕ) : Fine n .null := ⟨trivial, trivial, trivial, Nat.zero_le n⟩

theorem fine_num {text : String} (h : 0 < text.utf8ByteSize) : Fine n (.num text) :=
  ⟨trivial, h, trivial, Nat.zero_le n⟩

theorem fine_nat (n k : ℕ) : Fine n (.nat k) := by
  refine fine_num (Nat.pos_of_ne_zero fun hempty => ?_)
  have htext := String.utf8ByteSize_eq_zero_iff.mp hempty
  have hdigits := congrArg String.toList htext
  rw [Nat.toString_eq_ofList_toDigits, String.toList_ofList] at hdigits
  exact Nat.toDigits_ne_nil hdigits

/-- The texts of a reference are bounded. -/
def RefSmall (e : EvidenceRef) : Prop :=
  e.repo.utf8ByteSize ≤ MAX_ID_BYTES ∧ e.path.utf8ByteSize ≤ MAX_ID_BYTES
    ∧ e.commitSha.utf8ByteSize ≤ MAX_ID_BYTES

theorem fine_id (h : s.utf8ByteSize ≤ MAX_ID_BYTES) : Fine n (.str s) :=
  fine_str (h.trans (by decide))

theorem fine_evidence (h : RefSmall e) : Fine 1 e.toJson := by
  refine fine_obj ["repo", "path", "byte_start", "byte_end", "commit_sha"] rfl (by decide) ?_
  simp only [List.forall_mem_cons]
  exact ⟨fine_id h.1, fine_id h.2.1, fine_nat 0 _, fine_nat 0 _, fine_id h.2.2, by simp⟩

theorem boundedId_ok {value : String} (h : boundedId value = .ok ()) :
    0 < value.utf8ByteSize ∧ value.utf8ByteSize ≤ MAX_ID_BYTES := by
  obtain ⟨hnonempty, hsize, -⟩ := ensure_eq_ok.mp h
  refine ⟨Nat.pos_of_ne_zero fun hzero => ?_, hsize⟩
  rw [String.utf8ByteSize_eq_zero_iff.mp hzero] at hnonempty
  exact absurd hnonempty (by decide)

theorem refSmall_of_checkedSource (h : checkedSource e primary = .ok ()) :
    RefSmall e := by
  obtain ⟨⟨⟩, -, h⟩ := bind_eq_ok.mp h
  obtain ⟨⟨⟩, hids, -⟩ := bind_eq_ok.mp h
  have hids := forM_eq_ok.mp hids
  have hrepo := hids e.repo (by simp)
  have hpath := hids e.path (by simp)
  have hcommit := hids e.commitSha (by simp)
  exact ⟨(boundedId_ok hrepo).2, (boundedId_ok hpath).2, (boundedId_ok hcommit).2⟩

/-! ### The payload of a valid rule -/

theorem fine_known {known : KnownLiteral} (hfits : (LiteralEvidence.known known).Fits)
    (hbound : literalBounds (some (.known known)) = .ok ()) : Fine 1 known.toJson := by
  cases known with
  | boolean b =>
    refine fine_obj ["kind", "value"] rfl (by decide) ?_
    simp only [List.forall_mem_cons]
    exact ⟨fine_str (by decide), fine_bool 0 b, by simp⟩
  | string s =>
    refine fine_obj ["kind", "value"] rfl (by decide) ?_
    simp only [List.forall_mem_cons]
    exact ⟨fine_str (by decide), fine_str (ensure_eq_ok.mp hbound), by simp⟩
  | number digits =>
    refine fine_obj ["kind", "value"] rfl (by decide) ?_
    simp only [List.forall_mem_cons]
    exact ⟨fine_str (by decide), fine_num hfits, by simp⟩
  | null =>
    refine fine_obj ["kind"] rfl (by decide) ?_
    simp only [List.forall_mem_cons]
    exact ⟨fine_str (by decide), by simp⟩

theorem fine_literal {literal : LiteralEvidence} (hfits : literal.Fits)
    (hbound : literalBounds (some literal) = .ok ()) : Fine 2 literal.toJson := by
  cases literal with
  | known value =>
    refine fine_obj ["status", "value"] rfl (by decide) ?_
    simp only [List.forall_mem_cons]
    exact ⟨fine_str (by decide), fine_known hfits hbound, by simp⟩
  | withheld kind reasons =>
    have hlength : reasons.length ≤ 16 := ensure_eq_ok.mp hbound
    have hreasons : Fine 1 (.arr (reasons.map fun r => Json.str r.text)) := by
      refine fine_arr (hlength.trans (by decide)) (fun r _ => ?_) fun r _ => fine_str ?_
      · show 0 < r.text.utf8ByteSize
        cases r <;> decide
      · cases r <;> decide
    refine fine_obj ["status", "kind", "reasons"] rfl (by decide) ?_
    simp only [List.forall_mem_cons]
    exact ⟨fine_str (by decide), fine_str (by cases kind <;> decide), hreasons, by simp⟩

theorem fine_expression {e : SourceExpression} (hfits : e.Fits)
    (h : checkedExpression e primary = .ok ()) : Fine 3 e.toJson := by
  obtain ⟨⟨⟩, -, h⟩ := bind_eq_ok.mp h
  obtain ⟨⟨⟩, hsource, h⟩ := bind_eq_ok.mp h
  obtain ⟨⟨⟩, htexts, hbound⟩ := bind_eq_ok.mp h
  obtain ⟨-, hkindText, hdisplay⟩ := ensure_eq_ok.mp htexts
  have hliteral : Fine 2 (.opt LiteralEvidence.toJson e.literal) := by
    cases hl : e.literal with
    | none => exact fine_null 2
    | some literal =>
      rw [hl] at hbound
      exact fine_literal (hfits.2 literal hl) hbound
  refine fine_obj ["source", "syntax_kind", "display", "capture", "literal"] rfl (by decide) ?_
  simp only [List.forall_mem_cons]
  exact ⟨(fine_evidence (refSmall_of_checkedSource hsource)).mono (by decide),
    fine_str (hkindText.trans (by decide)), fine_str hdisplay,
    fine_str (by cases e.capture <;> decide), hliteral, by simp⟩

theorem fine_condition {c : BranchCondition} (hfits : c.Fits)
    (h : checkCondition primary c = .ok ()) : Fine 4 c.toJson := by
  obtain ⟨⟨⟩, hsource, h⟩ := bind_eq_ok.mp h
  obtain ⟨⟨⟩, hexpression, -⟩ := bind_eq_ok.mp h
  refine fine_obj ["branch_source", "expression", "polarity"] rfl (by decide) ?_
  simp only [List.forall_mem_cons]
  exact ⟨(fine_evidence (refSmall_of_checkedSource hsource)).mono (by decide),
    fine_expression hfits.2 hexpression, fine_str (by cases c.polarity <;> decide), by simp⟩

theorem fine_effect {effect : LocalExit} (hfits : effect.Fits)
    (h : ∀ value ∈ effect.value?.toList, checkedExpression value primary = .ok ()) :
    Fine 4 effect.toJson := by
  cases effect with
  | «return» value =>
    have hvalue : Fine 3 (.opt SourceExpression.toJson value) := by
      cases value with
      | none => exact fine_null 3
      | some e => exact fine_expression (hfits e rfl) (h e List.mem_cons_self)
    refine fine_obj ["kind", "value"] rfl (by decide) ?_
    simp only [List.forall_mem_cons]
    exact ⟨fine_str (by decide), hvalue, by simp⟩
  | throw value =>
    refine fine_obj ["kind", "value"] rfl (by decide) ?_
    simp only [List.forall_mem_cons]
    exact ⟨fine_str (by decide), fine_expression (hfits value rfl) (h value List.mem_cons_self),
      by simp⟩

theorem fine_resolution {r : DependencyResolution} (h : checkedResolution r primary gaps = .ok ()) :
    Fine 2 r.toJson := by
  cases r with
  | binding bindingId declaration =>
    obtain ⟨⟨⟩, hid, hdeclaration⟩ := bind_eq_ok.mp h
    refine fine_obj ["kind", "binding_id", "declaration"] rfl (by decide) ?_
    simp only [List.forall_mem_cons]
    exact ⟨fine_str (by decide), fine_id (boundedId_ok hid).2,
      fine_evidence (refSmall_of_checkedSource hdeclaration), by simp⟩
  | target nodeId =>
    refine fine_obj ["kind", "node_id"] rfl (by decide) ?_
    simp only [List.forall_mem_cons]
    exact ⟨fine_str (by decide), fine_id (boundedId_ok h).2, by simp⟩
  | unresolved gapId =>
    obtain ⟨⟨⟩, hid, -⟩ := bind_eq_ok.mp h
    refine fine_obj ["kind", "gap_id"] rfl (by decide) ?_
    simp only [List.forall_mem_cons]
    exact ⟨fine_str (by decide), fine_id (boundedId_ok hid).2, by simp⟩

theorem fine_dependency {d : RuleDependency} (h : checkDependency primary gaps d = .ok ()) :
    Fine 3 d.toJson := by
  obtain ⟨⟨⟩, hsource, hresolution⟩ := bind_eq_ok.mp h
  refine fine_obj ["role", "source", "resolution"] rfl (by decide) ?_
  simp only [List.forall_mem_cons]
  exact ⟨fine_str (by cases d.role <;> decide),
    (fine_evidence (refSmall_of_checkedSource hsource)).mono (by decide),
    fine_resolution hresolution, by simp⟩

theorem fine_redaction {r : SourceRedaction} (h : checkedSource r.source primary = .ok ()) :
    Fine 2 r.toJson := by
  refine fine_obj ["source", "reason"] rfl (by decide) ?_
  simp only [List.forall_mem_cons]
  exact ⟨fine_evidence (refSmall_of_checkedSource h), fine_str (by cases r.reason <;> decide),
    by simp⟩

theorem fine_kind {kind : DefinitionExpressionKind}
    (h : ∀ gapId, kind = .unsupported gapId → gapId.utf8ByteSize ≤ MAX_ID_BYTES) :
    Fine 1 kind.toJson := by
  cases kind with
  | literal | propertyName =>
    refine fine_obj ["kind"] rfl (by decide) ?_
    simp only [List.forall_mem_cons]
    exact ⟨fine_str (by decide), by simp⟩
  | identifier dependency =>
    refine fine_obj ["kind", "dependency"] rfl (by decide) ?_
    simp only [List.forall_mem_cons]
    exact ⟨fine_str (by decide), fine_nat 0 _, by simp⟩
  | member object property computed isOptional dependency =>
    refine fine_obj ["kind", "object", "property", "computed", "optional", "dependency"] rfl
      (by decide) ?_
    simp only [List.forall_mem_cons]
    exact ⟨fine_str (by decide), fine_nat 0 _, fine_nat 0 _, fine_bool 0 _, fine_bool 0 _,
      fine_nat 0 _, by simp⟩
  | parenthesized value =>
    refine fine_obj ["kind", "value"] rfl (by decide) ?_
    simp only [List.forall_mem_cons]
    exact ⟨fine_str (by decide), fine_nat 0 _, by simp⟩
  | unary operator operand =>
    refine fine_obj ["kind", "operator", "operand"] rfl (by decide) ?_
    simp only [List.forall_mem_cons]
    exact ⟨fine_str (by decide), fine_str (by cases operator <;> decide), fine_nat 0 _, by simp⟩
  | binary operator left right | logical operator left right =>
    refine fine_obj ["kind", "operator", "left", "right"] rfl (by decide) ?_
    simp only [List.forall_mem_cons]
    exact ⟨fine_str (by decide), fine_str (by cases operator <;> decide), fine_nat 0 _,
      fine_nat 0 _, by simp⟩
  | unsupported gapId =>
    refine fine_obj ["kind", "gap_id"] rfl (by decide) ?_
    simp only [List.forall_mem_cons]
    exact ⟨fine_str (by decide), fine_id (h gapId rfl), by simp⟩

theorem fine_node {node : DefinitionExpressionNode}
    (harena : arena definition primary gaps = .ok ()) (hnode : node ∈ definition.expression.nodes)
    (hfits : node.expression.Fits) :
    Fine 4 node.toJson := by
  obtain ⟨index, used, result, hfound, hvisit⟩ := visit_of_arena harena hnode
  obtain ⟨node', hfound', h⟩ := bind_eq_ok.mp hvisit
  obtain rfl := Option.some.inj (hfound.symm.trans (orFail_eq_ok.mp hfound'))
  obtain ⟨⟨⟩, hexpression, h⟩ := bind_eq_ok.mp h
  obtain ⟨⟨⟩, -, h⟩ := bind_eq_ok.mp h
  obtain ⟨used', hkind, -⟩ := bind_eq_ok.mp h
  have hgap : ∀ gapId, node.kind = .unsupported gapId → gapId.utf8ByteSize ≤ MAX_ID_BYTES := by
    intro gapId hunsupported
    rw [checkKind, hunsupported] at hkind
    obtain ⟨⟨⟩, hid, -⟩ := bind_eq_ok.mp hkind
    exact (boundedId_ok hid).2
  refine fine_obj ["expression", "kind"] rfl (by decide) ?_
  simp only [List.forall_mem_cons]
  exact ⟨fine_expression hfits hexpression, (fine_kind hgap).mono (by decide), by simp⟩

theorem fine_input {d : DefinitionDependency} {initializer : SourceExpression}
    (h : checkInput initializer primary gaps d = .ok ()) : Fine 3 d.toJson := by
  obtain ⟨⟨⟩, hsource, h⟩ := bind_eq_ok.mp h
  obtain ⟨⟨⟩, -, hresolution⟩ := bind_eq_ok.mp h
  refine fine_obj ["source", "resolution"] rfl (by decide) ?_
  simp only [List.forall_mem_cons]
  exact ⟨(fine_evidence (refSmall_of_checkedSource hsource)).mono (by decide),
    fine_resolution hresolution, by simp⟩

/-- The lengths that `collectionBounds` allows one definition. -/
structure Short (definition : LocalDefinition) : Prop where
  nodes : definition.expression.nodes.length ≤ MAX_DEFINITION_NODES
  dependencies : definition.dependencies.length ≤ MAX_INITIALIZER_DEPENDENCIES
  uses : definition.uses.length ≤ MAX_USES

theorem fine_definition (hfits : definition.Fits) (hshort : Short definition)
    (hid : boundedId definition.bindingId = .ok ()) (h : CheckedDefinition definition primary gaps)
    : Fine 7 definition.toJson := by
  obtain ⟨-, -, hinitializer, hexpr, -⟩ := hfits
  have huses : Fine 2 (.arr (definition.uses.map EvidenceRef.toJson)) :=
    fine_arr (hshort.uses.trans (by decide)) (fun usage _ => List.cons_ne_nil _ _) fun usage hmem =>
      fine_evidence (refSmall_of_checkedSource (checked_of_checkUses h.uses usage hmem))
  have hnodes : Fine 5 (.arr (definition.expression.nodes.map DefinitionExpressionNode.toJson)) :=
    fine_arr (hshort.nodes.trans (by decide)) (fun node _ => List.cons_ne_nil _ _) fun node hmem =>
      fine_node h.arena hmem (hexpr.2 node hmem).1
  have hexpression : Fine 6 definition.expression.toJson := by
    refine fine_obj ["root", "nodes"] rfl (by decide) ?_
    simp only [List.forall_mem_cons]
    exact ⟨fine_nat 5 _, hnodes, by simp⟩
  have hinputs : Fine 4 (.arr (definition.dependencies.map DefinitionDependency.toJson)) :=
    fine_arr (hshort.dependencies.trans (by decide)) (fun d _ => List.cons_ne_nil _ _) fun d hmem =>
      fine_input (h.inputs d hmem)
  refine fine_obj ["binding_id", "declaration", "uses", "initializer", "expression",
    "dependencies"] rfl (by decide) ?_
  simp only [List.forall_mem_cons]
  exact ⟨fine_id (boundedId_ok hid).2,
    (fine_evidence (refSmall_of_checkedSource h.declaration)).mono (by decide),
    huses.mono (by decide), (fine_expression hinitializer h.initializer).mono (by decide),
    hexpression, hinputs.mono (by decide), by simp⟩

theorem le_of_sum_le {size : α → ℕ} {l : List α} {bound : ℕ} (h : (l.map size).sum ≤ bound) :
    ∀ x ∈ l, size x ≤ bound := fun _ hx =>
  (List.le_sum_of_mem (List.mem_map_of_mem hx)).trans h

theorem shorts_of_collectionBounds (hstored : rule.localDefinitions = some definitions)
    (h : collectionBounds rule = .ok ()) :
    definitions.length ≤ MAX_LOCAL_DEFINITIONS
      ∧ (rule.conditions.length ≤ 32 ∧ rule.dependencies.length ≤ 128
        ∧ rule.redactions.length ≤ 1024 ∧ rule.interpretation.gapIds.length ≤ 128)
      ∧ (definitions.map fun d => d.expression.nodes.length).sum ≤ MAX_DEFINITION_NODES
      ∧ (definitions.map fun d => d.dependencies.length).sum ≤ MAX_INITIALIZER_DEPENDENCIES
      ∧ (definitions.map fun d => d.uses.length).sum ≤ MAX_USES := by
  obtain ⟨definitions', hfound, h⟩ := bind_eq_ok.mp h
  obtain rfl := Option.some.inj (hstored.symm.trans (orFail_eq_ok.mp hfound))
  obtain ⟨⟨⟩, hlengths, hsums⟩ := bind_eq_ok.mp h
  obtain ⟨hcount, hrest⟩ := ensure_eq_ok.mp hlengths
  exact ⟨hcount, hrest, ensure_eq_ok.mp hsums⟩

theorem fine_interpretation {i : Interpretation} (hlength : i.gapIds.length ≤ 128)
    (h : collectGaps [] i.gapIds = .ok gaps) :
    Fine 2 i.toJson := by
  have hbounded := bounded_of_collectGaps h
  have hgaps : Fine 1 (.arr (i.gapIds.map Json.str)) :=
    fine_arr (hlength.trans (by decide)) (fun gap hgap => (boundedId_ok (hbounded gap hgap)).1)
      fun gap hgap => fine_id (boundedId_ok (hbounded gap hgap)).2
  refine fine_obj ["execution_predicate", "consumer_effect", "gap_ids"] rfl (by decide) ?_
  simp only [List.forall_mem_cons]
  exact ⟨fine_str (by cases i.executionPredicate; decide),
    fine_str (by cases i.consumerEffect; decide), hgaps, by simp⟩

/-- **The payload of a valid rule** of version 2 is within the bounds of the preflight. -/
theorem fine_rule (hfits : rule.Fits) (h : Passed rule definitions gaps) :
    Fine 9 rule.toJson := by
  obtain ⟨hcount, ⟨hconditions, hdependencies, hredactions, hgaps⟩, hnodes, hinputs, huses⟩ :=
    shorts_of_collectionBounds h.stored h.bounds
  have hdefinition : ∀ d ∈ definitions, Fine 7 d.toJson := fun d hd => by
    obtain ⟨hid, hchecked⟩ := checked_of_checkDefinitions h.checked d hd
    exact fine_definition (hfits.definitions definitions h.stored d hd)
      ⟨le_of_sum_le hnodes d hd, le_of_sum_le hinputs d hd, le_of_sum_le huses d hd⟩ hid hchecked
  have hconditions' : Fine 5 (.arr (rule.conditions.map BranchCondition.toJson)) :=
    fine_arr (hconditions.trans (by decide)) (fun c _ => List.cons_ne_nil _ _) fun c hc =>
      fine_condition (hfits.conditions c hc) (h.conditions c hc)
  have hdependencies' : Fine 4 (.arr (rule.dependencies.map RuleDependency.toJson)) :=
    fine_arr (hdependencies.trans (by decide)) (fun d _ => List.cons_ne_nil _ _) fun d hd =>
      fine_dependency (h.dependencies d hd)
  have hredactions' : Fine 3 (.arr (rule.redactions.map SourceRedaction.toJson)) :=
    fine_arr hredactions (fun r _ => List.cons_ne_nil _ _) fun r hr =>
      fine_redaction (h.redactions r hr)
  have hdefinitions : Fine 8 (.arr (definitions.map LocalDefinition.toJson)) :=
    fine_arr (hcount.trans (by decide)) (fun d _ => List.cons_ne_nil _ _) hdefinition
  rw [GuardedExitEvidence.toJson, h.stored]
  refine fine_obj ["schema_version", "kind", "owner_id", "exit_source", "source_order",
    "conditions", "effect", "dependencies", "interpretation", "redactions", "local_definitions"]
    rfl (by decide) ?_
  simp only [List.cons_append, List.nil_append, Option.toList_some, List.map_cons, List.map_nil,
    List.forall_mem_cons]
  exact ⟨fine_nat 8 _, fine_str (by cases rule.kind; decide), fine_id (boundedId_ok h.owner).2,
    (fine_evidence (refSmall_of_checkedSource h.exit)).mono (by decide), fine_nat 8 _,
    hconditions'.mono (by decide), (fine_effect hfits.effect h.effect).mono (by decide),
    hdependencies'.mono (by decide), (fine_interpretation hgaps h.collected).mono (by decide),
    hredactions'.mono (by decide), hdefinitions, by simp⟩

/-! ### Reading the payload -/

theorem elements_canonicalize (l : List α) :
    elements (canonicalize (.arr (l.map toJson))) = some (l.map (canonicalize ∘ toJson)) := by
  rw [canonicalize_arr, List.map_map]
  rfl

theorem lengthOf_canonicalize (l : List α) :
    lengthOf (some (canonicalize (.arr (l.map toJson)))) = l.length := by
  rw [lengthOf, Option.bind_some, elements_canonicalize, Option.map_some, Option.getD_some,
    List.length_map]

theorem lengthOf_nodes (d : LocalDefinition) :
    lengthOf (((canonicalize d.toJson).field "expression").bind (·.field "nodes"))
      = d.expression.nodes.length := by
  have hexpression : (canonicalize d.toJson).field "expression"
      = some (canonicalize d.expression.toJson) := by
    simp [LocalDefinition.toJson, field_canonicalize]
  have hnodes : (canonicalize d.expression.toJson).field "nodes"
      = some (canonicalize (.arr (d.expression.nodes.map DefinitionExpressionNode.toJson))) := by
    simp [DefinitionExpression.toJson, field_canonicalize]
  rw [hexpression, Option.bind_some, hnodes, lengthOf_canonicalize]

theorem lengthOf_inputs (d : LocalDefinition) :
    lengthOf ((canonicalize d.toJson).field "dependencies") = d.dependencies.length := by
  have hinputs : (canonicalize d.toJson).field "dependencies"
      = some (canonicalize (.arr (d.dependencies.map DefinitionDependency.toJson))) := by
    simp [LocalDefinition.toJson, field_canonicalize]
  rw [hinputs, lengthOf_canonicalize]

theorem lengthOf_uses (d : LocalDefinition) :
    lengthOf ((canonicalize d.toJson).field "uses") = d.uses.length := by
  have huses : (canonicalize d.toJson).field "uses"
      = some (canonicalize (.arr (d.uses.map EvidenceRef.toJson))) := by
    simp [LocalDefinition.toJson, field_canonicalize]
  rw [huses, lengthOf_canonicalize]

theorem count_of_size (hroomy : rule.toJson.All Roomy)
    (hsize : rule.toJson.size ≤ MAX_RULE_PAYLOAD_BYTES) :
    rule.toJson.count ≤ MAX_WIRE_VALUES := by
  have hwide : wide rule.toJson := List.cons_ne_nil _ _
  have hcount := (count_le_size rule.toJson hroomy).2 hwide
  have hlimit : MAX_RULE_PAYLOAD_BYTES = 4 * MAX_WIRE_VALUES := by decide
  omega

/-- **The preflight never rejects** the payload of a valid rule. -/
theorem preflight_ok (hfits : rule.Fits) (h : Passed rule definitions gaps) :
    preflight rule.toValue = .ok () := by
  obtain ⟨hcount, -, hnodes, hinputs, huses⟩ := shorts_of_collectionBounds h.stored h.bounds
  obtain ⟨hwire, hroomy, hdistinct, hheight⟩ := fine_rule hfits h
  have hsize : rule.toJson.size ≤ MAX_RULE_PAYLOAD_BYTES := ensure_eq_ok.mp h.size
  have hlook : look MAX_WIRE_VALUES [(rule.toValue, 0)] = .ok () := by
    refine look_ok _ _ ⟨?_, fun p hp => ?_, fun p hp => ?_⟩
    · rw [List.map_singleton, List.sum_singleton]
      show rule.toValue.count ≤ MAX_WIRE_VALUES
      rw [GuardedExitEvidence.toValue, count_canonicalize hdistinct]
      exact count_of_size hroomy hsize
    · rw [List.mem_singleton.mp hp]
      exact (GraphStore.reordered_canonicalize _ hdistinct).all wire_reordered hwire
    · rw [List.mem_singleton.mp hp]
      show 0 + (canonicalize rule.toJson).height ≤ MAX_WIRE_DEPTH
      rw [GraphStore.canonicalize_height _ hdistinct, Nat.zero_add]
      exact hheight.trans (by decide)
  have hfield : rule.toValue.field "local_definitions"
      = some (canonicalize (.arr (definitions.map LocalDefinition.toJson))) := by
    simp [GuardedExitEvidence.toValue, GuardedExitEvidence.toJson, h.stored, field_canonicalize]
  have helements : orFail ((rule.toValue.field "local_definitions").bind elements)
      (invalid "local_definitions")
      = .ok (definitions.map (canonicalize ∘ LocalDefinition.toJson)) := by
    rw [hfield, Option.bind_some, elements_canonicalize]
    rfl
  have hcount' : (definitions.map (canonicalize ∘ LocalDefinition.toJson)).length
      ≤ MAX_LOCAL_DEFINITIONS := by
    rw [List.length_map]
    exact hcount
  rw [preflight, hlook, ok_bind, helements, ok_bind, ensure_of hcount', ok_bind]
  simp only [List.map_map, Function.comp_def, lengthOf_nodes, lengthOf_inputs, lengthOf_uses]
  rw [ensure_of ⟨hnodes, hinputs, huses⟩, ok_bind]
  refine ensure_of ?_ _
  rw [GuardedExitEvidence.toValue, size_canonicalize hdistinct]
  exact hsize

/-- **Valid rules are read back.**  For every rule of either version that validates, the rule is
read from its payload: no limit of the preflight is below one of validation. -/
theorem rule_round_trip {rule : GuardedExitEvidence} (hfits : rule.Fits)
    (hvalid : validate rule = .ok ()) : fromValue rule.toValue = .ok rule := by
  obtain ⟨hshaped, hdefinitions⟩ := validate_ok.mp hvalid
  have hread : orFail (readRule rule.toValue) RuleValidationError.malformedPayload
      = .ok rule := by
    rw [readRule_value hfits]
    rfl
  have hversion : orFail ((rule.toValue.field "schema_version").bind (natural U32))
      RuleValidationError.malformedPayload = .ok rule.schemaVersion := by
    have hfield : rule.toValue.field "schema_version" = some (.nat rule.schemaVersion) := by
      cases hlocal : rule.localDefinitions <;>
        simp [GuardedExitEvidence.toValue, GuardedExitEvidence.toJson, hlocal, field_canonicalize]
    rw [hfield, Option.bind_some, natural_nat hfits.version]
    rfl
  have hrest : (do
      let read ← orFail (readRule rule.toValue) .malformedPayload
      validate read
      pure read : Validation GuardedExitEvidence) = .ok rule := by
    rw [hread, ok_bind, hvalid, ok_bind]
    rfl
  rcases version_ok.mp hshaped.version with ⟨hone, hnone⟩ | ⟨htwo, -⟩
  · have habsent : (rule.toValue.field "local_definitions").isNone = true := by
      have hlocal := Option.isNone_iff_eq_none.mp hnone
      simp [GuardedExitEvidence.toValue, GuardedExitEvidence.toJson, hlocal, field_canonicalize]
    rw [fromValue, hversion, ok_bind, hone]
    simp only [ensure_of habsent, ok_bind]
    exact hrest
  · obtain ⟨definitions, gaps, hpassed⟩ := validateDefinitions_ok.mp (hdefinitions htwo)
    rw [fromValue, hversion, ok_bind, htwo]
    simp only [preflight_ok hfits hpassed, ok_bind]
    exact hrest

theorem Sample.rule_fits : Sample.rule.Fits := by
  have href (start stop : ℕ) (hstart : start < U64) (hstop : stop < U64) :
      RefFits (Sample.source start stop) := ⟨hstart, hstop⟩
  have hexpr (start stop : ℕ) (syntaxKind : String) (hstart : start < U64) (hstop : stop < U64) :
      (Sample.expr start stop syntaxKind).Fits := ⟨href _ _ hstart hstop, by simp [Sample.expr]⟩
  have hready : Sample.ready.Fits := by
    refine ⟨href _ _ (by decide) (by decide), ?_, hexpr _ _ _ (by decide) (by decide), ?_, ?_⟩
    · simp only [Sample.ready, List.forall_mem_cons]
      exact ⟨href _ _ (by decide) (by decide), by simp⟩
    · refine ⟨by decide, ?_⟩
      simp only [Sample.ready, List.forall_mem_cons]
      exact ⟨⟨hexpr _ _ _ (by decide) (by decide), by decide, by decide⟩,
        ⟨hexpr _ _ _ (by decide) (by decide), by decide, by decide⟩,
        ⟨hexpr _ _ _ (by decide) (by decide), by decide, by decide⟩, by simp⟩
    · simp only [Sample.ready, List.forall_mem_cons]
      exact ⟨⟨href _ _ (by decide) (by decide), trivial⟩,
        ⟨href _ _ (by decide) (by decide), href _ _ (by decide) (by decide)⟩, by simp⟩
  refine ⟨by decide, href _ _ (by decide) (by decide), by decide, ?_, ?_, ?_, ?_, ?_⟩
  · simp only [Sample.rule, List.forall_mem_cons]
    exact ⟨⟨href _ _ (by decide) (by decide), hexpr _ _ _ (by decide) (by decide)⟩, by simp⟩
  · simp [Sample.rule, LocalExit.Fits, LocalExit.value?]
  · simp only [Sample.rule, List.forall_mem_cons]
    exact ⟨⟨href _ _ (by decide) (by decide), href _ _ (by decide) (by decide)⟩, by simp⟩
  · simp [Sample.rule]
  · intro definitions hstored d hd
    obtain rfl := Option.some.inj hstored
    rw [List.mem_singleton.mp hd]
    exact hready

theorem rule_round_trip_sample : fromValue Sample.rule.toValue = .ok Sample.rule :=
  rule_round_trip Sample.rule_fits Sample.rule_valid

end Rules

/-
What a merged relation cites (`src-tauri/src/main.rs`).

The occurrences of a relation that have the tier, the confidence and the extractor of the last
one are united: their evidence is sorted without repeats and cut at a bound, and what was cut is
counted.  The hash of two or more of them is taken over their hashes and the whole evidence.

* `fromValue_toJson` — a provenance that was read from a value reads back;
* `distinctEvidence_strict`, `mem_distinctEvidence` — the evidence in order, each span once;
* `mergeEdgeOccurrences_congr` — only the last occurrence has a place;
* `merged_relations` — the edge that is published for a key.
-/
import Cartograph.Ingest.Merge
import Cartograph.ContextHub.Identity

/-! ### A provenance reads back -/

variable {e : EvidenceRef}

namespace Investigation

theorem u64Value_nat {n : ℕ} (h : n < 2 ^ 64) : u64Value (.nat n) = some n := by
  obtain ⟨hne, hall, hvalue⟩ := Json.toString_digits n
  show u64Value (.num (toString n)) = some n
  rw [u64Value, if_pos ⟨hne, hall⟩, hvalue]
  exact if_pos h

variable {j : Json}

theorem lt_of_u64Value {n : ℕ} (h : u64Value j = some n) : n < 2 ^ 64 := by
  cases j with
  | num text =>
    simp only [u64Value, Option.ite_none_right_eq_some, Option.some_inj] at h
    obtain ⟨-, hlt, rfl⟩ := h
    exact hlt
  | null => cases h
  | bool b => cases h
  | str s => cases h
  | arr items => cases h
  | obj fields => cases h

/-- The offsets are numbers of 64 bits. -/
def EvidenceRef.Fits (e : EvidenceRef) : Prop := e.byteStart < 2 ^ 64 ∧ e.byteEnd < 2 ^ 64

theorem EvidenceRef.fromValue_toJson (h : e.Fits) : fromValue e.toJson = some e := by
  have hfields : structFields ["repo", "path", "byte_start", "byte_end", "commit_sha"] e.toJson
      = some [.str e.repo, .str e.path, .nat e.byteStart, .nat e.byteEnd, .str e.commitSha] := rfl
  rw [fromValue, hfields]
  simp [u64Value_nat h.1, u64Value_nat h.2, stringValue]

theorem EvidenceRef.fits_of_fromValue (h : fromValue j = some e) :
    e.Fits := by
  rw [fromValue] at h
  split at h
  · simp only [Option.bind_eq_bind, Option.bind_eq_some_iff, Option.pure_def, Option.some_inj] at h
    obtain ⟨_, -, _, -, _, hstart, _, hend, _, -, rfl⟩ := h
    exact ⟨lt_of_u64Value hstart, lt_of_u64Value hend⟩
  · cases h

theorem Tier.unitVariant_text (t : Tier) :
    unitVariant Tier.text [.deterministic, .dynamic, .semantic, .agentic] (.str t.text) = some t := by
  cases t with
  | deterministic | dynamic | semantic | agentic => rfl

theorem ConfidenceTier.unitVariant_text (c : ConfidenceTier) :
    unitVariant ConfidenceTier.text [.confirmed, .inferredStrong, .inferredWeak, .gap] (.str c.text)
      = some c := by
  cases c with
  | confirmed | inferredStrong | inferredWeak | gap => rfl

theorem mapM_fromValue {l : List EvidenceRef} (h : ∀ e ∈ l, e.Fits) :
    (l.map EvidenceRef.toJson).mapM EvidenceRef.fromValue = some l := by
  induction l with
  | nil => rfl
  | cons e rest ih =>
    obtain ⟨he, hrest⟩ := List.forall_mem_cons.mp h
    rw [List.map_cons, List.mapM_cons, EvidenceRef.fromValue_toJson he, ih hrest]
    rfl

theorem Provenance.fromValue_toJson {p : Provenance} (h : ∀ e ∈ p.evidence, e.Fits) :
    fromValue p.toJson = some p := by
  have hfields : structFields
      ["tier", "confidence_tier", "evidence", "extractor_id", "content_hash"] p.toJson
        = some [.str p.tier.text, .str p.confidenceTier.text,
            .arr (p.evidence.map EvidenceRef.toJson), .str p.extractorId, .str p.contentHash] := rfl
  rw [fromValue, hfields]
  simp [Tier.unitVariant_text, ConfidenceTier.unitVariant_text, evidenceValue, mapM_fromValue h,
    stringValue]

theorem fits_of_mapM : ∀ {items : List Json} {l : List EvidenceRef},
    items.mapM EvidenceRef.fromValue = some l → ∀ e ∈ l, e.Fits
  | [], l, h, e, he => by
    cases h
    exact absurd he List.not_mem_nil
  | j :: items, l, h, e, he => by
    simp only [List.mapM_cons, Option.bind_eq_bind, Option.bind_eq_some_iff, Option.pure_def,
      Option.some_inj] at h
    obtain ⟨e', he', rest, hrest, rfl⟩ := h
    rcases List.mem_cons.mp he with rfl | he
    · exact EvidenceRef.fits_of_fromValue he'
    · exact fits_of_mapM hrest e he

theorem fits_of_evidenceValue {l : List EvidenceRef} (h : evidenceValue j = some l) :
    ∀ e ∈ l, e.Fits := by
  cases j with
  | arr items => exact fits_of_mapM h
  | null => cases h
  | bool b => cases h
  | num text => cases h
  | str s => cases h
  | obj fields => cases h

theorem Provenance.fits_of_fromValue {p : Provenance} (h : fromValue j = some p) :
    ∀ e ∈ p.evidence, e.Fits := by
  rw [fromValue] at h
  split at h
  · simp only [Option.bind_eq_bind, Option.bind_eq_some_iff, Option.pure_def, Option.some_inj] at h
    obtain ⟨_, -, _, -, evidence, hevidence, _, -, _, -, rfl⟩ := h
    exact fits_of_evidenceValue hevidence
  · cases h

end Investigation

namespace Ingest

open GraphStore Investigation SortBy
open ContextHub (CollisionFree)

/-! ### Evidence in order -/

theorem evidenceKey_injective : Function.Injective evidenceKey := by
  intro a b h
  simp only [evidenceKey, EmbeddingLike.apply_eq_iff_eq, Prod.mk.injEq] at h
  obtain ⟨hrepo, hpath, hstart, hend, hsha⟩ := h
  obtain ⟨repo, path, byteStart, byteEnd, commitSha⟩ := a
  simp_all

/-- The hashes of the provenances that are united. -/
def distinctHashes (united : List Provenance) : List String :=
  (OrderedSet.ofList (united.map (·.contentHash))).elements

/-- Their evidence, sorted, each span once. -/
def distinctEvidence (united : List Provenance) : List EvidenceRef :=
  distinct evidenceKey (sortBy evidenceKey (united.flatMap (·.evidence)))

theorem distinctEvidence_strict (united : List Provenance) :
    (distinctEvidence united).Pairwise fun a b => evidenceKey a < evidenceKey b :=
  distinct_strict (sortBy_pairwise evidenceKey _)

theorem mem_distinctEvidence {united : List Provenance} :
    e ∈ distinctEvidence united ↔ ∃ o ∈ united, e ∈ o.evidence := by
  have hsorted : e ∈ sortBy evidenceKey (united.flatMap (·.evidence))
      ↔ ∃ o ∈ united, e ∈ o.evidence :=
    (sortBy_perm evidenceKey _).mem_iff.trans List.mem_flatMap
  rw [← hsorted]
  constructor
  · intro he
    exact (distinct_sublist evidenceKey _).subset he
  · intro he
    obtain ⟨e', he', hkey⟩ : ∃ e' ∈ distinctEvidence united, evidenceKey e' = evidenceKey e :=
      distinct_covers he
    rw [← evidenceKey_injective hkey]
    exact he'

theorem distinctEvidence_congr {united united' : List Provenance} (h : united.Perm united') :
    distinctEvidence united = distinctEvidence united' := by
  rw [distinctEvidence, sortBy_eq_of_injective evidenceKey_injective (h.flatMap_right _),
    distinctEvidence]

theorem distinctHashes_congr {united united' : List Provenance} (h : united.Perm united') :
    distinctHashes united = distinctHashes united' := by
  refine congrArg OrderedSet.elements (OrderedSet.ext_contains fun k => ?_)
  rw [OrderedSet.contains_ofList, OrderedSet.contains_ofList]
  exact (h.map _).mem_iff

/-! ### The merged edge -/

/-- The occurrences of the tier, confidence and extractor of the last one, as provenances. -/
def Occurrences.united (g : Occurrences) (prov : Provenance) : List Provenance :=
  (g.all.filterMap edgeProv).filter fun other =>
    other.tier == prov.tier && other.confidenceTier == prov.confidenceTier
      && other.extractorId == prov.extractorId

def omittedEvidence (united : List Provenance) : ℕ :=
  (distinctEvidence united).length - MAX_MERGED_EDGE_EVIDENCE

/-- What the hash of two or more occurrences is taken over. -/
def mergedText (united : List Provenance) : String :=
  Json.render (.arr [.str "merged-edge-v1", .arr ((distinctHashes united).map .str),
    .arr ((distinctEvidence united).map EvidenceRef.toJson), .nat (omittedEvidence united)])

section

variable (contentHash : String → Hash)

def mergedHash (united : List Provenance) (prov : Provenance) : String :=
  if 1 < united.length then (contentHash (mergedText united)).text else prov.contentHash

def mergedProv (united : List Provenance) (prov : Provenance) : Provenance :=
  { prov with
    contentHash := mergedHash contentHash united prov
    evidence := (distinctEvidence united).take MAX_MERGED_EDGE_EVIDENCE }

end

theorem destutter_ne (l : List EvidenceRef) : l.destutter (· ≠ ·) = distinct evidenceKey l := by
  have hne : (fun a b : EvidenceRef => a ≠ b) = fun a b => evidenceKey a ≠ evidenceKey b := by
    funext a b
    exact propext evidenceKey_injective.ne_iff.symm
  rw [distinct]
  congr

variable {contentHash : String → Hash} {g : Occurrences} {prov : Provenance}

theorem mergeEdgeGroup_eq (hearlier : g.earlier ≠ []) (hprov : edgeProv g.last = some prov) :
    mergeEdgeGroup contentHash g =
      { g.last with
        props :=
          let props := setMember "prov" (mergedProv contentHash (g.united prov) prov).toJson
            g.last.props
          if 0 < omittedEvidence (g.united prov) then
            setMember "evidence_omitted" (.nat (omittedEvidence (g.united prov))) props
          else props } := by
  have hempty : g.earlier.isEmpty = false := by simpa using hearlier
  simp only [mergeEdgeGroup, hempty, Bool.false_eq_true, if_false, hprov, destutter_ne]
  rfl

theorem findMember_insertMember (name name' : String) (v : Json) : ∀ fields : List (String × Json),
    findMember name' (insertMember name v fields)
      = if name' = name then some v else findMember name' fields := by
  intro fields
  induction fields with
  | nil =>
    by_cases h : name' = name
    · simp [insertMember, findMember, h]
    · simp [insertMember, findMember, h, Ne.symm h]
  | cons field rest ih =>
    obtain ⟨k, j⟩ := field
    rw [insertMember]
    by_cases hk : k = name
    · rw [if_pos hk, findMember, findMember]
      by_cases h : name' = name
      · rw [if_pos h, if_pos h.symm]
      · rw [if_neg h, if_neg (Ne.symm h), if_neg fun h' => h (h'.symm.trans hk)]
    · rw [if_neg hk, findMember, ih, findMember]
      by_cases h : name' = name
      · rw [if_pos h, if_pos h, if_neg (by rw [h]; exact hk)]
      · rw [if_neg h, if_neg h]

theorem member?_setMember {name name' : String} {v j j' : Json} (hobj : member? name j' = some j)
    (name'' : String) :
    member? name'' (setMember name' v j') = if name'' = name' then some v else member? name'' j' := by
  cases j' with
  | obj fields => exact findMember_insertMember name' name'' v fields
  | null | bool b | num text | str s | arr items => cases hobj

theorem member?_merged (hearlier : g.earlier ≠ []) (hprov : edgeProv g.last = some prov)
    (name : String) :
    member? name (mergeEdgeGroup contentHash g).props =
      if name = "evidence_omitted" ∧ 0 < omittedEvidence (g.united prov) then
        some (.nat (omittedEvidence (g.united prov)))
      else if name = "prov" then some (mergedProv contentHash (g.united prov) prov).toJson
      else member? name g.last.props := by
  obtain ⟨j, hj, -⟩ := Option.bind_eq_some_iff.mp hprov
  have hset : ∀ name', member? name' (setMember "prov"
      (mergedProv contentHash (g.united prov) prov).toJson g.last.props)
        = if name' = "prov" then some (mergedProv contentHash (g.united prov) prov).toJson
          else member? name' g.last.props :=
    member?_setMember hj
  rw [mergeEdgeGroup_eq hearlier hprov]
  show member? name (if _ then _ else _) = _
  by_cases homitted : 0 < omittedEvidence (g.united prov)
  · have hprov' := hset "prov"
    rw [if_pos rfl] at hprov'
    rw [if_pos homitted, member?_setMember hprov', hset]
    simp [homitted]
  · rw [if_neg homitted, hset]
    simp [homitted]

theorem united_fits {prov o : Provenance} (ho : o ∈ g.united prov) :
    ∀ e ∈ o.evidence, e.Fits := by
  obtain ⟨edge, -, hedge⟩ := List.mem_filterMap.mp (List.mem_filter.mp ho).1
  obtain ⟨j, -, hj⟩ := Option.bind_eq_some_iff.mp hedge
  exact Provenance.fits_of_fromValue hj

theorem edgeProv_merged (hearlier : g.earlier ≠ []) (hprov : edgeProv g.last = some prov) :
    edgeProv (mergeEdgeGroup contentHash g)
      = some (mergedProv contentHash (g.united prov) prov) := by
  have hmember : member? "prov" (mergeEdgeGroup contentHash g).props
      = some (mergedProv contentHash (g.united prov) prov).toJson := by
    rw [member?_merged hearlier hprov, if_neg (by simp), if_pos rfl]
  rw [edgeProv, hmember, Option.bind_some]
  refine Provenance.fromValue_toJson fun e he => ?_
  obtain ⟨o, ho, hmem⟩ := mem_distinctEvidence.mp (List.mem_of_mem_take he)
  exact united_fits ho e hmem

/-! ### The order of the occurrences -/

theorem united_perm {g g' : Occurrences} (hearlier : g.earlier.Perm g'.earlier)
    (hlast : g.last = g'.last) (prov : Provenance) : (g.united prov).Perm (g'.united prov) := by
  have hall : g.all.Perm g'.all := by
    rw [Occurrences.all, Occurrences.all, hlast]
    exact hearlier.append_right _
  exact (hall.filterMap _).filter _

theorem omittedEvidence_congr {united united' : List Provenance} (h : united.Perm united') :
    omittedEvidence united = omittedEvidence united' := by
  rw [omittedEvidence, distinctEvidence_congr h, omittedEvidence]

theorem mergedProv_congr {united united' : List Provenance} (h : united.Perm united')
    (prov : Provenance) :
    mergedProv contentHash united prov = mergedProv contentHash united' prov := by
  have htext : mergedText united = mergedText united' := by
    rw [mergedText, distinctHashes_congr h, distinctEvidence_congr h, omittedEvidence_congr h,
      mergedText]
  rw [mergedProv, mergedHash, h.length_eq, htext, distinctEvidence_congr h, mergedProv, mergedHash]

theorem mergeEdgeGroup_congr {g g' : Occurrences} (hearlier : g.earlier.Perm g'.earlier)
    (hlast : g.last = g'.last) : mergeEdgeGroup contentHash g = mergeEdgeGroup contentHash g' := by
  by_cases hone : g.earlier = []
  · have hone' : g'.earlier = [] := by
      rw [hone] at hearlier
      exact hearlier.nil_eq.symm
    simp [mergeEdgeGroup, hone, hone', hlast]
  have hone' : g'.earlier ≠ [] := by
    intro h
    rw [h] at hearlier
    exact hone hearlier.eq_nil
  cases hprov : edgeProv g.last with
  | none =>
    have hprov' : edgeProv g'.last = none := hlast ▸ hprov
    simp [mergeEdgeGroup, hprov', hlast]
  | some prov =>
    have hprov' : edgeProv g'.last = some prov := hlast ▸ hprov
    have hunited := united_perm hearlier hlast prov
    rw [mergeEdgeGroup_eq hone hprov, mergeEdgeGroup_eq hone' hprov', hlast]
    rw [mergedProv_congr hunited, omittedEvidence_congr hunited]

/-- The same occurrences of every key, the last one in its place. -/
def EarlierReordered (edges edges' : List (Edge Json)) : Prop :=
  ∀ k, (edges.filter (·.key = k)).Perm (edges'.filter (·.key = k))
    ∧ (edges.filter (·.key = k)).getLast? = (edges'.filter (·.key = k)).getLast?

theorem mergeEdgeOccurrences_congr {edges edges' : List (Edge Json)}
    (h : EarlierReordered edges edges') :
    mergeEdgeOccurrences contentHash edges = mergeEdgeOccurrences contentHash edges' := by
  refine Table.ext_find? fun k => ?_
  obtain ⟨hperm, hlast⟩ := h k
  have hall := find?_groupEdges edges k
  have hall' := find?_groupEdges edges' k
  rw [← hall, ← hall'] at hperm hlast
  rw [mergeEdgeOccurrences, mergeEdgeOccurrences, Table.find?_mapValues, Table.find?_mapValues]
  cases hg : (groupEdges edges).find? k with
  | none =>
    rw [hg] at hperm
    cases hg' : (groupEdges edges').find? k with
    | none => rfl
    | some g' =>
      rw [hg'] at hperm
      exact absurd hperm.nil_eq (by simp [Occurrences.all])
  | some g =>
    rw [hg] at hperm hlast
    cases hg' : (groupEdges edges').find? k with
    | none =>
      rw [hg'] at hperm
      exact absurd hperm.eq_nil (by simp [Occurrences.all])
    | some g' =>
      rw [hg'] at hperm hlast
      simp only [Option.map_some, Option.getD_some, Occurrences.all, List.getLast?_append,
        List.getLast?_singleton, Option.some_or, Option.some_inj] at hperm hlast
      rw [hlast] at hperm
      exact congrArg some (mergeEdgeGroup_congr ((List.perm_append_right_iff _).mp hperm) hlast)

/-! ### The hash of united occurrences -/

theorem toJson_injective {e e' : EvidenceRef} (h : e.toJson = e'.toJson) : e = e' := by
  obtain ⟨repo, path, byteStart, byteEnd, commitSha⟩ := e
  obtain ⟨repo', path', byteStart', byteEnd', commitSha'⟩ := e'
  simp only [EvidenceRef.toJson, Json.obj.injEq, List.cons.injEq, Prod.mk.injEq, true_and,
    Json.str.injEq, and_true] at h
  obtain ⟨rfl, rfl, hstart, hend, rfl⟩ := h
  rw [Json.nat_injective hstart, Json.nat_injective hend]

theorem numeric_toJson (e : EvidenceRef) : e.toJson.Numeric :=
  ⟨trivial, trivial, Json.numeric_nat _, Json.numeric_nat _, trivial, trivial⟩

theorem mergedText_injective {united united' : List Provenance}
    (h : mergedText united = mergedText united') :
    distinctHashes united = distinctHashes united'
      ∧ distinctEvidence united = distinctEvidence united' := by
  have hnumeric : ∀ united : List Provenance, (Json.arr [.str "merged-edge-v1",
      .arr ((distinctHashes united).map .str), .arr ((distinctEvidence united).map EvidenceRef.toJson),
      .nat (omittedEvidence united)]).Numeric := by
    intro united
    refine ⟨trivial, ?_, ?_, Json.numeric_nat _, trivial⟩
    · exact Json.itemsNumeric_iff.mpr (List.forall_mem_map.mpr fun _ _ => trivial)
    · exact Json.itemsNumeric_iff.mpr (List.forall_mem_map.mpr fun e _ => numeric_toJson e)
  have hvalues := Json.render_injective (hnumeric united) (hnumeric united') h
  simp only [Json.arr.injEq, List.cons.injEq, true_and] at hvalues
  obtain ⟨hhashes, hevidence, -⟩ := hvalues
  exact ⟨List.map_injective_iff.mpr (fun _ _ => Json.str.inj) hhashes,
    List.map_injective_iff.mpr (fun _ _ => toJson_injective) hevidence⟩

theorem earlier_ne_nil (h : 1 < (g.united prov).length) :
    g.earlier ≠ [] := by
  intro hnil
  have hall : (g.united prov).length ≤ g.all.length :=
    (List.length_filter_le _ _).trans (List.length_filterMap_le _ _)
  have hone : g.all.length = 1 := by rw [Occurrences.all, hnil]; rfl
  omega

/-! ### Merged relations -/

/-- What is published for the occurrences of a key, of which the last has provenance. -/
structure Unites (contentHash : String → Hash) (g : Occurrences) (prov : Provenance)
    (merged : Edge Json) : Prop where
  sorted : (distinctEvidence (g.united prov)).Pairwise fun a b => evidenceKey a < evidenceKey b
  union : ∀ e, e ∈ distinctEvidence (g.united prov) ↔ ∃ o ∈ g.united prov, e ∈ o.evidence
  provenance : edgeProv merged = some { prov with
    contentHash := mergedHash contentHash (g.united prov) prov
    evidence := (distinctEvidence (g.united prov)).take MAX_MERGED_EDGE_EVIDENCE }
  omitted : MAX_MERGED_EDGE_EVIDENCE < (distinctEvidence (g.united prov)).length →
    member? "evidence_omitted" merged.props
      = some (.nat ((distinctEvidence (g.united prov)).length - MAX_MERGED_EDGE_EVIDENCE))
  nothingOmitted : (distinctEvidence (g.united prov)).length ≤ MAX_MERGED_EDGE_EVIDENCE →
    member? "evidence_omitted" merged.props = member? "evidence_omitted" g.last.props
  others : ∀ name, name ≠ "prov" → name ≠ "evidence_omitted" →
    member? name merged.props = member? name g.last.props
  ends : merged.src = g.last.src ∧ merged.dst = g.last.dst ∧ merged.label = g.last.label

theorem unites (hearlier : g.earlier ≠ []) (hprov : edgeProv g.last = some prov) :
    Unites contentHash g prov (mergeEdgeGroup contentHash g) where
  sorted := distinctEvidence_strict _
  union _ := mem_distinctEvidence
  provenance := edgeProv_merged hearlier hprov
  omitted h := by
    have hpos : 0 < omittedEvidence (g.united prov) := Nat.sub_pos_of_lt h
    rw [member?_merged hearlier hprov, if_pos ⟨rfl, hpos⟩]
    rfl
  nothingOmitted h := by
    have hzero : omittedEvidence (g.united prov) = 0 := Nat.sub_eq_zero_of_le h
    rw [member?_merged hearlier hprov, hzero, if_neg (by omega), if_neg (by simp)]
  others name hname hname' := by
    rw [member?_merged hearlier hprov, if_neg fun h => hname' h.1, if_neg hname]
  ends := by
    rw [mergeEdgeGroup_eq hearlier hprov]
    exact ⟨rfl, rfl, rfl⟩

/-- **Merged relations.**  Each key of an extraction has one edge.  Where its last occurrence
has provenance and is not the only one, the edge cites the spans of all occurrences of that tier,
confidence and extractor, and is otherwise the last one; the earlier ones may come in any order.
Where two or more are united, equal hashes without a collision mean the same hashes and spans. -/
theorem merged_relations (contentHash : String → Hash) (edges : List (Edge Json)) :
    (∀ k, (((mergeEdgeOccurrences contentHash edges).find? k).isSome = true
        ↔ k ∈ edges.map Edge.key)
      ∧ ∀ merged, (mergeEdgeOccurrences contentHash edges).find? k = some merged → merged.key = k)
    ∧ (∀ (k : EdgeKey) (g : Occurrences), g.all = edges.filter (·.key = k) →
        ∃ merged, (mergeEdgeOccurrences contentHash edges).find? k = some merged
          ∧ (∀ prov, g.earlier ≠ [] → edgeProv g.last = some prov →
              Unites contentHash g prov merged)
          ∧ (g.earlier = [] ∨ edgeProv g.last = none → merged = g.last))
    ∧ (∀ edges', EarlierReordered edges edges' →
        mergeEdgeOccurrences contentHash edges = mergeEdgeOccurrences contentHash edges')
    ∧ ∀ (edges' : List (Edge Json)) (k k' : EdgeKey) (g g' : Occurrences) (prov prov' : Provenance),
        g.all = edges.filter (·.key = k) → g'.all = edges'.filter (·.key = k') →
        edgeProv g.last = some prov → edgeProv g'.last = some prov' → 1 < (g.united prov).length → 1 < (g'.united prov').length →
        CollisionFree (fun text => (contentHash text).text) (mergedText (g.united prov))
          (mergedText (g'.united prov')) →
        ((mergeEdgeOccurrences contentHash edges).find? k >>= edgeProv).map Provenance.contentHash
          = ((mergeEdgeOccurrences contentHash edges').find? k' >>= edgeProv).map
              Provenance.contentHash →
        distinctHashes (g.united prov) = distinctHashes (g'.united prov')
          ∧ distinctEvidence (g.united prov) = distinctEvidence (g'.united prov') := by
  have hfind : ∀ {edges : List (Edge Json)} {k : EdgeKey} {g : Occurrences},
      g.all = edges.filter (·.key = k) →
        (mergeEdgeOccurrences contentHash edges).find? k = some (mergeEdgeGroup contentHash g) :=
    fun hg => find?_mergeEdgeOccurrences.mpr ⟨_, hg, rfl⟩
  refine ⟨fun k => ⟨isSome_mergeEdgeOccurrences contentHash, fun merged hmerged => ?_⟩,
    fun k g hg => ⟨_, hfind hg, fun prov => unites, fun halone => ?_⟩,
    fun edges' => mergeEdgeOccurrences_congr, ?_⟩
  · obtain ⟨g, hg, rfl⟩ := find?_mergeEdgeOccurrences.mp hmerged
    rw [mergeEdgeGroup_key, last_key hg]
  · rcases halone with hone | hnone
    · simp [mergeEdgeGroup, hone]
    · simp [mergeEdgeGroup, hnone]
  · intro edges' k k' g g' prov prov' hg hg' hprov hprov' htwo htwo' hfree hhash
    rw [hfind hg, hfind hg'] at hhash
    simp only [Option.bind_eq_bind, Option.bind_some, edgeProv_merged (earlier_ne_nil htwo) hprov,
      edgeProv_merged (earlier_ne_nil htwo') hprov', Option.map_some, Option.some_inj, mergedProv,
      mergedHash, if_pos htwo, if_pos htwo'] at hhash
    exact mergedText_injective (hfree hhash)

namespace Sample

theorem zeros_valid :
    hashValid "0000000000000000000000000000000000000000000000000000000000000000" = true := by decide

def noHash (_ : String) : Hash :=
  ⟨"0000000000000000000000000000000000000000000000000000000000000000", zeros_valid⟩

def callProv : Provenance := ⟨.deterministic, .confirmed, [⟨"o/r", "a.ts", 0, 4, "c1"⟩], "ts", "h"⟩

/-- A call that was counted short before. -/
def call : Edge Json :=
  ⟨"a", "b", "CALLS", .obj [("prov", callProv.toJson), ("evidence_omitted", .nat 5)]⟩

/-- Another extractor found the call too. -/
def elsewhere : Edge Json :=
  ⟨"a", "b", "CALLS", .obj [("prov", { callProv with extractorId := "py" }.toJson)]⟩

/-- The call at another place, under the hash it had. -/
def movedProv : Provenance := { callProv with evidence := [⟨"o/r", "a.ts", 9, 13, "c1"⟩] }

def moved : Edge Json := ⟨"a", "b", "CALLS", .obj [("prov", movedProv.toJson)]⟩

theorem ones_valid :
    hashValid "1111111111111111111111111111111111111111111111111111111111111111" = true := by decide

/-- One text has a hash of its own. -/
def tells (text text' : String) : Hash :=
  if text' = text then
    ⟨"1111111111111111111111111111111111111111111111111111111111111111", ones_valid⟩
  else noHash text'

end Sample

theorem stale_count_kept :
    ∃ merged, (mergeEdgeOccurrences Sample.noHash [Sample.call, Sample.call]).find? Sample.call.key
        = some merged
      ∧ member? "evidence_omitted" merged.props = some (.nat 5)
      ∧ (distinctEvidence (Occurrences.united ⟨[Sample.call], Sample.call⟩
          Sample.callProv)).length = 1 := by
  have hprov : edgeProv Sample.call = some Sample.callProv := by rfl
  have hall : Occurrences.all ⟨[Sample.call], Sample.call⟩
      = [Sample.call, Sample.call].filter (·.key = Sample.call.key) := by
    simp [Occurrences.all]
  have hone : (distinctEvidence (Occurrences.united ⟨[Sample.call], Sample.call⟩
      Sample.callProv)).length = 1 := by decide
  have hunites : Unites Sample.noHash ⟨[Sample.call], Sample.call⟩ Sample.callProv
      (mergeEdgeGroup Sample.noHash ⟨[Sample.call], Sample.call⟩) := unites (by simp) hprov
  refine ⟨_, find?_mergeEdgeOccurrences.mpr ⟨_, hall, rfl⟩, ?_, hone⟩
  rw [hunites.nothingOmitted (by rw [hone, MAX_MERGED_EDGE_EVIDENCE]; omega)]
  rfl

theorem lone_hash_kept (contentHash : String → Hash) :
    edgeProv (mergeEdgeGroup contentHash ⟨[Sample.elsewhere], Sample.call⟩)
        = some Sample.callProv
      ∧ edgeProv (mergeEdgeGroup contentHash ⟨[Sample.elsewhere], Sample.moved⟩)
        = some Sample.movedProv := by
  have hcall : edgeProv Sample.call = some Sample.callProv := by rfl
  have hmoved : edgeProv Sample.moved = some Sample.movedProv := by rfl
  rw [edgeProv_merged (by simp) hcall, edgeProv_merged (by simp) hmoved]
  exact ⟨by rfl, by rfl⟩

/-- Not every merge counts what it leaves out, and not every two merges of two occurrences
differ in their hashes when they differ in their spans. -/
theorem merged_relations_fail :
    (¬∀ (contentHash : String → Hash) (edges : List (Edge Json)) (k : EdgeKey) (g : Occurrences)
        (prov : Provenance) (merged : Edge Json), g.all = edges.filter (·.key = k) →
      edgeProv g.last = some prov → 1 < (g.united prov).length →
      (mergeEdgeOccurrences contentHash edges).find? k = some merged →
      (member? "evidence_omitted" merged.props).getD (.nat 0)
        = .nat ((distinctEvidence (g.united prov)).length - MAX_MERGED_EDGE_EVIDENCE))
    ∧ ¬∀ (contentHash : String → Hash) (g g' : Occurrences) (prov prov' : Provenance),
      g.earlier ≠ [] → g'.earlier ≠ [] → edgeProv g.last = some prov →
      edgeProv g'.last = some prov' →
      CollisionFree (fun text => (contentHash text).text) (mergedText (g.united prov))
        (mergedText (g'.united prov')) →
      (edgeProv (mergeEdgeGroup contentHash g)).map Provenance.contentHash
        = (edgeProv (mergeEdgeGroup contentHash g')).map Provenance.contentHash →
      distinctEvidence (g.united prov) = distinctEvidence (g'.united prov') := by
  constructor
  · intro hclaim
    obtain ⟨merged, hmerged, hkept, hone⟩ := stale_count_kept
    have hall : Occurrences.all ⟨[Sample.call], Sample.call⟩
        = [Sample.call, Sample.call].filter (·.key = Sample.call.key) := by
      simp [Occurrences.all]
    have hcount := hclaim Sample.noHash [Sample.call, Sample.call] Sample.call.key
      ⟨[Sample.call], Sample.call⟩ Sample.callProv merged hall (by rfl) (by decide) hmerged
    rw [hone, hkept] at hcount
    -- five is not the number of the spans left out
    exact absurd (Json.nat_injective hcount) (by decide)
  · intro hclaim
    set united := Occurrences.united ⟨[Sample.elsewhere], Sample.call⟩ Sample.callProv with hunited
    obtain ⟨hcall, hmoved⟩ := lone_hash_kept (Sample.tells (mergedText united))
    have hfree : ∀ text, CollisionFree
        (fun text' => (Sample.tells (mergedText united) text').text) (mergedText united) text := by
      intro text hsame
      by_contra hne
      simp [Sample.tells, Ne.symm hne, Sample.noHash] at hsame
    have hspans := hclaim (Sample.tells (mergedText united)) ⟨[Sample.elsewhere], Sample.call⟩
      ⟨[Sample.elsewhere], Sample.moved⟩ Sample.callProv Sample.movedProv (by simp) (by simp)
      (by rfl) (by rfl) (hfree _) (by rw [hcall, hmoved]; rfl)
    exact absurd hspans (by decide)

end Ingest

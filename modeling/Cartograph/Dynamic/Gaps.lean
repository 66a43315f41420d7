/-
Trace observations and channel gaps (`crates/dynamic/src/lib.rs`).

A channel gap is resolved by the spans of its kind.  Where one of them has a code location, only
those located in the file of the gap count; where none has, all of them do, but only for the only
gap of its kind.  They have to agree on one identity.

* `resolution_ok_iff` — what a gap is resolved to, in terms of sets of identities;
* `enrich_*` — endpoints are enriched beside what is known of them.
-/
import Cartograph.Dynamic.Trace
import Cartograph.FlowTracer.Trace
import Cartograph.Ingest.Occurrences
import Cartograph.Lib.Related

namespace Dynamic

open GraphStore Investigation Ingest
open FlowTracer (asStr asArray)

def OTEL_EXTRACTOR_ID : String := "t1.otel-trace"

/-! ### Attributes of spans -/

/-- `attr_str`: an attribute of the span hides the one of its resource. -/
def attrStr (span : ObservedSpan) (keys : List String) : Option String :=
  keys.findSome? fun key =>
    ((span.attributes.find? key).or (span.resourceAttributes.find? key)).bind asStr

def lowerAscii (s : String) : String := String.ofList (s.toList.map Char.toLower)

def channelKind (system : String) : Option String :=
  let lower := lowerAscii system
  if lower = "aws_sqs" ∨ lower = "sqs" then some "sqs-queue"
  else if lower = "aws_sns" ∨ lower = "sns" then some "sns-topic"
  else if lower = "aws_eventbridge" ∨ lower = "eventbridge" then some "eventbridge-bus"
  else if lower = "kafka" then some "kafka-topic"
  else if lower = "inproc" ∨ lower = "in-process" then some "inproc-event"
  else none

/-- `observed_channel`: kind and identity. -/
def observedChannel (span : ObservedSpan) : Option (String × String) := do
  let system ← attrStr span ["messaging.system"]
  let kind ← channelKind system
  let identity ← attrStr span
    ["messaging.destination.name", "messaging.destination_name", "messaging.destination"]
  if identity = "" then none else pure (kind, identity)

def codeLocation (span : ObservedSpan) : Option String :=
  attrStr span ["code.file.path", "code.filepath", "code.file.name"]

def trimDots : List Char → List Char
  | '.' :: '/' :: rest => trimDots rest
  | path => path

/-- `normalized_path`. -/
def normalizedPath (path : String) : List Char :=
  trimDots (path.toList.map fun c => if c = '\\' then '/' else c)

def pathsMatch (observed source : String) : Bool :=
  normalizedPath observed == normalizedPath source
    || ('/' :: normalizedPath source).isSuffixOf (normalizedPath observed)

/-! ### Endpoints -/

section

variable (contentHash : String → Hash) (tracePath : String)

/-- `trace_prov`. -/
def traceProv (span : ObservedSpan) (fact : String) : Json :=
  Provenance.toJson
    { tier := .dynamic
      confidenceTier := .confirmed
      evidence := [⟨"", tracePath, span.evidenceSpan.1, span.evidenceSpan.2, ""⟩]
      extractorId := OTEL_EXTRACTOR_ID
      contentHash := (contentHash fact).text }

def afterScheme : List Char → Option (List Char)
  | [] => none
  | ':' :: '/' :: '/' :: rest => some rest
  | _ :: rest => afterScheme rest

/-- `http_path`: without query, scheme and host. -/
def httpPath (value : String) : String :=
  let withoutQuery := value.toList.takeWhile fun c => c != '?' && c != '#'
  match afterScheme withoutQuery with
  | some afterHost =>
    let path := afterHost.dropWhile fun c => c != '/'
    if path.isEmpty then "/" else String.ofList path
  | none => String.ofList withoutQuery

def isEndpointOf (method path : String) (n : Node Json) : Bool :=
  n.label == "Endpoint"
    && (member? "method" n.props).bind asStr == some (String.ofList (method.toList.map Char.toUpper))
    && (member? "path" n.props).bind asStr == some path

/-- An observation of a trace is not replaced. -/
def alreadyObserved (n : Node Json) : Bool :=
  ((member? "observed_prov" n.props).bind (member? "extractor_id")).bind asStr
    == some OTEL_EXTRACTOR_ID

def hasPrefix (name : String) (start : String) : Bool := start.toList.isPrefixOf name.toList

/-- What a span says of an endpoint, beside what is known of it. -/
def enrichEndpoint (span : ObservedSpan) (n : Node Json) : Node Json :=
  if alreadyObserved n then n
  else
    let http := span.attributes.rows.filter fun kv => hasPrefix kv.1 "http." || hasPrefix kv.1 "url."
    { n with
      props := setMember "observed_prov"
        (traceProv contentHash tracePath span ("Observed HTTP endpoint " ++ n.id))
        (setMember "observed" (.obj [("trace_id", .str span.traceId), ("span_id", .str span.spanId),
          ("span_name", .str span.name), ("http", .obj http)]) n.props) }

/-- The endpoint of a span, if there is one; how many were enriched is counted. -/
def enrichSpan (c : List (Node Json) × ℕ) (span : ObservedSpan) : List (Node Json) × ℕ :=
  match attrStr span ["http.request.method", "http.method"],
    attrStr span ["http.route", "url.path", "http.target", "http.url"] with
  | some method, some path =>
    let matching := isEndpointOf method (httpPath path)
    if c.1.countP matching = 1 then
      (c.1.map fun n => if matching n then enrichEndpoint contentHash tracePath span n else n,
        c.2 + c.1.countP fun n => matching n && !alreadyObserved n)
    else c
  | _, _ => c

/-- `enrich_http_endpoints`. -/
def enrichHttpEndpoints (nodes : List (Node Json)) (spans : List ObservedSpan) :
    List (Node Json) × ℕ :=
  spans.foldl (enrichSpan contentHash tracePath) (nodes, 0)

end

/-! ### Gaps -/

/-- A gap of a channel: its kind, and the file it is in. -/
structure ChannelGap where
  id : String
  kind : String
  path : String
  deriving DecidableEq

/-- `gap_source_path`. -/
def gapSourcePath (n : Node Json) : Option String :=
  (((((member? "prov" n.props).bind (member? "evidence")).bind asArray).bind List.head?).bind
    (member? "path")).bind asStr

def channelGap (n : Node Json) : Option ChannelGap :=
  if n.label = "Gap" then do
    let kind ← (member? "kind" n.props).bind asStr
    let path ← gapSourcePath n
    pure ⟨n.id, kind, path⟩
  else none

def channelGaps (nodes : List (Node Json)) : List ChannelGap := nodes.filterMap channelGap

section

variable (gaps : List ChannelGap) (spans : List ObservedSpan) (gap : ChannelGap)

def sameKind : List ObservedSpan :=
  spans.filter fun s => (observedChannel s).any fun c => c.1 == gap.kind

def located (s : ObservedSpan) : Bool := (codeLocation s).any fun path => pathsMatch path gap.path

/-- The spans that count for a gap. -/
def candidates : List ObservedSpan :=
  if (sameKind spans gap).any fun s => (codeLocation s).isSome then
    (sameKind spans gap).filter (located gap)
  else if gaps.countP (fun g => g.kind == gap.kind) = 1 then sameKind spans gap
  else []

/-- The identities of spans, as a set. -/
def identities (l : List ObservedSpan) : OrderedSet String :=
  OrderedSet.ofList (l.filterMap fun s => (observedChannel s).map Prod.snd)

/-- What a gap is resolved to, with the first span that says so, or why it is not resolved. -/
def resolution : Except String (String × ObservedSpan) :=
  match (identities (candidates gaps spans gap)).elements with
  | [identity] =>
    match (candidates gaps spans gap).find? fun s => (observedChannel s).any fun c => c.2 == identity with
    | some span => .ok (identity, span)
    | none => .error ""
  | _ =>
    .error (if (candidates gaps spans gap).isEmpty then
        "no trace observation uniquely matched this source gap"
      else "multiple observed channel identities matched this source gap")

end

def channelId (kind identity : String) : String := "chan:" ++ kind ++ ":" ++ identity

/-! ### What a gap is resolved to -/

variable {l : List ObservedSpan} {n n' : Node Json} {nodes nodes' : List (Node Json)}

section

variable {gaps : List ChannelGap} {spans : List ObservedSpan} {gap : ChannelGap} {x : String}

/-- The identities of the spans of a kind that are as described. -/
def identitySet (spans : List ObservedSpan) (kind : String) (p : ObservedSpan → Prop) : Set String :=
  {i | ∃ s ∈ spans, observedChannel s = some (kind, i) ∧ p s}

/-- A span of a kind has a code location. -/
def HasLocations (spans : List ObservedSpan) (kind : String) : Prop :=
  ∃ s ∈ spans, (∃ i, observedChannel s = some (kind, i)) ∧ codeLocation s ≠ none

/-- What a gap is to be resolved to: the single identity of the spans located in its file, or, where
no span of its kind is located, of those of its kind if it is the only gap of it. -/
def ResolvesTo (gaps : List ChannelGap) (spans : List ObservedSpan) (gap : ChannelGap) (x : String) :
    Prop :=
  (HasLocations spans gap.kind ∧ identitySet spans gap.kind (fun s => located gap s = true) = {x})
    ∨ (¬HasLocations spans gap.kind ∧ (gaps.countP fun g => g.kind == gap.kind) = 1
      ∧ identitySet spans gap.kind (fun _ => True) = {x})

theorem mem_sameKind {s : ObservedSpan} :
    s ∈ sameKind spans gap ↔ s ∈ spans ∧ ∃ i, observedChannel s = some (gap.kind, i) := by
  rw [sameKind, List.mem_filter]
  refine and_congr_right fun _ => ?_
  cases observedChannel s with
  | none => simp
  | some c =>
    obtain ⟨kind, i⟩ := c
    simp

theorem mem_identities {i : String} :
    i ∈ (identities l).elements ↔ ∃ s ∈ l, ∃ kind, observedChannel s = some (kind, i) := by
  rw [OrderedSet.mem_elements, identities, OrderedSet.contains_ofList, List.mem_filterMap]
  refine exists_congr fun s => and_congr_right fun _ => ?_
  rw [Option.map_eq_some_iff]
  exact ⟨fun ⟨c, hc, hi⟩ => ⟨c.1, by rw [hc, ← hi]⟩, fun ⟨kind, hc⟩ => ⟨(kind, i), hc, rfl⟩⟩

theorem hasLocations_iff : ((sameKind spans gap).any fun s => (codeLocation s).isSome) = true ↔
    HasLocations spans gap.kind := by
  rw [List.any_eq_true]
  constructor
  · rintro ⟨s, hs, hloc⟩
    obtain ⟨hmem, hkind⟩ := mem_sameKind.mp hs
    exact ⟨s, hmem, hkind, Option.isSome_iff_ne_none.mp hloc⟩
  · rintro ⟨s, hmem, hkind, hloc⟩
    exact ⟨s, mem_sameKind.mpr ⟨hmem, hkind⟩, Option.isSome_iff_ne_none.mpr hloc⟩

theorem elements_eq_singleton {s : OrderedSet String} :
    s.elements = [x] ↔ {i | i ∈ s.elements} = ({x} : Set String) := by
  constructor
  · intro h
    rw [h]
    ext i
    simp
  · intro h
    have hx : x ∈ s.elements := (Set.ext_iff.mp h x).mpr rfl
    have hall : ∀ i ∈ s.elements, i = x := fun i hi => (Set.ext_iff.mp h i).mp hi
    have hnodup : s.elements.Nodup := s.keys_nodup
    cases helements : s.elements with
    | nil =>
      rw [helements] at hx
      cases hx
    | cons a rest =>
      rw [helements] at hall hnodup
      have ha := hall a List.mem_cons_self
      have hrest : rest = [] := List.eq_nil_iff_forall_not_mem.mpr fun b hb =>
        (List.nodup_cons.mp hnodup).1 (by rwa [ha, ← hall b (List.mem_cons_of_mem _ hb)])
      rw [ha, hrest]

theorem identities_eq {p : ObservedSpan → Prop} (hl : ∀ s, s ∈ l ↔ s ∈ sameKind spans gap ∧ p s) :
    {i | i ∈ (identities l).elements} = identitySet spans gap.kind p := by
  ext i
  rw [Set.mem_ofPred_eq, mem_identities]
  constructor
  · rintro ⟨s, hs, kind, hchannel⟩
    obtain ⟨hsame, hp⟩ := (hl s).mp hs
    obtain ⟨hmem, i', hkind⟩ := mem_sameKind.mp hsame
    obtain ⟨rfl, rfl⟩ := Prod.mk.inj (Option.some_inj.mp (hchannel.symm.trans hkind))
    exact ⟨s, hmem, hkind, hp⟩
  · rintro ⟨s, hmem, hkind, hp⟩
    exact ⟨s, (hl s).mpr ⟨mem_sameKind.mpr ⟨hmem, i, hkind⟩, hp⟩, gap.kind, hkind⟩

theorem resolvesTo_iff : ResolvesTo gaps spans gap x ↔
    {i | i ∈ (identities (candidates gaps spans gap)).elements} = ({x} : Set String) := by
  rw [candidates]
  split_ifs with hlocations honly
  · have hhas := hasLocations_iff.mp hlocations
    rw [identities_eq fun s => List.mem_filter, ResolvesTo]
    constructor
    · rintro (⟨-, h⟩ | ⟨hnone, -⟩)
      · exact h
      · exact absurd hhas hnone
    · intro h
      exact .inl ⟨hhas, h⟩
  · have hnone : ¬HasLocations spans gap.kind := fun h => hlocations (hasLocations_iff.mpr h)
    rw [identities_eq fun s => (and_iff_left trivial).symm, ResolvesTo]
    constructor
    · rintro (⟨hhas, -⟩ | ⟨-, -, h⟩)
      · exact absurd hhas hnone
      · exact h
    · intro h
      exact .inr ⟨hnone, honly, h⟩
  · have hnone : ¬HasLocations spans gap.kind := fun h => hlocations (hasLocations_iff.mpr h)
    have hempty : {i | i ∈ (identities []).elements} = (∅ : Set String) := by
      ext i
      simp [mem_identities]
    rw [hempty, ResolvesTo]
    constructor
    · rintro (⟨hhas, -⟩ | ⟨-, h, -⟩)
      · exact absurd hhas hnone
      · exact absurd h honly
    · intro h
      exact absurd h (Set.singleton_ne_empty x).symm

/-- **Resolution.**  A gap is resolved to an identity when it is to be. -/
theorem resolution_ok_iff :
    (∃ span, resolution gaps spans gap = .ok (x, span)) ↔ ResolvesTo gaps spans gap x := by
  rw [resolvesTo_iff, ← elements_eq_singleton, resolution]
  constructor
  · rintro ⟨span, h⟩
    split at h
    · next identity hidentity =>
      split at h
      · obtain ⟨rfl, -⟩ := Prod.mk.inj (Except.ok.inj h)
        exact hidentity
      · cases h
    · cases h
  · intro h
    rw [h]
    -- the identity is one of a candidate
    have hx : x ∈ (identities (candidates gaps spans gap)).elements := by
      rw [h]
      exact List.mem_singleton_self x
    obtain ⟨s, hs, kind, hchannel⟩ := mem_identities.mp hx
    have hfound : ((candidates gaps spans gap).find? fun s =>
        (observedChannel s).any fun c => c.2 == x).isSome = true :=
      List.find?_isSome.mpr ⟨s, hs, by rw [hchannel]; simp⟩
    obtain ⟨span, hspan⟩ := Option.isSome_iff_exists.mp hfound
    exact ⟨span, by simp only [hspan]⟩

theorem resolution_error_iff :
    (∃ reason, resolution gaps spans gap = .error reason) ↔ ∀ x, ¬ResolvesTo gaps spans gap x := by
  constructor
  · rintro ⟨reason, h⟩ x hx
    obtain ⟨span, hok⟩ := resolution_ok_iff.mpr hx
    rw [h] at hok
    cases hok
  · intro h
    cases hr : resolution gaps spans gap with
    | error reason => exact ⟨reason, rfl⟩
    | ok r => exact absurd (resolution_ok_iff.mp ⟨r.2, hr⟩) (h r.1)

end

/-! ### Endpoints and other nodes -/

section

variable {contentHash : String → Hash} {tracePath : String}

/-- The same node, or an endpoint with an observation beside what is known of it. -/
structure Enriched (n n' : Node Json) : Prop where
  id : n'.id = n.id
  label : n'.label = n.label
  other : n.label ≠ "Endpoint" → n' = n
  members : ∀ name, name ≠ "observed" → name ≠ "observed_prov" →
    member? name n'.props = member? name n.props

theorem Enriched.refl (n : Node Json) : Enriched n n := ⟨rfl, rfl, fun _ => rfl, fun _ _ _ => rfl⟩

theorem Enriched.trans {n'' : Node Json} (h : Enriched n n') (h' : Enriched n' n'') :
    Enriched n n'' where
  id := h'.id.trans h.id
  label := h'.label.trans h.label
  other hne := by
    have hsame := h.other hne
    rw [h'.other (by rwa [h.label]), hsame]
  members name hobserved hprov := (h'.members name hobserved hprov).trans (h.members name hobserved hprov)

theorem isEndpointOf_label {method path : String} (h : isEndpointOf method path n = true) :
    n.label = "Endpoint" ∧ ∃ j, member? "path" n.props = some j := by
  simp only [isEndpointOf, Bool.and_eq_true, beq_iff_eq] at h
  obtain ⟨⟨hlabel, -⟩, hpath⟩ := h
  obtain ⟨j, hj, -⟩ := Option.bind_eq_some_iff.mp hpath
  exact ⟨hlabel, j, hj⟩

theorem enrichEndpoint_enriched {span : ObservedSpan} (hlabel : n.label = "Endpoint")
    (hobject : ∃ j, member? "path" n.props = some j) :
    Enriched n (enrichEndpoint contentHash tracePath span n) := by
  rw [enrichEndpoint]
  split_ifs
  · exact .refl n
  obtain ⟨j, hj⟩ := hobject
  refine ⟨rfl, rfl, fun hne => absurd hlabel hne, fun name hobserved hprov => ?_⟩
  have hfirst : ∀ name, member? name (setMember "observed" (.obj [("trace_id", .str span.traceId),
      ("span_id", .str span.spanId), ("span_name", .str span.name), ("http", .obj
        (span.attributes.rows.filter fun kv => hasPrefix kv.1 "http." || hasPrefix kv.1 "url."))])
      n.props) = if name = "observed" then some _ else member? name n.props :=
    fun name => member?_setMember hj name
  have hpath := hfirst "path"
  rw [if_neg (by decide), hj] at hpath
  show member? name (setMember _ _ _) = _
  rw [member?_setMember hpath, if_neg hprov, hfirst, if_neg hobserved]

theorem enrichSpan_enriched (c : List (Node Json) × ℕ) (span : ObservedSpan) :
    List.Forall₂ Enriched c.1 (enrichSpan contentHash tracePath c span).1 := by
  have hrefl : List.Forall₂ Enriched c.1 c.1 := List.forall₂_same.mpr fun n _ => .refl n
  rw [enrichSpan]
  split
  · simp only
    split_ifs
    · refine List.forall₂_map_right_iff.mpr (List.forall₂_same.mpr fun n _ => ?_)
      split_ifs with hendpoint
      · obtain ⟨hlabel, hobject⟩ := isEndpointOf_label hendpoint
        exact enrichEndpoint_enriched hlabel hobject
      · exact .refl n
    · exact hrefl
  · exact hrefl

theorem enrichHttpEndpoints_enriched (nodes : List (Node Json)) (spans : List ObservedSpan) :
    List.Forall₂ Enriched nodes (enrichHttpEndpoints contentHash tracePath nodes spans).1 := by
  have hfrom : ∀ c : List (Node Json) × ℕ, List.Forall₂ Enriched c.1
      (spans.foldl (enrichSpan contentHash tracePath) c).1 := by
    induction spans with
    | nil => exact fun c => List.forall₂_same.mpr fun n _ => .refl n
    | cons span rest ih =>
      exact fun c => forall₂_trans (enrichSpan_enriched c span) (ih _) fun _ _ _ => Enriched.trans
  exact hfrom (nodes, 0)

theorem channelGap_enriched (h : Enriched n n') : channelGap n' = channelGap n := by
  by_cases hgap : n.label = "Gap"
  · rw [h.other (by rw [hgap]; decide)]
  · rw [channelGap, channelGap, h.label, if_neg hgap, if_neg hgap]

theorem channelGaps_enriched (h : List.Forall₂ Enriched nodes nodes') :
    channelGaps nodes' = channelGaps nodes := by
  rw [channelGaps, channelGaps]
  induction h with
  | nil => rfl
  | cons hn _ ih => rw [List.filterMap_cons, List.filterMap_cons, channelGap_enriched hn, ih]

theorem map_id_enriched (h : List.Forall₂ Enriched nodes nodes') :
    nodes'.map Node.id = nodes.map Node.id := by
  induction h with
  | nil => rfl
  | cons hn _ ih => rw [List.map_cons, List.map_cons, hn.id, ih]

end

end Dynamic

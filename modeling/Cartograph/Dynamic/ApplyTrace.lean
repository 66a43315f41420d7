/-
Trace observations applied to a graph (`crates/dynamic/src/lib.rs`).

`apply_trace` goes over the channel gaps.  The edges into a gap that is resolved go to the observed
channel, and the gap is removed at the end; a gap that is not keeps its place and says why.

* `Progress` — what is done after some of the gaps, `progress_applyGap` for one more;
* `apply_trace_exact` — the graph after all of them.
-/
import Cartograph.Dynamic.Gaps

namespace Dynamic

open GraphStore Investigation Ingest

structure TraceEnrichment where
  channelGapsResolved : ℕ
  endpointsEnriched : ℕ
  channelGapsUnresolved : ℕ
  deriving DecidableEq

structure TraceRun where
  nodes : List (Node Json)
  edges : List (Edge Json)
  resolved : OrderedSet String
  channels : Table String (Node Json)
  report : TraceEnrichment

/-- The first element that satisfies a predicate is changed. -/
def modifyFirst {α : Type} (p : α → Bool) (f : α → α) : List α → List α
  | [] => []
  | a :: rest => if p a then f a :: rest else a :: modifyFirst p f rest

/-- An attempt of the dynamic tier is recorded. -/
def markAttempted (reason : String) (n : Node Json) : Node Json :=
  { n with
    props := setMember "t1_reason" (.str reason)
      (setMember "attempted_tiers" (.arr [.str "T0", .str "T1"]) n.props) }

section

variable (contentHash : String → Hash) (tracePath : String)

def channelNode (kind identity : String) (span : ObservedSpan) : Node Json where
  id := channelId kind identity
  label := "Channel"
  props := .obj [("kind", .str kind), ("identity", .str identity),
    ("observed", .obj [("trace_id", .str span.traceId), ("span_id", .str span.spanId),
      ("span_name", .str span.name)]),
    ("prov", traceProv contentHash tracePath span ("Observed Channel " ++ channelId kind identity))]

/-- An edge into a gap goes to the channel instead. -/
def retarget (gapId channel : String) (span : ObservedSpan) (e : Edge Json) : Edge Json :=
  if e.dst = gapId then
    { e with
      dst := channel
      props := .obj [("resolver", .str OTEL_EXTRACTOR_ID),
        ("prov", traceProv contentHash tracePath span (e.label ++ " " ++ e.src ++ " -> " ++ channel))] }
  else e

variable (gaps : List ChannelGap) (spans : List ObservedSpan)

/-- One turn of the loop over the gaps. -/
def applyGap (run : TraceRun) (gap : ChannelGap) : TraceRun :=
  match resolution gaps spans gap with
  | .error reason =>
    { run with
      nodes := modifyFirst (fun n => n.id == gap.id) (markAttempted reason) run.nodes
      report := { run.report with channelGapsUnresolved := run.report.channelGapsUnresolved + 1 } }
  | .ok (identity, span) =>
    let channel := channelId gap.kind identity
    { run with
      edges := run.edges.map (retarget contentHash tracePath gap.id channel span)
      resolved := OrderedSet.insert run.resolved gap.id
      channels :=
        if (run.nodes.any fun n => n.id == channel) || (run.channels.find? channel).isSome then
          run.channels
        else run.channels.put channel (channelNode contentHash tracePath gap.kind identity span)
      report := { run.report with channelGapsResolved := run.report.channelGapsResolved + 1 } }

end

/-- `apply_trace`. -/
def applyTrace (contentHash : String → Hash) (tracePath : String) (nodes : List (Node Json))
    (edges : List (Edge Json)) (spans : List ObservedSpan) :
    List (Node Json) × List (Edge Json) × TraceEnrichment :=
  let enriched := enrichHttpEndpoints contentHash tracePath nodes spans
  let gaps := channelGaps enriched.1
  let run := gaps.foldl (applyGap contentHash tracePath gaps spans)
    ⟨enriched.1, edges, Table.empty, Table.empty, ⟨0, enriched.2, 0⟩⟩
  ((run.nodes.filter fun n => !run.resolved.contains n.id) ++ run.channels.rows.map Prod.snd,
    run.edges, run.report)

/-! ### One gap -/

theorem modifyFirst_eq_map {α : Type} {p : α → Bool} {f : α → α} {l : List α}
    (h : l.countP p ≤ 1) : modifyFirst p f l = l.map fun a => if p a then f a else a := by
  induction l with
  | nil => rfl
  | cons a rest ih =>
    rw [modifyFirst, List.map_cons]
    split_ifs with hp
    · rw [List.countP_cons_of_pos hp] at h
      have hnone : ∀ b ∈ rest, ¬p b = true := List.countP_eq_zero.mp (by omega)
      rw [List.map_congr_left fun b hb => if_neg (hnone b hb), List.map_id']
    · rw [List.countP_cons_of_neg hp] at h
      rw [ih h]

section

variable (contentHash : String → Hash) (tracePath : String) (gaps : List ChannelGap)
  (spans : List ObservedSpan)

/-- A node after the gaps of a list: marked if it is one of them that is not resolved. -/
def marked (done : List ChannelGap) (n : Node Json) : Node Json :=
  match done.find? fun g => g.id == n.id with
  | some g =>
    match resolution gaps spans g with
    | .error reason => markAttempted reason n
    | .ok _ => n
  | none => n

/-- An edge after the gaps of a list: retargeted if it leads into one of them that is resolved. -/
def retargeted (done : List ChannelGap) (e : Edge Json) : Edge Json :=
  match done.find? fun g => g.id == e.dst with
  | some g =>
    match resolution gaps spans g with
    | .error _ => e
    | .ok (identity, span) =>
      retarget contentHash tracePath g.id (channelId g.kind identity) span e
  | none => e

/-- Whether an id is that of a gap of a list that is resolved. -/
def IsResolved (done : List ChannelGap) (id : String) : Prop :=
  ∃ g ∈ done, g.id = id ∧ ∃ x, ResolvesTo gaps spans g x

/-- What is done after the gaps of a list. -/
structure Progress (nodes : List (Node Json)) (edges : List (Edge Json)) (done : List ChannelGap)
    (run : TraceRun) : Prop where
  marks : run.nodes = nodes.map (marked gaps spans done)
  targets : run.edges = edges.map (retargeted contentHash tracePath gaps spans done)
  resolved : ∀ id, run.resolved.contains id = true ↔ IsResolved gaps spans done id
  known : ∀ g ∈ done, ∀ x, ResolvesTo gaps spans g x →
    channelId g.kind x ∈ nodes.map Node.id ∨ (run.channels.find? (channelId g.kind x)).isSome = true
  observed : ∀ id channel, run.channels.find? id = some channel →
    channel.id = id ∧ channel.label = "Channel" ∧ id ∉ nodes.map Node.id
      ∧ ∃ g ∈ done, ∃ x, ResolvesTo gaps spans g x ∧ id = channelId g.kind x

end

variable {id : String} {g : ChannelGap} {n : Node Json}

section

variable {contentHash : String → Hash} {tracePath : String} {gaps : List ChannelGap}
  {spans : List ObservedSpan} {nodes : List (Node Json)} {edges : List (Edge Json)}
  {done : List ChannelGap} {gap : ChannelGap} {run : TraceRun}

theorem marked_id (n : Node Json) : (marked gaps spans done n).id = n.id := by
  rw [marked]
  split
  · split <;> rfl
  · rfl

theorem map_id_marked : (nodes.map (marked gaps spans done)).map Node.id = nodes.map Node.id := by
  rw [List.map_map]
  exact List.map_congr_left fun n _ => marked_id n

theorem find?_append_singleton (id : String) : (done ++ [gap]).find? (fun g => g.id == id)
    = (done.find? fun g => g.id == id).or (if gap.id = id then some gap else none) := by
  rw [List.find?_append, List.find?_singleton]
  by_cases h : gap.id = id
  · rw [if_pos h, if_pos (beq_iff_eq.mpr h)]
  · rw [if_neg h, if_neg (by simpa using h)]

theorem find?_fresh (hfresh : gap.id ∉ done.map ChannelGap.id) (hid : gap.id = id) :
    done.find? (fun g => g.id == id) = none := by
  rw [List.find?_eq_none]
  intro g hg hsame
  rw [← hid] at hsame
  exact hfresh (List.mem_map.mpr ⟨g, hg, by simpa using hsame⟩)

theorem marked_append (hfresh : gap.id ∉ done.map ChannelGap.id) (n : Node Json) :
    marked gaps spans (done ++ [gap]) n
      = match resolution gaps spans gap with
        | .error reason =>
          if n.id = gap.id then markAttempted reason (marked gaps spans done n)
          else marked gaps spans done n
        | .ok _ => marked gaps spans done n := by
  rw [marked, find?_append_singleton, marked]
  by_cases hid : gap.id = n.id
  · rw [find?_fresh hfresh hid, if_pos hid, Option.none_or]
    simp only [hid]
    cases resolution gaps spans gap <;> simp
  · rw [if_neg hid, Option.or_none]
    cases resolution gaps spans gap with
    | error reason => simp only [if_neg (Ne.symm hid)]
    | ok r => rfl

/-- The channels of the gaps are no gaps of the graph. -/
def NoChannels (gaps : List ChannelGap) : Prop :=
  ∀ g ∈ gaps, ∀ kind identity, g.id ≠ channelId kind identity

theorem retarget_dst (gapId channel : String) (span : ObservedSpan) (e : Edge Json) :
    (retarget contentHash tracePath gapId channel span e).dst
      = if e.dst = gapId then channel else e.dst := by
  rw [retarget]
  split_ifs <;> rfl

theorem retargeted_append (hfresh : gap.id ∉ done.map ChannelGap.id)
    (hchannel : ∀ kind identity, gap.id ≠ channelId kind identity) (e : Edge Json) :
    retargeted contentHash tracePath gaps spans (done ++ [gap]) e
      = match resolution gaps spans gap with
        | .error _ => retargeted contentHash tracePath gaps spans done e
        | .ok (identity, span) =>
          retarget contentHash tracePath gap.id (channelId gap.kind identity) span
            (retargeted contentHash tracePath gaps spans done e) := by
  rw [retargeted, find?_append_singleton, retargeted]
  cases hfind : done.find? fun g => g.id == e.dst with
  | some g =>
    -- the edge led into an earlier gap, and does not lead into this one
    have hg : g.id = e.dst := by simpa using List.find?_some hfind
    have hne : e.dst ≠ gap.id := fun h =>
      hfresh (List.mem_map.mpr ⟨g, List.mem_of_find?_eq_some hfind, hg.trans h⟩)
    rw [Option.some_or]
    simp only
    cases hgap : resolution gaps spans gap with
    | error reason => rfl
    | ok r =>
      obtain ⟨identity, span⟩ := r
      cases resolution gaps spans g with
      | error reason => simp only [retarget, if_neg hne]
      | ok r =>
        simp only
        rw [eq_comm, retarget, if_neg]
        rw [retarget_dst, if_pos hg.symm]
        exact (hchannel _ _).symm
  | none =>
    rw [Option.none_or]
    by_cases hid : gap.id = e.dst
    · rw [if_pos hid]
    · rw [if_neg hid]
      cases resolution gaps spans gap with
      | error reason => rfl
      | ok r => simp only [retarget, if_neg (Ne.symm hid)]

theorem isResolved_append : IsResolved gaps spans (done ++ [gap]) id ↔
    IsResolved gaps spans done id ∨ (gap.id = id ∧ ∃ x, ResolvesTo gaps spans gap x) := by
  simp only [IsResolved, List.mem_append, List.mem_singleton, or_and_right, exists_or,
    exists_eq_left]

/-- **One turn.**  A gap of which no node but one has the id, and none of the gaps before it. -/
theorem progress_applyGap (h : Progress contentHash tracePath gaps spans nodes edges done run)
    (hfresh : gap.id ∉ done.map ChannelGap.id)
    (hchannel : ∀ kind identity, gap.id ≠ channelId kind identity)
    (hsingle : (nodes.countP fun n => n.id == gap.id) ≤ 1) :
    Progress contentHash tracePath gaps spans nodes edges (done ++ [gap])
      (applyGap contentHash tracePath gaps spans run gap) := by
  have hmarked : ∀ n, marked gaps spans (done ++ [gap]) n = _ := marked_append hfresh
  have htarget : ∀ e, retargeted contentHash tracePath gaps spans (done ++ [gap]) e = _ :=
    retargeted_append hfresh hchannel
  rw [applyGap]
  cases hgap : resolution gaps spans gap with
  | error reason =>
    have hnone := resolution_error_iff.mp ⟨reason, hgap⟩
    have hnot : ¬∃ x, ResolvesTo gaps spans gap x := fun ⟨x, hx⟩ => hnone x hx
    simp only [hgap] at hmarked htarget
    refine ⟨?_, ?_, ?_, ?_, ?_⟩
    · show modifyFirst _ _ run.nodes = _
      have hcount : (run.nodes.countP fun n => n.id == gap.id) ≤ 1 := by
        rw [h.marks, List.countP_map]
        refine le_trans (le_of_eq (List.countP_congr fun n _ => ?_)) hsingle
        rw [Function.comp_apply, marked_id]
      rw [modifyFirst_eq_map hcount, h.marks, List.map_map]
      refine List.map_congr_left fun n _ => ?_
      rw [hmarked, Function.comp_apply, marked_id]
      simp only [beq_iff_eq]
    · rw [List.map_congr_left fun e _ => htarget e]
      exact h.targets
    · intro id
      rw [isResolved_append, h.resolved id]
      exact ⟨.inl, fun hor => hor.resolve_right fun hthis => hnot hthis.2⟩
    · intro g hg x hx
      rcases List.mem_append.mp hg with hg | hg
      · exact h.known g hg x hx
      · rw [List.mem_singleton.mp hg] at hx
        exact absurd ⟨x, hx⟩ hnot
    · intro id channel hfind
      obtain ⟨hid, hlabel, hnew, g, hg, hresolved⟩ := h.observed id channel hfind
      exact ⟨hid, hlabel, hnew, g, List.mem_append_left _ hg, hresolved⟩
  | ok r =>
    obtain ⟨identity, span⟩ := r
    have hresolves : ResolvesTo gaps spans gap identity := resolution_ok_iff.mp ⟨span, hgap⟩
    have hunique : ∀ x, ResolvesTo gaps spans gap x → x = identity := by
      intro x hx
      obtain ⟨span', hok⟩ := resolution_ok_iff.mpr hx
      rw [hgap] at hok
      exact (Prod.mk.inj (Except.ok.inj hok)).1.symm
    have hids : (run.nodes.any fun n => n.id == channelId gap.kind identity) = true ↔
        channelId gap.kind identity ∈ nodes.map Node.id := by
      have hnodes : run.nodes.map Node.id = nodes.map Node.id := by rw [h.marks, map_id_marked]
      rw [← hnodes, List.any_eq_true, List.mem_map]
      simp only [beq_iff_eq]
    simp only [hgap] at hmarked htarget
    refine ⟨?_, ?_, ?_, ?_, ?_⟩
    · rw [List.map_congr_left fun n _ => hmarked n]
      exact h.marks
    · show run.edges.map _ = _
      rw [h.targets, List.map_map]
      exact List.map_congr_left fun e _ => (htarget e).symm
    · intro id
      rw [isResolved_append, OrderedSet.contains_insert, h.resolved id, or_comm]
      refine or_congr_right ?_
      exact ⟨fun heq => ⟨heq.symm, identity, hresolves⟩, fun hthis => hthis.1.symm⟩
    · intro g hg x hx
      simp only
      rcases List.mem_append.mp hg with hg | hg
      · rcases h.known g hg x hx with hold | hold
        · exact .inl hold
        · refine .inr ?_
          split_ifs
          · exact hold
          · rw [Table.find?_put]
            split_ifs
            · rfl
            · exact hold
      · rw [List.mem_singleton.mp hg] at hx ⊢
        rw [hunique x hx]
        split_ifs with hthere
        · rcases Bool.or_eq_true_iff.mp hthere with hold | hold
          · exact .inl (hids.mp hold)
          · exact .inr hold
        · refine .inr ?_
          rw [Table.find?_put, if_pos rfl]
          rfl
    · intro id channel hfind
      have hearlier : run.channels.find? id = some channel →
          channel.id = id ∧ channel.label = "Channel" ∧ id ∉ nodes.map Node.id
            ∧ ∃ g ∈ done ++ [gap], ∃ x, ResolvesTo gaps spans g x ∧ id = channelId g.kind x := by
        intro hfind
        obtain ⟨hid, hlabel, hnew, g, hg, hresolved⟩ := h.observed id channel hfind
        exact ⟨hid, hlabel, hnew, g, List.mem_append_left _ hg, hresolved⟩
      simp only at hfind
      split_ifs at hfind with hthere
      · exact hearlier hfind
      · rcases Table.find?_put_eq_some.mp hfind with ⟨rfl, rfl⟩ | ⟨-, hfind⟩
        · refine ⟨rfl, rfl, fun hmem => hthere ?_, gap,
            List.mem_append_right _ (List.mem_singleton_self gap), identity, hresolves, rfl⟩
          rw [hids.mpr hmem, Bool.true_or]
        · exact hearlier hfind

/-- **All turns.** -/
theorem progress_foldl {rest : List ChannelGap}
    (hnodup : ((done ++ rest).map ChannelGap.id).Nodup) (hchannels : NoChannels rest)
    (hsingle : ∀ g ∈ rest, (nodes.countP fun n => n.id == g.id) ≤ 1)
    (h : Progress contentHash tracePath gaps spans nodes edges done run) :
    Progress contentHash tracePath gaps spans nodes edges (done ++ rest)
      (rest.foldl (applyGap contentHash tracePath gaps spans) run) := by
  induction rest generalizing done run with
  | nil =>
    rw [List.append_nil]
    exact h
  | cons gap rest ih =>
    have hfresh : gap.id ∉ done.map ChannelGap.id := by
      rw [List.map_append, List.map_cons] at hnodup
      intro hmem
      exact (List.disjoint_of_nodup_append hnodup) hmem List.mem_cons_self
    rw [List.append_cons] at hnodup ⊢
    exact ih hnodup (fun g hg => hchannels g (List.mem_cons_of_mem _ hg))
      (fun g hg => hsingle g (List.mem_cons_of_mem _ hg))
      (progress_applyGap h hfresh (hchannels gap List.mem_cons_self)
        (hsingle gap List.mem_cons_self))

end

/-! ### The graph after the trace -/

section

variable {gaps : List ChannelGap} {spans : List ObservedSpan} {nodes : List (Node Json)}

theorem mem_channelGaps :
    g ∈ channelGaps nodes ↔ ∃ n ∈ nodes, channelGap n = some g := List.mem_filterMap

theorem channelGap_eq_some (h : channelGap n = some g) :
    n.label = "Gap" ∧ g.id = n.id := by
  rw [channelGap] at h
  split_ifs at h with hlabel
  obtain ⟨kind, -, h⟩ := Option.bind_eq_some_iff.mp h
  obtain ⟨path, -, h⟩ := Option.bind_eq_some_iff.mp h
  exact ⟨hlabel, by rw [← Option.some_inj.mp h]⟩

/-- A gap of each id, and no other node. -/
def SingleGaps (nodes : List (Node Json)) : Prop :=
  ∀ g ∈ channelGaps nodes, (nodes.countP fun n => n.id == g.id) ≤ 1

theorem SingleGaps.nodup (h : SingleGaps nodes) : ((channelGaps nodes).map ChannelGap.id).Nodup := by
  rw [List.nodup_iff_count_le_one]
  intro id
  by_cases hid : id ∈ (channelGaps nodes).map ChannelGap.id
  · obtain ⟨g, hg, rfl⟩ := List.mem_map.mp hid
    refine le_trans ?_ (h g hg)
    rw [List.count, List.countP_map, channelGaps, List.countP_filterMap]
    refine List.countP_mono_left fun n _ hn => ?_
    cases hgap : channelGap n with
    | none =>
      rw [hgap] at hn
      cases hn
    | some g' =>
      rw [hgap] at hn
      rw [← (channelGap_eq_some hgap).2]
      simpa using hn
  · rw [List.count_eq_zero_of_not_mem hid]
    omega

theorem SingleGaps.label (h : SingleGaps nodes) (hg : g ∈ channelGaps nodes) (hn : n ∈ nodes)
    (hid : g.id = n.id) : n.label = "Gap" := by
  obtain ⟨n', hn', hgap⟩ := mem_channelGaps.mp hg
  obtain ⟨hlabel, hid'⟩ := channelGap_eq_some hgap
  have hone : (nodes.filter fun n => n.id == g.id).length ≤ 1 := by
    rw [← List.countP_eq_length_filter]
    exact h g hg
  have hmem : n ∈ nodes.filter fun n => n.id == g.id :=
    List.mem_filter.mpr ⟨hn, beq_iff_eq.mpr hid.symm⟩
  have hmem' : n' ∈ nodes.filter fun n => n.id == g.id :=
    List.mem_filter.mpr ⟨hn', beq_iff_eq.mpr hid'.symm⟩
  match hfilter : nodes.filter fun n => n.id == g.id with
  | [] =>
    rw [hfilter] at hmem
    cases hmem
  | [only] =>
    rw [hfilter] at hmem hmem'
    rw [List.mem_singleton.mp hmem, ← List.mem_singleton.mp hmem']
    exact hlabel
  | _ :: _ :: _ =>
    rw [hfilter] at hone
    simp only [List.length_cons] at hone
    omega

instance (done : List ChannelGap) (id : String) : Decidable (IsResolved gaps spans done id) :=
  decidable_of_iff (∃ g ∈ done, g.id = id ∧ (resolution gaps spans g).toBool = true) <|
    exists_congr fun g => and_congr_right fun _ => and_congr_right fun _ => by
      simp only [← resolution_ok_iff]
      cases hgap : resolution gaps spans g with
      | error reason => simp [Except.toBool]
      | ok r => exact ⟨fun _ => ⟨r.1, r.2, rfl⟩, fun _ => rfl⟩

theorem ResolvesTo.unique {gap : ChannelGap} {x y : String} (hx : ResolvesTo gaps spans gap x)
    (hy : ResolvesTo gaps spans gap y) : x = y := by
  obtain ⟨span, hok⟩ := resolution_ok_iff.mpr hx
  obtain ⟨span', hok'⟩ := resolution_ok_iff.mpr hy
  rw [hok] at hok'
  exact (Prod.mk.inj (Except.ok.inj hok')).1

end

section

variable (gaps : List ChannelGap) (spans : List ObservedSpan)

/-- A node that is no resolved gap, after the trace: a gap says that it was attempted, and of the
others endpoints are enriched. -/
def Stays (n n' : Node Json) : Prop :=
  ((∃ g ∈ gaps, g.id = n.id) → ∃ reason, n' = markAttempted reason n)
    ∧ ((∀ g ∈ gaps, g.id ≠ n.id) → Enriched n n')

/-- An edge after the trace: it leads to the channel of a resolved gap instead, or is the same. -/
def Leads (e e' : Edge Json) : Prop :=
  (∀ g ∈ gaps, ∀ x, g.id = e.dst → ResolvesTo gaps spans g x →
      e'.src = e.src ∧ e'.label = e.label ∧ e'.dst = channelId g.kind x)
    ∧ (¬IsResolved gaps spans gaps e.dst → e' = e)

/-- A channel of a resolved gap that is new to the graph. -/
def Observed (nodes : List (Node Json)) (channel : Node Json) : Prop :=
  channel.label = "Channel" ∧ channel.id ∉ nodes.map Node.id
    ∧ ∃ g ∈ gaps, ∃ x, ResolvesTo gaps spans g x ∧ channel.id = channelId g.kind x

/-- Which ends of an edge are nodes: its target as before, its source too unless it was a resolved
gap. -/
def Ends (nodes nodes' : List (Node Json)) (e e' : Edge Json) : Prop :=
  (e.dst ∈ nodes.map Node.id → e'.dst ∈ nodes'.map Node.id)
    ∧ (e.src ∈ nodes.map Node.id → ¬IsResolved gaps spans gaps e.src →
      e'.src ∈ nodes'.map Node.id)

/-- The graph before and after a trace. -/
structure Resolved (nodes : List (Node Json)) (edges : List (Edge Json))
    (nodes' : List (Node Json)) (edges' : List (Edge Json)) : Prop where
  stays : ∃ kept added, nodes' = kept ++ added
    ∧ List.Forall₂ (Stays gaps) (nodes.filter fun n => ¬IsResolved gaps spans gaps n.id) kept
    ∧ ∀ channel ∈ added, Observed gaps spans nodes channel
  leads : List.Forall₂ (Leads gaps spans) edges edges'
  ends : List.Forall₂ (Ends gaps spans nodes nodes') edges edges'
  gone : ∀ id, IsResolved gaps spans gaps id → id ∉ nodes'.map Node.id
  channels : ∀ g ∈ gaps, ∀ x, ResolvesTo gaps spans g x →
    channelId g.kind x ∈ nodes'.map Node.id

end

section

variable {contentHash : String → Hash} {tracePath : String} {gaps : List ChannelGap}
  {spans : List ObservedSpan} {nodes enriched : List (Node Json)} {edges : List (Edge Json)}
  {run : TraceRun}

theorem eq_of_id (hnodup : (gaps.map ChannelGap.id).Nodup) {g' : ChannelGap} (hg : g ∈ gaps)
    (hg' : g' ∈ gaps) (hid : g.id = g'.id) : g = g' :=
  List.inj_on_of_nodup_map hnodup hg hg' hid

theorem leads_retargeted (hnodup : (gaps.map ChannelGap.id).Nodup) (e : Edge Json) :
    Leads gaps spans e (retargeted contentHash tracePath gaps spans gaps e) := by
  rw [retargeted]
  cases hfind : gaps.find? fun g => g.id == e.dst with
  | none =>
    refine ⟨fun g hg x hid _ => ?_, fun _ => rfl⟩
    have hno := List.find?_eq_none.mp hfind g hg
    exact absurd (beq_iff_eq.mpr hid) hno
  | some g =>
    have hg : g ∈ gaps := List.mem_of_find?_eq_some hfind
    have hid : g.id = e.dst := by simpa using List.find?_some hfind
    simp only
    cases hgap : resolution gaps spans g with
    | error reason =>
      refine ⟨fun g' hg' x hid' hx => ?_, fun _ => rfl⟩
      rw [eq_of_id hnodup hg' hg (hid'.trans hid.symm)] at hx
      exact absurd hx (resolution_error_iff.mp ⟨reason, hgap⟩ x)
    | ok r =>
      obtain ⟨identity, span⟩ := r
      have hresolves : ResolvesTo gaps spans g identity := resolution_ok_iff.mp ⟨span, hgap⟩
      refine ⟨fun g' hg' x hid' hx => ?_, fun hnot => absurd ⟨g, hg, hid, identity, hresolves⟩ hnot⟩
      obtain rfl := eq_of_id hnodup hg' hg (hid'.trans hid.symm)
      simp only [retarget, if_pos hid.symm, hx.unique hresolves, and_self]

theorem stays_marked (hsingle : SingleGaps nodes) {n' : Node Json} (hn : n ∈ nodes)
    (h : Enriched n n') (hnot : ¬IsResolved (channelGaps nodes) spans (channelGaps nodes) n.id) :
    Stays (channelGaps nodes) n (marked (channelGaps nodes) spans (channelGaps nodes) n') := by
  rw [marked, h.id]
  cases hfind : (channelGaps nodes).find? fun g => g.id == n.id with
  | none =>
    refine ⟨fun ⟨g, hg, hid⟩ => ?_, fun _ => h⟩
    exact absurd (beq_iff_eq.mpr hid) (List.find?_eq_none.mp hfind g hg)
  | some g =>
    have hg : g ∈ channelGaps nodes := List.mem_of_find?_eq_some hfind
    have hid : g.id = n.id := by simpa using List.find?_some hfind
    -- it is a gap, and gaps are not enriched
    have hsame : n' = n := h.other (by rw [hsingle.label hg hn hid]; decide)
    simp only
    cases hgap : resolution (channelGaps nodes) spans g with
    | error reason => exact ⟨fun _ => ⟨reason, by rw [hsame]⟩, fun hno => absurd hid (hno g hg)⟩
    | ok r => exact absurd ⟨g, hg, hid, r.1, resolution_ok_iff.mp ⟨r.2, hgap⟩⟩ hnot

section

variable (h : Progress contentHash tracePath gaps spans enriched edges gaps run)
  (hids : enriched.map Node.id = nodes.map Node.id)

/-- The nodes at the end of a run. -/
def TraceRun.allNodes (run : TraceRun) : List (Node Json) :=
  (run.nodes.filter fun n => !run.resolved.contains n.id) ++ run.channels.rows.map Prod.snd

include h hids

theorem run_ids : run.nodes.map Node.id = nodes.map Node.id := by
  rw [h.marks, map_id_marked, hids]

theorem kept_ids (hid : id ∈ nodes.map Node.id) (hnot : ¬IsResolved gaps spans gaps id) :
    id ∈ run.allNodes.map Node.id := by
  rw [← run_ids h hids] at hid
  obtain ⟨n, hn, rfl⟩ := List.mem_map.mp hid
  refine List.mem_map_of_mem (List.mem_append_left _ (List.mem_filter.mpr ⟨hn, ?_⟩))
  rw [Bool.not_eq_true', Bool.eq_false_iff]
  exact fun hcontains => hnot ((h.resolved n.id).mp hcontains)

theorem observed_added {channel : Node Json} (hmem : channel ∈ run.channels.rows.map Prod.snd) :
    Observed gaps spans nodes channel := by
  obtain ⟨row, hrow, rfl⟩ := List.mem_map.mp hmem
  obtain ⟨hid, hlabel, hnew, hgap⟩ := h.observed row.1 row.2 (Table.find?_eq_some_iff.mpr hrow)
  rw [hids, ← hid] at hnew
  rw [← hid] at hgap
  exact ⟨hlabel, hnew, hgap⟩

theorem channel_ids (hchannels : NoChannels gaps) (hg : g ∈ gaps) {x : String}
    (hx : ResolvesTo gaps spans g x) : channelId g.kind x ∈ run.allNodes.map Node.id := by
  rcases h.known g hg x hx with hknown | hknown
  · rw [hids] at hknown
    refine kept_ids h hids hknown ?_
    rintro ⟨g', hg', hid, -⟩
    exact hchannels g' hg' _ _ hid
  · obtain ⟨channel, hchannel⟩ := Option.isSome_iff_exists.mp hknown
    rw [← (h.observed _ channel hchannel).1]
    exact List.mem_map_of_mem (List.mem_append_right _
      (List.mem_map.mpr ⟨_, Table.find?_eq_some_iff.mp hchannel, rfl⟩))

theorem gone_ids (hchannels : NoChannels gaps) (hid : IsResolved gaps spans gaps id) :
    id ∉ run.allNodes.map Node.id := by
  intro hmem
  obtain ⟨n, hn, rfl⟩ := List.mem_map.mp hmem
  rcases List.mem_append.mp hn with hn | hn
  · have hcontains := (List.mem_filter.mp hn).2
    rw [(h.resolved n.id).mpr hid] at hcontains
    cases hcontains
  · obtain ⟨-, -, g, -, x, -, hchannel⟩ := observed_added h hids hn
    obtain ⟨g', hg', hsame, -⟩ := hid
    exact hchannels g' hg' _ _ (hsame.trans hchannel)

theorem ends_retargeted (hnodup : (gaps.map ChannelGap.id).Nodup) (hchannels : NoChannels gaps)
    (e : Edge Json) : Ends gaps spans nodes run.allNodes e
      (retargeted contentHash tracePath gaps spans gaps e) := by
  obtain ⟨hinto, hother⟩ : Leads gaps spans e _ := leads_retargeted hnodup e
  by_cases hresolved : IsResolved gaps spans gaps e.dst
  · obtain ⟨g, hg, hid, x, hx⟩ := hresolved
    obtain ⟨hsrc, -, hdst⟩ := hinto g hg x hid hx
    constructor
    · intro _
      rw [hdst]
      exact channel_ids h hids hchannels hg hx
    · intro hmem hnot
      rw [hsrc]
      exact kept_ids h hids hmem hnot
  · rw [hother hresolved]
    exact ⟨fun hmem => kept_ids h hids hmem hresolved, fun hmem hnot => kept_ids h hids hmem hnot⟩

end

theorem stays_kept (hsingle : SingleGaps nodes) (henriched : List.Forall₂ Enriched nodes enriched)
    (h : Progress contentHash tracePath (channelGaps nodes) spans enriched edges (channelGaps nodes)
      run) :
    List.Forall₂ (Stays (channelGaps nodes))
      (nodes.filter fun n => ¬IsResolved (channelGaps nodes) spans (channelGaps nodes) n.id)
      (run.nodes.filter fun n => !run.resolved.contains n.id) := by
  let Stayed (n n' : Node Json) : Prop := n'.id = n.id
    ∧ (¬IsResolved (channelGaps nodes) spans (channelGaps nodes) n.id → Stays (channelGaps nodes) n n')
  have hall : List.Forall₂ Stayed nodes run.nodes := by
    rw [h.marks, List.forall₂_map_right_iff]
    refine List.Forall₂.imp (fun n n' hn => ?_)
      ((List.forall₂_and_left _ _).mpr ⟨fun n hn => hn, henriched⟩)
    exact ⟨(marked_id n').trans hn.2.id, stays_marked hsingle hn.1 hn.2⟩
  have hkept : List.Forall₂ Stayed
      (nodes.filter fun n => ¬IsResolved (channelGaps nodes) spans (channelGaps nodes) n.id)
      (run.nodes.filter fun n => !run.resolved.contains n.id) := by
    refine List.rel_filter (fun n n' hn => ?_) hall
    show decide _ = true ↔ (!run.resolved.contains n'.id) = true
    rw [decide_eq_true_iff, Bool.not_eq_true', Bool.eq_false_iff, hn.1]
    exact not_congr (h.resolved n.id).symm
  refine List.Forall₂.imp (fun n n' hn => hn.2.2 hn.1) ((List.forall₂_and_left _ _).mpr
    ⟨fun n hn => of_decide_eq_true (List.mem_filter.mp hn).2, hkept⟩)

theorem progress_gaps (contentHash : String → Hash) (tracePath : String) (spans : List ObservedSpan)
    (edges : List (Edge Json)) (report : TraceEnrichment) (hsingle : SingleGaps nodes)
    (hchannels : NoChannels (channelGaps nodes))
    (hids : enriched.map Node.id = nodes.map Node.id) :
    Progress contentHash tracePath (channelGaps nodes) spans enriched edges (channelGaps nodes)
      ((channelGaps nodes).foldl (applyGap contentHash tracePath (channelGaps nodes) spans)
        ⟨enriched, edges, Table.empty, Table.empty, report⟩) := by
  have hstart : Progress contentHash tracePath (channelGaps nodes) spans enriched edges []
      ⟨enriched, edges, Table.empty, Table.empty, report⟩ := by
    refine ⟨(List.map_id _).symm, (List.map_id _).symm, fun id => ?_, fun g hg => (nomatch hg),
      fun id channel hfind => (nomatch hfind)⟩
    exact iff_of_false (fun hid => nomatch hid) fun ⟨g, hg, _⟩ => nomatch hg
  refine progress_foldl hsingle.nodup hchannels (fun g hg => ?_) hstart
  have hcount : ∀ l : List (Node Json), l.countP (fun n => n.id == g.id)
      = (l.map Node.id).countP fun id => id == g.id := fun l => by rw [List.countP_map]; rfl
  rw [hcount, hids, ← hcount]
  exact hsingle g hg

/-- **The trace applied.**  Where every gap is the only node of its id, and that is no channel's, a gap
is resolved to an identity when it is to be, the edges into it and no others lead to its channel, no
edge loses its target, and what is left of the nodes is as before, but for endpoints. -/
theorem apply_trace_exact (contentHash : String → Hash) (tracePath : String)
    (nodes : List (Node Json)) (edges : List (Edge Json)) (spans : List ObservedSpan)
    (hsingle : SingleGaps nodes) (hchannels : NoChannels (channelGaps nodes)) :
    Resolved (channelGaps nodes) spans nodes edges
      (applyTrace contentHash tracePath nodes edges spans).1
      (applyTrace contentHash tracePath nodes edges spans).2.1 := by
  have henriched : List.Forall₂ Enriched nodes (enrichHttpEndpoints contentHash tracePath nodes spans).1 :=
    enrichHttpEndpoints_enriched nodes spans
  have hids := map_id_enriched henriched
  have hnodup := hsingle.nodup
  rw [applyTrace]
  simp only [channelGaps_enriched henriched]
  have h := progress_gaps contentHash tracePath spans edges
    ⟨0, (enrichHttpEndpoints contentHash tracePath nodes spans).2, 0⟩ hsingle hchannels hids
  refine ⟨⟨_, _, rfl, stays_kept hsingle henriched h, fun channel => observed_added h hids⟩, ?_, ?_,
    fun id => gone_ids h hids hchannels, fun g hg x => channel_ids h hids hchannels hg⟩
  · rw [h.targets]
    exact List.forall₂_map_right_iff.mpr (List.forall₂_same.mpr fun e _ => leads_retargeted hnodup e)
  · rw [h.targets]
    exact List.forall₂_map_right_iff.mpr (List.forall₂_same.mpr fun e _ =>
      ends_retargeted h hids hnodup hchannels e)

end

namespace Sample

def zeroHash (_ : String) : Hash := ⟨String.ofList (List.replicate 64 '0'), by decide⟩

def attributesOf (members : List (String × String)) : Table String Json :=
  Table.ofList Prod.fst (fun m => .str m.2) members

def spanOf (members : List (String × String)) : ObservedSpan :=
  ⟨"t1", "s1", "span", attributesOf members, Table.empty, (0, 2)⟩

/-- A message sent from a file. -/
def sentFrom (file : String) : ObservedSpan :=
  spanOf [("messaging.system", "aws_sqs"), ("messaging.destination.name", "orders"),
    ("code.file.path", file)]

def gapNode (id file : String) : Node Json :=
  ⟨id, "Gap", .obj [("kind", .str "sqs-queue"),
    ("prov", .obj [("evidence", .arr [.obj [("path", .str file)]])])]⟩

def serviceNode (id : String) : Node Json := ⟨id, "Service", .obj []⟩

def endpointNode : Node Json :=
  ⟨"ep:orders", "Endpoint", .obj [("method", .str "GET"), ("path", .str "/orders")]⟩

def edgeOf (src dst : String) : Edge Json := ⟨src, dst, "PUBLISHES", .obj []⟩

/-- Two gaps and a service that publishes to both. -/
def traceNodes : List (Node Json) :=
  [serviceNode "svc:checkout", gapNode "gap:a" "src/a.ts", gapNode "gap:b" "src/b.ts", endpointNode]

def traceEdges : List (Edge Json) := [edgeOf "svc:checkout" "gap:a", edgeOf "svc:checkout" "gap:b"]

def applied (nodes : List (Node Json)) (edges : List (Edge Json)) (spans : List ObservedSpan) :
    List (Node Json) × List (Edge Json) × TraceEnrichment :=
  applyTrace zeroHash "trace.jsonl" nodes edges spans

end Sample

/-- One gap of the sample is resolved. -/
theorem apply_trace_exact_sample :
    Resolved (channelGaps Sample.traceNodes) [Sample.sentFrom "/workspace/src/a.ts"] Sample.traceNodes
      Sample.traceEdges
      (applyTrace Sample.zeroHash "trace.jsonl" Sample.traceNodes Sample.traceEdges
        [Sample.sentFrom "/workspace/src/a.ts"]).1
      (applyTrace Sample.zeroHash "trace.jsonl" Sample.traceNodes Sample.traceEdges
        [Sample.sentFrom "/workspace/src/a.ts"]).2.1 := by
  have hgaps : channelGaps Sample.traceNodes
      = [⟨"gap:a", "sqs-queue", "src/a.ts"⟩, ⟨"gap:b", "sqs-queue", "src/b.ts"⟩] := by
    decide
  refine apply_trace_exact _ _ _ _ _ ?_ ?_
  · intro g hg
    rw [hgaps] at hg
    rcases List.mem_pair.mp hg with rfl | rfl <;> decide
  · intro g hg kind identity hid
    rw [hgaps] at hg
    have hstart := congrArg (fun s : String => s.toList.head?) hid
    rw [channelId, String.append_assoc, String.toList_append] at hstart
    rcases List.mem_pair.mp hg with rfl | rfl <;> exact absurd hstart (by simp)

/-- Whether both ends of all edges are nodes. -/
def Sample.closed (nodes : List (Node Json)) (edges : List (Edge Json)) : Bool :=
  edges.all fun e => (nodes.map Node.id).contains e.src && (nodes.map Node.id).contains e.dst

/-- An endpoint is changed, the second of two gaps with one id is not marked, and edges dangle: those
out of a resolved gap, and those into a gap with the id of its channel. -/
theorem apply_trace_not_exact :
    (∃ n spans, n.label ≠ "Gap" ∧ n ∉ (Sample.applied [n] [] spans).1)
      ∧ (∃ nodes n, n ∈ nodes ∧ (channelGap n).isSome = true ∧ n ∈ (Sample.applied nodes [] []).1)
      ∧ (∃ nodes edges spans, Sample.closed nodes edges = true
        ∧ ∃ e ∈ (Sample.applied nodes edges spans).2.1,
          e.src ∉ (Sample.applied nodes edges spans).1.map Node.id)
      ∧ ∃ nodes edges spans, Sample.closed nodes edges = true
        ∧ ∃ e ∈ (Sample.applied nodes edges spans).2.1,
          e.dst ∉ (Sample.applied nodes edges spans).1.map Node.id := by
  refine ⟨⟨Sample.endpointNode,
      [Sample.spanOf [("http.request.method", "GET"), ("http.route", "/orders")]],
      by decide, fun hmem => ?_⟩,
    ⟨[Sample.gapNode "gap:a" "src/a.ts", Sample.gapNode "gap:a" "src/b.ts"],
      Sample.gapNode "gap:a" "src/b.ts", List.mem_cons_of_mem _ List.mem_cons_self,
      by decide, ?_⟩,
    ⟨[Sample.gapNode "gap:a" "src/a.ts", Sample.serviceNode "svc:checkout"],
      [Sample.edgeOf "gap:a" "svc:checkout"], [Sample.sentFrom "src/a.ts"], by decide,
      by decide⟩,
    ⟨[Sample.gapNode "chan:sqs-queue:orders" "src/a.ts", Sample.serviceNode "svc:checkout"],
      [Sample.edgeOf "svc:checkout" "chan:sqs-queue:orders"], [Sample.sentFrom "src/a.ts"],
      by decide, by decide⟩⟩
  · have hobserved : ((Sample.applied [Sample.endpointNode] []
        [Sample.spanOf [("http.request.method", "GET"), ("http.route", "/orders")]]).1.all
        fun n => (member? "observed" n.props).isSome) = true := by decide
    exact absurd (List.all_eq_true.mp hobserved _ hmem) (by decide)
  · exact List.mem_of_getElem? (i := 1) rfl

end Dynamic

/-
Event and fetch sites (`crates/events/src/lib.rs`, `crates/adapters-lang-ts/src/lib.rs`).

A site whose identity does not resolve gets a gap named after its file and its first byte.  The
text of a proven `eval` is extracted like a file of its own, and every site found there is moved
to the span of the argument, so that two of them come to share a byte.

* `gapIds_stitch`, `gapIds_stitchFetches` — the gaps are those of the unresolved sites, in order;
* `gapId_inj` — a gap names its file and its byte;
* `ownGaps_iff` — when every unresolved site has a gap of its own.
-/
import Cartograph.LangTs.Identity
import Cartograph.Sources.Origin
import Cartograph.Dynamic.Gaps

namespace Events

open GraphStore Investigation
open LangTs (IdentityExpr)

/-! ### Sites -/

inductive ChannelRole
  | produces
  | consumes
  deriving DecidableEq

def ChannelRole.label : ChannelRole → String
  | .produces => "PUBLISHES"
  | .consumes => "SUBSCRIBES"

/-- What an `EventSite` says of its channel. -/
structure EventCall where
  kind : String
  role : ChannelRole
  identity : IdentityExpr

/-- What a `FetchSite` says of its request. -/
structure FetchCall where
  method : List Char
  url : IdentityExpr

/-- A call with the symbol around it, its file and its span. -/
structure Site (α : Type) where
  call : α
  symbol : Option String
  path : String
  byteStart : ℕ
  byteEnd : ℕ

abbrev EventSite := Site EventCall
abbrev FetchSite := Site FetchCall

/-! ### Stitching -/

/-- The repository, its commit and the hash of a text. -/
structure SourceId where
  repo : String
  commit : String
  contentHash : String → Hash

/-- `ConfigIndex::resolve`: the value of an env key, and the file it is from. -/
abbrev ConfigIndex := List Char → Option (List Char × String)

/-- `Extraction`. -/
structure Extraction where
  nodes : List (Node Json)
  edges : List (Edge Json)

def EVENT_SDK_VERSION : String := "ts-2026.07"

section Stitch

variable {α : Type} (cfg : ConfigIndex) (id : SourceId)

def prov (site : Site α) (confidence : ConfidenceTier) (fact : String) : Json :=
  (Provenance.mk .deterministic confidence
    [⟨id.repo, site.path, site.byteStart, site.byteEnd, id.commit⟩] "t0.events"
    (id.contentHash fact).text).toJson

def siteSource (site : Site α) : String := site.symbol.getD ("file:" ++ id.repo ++ "@" ++ site.path)

def attemptedTiers : Json := .arr [.str "T0"]

/-- The text of an identity, and how it was resolved. -/
def resolve : IdentityExpr → Option (List Char × String)
  | .literal s => some (s, "literal")
  | .envRef key => (cfg key).map fun (value, file) => (value, "config:" ++ file)
  | .computed _ => none

def keyNotFound (key : List Char) : String :=
  "env key " ++ String.ofList key ++ " not found in any env file in the repo"

/-- The reason and the raw text of an identity that did not resolve. -/
def unresolvedReason : IdentityExpr → String × String
  | .envRef key => (keyNotFound key, "process.env." ++ String.ofList key)
  | .computed raw => ("runtime-computed channel identity", String.ofList raw)
  -- a literal always resolves
  | .literal _ => ("", "")

/-- The id of the gap of a site: `lead` says of which kind the site is. -/
def gapId (lead : String) (path : String) (start : ℕ) : String :=
  lead ++ id.repo ++ "@" ++ path ++ "@" ++ toString start

def chanGapId (site : EventSite) : String := gapId id "gap:chan:" site.path site.byteStart

def fetchGapId (site : FetchSite) : String := gapId id "gap:fetch:" site.path site.byteStart

/-- One site of the loop of `stitch`, with the channels met so far. -/
def stitchSite (out : Extraction × Table String (Node Json)) (site : EventSite) :
    Extraction × Table String (Node Json) :=
  let label := site.call.role.label
  let src := siteSource id site
  match resolve cfg site.call.identity with
  | some (identity, resolver) =>
    let chanId := Dynamic.channelId site.call.kind (String.ofList identity)
    let node : Node Json := ⟨chanId, "Channel", .obj [("kind", .str site.call.kind),
      ("identity", .str (String.ofList identity)),
      ("prov", prov id site .confirmed ("Channel " ++ chanId))]⟩
    let edge : Edge Json := ⟨src, chanId, label, .obj [("resolver", .str resolver),
      ("registry", .str EVENT_SDK_VERSION),
      ("prov", prov id site .confirmed (label ++ " -> " ++ chanId))]⟩
    ({ out.1 with edges := out.1.edges ++ [edge] },
      if (out.2.find? chanId).isSome then out.2 else out.2.put chanId node)
  | none =>
    let (reason, raw) := unresolvedReason site.call.identity
    let gap := chanGapId id site
    let node : Node Json := ⟨gap, "Gap", .obj [("reason", .str reason), ("raw", .str raw),
      ("kind", .str site.call.kind), ("attempted_tiers", attemptedTiers),
      ("prov", prov id site .gap ("Gap " ++ gap))]⟩
    let edge : Edge Json := ⟨src, gap, label, .obj [("reason", .str reason),
      ("registry", .str EVENT_SDK_VERSION),
      ("prov", prov id site .gap (label ++ " -> " ++ gap))]⟩
    (⟨out.1.nodes ++ [node], out.1.edges ++ [edge]⟩, out.2)

def stitch (sites : List EventSite) : Extraction :=
  let out := sites.foldl (stitchSite cfg id) (⟨[], []⟩, .empty)
  { out.1 with nodes := out.1.nodes ++ out.2.rows.map Prod.snd }

/-! ### Fetches -/

/-- What follows the first `://`. -/
def afterScheme : List Char → Option (List Char)
  | [] => none
  | c :: rest => if "://".toList <+: c :: rest then some (rest.drop 2) else afterScheme rest

def urlPath (url : List Char) : List Char :=
  let u := url.takeWhile fun c => c ≠ '?' ∧ c ≠ '#'
  match afterScheme u with
  | some rest => if '/' ∈ rest then rest.dropWhile (· ≠ '/') else ['/']
  | none => u

def routeMatches (pattern concrete : List Char) : Bool :=
  let ps := pattern.splitOn '/'
  let cs := concrete.splitOn '/'
  ps.length = cs.length ∧
    (ps.zip cs).all fun (p, c) => p = c ∨ (p.head? = some ':' ∧ c ≠ [])

/-- An endpoint of the repository: its id, its verb and its route. -/
def endpoint (eid : String) : Option (String × List Char × List Char) := do
  let rest ← eid.toList.dropPrefix? "ep:".toList
  let rest ← rest.dropPrefix? (id.repo ++ "@").toList
  let (verb, route) ← Sources.splitOnce ':' rest
  pure (eid, verb, route)

/-- What a fetch site is matched to, or the reason why it is not. -/
def outcome (endpointIds : List String) (call : FetchCall) : Except String (String × String) :=
  match resolve cfg call.url with
  | none =>
    .error <| match call.url with
      | .envRef key => keyNotFound key
      | _ => "runtime-computed fetch URL"
  | some (url, resolver) =>
    let path := urlPath url
    let request := String.ofList call.method ++ " " ++ String.ofList path
    if call.method = ['?'] then .error "runtime-computed HTTP method"
    else match (endpointIds.filterMap (endpoint id)).filter fun (_, verb, route) =>
        verb = call.method && routeMatches route path with
      | [one] => .ok (one.1, resolver)
      | [] => .error ("no recovered endpoint matches " ++ request)
      | many => .error ("ambiguous endpoint match for " ++ request ++ " ("
          ++ toString many.length ++ " candidates)")

/-- One site of the loop of `stitch_fetches`. -/
def stitchFetch (endpointIds : List String) (out : Extraction) (site : FetchSite) : Extraction :=
  let src := siteSource id site
  let method := Json.str (String.ofList site.call.method)
  match outcome cfg id endpointIds site.call with
  | .ok (epId, resolver) =>
    { out with edges := out.edges ++ [⟨src, epId, "FETCHES", .obj [("method", method),
      ("resolver", .str resolver), ("prov", prov id site .confirmed ("FETCHES -> " ++ epId))]⟩] }
  | .error reason =>
    let gap := fetchGapId id site
    ⟨out.nodes ++ [⟨gap, "Gap", .obj [("reason", .str reason), ("attempted_tiers", attemptedTiers),
        ("prov", prov id site .gap ("Gap " ++ gap))]⟩],
      out.edges ++ [⟨src, gap, "FETCHES", .obj [("reason", .str reason), ("method", method),
        ("prov", prov id site .gap ("FETCHES -> " ++ gap))]⟩]⟩

def stitchFetches (endpointIds : List String) (sites : List FetchSite) : Extraction :=
  sites.foldl (stitchFetch cfg id endpointIds) ⟨[], []⟩

end Stitch

/-! ### Code inside strings -/

/-- A proven argument of `eval` or `new Function`: its span, and what the symbols of its text are
renamed to. -/
structure EvalSite where
  start : ℕ
  stop : ℕ
  rewrite : String → String

/-- What the extractor reads in a text: the texts of the evaluated arguments, then its own sites. -/
inductive Code
  | own (events : List EventSite) (fetches : List FetchSite)
  | eval (site : EvalSite) (inner rest : Code)

/-- The sites of one kind of a text. -/
abbrev Kind (α : Type) := List EventSite → List FetchSite → List (Site α)

def Site.moved {α : Type} (e : EvalSite) (site : Site α) : Site α :=
  { site with symbol := site.symbol.map e.rewrite, byteStart := e.start, byteEnd := e.stop }

/-- The sites of one kind that `extract_source` returns. -/
def extractSource {α : Type} (kind : Kind α) (path : String) : Code → List (Site α)
  | .own events fetches => (kind events fetches).map fun site => { site with path := path }
  | .eval e inner rest =>
    (extractSource kind path inner).map (Site.moved e) ++ extractSource kind path rest

/-- A source tree: its files, and the sites of the messages of a browser extension. -/
structure Repository where
  files : List (String × Code)
  messages : List EventSite

def Repository.eventSites (r : Repository) : List EventSite :=
  (r.files.flatMap fun file => extractSource (fun events _ => events) file.1 file.2) ++ r.messages

def Repository.fetchSites (r : Repository) : List FetchSite :=
  r.files.flatMap fun file => extractSource (fun _ fetches => fetches) file.1 file.2

/-! ### Where a call stands -/

/-- The calls of one kind of a text, each at the byte where it begins, or where the outermost
evaluated argument around it begins. -/
def Code.calls {α : Type} (kind : Kind α) : Code → List (ℕ × α)
  | .own events fetches => (kind events fetches).map fun site => (site.byteStart, site.call)
  | .eval e inner rest => (inner.calls kind).map (fun c => (e.start, c.2)) ++ rest.calls kind

/-- The calls of one kind of the files, each at its file and its byte. -/
def callsOf {α : Type} (kind : Kind α) (files : List (String × Code)) : List ((String × ℕ) × α) :=
  files.flatMap fun file => (file.2.calls kind).map fun c => ((file.1, c.1), c.2)

def Repository.eventCalls (r : Repository) : List ((String × ℕ) × EventCall) :=
  callsOf (fun events _ => events) r.files
    ++ r.messages.map fun site => ((site.path, site.byteStart), site.call)

def Repository.fetchCalls (r : Repository) : List ((String × ℕ) × FetchCall) :=
  callsOf (fun _ fetches => fetches) r.files

/-- No two of the calls that do not resolve stand at one byte of one file. -/
def Apart {α : Type} (resolves : α → Bool) (calls : List ((String × ℕ) × α)) : Prop :=
  ((calls.filter fun c => !resolves c.2).map Prod.fst).Nodup

def Site.place {α : Type} (site : Site α) : (String × ℕ) × α :=
  ((site.path, site.byteStart), site.call)

theorem place_extractSource {α : Type} (kind : Kind α) (path : String) (code : Code) :
    (extractSource kind path code).map Site.place
      = (code.calls kind).map fun c => ((path, c.1), c.2) := by
  induction code with
  | own events fetches =>
    rw [extractSource, Code.calls, List.map_map, List.map_map]
    rfl
  | eval e inner rest ihinner ihrest =>
    have hmoved : (extractSource kind path inner).map (Site.place ∘ Site.moved e)
        = (inner.calls kind).map fun c => ((path, e.start), c.2) := by
      have h := congrArg (List.map fun p => ((p.1.1, e.start), p.2)) ihinner
      rw [List.map_map, List.map_map] at h
      exact h
    rw [extractSource, Code.calls, List.map_append, List.map_append, ihrest, List.map_map,
      List.map_map, hmoved]
    rfl

theorem place_files {α : Type} (kind : Kind α) (files : List (String × Code)) :
    (files.flatMap fun file => extractSource kind file.1 file.2).map Site.place
      = callsOf kind files := by
  rw [callsOf, List.map_flatMap]
  exact congrArg (List.flatMap · files) (funext fun file => place_extractSource kind file.1 file.2)

theorem place_eventSites (r : Repository) : r.eventSites.map Site.place = r.eventCalls := by
  rw [Repository.eventSites, List.map_append, place_files]
  rfl

/-! ### Gaps -/

section Gaps

variable (cfg : ConfigIndex) (id : SourceId)

def EventCall.resolves (call : EventCall) : Bool := (resolve cfg call.identity).isSome

def FetchCall.resolves (endpointIds : List String) (call : FetchCall) : Bool :=
  (outcome cfg id endpointIds call).isOk

/-- The ids of the gaps of an extraction. -/
def Extraction.gapIds (out : Extraction) : List String :=
  (out.nodes.filter fun n => n.label == "Gap").map Node.id

variable {cfg id}

theorem stitchSite_gapIds (out : Extraction × Table String (Node Json)) (site : EventSite) :
    (stitchSite cfg id out site).1.gapIds
      = out.1.gapIds ++ if site.call.resolves cfg then [] else [chanGapId id site] := by
  unfold stitchSite EventCall.resolves
  cases resolve cfg site.call.identity with
  | some r | none => simp [Extraction.gapIds]

theorem stitchSite_channels {out : Extraction × Table String (Node Json)} (site : EventSite)
    (h : ∀ row ∈ out.2.rows, row.2.label = "Channel") :
    ∀ row ∈ (stitchSite cfg id out site).2.rows, row.2.label = "Channel" := by
  unfold stitchSite
  cases resolve cfg site.call.identity with
  | none => exact h
  | some r =>
    intro row hrow
    dsimp only at hrow
    split at hrow
    · exact h row hrow
    · rcases Table.mem_putRow hrow with rfl | hrow
      · rfl
      · exact h row hrow

theorem gapIds_stitch (sites : List EventSite) : (stitch cfg id sites).gapIds
    = (sites.filter fun s => !s.call.resolves cfg).map (chanGapId id) := by
  have hloop : ∀ (out : Extraction × Table String (Node Json)),
      (∀ row ∈ out.2.rows, row.2.label = "Channel") →
      (sites.foldl (stitchSite cfg id) out).1.gapIds
        = out.1.gapIds ++ (sites.filter fun s => !s.call.resolves cfg).map (chanGapId id)
      ∧ ∀ row ∈ (sites.foldl (stitchSite cfg id) out).2.rows, row.2.label = "Channel" := by
    induction sites with
    | nil => exact fun out h => ⟨(List.append_nil _).symm, h⟩
    | cons site rest ih =>
      intro out h
      obtain ⟨hgaps, hrows⟩ := ih _ (stitchSite_channels site h)
      refine ⟨?_, hrows⟩
      rw [List.foldl_cons, hgaps, stitchSite_gapIds, List.append_assoc]
      cases hr : site.call.resolves cfg <;> simp [hr]
  obtain ⟨hgaps, hrows⟩ := hloop (⟨[], []⟩, .empty) (by simp [Table.empty])
  have hnone : ((sites.foldl (stitchSite cfg id) (⟨[], []⟩, .empty)).2.rows.map Prod.snd).filter
      (fun n => n.label == "Gap") = [] := by
    rw [List.filter_eq_nil_iff]
    intro n hn
    obtain ⟨row, hrow, rfl⟩ := List.mem_map.mp hn
    rw [hrows row hrow]
    decide
  rw [Extraction.gapIds, stitch, List.filter_append, hnone, List.append_nil]
  exact hgaps

theorem gapIds_stitchFetches (endpointIds : List String) (sites : List FetchSite) :
    (stitchFetches cfg id endpointIds sites).gapIds
      = (sites.filter fun s => !s.call.resolves cfg id endpointIds).map (fetchGapId id) := by
  have hloop : ∀ out : Extraction, (sites.foldl (stitchFetch cfg id endpointIds) out).gapIds
      = out.gapIds
        ++ (sites.filter fun s => !s.call.resolves cfg id endpointIds).map (fetchGapId id) := by
    induction sites with
    | nil => exact fun out => (List.append_nil _).symm
    | cons site rest ih =>
      intro out
      rw [List.foldl_cons, ih, stitchFetch]
      cases hr : outcome cfg id endpointIds site.call with
      | ok r | error e =>
        simp [Extraction.gapIds, FetchCall.resolves, hr, Except.isOk, Except.toBool]
  exact hloop ⟨[], []⟩

/-! ### Ids -/

theorem append_cons_last_inj {c : Char} {a b d d' : List Char} (hd : c ∉ d) (hd' : c ∉ d')
    (h : a ++ c :: d = b ++ c :: d') : a = b ∧ d = d' := by
  have hrev : d.reverse ++ c :: a.reverse = d'.reverse ++ c :: b.reverse := by
    simpa using congrArg List.reverse h
  have htake : ∀ {x y : List Char}, c ∉ x → (x.reverse ++ c :: y).takeWhile (· ≠ c) = x.reverse := by
    intro x y hx
    rw [List.takeWhile_append_of_pos (by simpa using fun z hz => ne_of_mem_of_not_mem hz hx)]
    simp
  have hd : d.reverse = d'.reverse := by rw [← htake hd, hrev, htake hd']
  rw [hd] at hrev
  exact ⟨List.reverse_injective (List.cons.inj (List.append_cancel_left hrev)).2,
    List.reverse_injective hd⟩

theorem at_not_mem_toString (n : ℕ) : '@' ∉ (toString n).toList := by
  rw [Nat.toString_eq_ofList_toDigits, String.toList_ofList]
  intro hmem
  exact absurd (Nat.isDigit_of_mem_toDigits (by decide) (by decide) hmem) (by decide)

theorem gapId_inj {lead path path' : String} {start start' : ℕ}
    (h : gapId id lead path start = gapId id lead path' start') : path = path' ∧ start = start' := by
  have htext := congrArg String.toList h
  simp only [gapId, String.toList_append, List.append_assoc] at htext
  have htail := List.append_cancel_left (List.append_cancel_left htext)
  obtain ⟨hpath, hstart⟩ := append_cons_last_inj (a := '@' :: path.toList)
    (b := '@' :: path'.toList) (at_not_mem_toString start) (at_not_mem_toString start') htail
  exact ⟨String.toList_inj.mp (List.cons.inj hpath).2,
    Nat.repr_injective (String.toList_inj.mp hstart)⟩

theorem chanGapId_ne_fetchGapId (s : EventSite) (t : FetchSite) :
    chanGapId id s ≠ fetchGapId id t := by
  intro h
  have htext := congrArg (fun text : String => text.toList[4]?) h
  simp [chanGapId, fetchGapId, gapId, String.toList_append] at htext

theorem nodup_gapIds_iff {α : Type} {resolves : α → Bool} {sites : List (Site α)} (lead : String) :
    ((sites.filter fun s => !resolves s.call).map fun s => gapId id lead s.path s.byteStart).Nodup
      ↔ Apart resolves (sites.map Site.place) := by
  have hinj : Function.Injective fun p : String × ℕ => gapId id lead p.1 p.2 :=
    fun p q h => Prod.ext (gapId_inj h).1 (gapId_inj h).2
  rw [Apart, List.filter_map, List.map_map, ← List.nodup_map_iff hinj, List.map_map]
  exact Iff.rfl

variable (cfg id)

/-- Every unresolved site of a repository has a gap, and no two sites have the same. -/
def OwnGaps (r : Repository) (endpointIds : List String) : Prop :=
  (∀ s ∈ r.eventSites, s.call.resolves cfg = false →
      chanGapId id s ∈ (stitch cfg id r.eventSites).gapIds)
    ∧ (∀ s ∈ r.fetchSites, s.call.resolves cfg id endpointIds = false →
      fetchGapId id s ∈ (stitchFetches cfg id endpointIds r.fetchSites).gapIds)
    ∧ ((stitch cfg id r.eventSites).gapIds
        ++ (stitchFetches cfg id endpointIds r.fetchSites).gapIds).Nodup

/-- **Own gaps.**  Every unresolved site has a gap of its own exactly when no two unresolved sites
of one kind stand at one byte of a file; those of one evaluated string do. -/
theorem ownGaps_iff (r : Repository) (endpointIds : List String) :
    OwnGaps cfg id r endpointIds ↔ Apart (EventCall.resolves cfg) r.eventCalls
      ∧ Apart (FetchCall.resolves cfg id endpointIds) r.fetchCalls := by
  have hevents := @nodup_gapIds_iff id _ (EventCall.resolves cfg) r.eventSites "gap:chan:"
  have hfetches := @nodup_gapIds_iff id _ (FetchCall.resolves cfg id endpointIds) r.fetchSites
    "gap:fetch:"
  rw [place_eventSites] at hevents
  rw [Repository.fetchSites, place_files] at hfetches
  rw [OwnGaps, gapIds_stitch, gapIds_stitchFetches]
  constructor
  · rintro ⟨-, -, hnodup⟩
    rw [List.nodup_append] at hnodup
    exact ⟨hevents.mp hnodup.1, hfetches.mp hnodup.2.1⟩
  · rintro ⟨he, hf⟩
    refine ⟨fun s hs hr => List.mem_map_of_mem (List.mem_filter.mpr ⟨hs, by rw [hr]; rfl⟩),
      fun s hs hr => List.mem_map_of_mem (List.mem_filter.mpr ⟨hs, by rw [hr]; rfl⟩),
      List.nodup_append.mpr ⟨hevents.mpr he, hfetches.mpr hf, ?_⟩⟩
    -- the two kinds are told apart by the lead of the id
    intro x hx y hy
    obtain ⟨s, -, rfl⟩ := List.mem_map.mp hx
    obtain ⟨t, -, rfl⟩ := List.mem_map.mp hy
    exact chanGapId_ne_fetchGapId s t

end Gaps

/-! ### Two fetches of one string -/

namespace Sample

def wrapper : String := "sym:local@a.tsx#eval@0"

def fetchOf (name : String) (start stop : ℕ) : FetchSite :=
  ⟨⟨"GET".toList, .computed name.toList⟩, some "sym:local@a.tsx#__cgeval0", "", start, stop⟩

/-- `eval("fetch(a); fetch(b)")`. -/
def repository : Repository :=
  ⟨[("a.tsx", .eval ⟨5, 25, fun _ => wrapper⟩ (.own [] [fetchOf "a" 23 31, fetchOf "b" 33 41])
      (.own [] []))], []⟩

def id : SourceId := ⟨"local", "workdir", fun _ => Ingest.Sample.noHash ""⟩

end Sample

/-- The gaps of the two requests have one id. -/
theorem shared_gap : ¬OwnGaps (fun _ => none) Sample.id Sample.repository [] := by
  rintro ⟨-, -, hnodup⟩
  rw [gapIds_stitchFetches] at hnodup
  have hsites : (Sample.repository.fetchSites.filter fun s =>
      !s.call.resolves (fun _ => none) Sample.id []) = Sample.repository.fetchSites := rfl
  rw [hsites, List.nodup_append] at hnodup
  exact absurd hnodup.2.1 (List.not_nodup_cons_of_mem (List.mem_singleton.mpr rfl))

end Events

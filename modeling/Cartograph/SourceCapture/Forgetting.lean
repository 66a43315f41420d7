/-
Forgetting a source.

A source is forgotten when the caller names exactly its captures, in order.  What it alone
referenced goes with it; what any other source references stays, so that other sources read
as before.

* `forgetIn_ok`, `forgetIn_total` — what a deletion has removed, and when it goes through;
* `loadCapture_congr`, `readSpan_congr` — a read depends on one row and its objects;
* `forgetIn_sound` — the invariant is kept.
-/
import Cartograph.SourceCapture.Retention

namespace SourceCapture

open Checked

variable {env : Env} {limits : StoreLimits} {s s' : CaptureStore} {source : SourceId}

/-! ### The manifests -/

/-- What a visit of all manifests sees. -/
def inventory (s : CaptureStore) : List (String × CaptureManifest) :=
  s.captures.rows.map fun r => (r.1, r.2.manifest)

theorem mem_inventory {v : String × CaptureManifest} :
    v ∈ inventory s ↔ ∃ row, s.captures.find? v.1 = some row ∧ row.manifest = v.2 := by
  constructor
  · intro h
    obtain ⟨⟨id, row⟩, hr, rfl⟩ := List.mem_map.mp h
    exact ⟨row, Table.find?_eq_some_iff.mpr hr, rfl⟩
  · rintro ⟨row, hrow, hm⟩
    exact List.mem_map.mpr ⟨(v.1, row), Table.find?_eq_some_iff.mp hrow, by rw [hm]⟩

theorem loadManifests_ok : ∀ {rows : List (String × CaptureRow)}
    {visited : List (String × CaptureManifest)},
    (∀ r ∈ rows, s.captures.find? r.1 = some r.2) →
    loadManifests env s (rows.map Prod.fst) = .ok visited →
      visited = rows.map fun r => (r.1, r.2.manifest)
  | [], visited, _, h => (Except.ok.inj h).symm
  | r :: rest, visited, hrows, h => by
    simp only [List.map_cons, loadManifests, bind_eq_ok, pure_eq_ok] at h
    obtain ⟨⟨m, cap⟩, hload, later, hlater, rfl⟩ := h
    have hrow := loadManifest_ok hload
    rw [hrows r (by simp)] at hrow
    obtain rfl := loadManifests_ok (fun r hr => hrows r (List.mem_cons_of_mem _ hr)) hlater
    rw [List.map_cons, Option.some.inj hrow]

theorem visitManifests_ok {visited : List (String × CaptureManifest)}
    (h : visitManifests env s = .ok visited) : visited = inventory s := by
  simp only [visitManifests, bind_eq_ok, ensure_eq_ok] at h
  obtain ⟨_, -, _, -, _, -, h⟩ := h
  exact loadManifests_ok (fun r hr => Table.find?_eq_some_iff.mpr hr) h

theorem loadManifests_total : ∀ {ids : List String},
    (∀ id ∈ ids, ∃ row, s.captures.find? id = some row ∧ SoundRow env s id row) →
      ∃ visited, loadManifests env s ids = .ok visited
  | [], _ => ⟨[], rfl⟩
  | id :: rest, hrows => by
    obtain ⟨row, hrow, hsound⟩ := hrows id (by simp)
    obtain ⟨visited, hvisited⟩ := loadManifests_total fun id hid =>
      hrows id (List.mem_cons_of_mem _ hid)
    refine ⟨(id, row.manifest) :: visited, ?_⟩
    simp only [loadManifests, bind_eq_ok, pure_eq_ok]
    exact ⟨_, loadManifest_sound hrow hsound, visited, hvisited, rfl⟩

theorem visitManifests_sound (hlimits : limits.validate = .ok ()) (hs : Sound env limits s) :
    visitManifests env s = .ok (inventory s) := by
  obtain ⟨hbytes, hcaptures⟩ := ensure_eq_ok.mp hlimits
  have hrow : ∀ r ∈ s.captures.rows, SoundRow env s r.1 r.2 :=
    fun r hr => hs.row _ _ (Table.find?_eq_some_iff.mpr hr)
  obtain ⟨visited, hvisited⟩ : ∃ visited,
      loadManifests env s (s.captures.rows.map Prod.fst) = .ok visited := by
    refine loadManifests_total fun id hid => ?_
    obtain ⟨r, hr, rfl⟩ := List.mem_map.mp hid
    exact ⟨r.2, Table.find?_eq_some_iff.mpr hr, hrow r hr⟩
  have hvisit : visitManifests env s = .ok visited := by
    simp only [visitManifests, bind_eq_ok, ensure_eq_ok]
    refine ⟨(), hs.count.trans hcaptures, (), ?_, (), ?_, hvisited⟩
    · intro r hr
      have hid : (Json.utf8 r.1).length = 75 := (hrow r hr).identity ▸ length_manifestId _
      exact ⟨hid, (hrow r hr).size, (hrow r hr).cap⟩
    · have hsum := hs.bytes
      omega
  rw [hvisit, visitManifests_ok hvisit]

/-! ### What is removed -/

theorem deleteCaptures_ok : ∀ {ids : List String} {t t' : Table String CaptureRow},
    deleteCaptures ids t = .ok t' →
      ∀ id, t'.find? id = if id ∈ ids then none else t.find? id
  | [], t, t', h => by
    obtain rfl := Except.ok.inj h
    simp
  | first :: rest, t, t', h => by
    simp only [deleteCaptures, bind_eq_ok, ensure_eq_ok] at h
    obtain ⟨_, -, hrest⟩ := h
    intro id
    rw [deleteCaptures_ok hrest id, Table.find?_erase]
    by_cases hid : id = first
    · simp [hid]
    · simp [hid]

theorem deleteCaptures_total : ∀ {ids : List String} {t : Table String CaptureRow},
    ids.Nodup → (∀ id ∈ ids, (t.find? id).isSome = true) → ∃ t', deleteCaptures ids t = .ok t'
  | [], t, _, _ => ⟨t, rfl⟩
  | first :: rest, t, hnodup, hstored => by
    obtain ⟨hfresh, hnodup'⟩ := List.nodup_cons.mp hnodup
    obtain ⟨t', ht'⟩ : ∃ t', deleteCaptures rest (t.erase first) = .ok t' := by
      refine deleteCaptures_total hnodup' fun id hid => ?_
      have hne : id ≠ first := fun heq => hfresh (heq ▸ hid)
      rw [Table.find?_erase, if_neg hne]
      exact hstored id (List.mem_cons_of_mem _ hid)
    refine ⟨t', ?_⟩
    simp only [deleteCaptures, bind_eq_ok, ensure_eq_ok]
    exact ⟨(), hstored first (by simp), ht'⟩

/-- A capture of the source references the digest. -/
def Owns (s : CaptureStore) (source : SourceId) (digest : String) : Prop :=
  ∃ id row, s.captures.find? id = some row ∧ row.manifest.sourceId = source
    ∧ digest ∈ digests row.manifest

/-- A capture of another source does. -/
def Shares (s : CaptureStore) (source : SourceId) (digest : String) : Prop :=
  ∃ id row, s.captures.find? id = some row ∧ row.manifest.sourceId ≠ source
    ∧ digest ∈ digests row.manifest

variable {digest id : String}

theorem mem_digests_filter {p : CaptureManifest → Bool} :
    digest ∈ ((inventory s).filter fun v => p v.2).flatMap (fun v => digests v.2)
      ↔ ∃ id row, s.captures.find? id = some row ∧ p row.manifest = true
        ∧ digest ∈ digests row.manifest := by
  rw [List.mem_flatMap]
  constructor
  · rintro ⟨v, hv, hmem⟩
    obtain ⟨hv, hp⟩ := List.mem_filter.mp hv
    obtain ⟨row, hrow, hm⟩ := mem_inventory.mp hv
    rw [← hm] at hp hmem
    exact ⟨v.1, row, hrow, hp, hmem⟩
  · rintro ⟨id, row, hrow, hp, hmem⟩
    refine ⟨(id, row.manifest), ?_, hmem⟩
    exact List.mem_filter.mpr ⟨mem_inventory.mpr ⟨row, hrow, rfl⟩, hp⟩

theorem mem_removable :
    digest ∈ (removableObjects source (inventory s)).elements
      ↔ Owns s source digest ∧ ¬Shares s source digest := by
  have hown : digest ∈ ((inventory s).filter fun v => decide (v.2.sourceId = source)).flatMap
      (fun v => digests v.2) ↔ Owns s source digest := by
    refine (mem_digests_filter (p := fun m => decide (m.sourceId = source))).trans ?_
    simp [Owns]
  have hshare : digest ∈ ((inventory s).filter fun v => decide (v.2.sourceId ≠ source)).flatMap
      (fun v => digests v.2) ↔ Shares s source digest := by
    refine (mem_digests_filter (p := fun m => decide (m.sourceId ≠ source))).trans ?_
    simp [Shares]
  rw [OrderedSet.mem_elements, OrderedSet.contains, removableObjects, Table.find?_foldl_erase]
  split
  · rename_i hs
    simp [hshare.mp hs]
  · rename_i hs
    have hof := OrderedSet.contains_ofList (l := ((inventory s).filter fun v =>
      decide (v.2.sourceId = source)).flatMap fun v => digests v.2) (k := digest)
    rw [OrderedSet.contains] at hof
    rw [hof, hown]
    simp [mt hshare.mpr hs]

/-! ### Forgetting -/

/-- The ids of the source's captures, in order. -/
def captureIds (s : CaptureStore) (source : SourceId) : List String :=
  ((inventory s).filter fun v => decide (v.2.sourceId = source)).map Prod.fst

theorem mem_captureIds : id ∈ captureIds s source
    ↔ ∃ row, s.captures.find? id = some row ∧ row.manifest.sourceId = source := by
  constructor
  · intro h
    obtain ⟨v, hv, rfl⟩ := List.mem_map.mp h
    obtain ⟨hv, hsource⟩ := List.mem_filter.mp hv
    obtain ⟨row, hrow, hm⟩ := mem_inventory.mp hv
    exact ⟨row, hrow, by rw [hm]; simpa using hsource⟩
  · rintro ⟨row, hrow, hsource⟩
    refine List.mem_map.mpr ⟨(id, row.manifest), ?_, rfl⟩
    exact List.mem_filter.mpr ⟨mem_inventory.mpr ⟨row, hrow, rfl⟩, by simpa using hsource⟩

theorem captureIds_sorted (s : CaptureStore) (source : SourceId) :
    (captureIds s source).Pairwise (· < ·) := by
  have hsorted : (inventory s).Pairwise fun a b => a.1 < b.1 := List.pairwise_map.mpr s.captures.sorted
  exact List.pairwise_map.mpr (hsorted.filter _)

theorem eq_captureIds_iff {expected : List String} :
    expected = captureIds s source ↔ expected.Pairwise (· < ·)
      ∧ ∀ id, id ∈ expected ↔ ∃ row, s.captures.find? id = some row
        ∧ row.manifest.sourceId = source := by
  constructor
  · rintro rfl
    exact ⟨captureIds_sorted s source, fun id => mem_captureIds⟩
  · rintro ⟨hsorted, hmem⟩
    refine List.Pairwise.eq_of_mem_iff hsorted (captureIds_sorted s source) fun id => ?_
    rw [hmem id, mem_captureIds]

/-- What is left when a source is forgotten. -/
structure Forgotten (source : SourceId) (s s' : CaptureStore) : Prop where
  capture : ∀ id, s'.captures.find? id
    = (s.captures.find? id).filter fun row => decide (row.manifest.sourceId ≠ source)
  removed : ∀ digest, Owns s source digest → ¬Shares s source digest →
    s'.objects.find? digest = none
  object : ∀ digest, ¬(Owns s source digest ∧ ¬Shares s source digest) →
    s'.objects.find? digest = s.objects.find? digest

theorem forgetIn_ok {expected : List String} {n : ℕ}
    (h : forgetIn env source expected s = .ok (n, s')) :
    expected = captureIds s source ∧ Forgotten source s s' := by
  simp only [forgetIn, bind_eq_ok, ensure_eq_ok, pure_eq_ok] at h
  obtain ⟨_, -, _, -, _, -, visited, hvisit, _, hids, captures, hcaptures, heq⟩ := h
  obtain rfl := visitManifests_ok hvisit
  obtain ⟨-, rfl⟩ := Prod.mk.inj heq
  refine ⟨hids.symm, ?_, ?_, ?_⟩
  · intro id
    show captures.find? id = _
    rw [deleteCaptures_ok hcaptures id]
    cases hrow : s.captures.find? id with
    | none => simp
    | some row =>
      have hmem : id ∈ captureIds s source ↔ row.manifest.sourceId = source := by
        rw [mem_captureIds, hrow]
        simp
      by_cases hsource : row.manifest.sourceId = source
      · have hdeleted : id ∈ captureIds s source := hmem.mpr hsource
        rw [captureIds] at hdeleted
        rw [if_pos hdeleted]
        simp [Option.filter, hsource]
      · have hkept : id ∉ captureIds s source := mt hmem.mp hsource
        rw [captureIds] at hkept
        rw [if_neg hkept]
        simp [Option.filter, hsource]
  · intro digest hown hshare
    show (deleteObjects _ s.objects).find? digest = none
    rw [deleteObjects, Table.find?_foldl_erase, if_pos (mem_removable.mpr ⟨hown, hshare⟩)]
  · intro digest hnot
    show (deleteObjects _ s.objects).find? digest = _
    rw [deleteObjects, Table.find?_foldl_erase, if_neg (mt mem_removable.mp hnot)]

theorem forgetIn_total (hlimits : limits.validate = .ok ()) (hs : Sound env limits s) :
    ∃ s', forgetIn env source (captureIds s source) s
      = .ok ((captureIds s source).length, s') := by
  have hsorted := captureIds_sorted s source
  have hrow : ∀ id ∈ captureIds s source, ∃ row, s.captures.find? id = some row := by
    intro id hid
    obtain ⟨row, hrow, -⟩ := mem_captureIds.mp hid
    exact ⟨row, hrow⟩
  have hlen : (captureIds s source).length ≤ MAX_STORED_CAPTURES := by
    obtain ⟨-, hcaptures⟩ := ensure_eq_ok.mp hlimits
    have hcount := hs.count
    have hle : (captureIds s source).length ≤ s.captures.rows.length := by
      rw [captureIds, List.length_map]
      exact (List.length_filter_le _ _).trans (by simp [inventory])
    omega
  have hvalid : ∀ ids : List String, (∀ id ∈ ids, ∃ row, s.captures.find? id = some row) →
      ids.forM validateCaptureId = .ok () := by
    intro ids hids
    induction ids with
    | nil => rfl
    | cons id rest ih =>
      obtain ⟨row, hrow⟩ := hids id (by simp)
      have hid : validateCaptureId id = .ok () :=
        (hs.row id row hrow).identity ▸ validateCaptureId_manifestId _
      exact bind_eq_ok.mpr ⟨(), hid, ih fun id h => hids id (List.mem_cons_of_mem _ h)⟩
  obtain ⟨captures, hcaptures⟩ := deleteCaptures_total (hsorted.imp fun h => ne_of_lt h)
    (t := s.captures) fun id hid => by
      obtain ⟨row, hrow⟩ := hrow id hid
      simp [hrow]
  refine ⟨⟨captures,
    deleteObjects (removableObjects source (inventory s)).elements s.objects⟩, ?_⟩
  simp only [forgetIn, bind_eq_ok, ensure_eq_ok, pure_eq_ok]
  exact ⟨(), hlen, (), hvalid _ hrow, (), hsorted.isChain, _, visitManifests_sound hlimits hs, (),
    rfl, captures, hcaptures, rfl⟩

theorem Forgotten.capture_eq_some {row : CaptureRow} (h : Forgotten source s s') :
    s'.captures.find? id = some row
      ↔ s.captures.find? id = some row ∧ row.manifest.sourceId ≠ source := by
  rw [h.capture id, Option.filter_eq_some_iff]
  simp

theorem Forgotten.referenced_iff (h : Forgotten source s s') :
    Referenced s' digest ↔ Shares s source digest := by
  constructor
  · rintro ⟨id, row, hrow, hmem⟩
    obtain ⟨hrow, hsource⟩ := h.capture_eq_some.mp hrow
    exact ⟨id, row, hrow, hsource, hmem⟩
  · rintro ⟨id, row, hrow, hsource, hmem⟩
    exact ⟨id, row, h.capture_eq_some.mpr ⟨hrow, hsource⟩, hmem⟩

theorem Forgotten.object_of_referenced (h : Forgotten source s s') (href : Referenced s' digest) :
    s'.objects.find? digest = s.objects.find? digest :=
  h.object digest fun hown => hown.2 (h.referenced_iff.mp href)

theorem Forgotten.object_of_not_referenced (hs : Sound env limits s) (h : Forgotten source s s')
    (href : ¬Referenced s' digest) :
    s'.objects.find? digest = none := by
  have hshare : ¬Shares s source digest := mt h.referenced_iff.mpr href
  by_cases hown : Owns s source digest
  · exact h.removed digest hown hshare
  · -- No capture referenced it, so it was not there.
    rw [h.object digest fun hboth => hown hboth.1]
    cases hraw : s.objects.find? digest with
    | none => rfl
    | some raw =>
      obtain ⟨id, row, hrow, hmem⟩ := hs.referenced digest raw hraw
      by_cases hsource : row.manifest.sourceId = source
      · exact absurd ⟨id, row, hrow, hsource, hmem⟩ hown
      · exact absurd ⟨id, row, hrow, hsource, hmem⟩ hshare

/-- **Forgetting a source keeps the invariant.** -/
theorem forgetIn_sound (hs : Sound env limits s) (h : Forgotten source s s') :
    Sound env limits s' := by
  have hcaptures : s'.captures
      = s.captures.filter fun _ row => decide (row.manifest.sourceId ≠ source) :=
    Table.ext_find? fun id => by rw [h.capture id, Table.find?_filter]
  have hobjects : s'.objects.rows.Sublist s.objects.rows := by
    classical
    have hfilter : s'.objects = s.objects.filter fun digest _ => decide (Referenced s' digest) := by
      refine Table.ext_find? fun digest => ?_
      rw [Table.find?_filter]
      by_cases href : Referenced s' digest
      · rw [h.object_of_referenced href]
        cases hraw : s.objects.find? digest with
        | none => rfl
        | some raw => simp [Option.filter, href]
      · rw [h.object_of_not_referenced hs href]
        simp [href]
    rw [hfilter]
    exact List.filter_sublist
  have hrows : s'.captures.rows.Sublist s.captures.rows := by
    rw [hcaptures]
    exact List.filter_sublist
  refine ⟨?_, ?_, hrows.length_le.trans hs.count, ?_⟩
  · intro id row hrow
    obtain ⟨hold, hsource⟩ := h.capture_eq_some.mp hrow
    have hsound := hs.row id row hold
    refine ⟨hsound.identity, hsound.valid, hsound.size, hsound.cap, ?_⟩
    intro entry he
    obtain ⟨raw, hraw, hbound⟩ := hsound.backed entry he
    refine ⟨raw, ?_, hbound⟩
    rw [h.object_of_referenced ⟨id, row, hrow, List.mem_map_of_mem he⟩, hraw]
  · intro digest raw hraw
    by_contra href
    rw [h.object_of_not_referenced hs href] at hraw
    cases hraw
  · have hmanifests : s'.manifestBytes ≤ s.manifestBytes := (hrows.map _).sum_le_sum (by simp)
    have hbytes : s'.objectBytes ≤ s.objectBytes := (hobjects.map _).sum_le_sum (by simp)
    have hsum := hs.bytes
    omega

/-! ### Reads -/

theorem readObject_congr (h : s'.objects.find? digest = s.objects.find? digest) :
    readObject env s' digest = readObject env s digest := by
  simp only [readObject, h]

theorem loadManifest_congr (h : s'.captures.find? id = s.captures.find? id) :
    loadManifest env s' id = loadManifest env s id := by
  simp only [loadManifest, h]

theorem loadBuffers_congr : ∀ {entries : List FileEntry} {buffers : Table String Bytes},
    (∀ entry ∈ entries, s'.objects.find? entry.digest = s.objects.find? entry.digest) →
      loadBuffers env s' entries buffers = loadBuffers env s entries buffers
  | [], _, _ => rfl
  | entry :: rest, buffers, h => by
    have hrest : ∀ buffers, loadBuffers env s' rest buffers = loadBuffers env s rest buffers :=
      fun _ => loadBuffers_congr fun e he => h e (List.mem_cons_of_mem _ he)
    simp only [loadBuffers, readObject_congr (h entry (by simp)), hrest]

/-- The row of a capture and the objects of its entries are the same in both stores. -/
def SameCapture (s s' : CaptureStore) (id : String) : Prop :=
  s'.captures.find? id = s.captures.find? id
    ∧ ∀ row, s.captures.find? id = some row → ∀ entry ∈ row.manifest.files,
      s'.objects.find? entry.digest = s.objects.find? entry.digest

theorem loadCapture_congr (h : SameCapture s s' id) :
    loadCapture env s' id = loadCapture env s id := by
  unfold loadCapture
  rw [loadManifest_congr h.1]
  cases hload : loadManifest env s id with
  | error e => rfl
  | ok p =>
    obtain ⟨m, cap⟩ := p
    have hbuffers : loadBuffers env s' m.files .empty = loadBuffers env s m.files .empty :=
      loadBuffers_congr (h.2 _ (loadManifest_ok hload))
    simp only [bind, Except.bind, hbuffers]

theorem readSpan_congr {reference : CaptureSpanRef} (h : SameCapture s s' reference.file.captureId) :
    readSpan env s' reference = readSpan env s reference := by
  unfold readSpan
  rw [loadManifest_congr h.1]
  cases hload : loadManifest env s reference.file.captureId with
  | error e => rfl
  | ok p =>
    obtain ⟨m, cap⟩ := p
    simp only [bind, Except.bind]
    cases hfind : m.files.find? fun entry => entry.path == reference.file.path with
    | none => rfl
    | some entry =>
      have hentry : s'.objects.find? entry.digest = s.objects.find? entry.digest :=
        h.2 _ (loadManifest_ok hload) entry (List.mem_of_find?_eq_some hfind)
      simp only [orFail, readObject_congr hentry]

theorem Forgotten.sameCapture (h : Forgotten source s s')
    (hother : ∀ row, s.captures.find? id = some row → row.manifest.sourceId ≠ source) :
    SameCapture s s' id := by
  have hcapture : s'.captures.find? id = s.captures.find? id := by
    refine Option.ext fun row => ?_
    rw [h.capture_eq_some]
    exact ⟨And.left, fun hrow => ⟨hrow, hother row hrow⟩⟩
  refine ⟨hcapture, ?_⟩
  intro row hrow entry he
  exact h.object_of_referenced ⟨id, row, hcapture.trans hrow, List.mem_map_of_mem he⟩

end SourceCapture

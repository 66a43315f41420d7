/-
What the capture store retains.

`Sound` is the invariant of the store: every stored manifest is valid and bound to its
identity, every entry of it has its bytes, every object is named by some manifest, and the
limits hold.

* `loadCapture_ok`, `loadCapture_sound` — what a load returns, and that it returns;
* `replay_ok`, `publish_ok` — what a `persist` that succeeds has changed;
* `persistIn_sound`, `persistIn_retains` — it keeps the invariant and the capture.
-/
import Cartograph.SourceCapture.Store

namespace SourceCapture

open Checked Investigation

variable {env : Env} {limits : StoreLimits} {s s' : CaptureStore}

/-! ### The invariant -/

/-- The store has the bytes of an entry. -/
def Backed (env : Env) (s : CaptureStore) (entry : FileEntry) : Prop :=
  ∃ raw, s.objects.find? entry.digest = some raw ∧ Bound env entry raw

structure SoundRow (env : Env) (s : CaptureStore) (id : String) (row : CaptureRow) : Prop where
  identity : manifestId env row.raw = id
  valid : validateManifest row.manifest {} = .ok ()
  size : row.manifest.toJson.size ≤ MAX_MANIFEST_BYTES
  cap : row.maxSpanBytes ≤ MAX_SPAN_BYTES
  backed : ∀ entry ∈ row.manifest.files, Backed env s entry

/-- Some stored manifest names the digest. -/
def Referenced (s : CaptureStore) (digest : String) : Prop :=
  ∃ id row, s.captures.find? id = some row ∧ digest ∈ digests row.manifest

structure Sound (env : Env) (limits : StoreLimits) (s : CaptureStore) : Prop where
  row : ∀ id row, s.captures.find? id = some row → SoundRow env s id row
  referenced : ∀ digest raw, s.objects.find? digest = some raw → Referenced s digest
  count : s.captures.rows.length ≤ limits.maxCaptures
  bytes : s.manifestBytes + s.objectBytes ≤ limits.maxBytes

theorem sound_empty : Sound env limits .empty where
  row _ _ h := by simp [CaptureStore.empty] at h
  referenced _ _ h := by simp [CaptureStore.empty] at h
  count := Nat.zero_le _
  bytes := Nat.zero_le _

theorem Sound.objects_iff (h : Sound env limits s) (digest : String) :
    (s.objects.find? digest).isSome = true ↔ Referenced s digest := by
  constructor
  · intro hsome
    obtain ⟨raw, hraw⟩ := Option.isSome_iff_exists.mp hsome
    exact h.referenced digest raw hraw
  · rintro ⟨id, row, hrow, hmem⟩
    obtain ⟨entry, he, rfl⟩ := List.mem_map.mp hmem
    obtain ⟨raw, hraw, -⟩ := (h.row id row hrow).backed entry he
    simp [hraw]

/-! ### Identities -/

theorem afterLead_append (lead rest : List Char) : afterLead lead (lead ++ rest) = some rest := by
  induction lead with
  | nil => rfl
  | cons c lead ih => simp [afterLead, ih]

theorem isHex_hash (h : Hash) : isHex h.text 64 = true := h.valid

theorem validateCaptureId_manifestId (text : String) :
    validateCaptureId (manifestId env text) = .ok () := by
  have hlead : (manifestId env text).toList
      = "capture-v1:".toList ++ (env.hash (Json.utf8 text)).text.toList := by
    simp [manifestId]
  rw [validateCaptureId, ensure_eq_ok, hlead, afterLead_append]
  simpa using isHex_hash _

theorem length_manifestId (text : String) : (Json.utf8 (manifestId env text)).length = 75 := by
  have hhex := isHex_hash (env.hash (Json.utf8 text))
  simp only [isHex, Bool.and_eq_true, beq_iff_eq] at hhex
  rw [Json.length_utf8] at hhex ⊢
  rw [manifestId, String.utf8ByteSize_append, hhex.1]
  rfl

/-! ### Loading -/

variable {digest k : String} {ν : Type} {t t' : Table String ν} {v : ν}

theorem readObject_ok {o : Option Bytes} (h : readObject env s digest = .ok o) :
    o = s.objects.find? digest := by
  unfold readObject at h
  cases hfind : s.objects.find? digest with
  | none =>
    rw [hfind] at h
    exact (Except.ok.inj h).symm
  | some raw =>
    simp only [hfind, bind_eq_ok, ensure_eq_ok, pure_eq_ok] at h
    obtain ⟨_, -, _, -, rfl⟩ := h
    rfl

theorem readObject_of_hash {raw : Bytes} (hfind : s.objects.find? digest = some raw)
    (hlen : raw.length ≤ MAX_FILE_BYTES) (hhash : (env.hash raw).text = digest) :
    readObject env s digest = .ok (some raw) := by
  simp only [readObject, hfind, bind_eq_ok, ensure_eq_ok, pure_eq_ok]
  exact ⟨(), hlen, (), hhash, trivial⟩

variable {id : String} {row : CaptureRow} {c : Capture}

theorem loadManifest_ok {m : CaptureManifest} {cap : ℕ} (h : loadManifest env s id = .ok (m, cap)) :
    s.captures.find? id = some ⟨m, cap⟩ := by
  simp only [loadManifest, bind_eq_ok, ensure_eq_ok, orFail_eq_ok, pure_eq_ok] at h
  obtain ⟨_, -, row, hrow, _, -, _, -, _, -, _, -, _, -, _, -, heq⟩ := h
  obtain ⟨rfl, rfl⟩ := Prod.mk.inj heq
  exact hrow

theorem loadManifest_sound (hrow : s.captures.find? id = some row) (h : SoundRow env s id row) :
    loadManifest env s id = .ok (row.manifest, row.maxSpanBytes) := by
  have hid : validateCaptureId id = .ok () := h.identity ▸ validateCaptureId_manifestId _
  have htext : canonicalManifest row.manifest MAX_MANIFEST_BYTES = .ok row.raw := by
    simp only [canonicalManifest, bind_eq_ok, ensure_eq_ok, pure_eq_ok]
    exact ⟨(), h.size, rfl⟩
  simp only [loadManifest, bind_eq_ok, ensure_eq_ok, orFail_eq_ok, pure_eq_ok]
  exact ⟨(), hid, row, hrow, (), h.cap, (), h.size, (), h.identity, (), h.valid, row.raw, htext,
    (), rfl, rfl⟩

theorem loadBuffers_ok :
    ∀ {entries : List FileEntry} {buffers result : Table String Bytes},
    (entries.map FileEntry.path).Nodup → loadBuffers env s entries buffers = .ok result →
      (∀ entry ∈ entries, result.find? entry.path = s.objects.find? entry.digest)
      ∧ ∀ path ∉ entries.map FileEntry.path, result.find? path = buffers.find? path
  | [], buffers, result, _, h => by
    obtain rfl := Except.ok.inj h
    exact ⟨fun _ h => absurd h (by simp), fun _ _ => rfl⟩
  | entry :: rest, buffers, result, hnodup, h => by
    simp only [loadBuffers, bind_eq_ok, ensure_eq_ok, orFail_eq_ok] at h
    obtain ⟨found, hfound, raw, hraw, _, -, hrest⟩ := h
    obtain ⟨hfresh, hnodup'⟩ := List.nodup_cons.mp hnodup
    obtain ⟨hentries, hothers⟩ := loadBuffers_ok hnodup' hrest
    refine ⟨?_, ?_⟩
    · intro e he
      rcases List.mem_cons.mp he with rfl | he
      · rw [hothers _ hfresh, Table.find?_put, if_pos rfl, ← readObject_ok hfound, hraw]
      · exact hentries e he
    · intro path hpath
      have hne : path ≠ entry.path := fun heq => hpath (by simp [heq])
      have hrest' : path ∉ rest.map FileEntry.path := fun hmem => hpath (by simp [hmem])
      rw [hothers path hrest', Table.find?_put, if_neg hne]

theorem loadBuffers_total :
    ∀ {entries : List FileEntry} {buffers : Table String Bytes},
    (∀ entry ∈ entries, entry.byteLen ≤ MAX_FILE_BYTES) →
    (∀ entry ∈ entries, Backed env s entry) →
      ∃ result, loadBuffers env s entries buffers = .ok result
  | [], buffers, _, _ => ⟨buffers, rfl⟩
  | entry :: rest, buffers, hlen, hbacked => by
    obtain ⟨raw, hraw, hbound⟩ := hbacked entry (by simp)
    have hle : raw.length ≤ MAX_FILE_BYTES := hbound.length ▸ hlen entry (by simp)
    obtain ⟨result, hresult⟩ : ∃ result,
        loadBuffers env s rest (buffers.put entry.path raw) = .ok result :=
      loadBuffers_total (fun e he => hlen e (List.mem_cons_of_mem _ he))
        (fun e he => hbacked e (List.mem_cons_of_mem _ he))
    refine ⟨result, ?_⟩
    simp only [loadBuffers, bind_eq_ok, ensure_eq_ok, orFail_eq_ok]
    exact ⟨some raw, readObject_of_hash hraw hle hbound.digest, raw, rfl, (), hbound.length, hresult⟩

/-- What a load has read: the row of the capture and its objects. -/
structure Loads (env : Env) (s : CaptureStore) (row : CaptureRow) (c : Capture) : Prop where
  manifest : c.manifest = row.manifest
  cap : c.maxSpanBytes = row.maxSpanBytes
  complete : Complete env c
  bytes : ∀ entry ∈ row.manifest.files,
    (c.files.find? entry.path).map CapturedFile.bytes = s.objects.find? entry.digest

theorem loadCapture_ok (h : loadCapture env s id = .ok c) :
    ∃ row, s.captures.find? id = some row ∧ c.id = id ∧ Loads env s row c := by
  simp only [loadCapture, bind_eq_ok, ensure_eq_ok, pure_eq_ok] at h
  obtain ⟨⟨m, cap⟩, hload, buffers, hbuffers, c', hassemble, _, hid, rfl⟩ := h
  obtain ⟨hm, hcap, hcomplete, hbytes⟩ := assembleCapture_ok hassemble
  have hpaths : (m.files.map FileEntry.path).Nodup := by
    simp only [assembleCapture, bind_eq_ok] at hassemble
    obtain ⟨_, hvalid, -⟩ := hassemble
    exact validateManifest_paths hvalid
  obtain ⟨hentries, -⟩ := loadBuffers_ok hpaths hbuffers
  refine ⟨⟨m, cap⟩, loadManifest_ok hload, hid, hm, hcap, hcomplete, ?_⟩
  intro entry he
  rw [hbytes entry he, hentries entry he]

theorem loadCapture_sound (hrow : s.captures.find? id = some row) (h : SoundRow env s id row) :
    ∃ c, loadCapture env s id = .ok c ∧ c.id = id ∧ Loads env s row c := by
  have hpaths := validateManifest_paths h.valid
  obtain ⟨buffers, hbuffers⟩ : ∃ buffers,
      loadBuffers env s row.manifest.files .empty = .ok buffers :=
    loadBuffers_total (validateManifest_byteLen h.valid) h.backed
  obtain ⟨hentries, hothers⟩ := loadBuffers_ok hpaths hbuffers
  have hbound : ∀ entry ∈ row.manifest.files,
      ∃ raw, buffers.find? entry.path = some raw ∧ Bound env entry raw := by
    intro entry he
    obtain ⟨raw, hraw, hbound⟩ := h.backed entry he
    exact ⟨raw, (hentries entry he).trans hraw, hbound⟩
  have hnone : ∀ path ∉ row.manifest.files.map FileEntry.path, buffers.find? path = none :=
    fun path hpath => hothers path hpath
  obtain ⟨files, hfiles⟩ : ∃ files, assembleFiles env row.manifest id
      { maxSpanBytes := row.maxSpanBytes } row.manifest.files buffers .empty = .ok files :=
    assembleFiles_total hpaths hbound hnone
  have hassemble : assembleCapture env row.manifest buffers { maxSpanBytes := row.maxSpanBytes }
      = .ok ⟨id, row.manifest, files, row.maxSpanBytes⟩ := by
    have hid : manifestId env row.manifest.toJson.render = id := h.identity
    simp only [assembleCapture, canonicalManifest, bind_eq_ok, ensure_eq_ok, pure_eq_ok]
    refine ⟨(), validateManifest_cap.mpr ⟨h.cap, h.valid⟩, _, ⟨(), h.size, rfl⟩, files, ?_, ?_⟩
    · rw [hid]
      exact hfiles
    · rw [hid]
  have hload : loadCapture env s id = .ok ⟨id, row.manifest, files, row.maxSpanBytes⟩ := by
    simp only [loadCapture, bind_eq_ok, ensure_eq_ok, pure_eq_ok]
    exact ⟨_, loadManifest_sound hrow h, buffers, hbuffers, _, hassemble, (), rfl, rfl⟩
  obtain ⟨row', hrow', hid, hloads⟩ := loadCapture_ok hload
  obtain rfl := Option.some.inj (hrow.symm.trans hrow')
  exact ⟨_, hload, hid, hloads⟩

/-! ### Persisting -/

theorem insertRow_ok (h : insertRow t k v = .ok t') : t.find? k = none ∧ t' = t.put k v := by
  simp only [insertRow, bind_eq_ok, ensure_eq_ok, pure_eq_ok] at h
  obtain ⟨_, hnone, rfl⟩ := h
  exact ⟨hnone, rfl⟩

theorem sum_insertRow (h : insertRow t k v = .ok t') (f : String × ν → ℕ) :
    (t'.rows.map f).sum = (t.rows.map f).sum + f (k, v) := by
  obtain ⟨hnone, rfl⟩ := insertRow_ok h
  rw [((Table.rows_put_perm v hnone).map f).sum_eq, List.map_cons, List.sum_cons, Nat.add_comm]

/-- What a run of insertions leaves: the rows there were and the new ones, nothing else. -/
structure Inserted (rows : List (String × Bytes)) (t t' : Table String Bytes) : Prop where
  kept : ∀ k v, t.find? k = some v → t'.find? k = some v
  added : ∀ r ∈ rows, t'.find? r.1 = some r.2
  only : ∀ k v, t'.find? k = some v → t.find? k = some v ∨ (k, v) ∈ rows
  sum : (t'.rows.map fun r => r.2.length).sum
    = (t.rows.map fun r => r.2.length).sum + (rows.map fun r => r.2.length).sum

theorem insertObjects_ok : ∀ {rows : List (String × Bytes)} {t t' : Table String Bytes},
    insertObjects rows t = .ok t' → Inserted rows t t'
  | [], t, t', h => by
    obtain rfl := Except.ok.inj h
    exact ⟨fun _ _ h => h, fun _ h => absurd h (by simp), fun _ _ h => .inl h, by simp⟩
  | (digest, raw) :: rest, t, t', h => by
    simp only [insertObjects, bind_eq_ok] at h
    obtain ⟨t1, hinsert, hrest⟩ := h
    have hih := insertObjects_ok hrest
    have hsum := sum_insertRow hinsert fun r => r.2.length
    obtain ⟨hnone, rfl⟩ := insertRow_ok hinsert
    have hfirst : t'.find? digest = some raw := hih.kept digest raw (by simp)
    refine ⟨?_, ?_, ?_, ?_⟩
    · intro k v hk
      have hne : k ≠ digest := fun heq => by simp [heq, hnone] at hk
      exact hih.kept k v (by rw [Table.find?_put, if_neg hne, hk])
    · intro r hr
      rcases List.mem_cons.mp hr with rfl | hr
      · exact hfirst
      · exact hih.added r hr
    · intro k v hk
      rcases hih.only k v hk with hold | hmem
      · rcases Table.find?_put_eq_some.mp hold with ⟨rfl, rfl⟩ | ⟨-, hold⟩
        · exact .inr List.mem_cons_self
        · exact .inl hold
      · exact .inr (List.mem_cons_of_mem _ hmem)
    · rw [hih.sum, hsum, List.map_cons, List.sum_cons]
      omega

/-- What the loop over the files leaves in `missing`. -/
structure Missing (s : CaptureStore) (files : List CapturedFile) (before after : Table String Bytes) :
    Prop where
  kept : ∀ k v, before.find? k = some v → after.find? k = some v
  found : ∀ file ∈ files, s.objects.find? file.reference.digest = some file.bytes
    ∨ after.find? file.reference.digest = some file.bytes
  only : ∀ k v, after.find? k = some v →
    before.find? k = some v ∨ ∃ file ∈ files, file.reference.digest = k

theorem addMissing_ok {file : CapturedFile} {before after : Table String Bytes}
    (h : addMissing file before (s.objects.find? file.reference.digest) = .ok after) :
    Missing s [file] before after := by
  cases hfind : s.objects.find? file.reference.digest with
  | some stored =>
    simp only [hfind, addMissing, bind_eq_ok, ensure_eq_ok, pure_eq_ok] at h
    obtain ⟨_, rfl, rfl⟩ := h
    exact ⟨fun _ _ h => h, by simp [hfind], fun _ _ h => .inl h⟩
  | none =>
    simp only [hfind, addMissing, bind_eq_ok, ensure_eq_ok, pure_eq_ok] at h
    obtain ⟨_, hprior, rfl⟩ := h
    refine ⟨?_, by simp, ?_⟩
    · intro k v hk
      rw [Table.find?_put]
      split
      · rename_i heq
        subst heq
        rw [hprior v hk]
      · exact hk
    · intro k v hk
      rcases Table.find?_put_eq_some.mp hk with ⟨rfl, -⟩ | ⟨-, hold⟩
      · exact .inr ⟨file, List.mem_singleton_self file, rfl⟩
      · exact .inl hold

theorem collectMissing_ok : ∀ {files : List CapturedFile} {before after : Table String Bytes},
    collectMissing env s files before = .ok after → Missing s files before after
  | [], before, after, h => by
    obtain rfl := Except.ok.inj h
    exact ⟨fun _ _ h => h, fun _ h => absurd h (by simp), fun _ _ h => .inl h⟩
  | file :: rest, before, after, h => by
    simp only [collectMissing, bind_eq_ok] at h
    obtain ⟨stored, hread, next, hadd, hrest⟩ := h
    rw [readObject_ok hread] at hadd
    have hfile := addMissing_ok hadd
    have hih := collectMissing_ok hrest
    refine ⟨fun k v hk => hih.kept k v (hfile.kept k v hk), ?_, ?_⟩
    · intro f hf
      rcases List.mem_cons.mp hf with rfl | hf
      · exact (hfile.found f (by simp)).imp_right (hih.kept _ _)
      · exact hih.found f hf
    · intro k v hk
      rcases hih.only k v hk with hnext | ⟨f, hf, hkey⟩
      · rcases hfile.only k v hnext with hbefore | ⟨f, hf, hkey⟩
        · exact .inl hbefore
        · obtain rfl := List.mem_singleton.mp hf
          exact .inr ⟨f, by simp, hkey⟩
      · exact .inr ⟨f, List.mem_cons_of_mem _ hf, hkey⟩

/-- The capture is in the store with its manifest and its bytes, under a cap no wider than
its own. -/
structure Retains (s : CaptureStore) (c : Capture) : Prop where
  row : ∃ row, s.captures.find? c.id = some row ∧ row.manifest = c.manifest
    ∧ row.maxSpanBytes ≤ c.maxSpanBytes
  bytes : ∀ path file, c.files.find? path = some file →
    s.objects.find? file.reference.digest = some file.bytes

/-- The captures of one store are in the other, under caps no wider, with all objects. -/
structure Grows (s s' : CaptureStore) : Prop where
  row : ∀ id row, s.captures.find? id = some row → ∃ row', s'.captures.find? id = some row'
    ∧ row'.manifest = row.manifest ∧ row'.maxSpanBytes ≤ row.maxSpanBytes
  object : ∀ digest raw, s.objects.find? digest = some raw → s'.objects.find? digest = some raw

theorem Backed.grows {entry : FileEntry} (h : Backed env s entry) (hgrows : Grows s s') :
    Backed env s' entry := by
  obtain ⟨raw, hraw, hbound⟩ := h
  exact ⟨raw, hgrows.object _ _ hraw, hbound⟩

theorem Retains.load (hc : Complete env c) (h : Retains s c) (hs : Sound env limits s) :
    ∃ c', loadCapture env s c.id = .ok c' ∧ c'.manifest = c.manifest
      ∧ (∀ path, (c'.files.find? path).map CapturedFile.bytes
        = (c.files.find? path).map CapturedFile.bytes)
      ∧ c'.maxSpanBytes ≤ c.maxSpanBytes := by
  obtain ⟨row, hrow, hmanifest, hcap⟩ := h.row
  obtain ⟨c', hload, hid, hloads⟩ := loadCapture_sound hrow (hs.row _ _ hrow)
  have hsame : c'.manifest = c.manifest := hloads.manifest.trans hmanifest
  refine ⟨c', hload, hsame, ?_, hloads.cap ▸ hcap⟩
  intro path
  by_cases hpath : path ∈ c.manifest.files.map FileEntry.path
  · obtain ⟨entry, he, rfl⟩ := List.mem_map.mp hpath
    obtain ⟨raw, hbound, hfile⟩ := hc.entry entry he
    have hobject := h.bytes _ _ hfile
    rw [hloads.bytes entry (hmanifest ▸ he), hfile]
    exact hobject
  · rw [hc.others path hpath, hloads.complete.others path (hsame ▸ hpath)]

theorem replay_ok (hc : Complete env c) (h : replay env s c = .ok s') :
    ∃ row, s.captures.find? c.id = some row ∧ row.manifest = c.manifest
      ∧ s' = ⟨s.captures.put c.id ⟨row.manifest, min row.maxSpanBytes c.maxSpanBytes⟩, s.objects⟩
      ∧ ∀ path file, c.files.find? path = some file →
        s.objects.find? file.reference.digest = some file.bytes := by
  simp only [replay, bind_eq_ok, ensure_eq_ok] at h
  obtain ⟨stored, hload, _, ⟨hmanifest, hbytes⟩, h⟩ := h
  obtain ⟨row, hrow, hid, hloads⟩ := loadCapture_ok hload
  have hsame : row.manifest = c.manifest := hloads.manifest.symm.trans hmanifest
  rw [hloads.cap] at h
  refine ⟨row, hrow, hsame, ?_, ?_⟩
  · split_ifs at h with hcap
    · simp only [updateCap, bind_eq_ok, orFail_eq_ok, pure_eq_ok] at h
      obtain ⟨row', hrow', rfl⟩ := h
      obtain rfl := Option.some.inj (hrow.symm.trans hrow')
      rfl
    · obtain rfl := pure_eq_ok.mp h
      have hput : s.captures = s.captures.put c.id row := by
        refine Table.ext_find? fun id => ?_
        rw [Table.find?_put]
        split
        · rename_i heq
          rw [heq, hrow]
        · rfl
      have hkeep : min row.maxSpanBytes c.maxSpanBytes = row.maxSpanBytes := not_not.mp hcap
      rw [hkeep, ← hput]
  · intro path file hfile
    obtain ⟨entry, he, rfl, hreference, -⟩ := hc.file hfile
    have hfound := hbytes _ (Table.find?_eq_some_iff.mp hfile)
    rw [hloads.bytes entry (hsame ▸ he)] at hfound
    rw [hreference]
    exact hfound

/-- A publication adds the capture and its missing objects, within the limits. -/
structure Published (limits : StoreLimits) (c : Capture) (s s' : CaptureStore) : Prop where
  fresh : s.captures.find? c.id = none
  captures : s'.captures = s.captures.put c.id ⟨c.manifest, c.maxSpanBytes⟩
  kept : ∀ digest raw, s.objects.find? digest = some raw → s'.objects.find? digest = some raw
  added : ∀ path file, c.files.find? path = some file →
    s'.objects.find? file.reference.digest = some file.bytes
  only : ∀ digest raw, s'.objects.find? digest = some raw → s.objects.find? digest = some raw
    ∨ ∃ path file, c.files.find? path = some file ∧ file.reference.digest = digest
  count : s'.captures.rows.length ≤ limits.maxCaptures
  bytes : s'.manifestBytes + s'.objectBytes ≤ limits.maxBytes

theorem publish_ok (h : publish env limits s c c.manifest.toJson.render = .ok s') :
    Published limits c s s' := by
  simp only [publish, bind_eq_ok, ensure_eq_ok, pure_eq_ok] at h
  obtain ⟨_, -, missing, hmissing, _, -, _, ⟨hcount, htotal⟩, objects, hobjects, captures,
    hcaptures, rfl⟩ := h
  have hmiss := collectMissing_ok hmissing
  have hins := insertObjects_ok hobjects
  have hmsum : (captures.rows.map fun r => r.2.manifest.toJson.size).sum
      = (s.captures.rows.map fun r => r.2.manifest.toJson.size).sum + c.manifest.toJson.size :=
    sum_insertRow hcaptures fun r => r.2.manifest.toJson.size
  obtain ⟨hfresh, hput⟩ := insertRow_ok hcaptures
  refine ⟨hfresh, hput, hins.kept, ?_, ?_, ?_, ?_⟩
  · intro path file hfile
    have hmem : file ∈ c.files.rows.map Prod.snd :=
      List.mem_map_of_mem (Table.find?_eq_some_iff.mp hfile)
    rcases hmiss.found file hmem with hold | hnew
    · exact hins.kept _ _ hold
    · exact hins.added _ (Table.find?_eq_some_iff.mp hnew)
  · intro digest raw hraw
    rcases hins.only digest raw hraw with hold | hmem
    · exact .inl hold
    · rcases hmiss.only digest raw (Table.find?_eq_some_iff.mpr hmem) with hempty | ⟨file, hf, hd⟩
      · simp at hempty
      · obtain ⟨⟨path, f⟩, hr, rfl⟩ := List.mem_map.mp hf
        exact .inr ⟨path, f, Table.find?_eq_some_iff.mpr hr, hd⟩
  · show captures.rows.length ≤ limits.maxCaptures
    rw [hput, (Table.rows_put_perm _ hfresh).length_eq, List.length_cons]
    omega
  · have hosum := hins.sum
    have htext := Json.size_eq c.manifest.toJson
    simp only [CaptureStore.manifestBytes, CaptureStore.objectBytes] at htotal ⊢
    omega

theorem persistIn_cases (h : persistIn env limits c s = .ok s') :
    c.maxSpanBytes ≤ MAX_SPAN_BYTES ∧ validateManifest c.manifest {} = .ok ()
      ∧ c.manifest.toJson.size ≤ MAX_MANIFEST_BYTES
      ∧ (replay env s c = .ok s' ∨ Published limits c s s') := by
  simp only [persistIn, canonicalManifest, bind_eq_ok, ensure_eq_ok, pure_eq_ok] at h
  obtain ⟨_, hvalid, _, ⟨_, hsize, rfl⟩, _, -, h⟩ := h
  obtain ⟨hcap, hvalid⟩ := validateManifest_cap.mp hvalid
  refine ⟨hcap, hvalid, hsize, ?_⟩
  split_ifs at h
  · exact .inl h
  · exact .inr (publish_ok h)

theorem persistIn_retains (hc : Complete env c) (h : persistIn env limits c s = .ok s') :
    Retains s' c := by
  obtain ⟨-, -, -, hreplay | hpub⟩ := persistIn_cases h
  · obtain ⟨row, -, hsame, rfl, hbytes⟩ := replay_ok hc hreplay
    exact ⟨⟨⟨row.manifest, min row.maxSpanBytes c.maxSpanBytes⟩, by simp, hsame,
      min_le_right _ _⟩, hbytes⟩
  · exact ⟨⟨⟨c.manifest, c.maxSpanBytes⟩, by simp [hpub.captures], rfl, le_rfl⟩, hpub.added⟩

theorem persistIn_grows (hc : Complete env c) (h : persistIn env limits c s = .ok s') :
    Grows s s' := by
  obtain ⟨-, -, -, hreplay | hpub⟩ := persistIn_cases h
  · obtain ⟨row, hrow, -, rfl, -⟩ := replay_ok hc hreplay
    refine ⟨?_, fun _ _ h => h⟩
    intro id old hold
    by_cases hid : id = c.id
    · obtain rfl := Option.some.inj (hrow.symm.trans (hid ▸ hold))
      exact ⟨⟨row.manifest, min row.maxSpanBytes c.maxSpanBytes⟩, by simp [hid], rfl,
        min_le_left _ _⟩
    · exact ⟨old, by simpa [hid] using hold, rfl, le_rfl⟩
  · refine ⟨?_, hpub.kept⟩
    intro id old hold
    have hid : id ≠ c.id := fun heq => by simp [heq, hpub.fresh] at hold
    exact ⟨old, by simpa [hpub.captures, hid] using hold, rfl, le_rfl⟩

theorem SoundRow.grows (h : SoundRow env s id row) (hgrows : Grows s s') : SoundRow env s' id row :=
  ⟨h.identity, h.valid, h.size, h.cap, fun entry he => (h.backed entry he).grows hgrows⟩

theorem persistIn_row (hc : Complete env c) (h : persistIn env limits c s = .ok s')
    (hrow : s'.captures.find? c.id = some row) : SoundRow env s' c.id row := by
  obtain ⟨hcap, hvalid, hsize, -⟩ := persistIn_cases h
  have hretains := persistIn_retains hc h
  obtain ⟨row', hrow', hsame, hle⟩ := hretains.row
  obtain rfl := Option.some.inj (hrow.symm.trans hrow')
  refine ⟨?_, hsame ▸ hvalid, hsame ▸ hsize, hle.trans hcap, ?_⟩
  · rw [CaptureRow.raw, hsame, hc.id]
  · intro entry he
    obtain ⟨raw, hbound, hfile⟩ := hc.entry entry (hsame ▸ he)
    exact ⟨raw, hretains.bytes _ _ hfile, hbound⟩

theorem replay_totals (hc : Complete env c) (h : replay env s c = .ok s') :
    s'.captures.rows.length = s.captures.rows.length ∧ s'.manifestBytes = s.manifestBytes
      ∧ s'.objectBytes = s.objectBytes := by
  obtain ⟨row, hrow, -, rfl, -⟩ := replay_ok hc h
  obtain ⟨l1, l2, hrows, hput⟩ := Table.rows_put_of_find?
    ⟨row.manifest, min row.maxSpanBytes c.maxSpanBytes⟩ hrow
  refine ⟨?_, ?_, rfl⟩
  · simp [hrows, hput]
  · simp [CaptureStore.manifestBytes, hrows, hput]

/-- **A persist keeps the invariant.** -/
theorem persistIn_sound (hc : Complete env c) (hs : Sound env limits s)
    (h : persistIn env limits c s = .ok s') : Sound env limits s' := by
  have hgrows := persistIn_grows hc h
  have hrows : ∀ id row, s'.captures.find? id = some row → SoundRow env s' id row := by
    intro id row hrow
    by_cases hid : id = c.id
    · exact hid ▸ persistIn_row hc h (hid ▸ hrow)
    · -- Every other row was there before.
      have hold : s.captures.find? id = some row := by
        obtain ⟨-, -, -, hreplay | hpub⟩ := persistIn_cases h
        · obtain ⟨_, -, -, rfl, -⟩ := replay_ok hc hreplay
          simpa [hid] using hrow
        · simpa [hpub.captures, hid] using hrow
      exact (hs.row id row hold).grows hgrows
  have hreferenced : ∀ {digest : String}, Referenced s digest → Referenced s' digest := by
    rintro digest ⟨id, row, hrow, hmem⟩
    obtain ⟨row', hrow', hsame, -⟩ := hgrows.row id row hrow
    exact ⟨id, row', hrow', hsame ▸ hmem⟩
  obtain ⟨-, -, -, hreplay | hpub⟩ := persistIn_cases h
  · obtain ⟨hcount, hmanifests, hobjects⟩ := replay_totals hc hreplay
    refine ⟨hrows, ?_, hcount ▸ hs.count, by rw [hmanifests, hobjects]; exact hs.bytes⟩
    intro digest raw hraw
    obtain ⟨_, -, -, rfl, -⟩ := replay_ok hc hreplay
    exact hreferenced (hs.referenced digest raw hraw)
  · refine ⟨hrows, ?_, hpub.count, hpub.bytes⟩
    intro digest raw hraw
    rcases hpub.only digest raw hraw with hold | ⟨path, file, hfile, rfl⟩
    · exact hreferenced (hs.referenced digest raw hold)
    · obtain ⟨entry, he, -, hreference, -⟩ := hc.file hfile
      refine ⟨c.id, ⟨c.manifest, c.maxSpanBytes⟩, by simp [hpub.captures], ?_⟩
      rw [hreference]
      exact List.mem_map_of_mem he

end SourceCapture

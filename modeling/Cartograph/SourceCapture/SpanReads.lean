/-
Reading spans (`crates/source-capture/src/{store,lib}.rs`).

The store reads one span without loading the capture it is in: it takes the manifest and
one object.  A loaded capture has every object in memory and checks the same reference
against the file it holds.

* `Complete.file_of_entry` — the file a loaded capture has for an entry;
* `load_of_readSpan`, `readSpan_of_load` — what one way reads, the other reads;
* `span_reads_agree` — in every reachable store.
-/
import Cartograph.SourceCapture.Runs

namespace SourceCapture

open Checked Investigation

variable {env : Env} {limits : StoreLimits} {s : CaptureStore}

/-! ### The file of a reference -/

variable {c : Capture} {reference : CaptureSpanRef} {span : Bytes}

theorem Complete.file_of_entry (h : Complete env c)
    (hvalid : validateManifest c.manifest {} = .ok ()) {entry : FileEntry}
    (he : entry ∈ c.manifest.files) :
    ∃ raw, Bound env entry raw
      ∧ c.file entry.path = .ok ⟨fileRef c.manifest c.id entry, raw, c.maxSpanBytes⟩ := by
  obtain ⟨raw, hbound, hfile⟩ := h.entry entry he
  refine ⟨raw, hbound, ?_⟩
  simp only [Capture.file, bind_eq_ok, orFail_eq_ok]
  exact ⟨(), validateManifest_path hvalid entry he, hfile⟩

/-! ### The two ways -/

theorem load_of_readSpan (hs : Sound env limits s) (h : readSpan env s reference = .ok span) :
    ∃ c, loadCapture env s reference.file.captureId = .ok c ∧ c.readSpan reference = .ok span := by
  simp only [readSpan, bind_eq_ok, ensure_eq_ok, orFail_eq_ok, pure_eq_ok] at h
  obtain ⟨⟨m, cap⟩, hload, entry, hentry, _, hreference, _, hrange, found, hfound, raw, rfl, _, -, _, -,
    hspan⟩ := h
  have hrow := loadManifest_ok hload
  have hsound := hs.row _ _ hrow
  obtain ⟨c, hc, hid, hloads⟩ := loadCapture_sound hrow hsound
  have hm : c.manifest = m := hloads.manifest
  have hcap : c.maxSpanBytes = cap := hloads.cap
  have he : entry ∈ m.files := List.mem_of_find?_eq_some hentry
  have hpath : entry.path = reference.file.path := by simpa using List.find?_some hentry
  -- the capture holds the object the store reads
  obtain ⟨held, -, hfile⟩ := hloads.complete.file_of_entry (hm ▸ hsound.valid) (hm ▸ he)
  have hheld : held = raw := by
    have hbytes := hloads.bytes entry he
    rw [← readObject_ok hfound] at hbytes
    simp only [Capture.file, bind_eq_ok, orFail_eq_ok] at hfile
    obtain ⟨_, -, hfile⟩ := hfile
    rw [hfile] at hbytes
    exact Option.some.inj hbytes
  refine ⟨c, hc, ?_⟩
  simp only [Capture.readSpan, bind_eq_ok, ensure_eq_ok, pure_eq_ok]
  refine ⟨_, hpath ▸ hfile, (), ?_, (), ?_, ?_⟩
  · show reference.file = fileRef c.manifest c.id entry
    rw [hm, hid]
    exact hreference
  · show validateRange reference.byteStart reference.byteEnd entry.byteLen c.maxSpanBytes = .ok ()
    rw [hcap]
    exact hrange
  · rw [hheld]
    exact hspan

theorem readSpan_of_load (hs : Sound env limits s)
    (hc : loadCapture env s reference.file.captureId = .ok c) (h : c.readSpan reference = .ok span)
    : readSpan env s reference = .ok span := by
  obtain ⟨row, hrow, hid, hloads⟩ := loadCapture_ok hc
  have hsound := hs.row _ _ hrow
  simp only [Capture.readSpan, Capture.file, bind_eq_ok, ensure_eq_ok, orFail_eq_ok,
    pure_eq_ok] at h
  obtain ⟨file, ⟨_, -, hfile⟩, _, hreference, _, hrange, hspan⟩ := h
  obtain ⟨entry, he, hpath, hbinding, hbound⟩ := hloads.complete.file hfile
  have hcap : file.maxSpanBytes = row.maxSpanBytes := by
    obtain ⟨raw, -, hentry⟩ := hloads.complete.entry entry he
    rw [hpath, hfile] at hentry
    rw [Option.some.inj hentry]
    exact hloads.cap
  rw [hloads.manifest] at he hbinding
  have hfound : s.objects.find? entry.digest = some file.bytes := by
    rw [← hloads.bytes entry he, hpath, hfile]
    rfl
  have hlen : file.bytes.length ≤ MAX_FILE_BYTES := by
    rw [hbound.length]
    exact validateManifest_byteLen hsound.valid entry he
  have hentry : (row.manifest.files.find? fun e => e.path == reference.file.path) = some entry := by
    rw [← hpath]
    exact Table.find?_distinct (validateManifest_paths hsound.valid) he rfl
  simp only [readSpan, bind_eq_ok, ensure_eq_ok, orFail_eq_ok, pure_eq_ok]
  refine ⟨_, loadManifest_sound hrow hsound, entry, hentry, (), ?_, (), ?_, _,
    readObject_of_hash hfound hlen hbound.digest, _, rfl, (), hbound.length, (), hbound.git, hspan⟩
  · rw [← hid]
    exact hreference.trans hbinding
  · rw [hbinding, hcap] at hrange
    exact hrange

/-- **Span reads agree with whole-capture reads.**  In every reachable store a span is read
exactly when the capture it names loads and reads it, and to the same bytes. -/
theorem span_reads_agree (h : (CaptureStore.machine env limits).Reachable s)
    (reference : CaptureSpanRef) (span : Bytes) :
    readSpan env s reference = .ok span ↔ ∃ c,
      loadCapture env s reference.file.captureId = .ok c ∧ c.readSpan reference = .ok span := by
  obtain ⟨-, hs⟩ := reachable_sound h
  constructor
  · intro hread
    exact load_of_readSpan hs hread
  · rintro ⟨c, hc, hread⟩
    exact readSpan_of_load hs hc hread

/-- The byte of the one file that the second source of `sampleOps` has. -/
def sampleSpan : CaptureSpanRef :=
  ⟨⟨sampleTwo, (sampleCapture sampleTwo).id, "a.ts",
    "17762fddd969a453925d65717ac3eea21320b66b54342fde15128d6caf21215f", 1⟩, 0, 1⟩

/-- It is read of the loaded capture after the first source was forgotten. -/
theorem span_reads_agree_sample :
    ∃ c, loadCapture sampleEnv ((CaptureStore.machine sampleEnv {}).exec .empty sampleOps)
        sampleSpan.file.captureId = .ok c ∧ c.readSpan sampleSpan = .ok [97] := by
  have hlimits : StoreLimits.validate {} = .ok () := by decide
  have hreachable : (CaptureStore.machine sampleEnv {}).Reachable
      ((CaptureStore.machine sampleEnv {}).exec .empty sampleOps) :=
    ⟨_, _, ⟨hlimits, rfl⟩, sample_steps _⟩
  have hread : readSpan sampleEnv ((CaptureStore.machine sampleEnv {}).exec .empty sampleOps)
      sampleSpan = .ok [97] := by decide +kernel
  exact (span_reads_agree hreachable sampleSpan [97]).mp hread

end SourceCapture

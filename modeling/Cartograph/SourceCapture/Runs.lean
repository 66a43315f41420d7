/-
Runs of the capture store.

`step_cases` says once what a call can do: fail and change nothing, persist, forget or
reopen.  The invariant of every reachable store, what a persisted capture reads as later,
and what a deletion removes follow from it:

* `reachable_sound` — every reachable store is sound;
* `retained_later` — a retained capture stays until its source is forgotten;
* `capture_store_invariant`, `forgetSource_exact` — the results.
-/
import Cartograph.SourceCapture.Forgetting

namespace SourceCapture

open Checked Machine Investigation
open CaptureStore (machine)

variable {env : Env} {limits : StoreLimits} {s s' : CaptureStore}
  {out : Except CaptureError Report} {op : Op env}

/-! ### One call -/

variable {fault : Bool} {c : Capture}

theorem commit_ok {α : Type} {a b : α} :
    commit fault a = .ok b ↔ fault = false ∧ a = b := by
  simp only [commit, bind_eq_ok, ensure_eq_ok, pure_eq_ok]
  constructor
  · rintro ⟨_, hfault, rfl⟩
    exact ⟨hfault, rfl⟩
  · rintro ⟨hfault, rfl⟩
    exact ⟨(), hfault, rfl⟩

theorem step_cases (h : (machine env limits).step s op = (s', out)) :
    (∃ e, out = .error e ∧ s' = s)
      ∨ (∃ c hc fault, op = .persist c hc fault ∧ out = .ok .persisted
        ∧ persistIn env limits c s = .ok s')
      ∨ (∃ source expected fault n, op = .forgetSource source expected fault
        ∧ out = .ok (.forgot n) ∧ forgetIn env source expected s = .ok (n, s'))
      ∨ (∃ fault, op = .reopen fault ∧ out = .ok .opened ∧ s' = s) := by
  have htransact : transact (perform env limits op) s = (s', out) := h
  cases out with
  | error e => exact .inl ⟨e, rfl, (transact_error.mp htransact).2⟩
  | ok report =>
    have hperform := transact_ok.mp htransact
    cases op with
    | persist c hc fault =>
      simp only [perform, bind_eq_ok, commit_ok] at hperform
      obtain ⟨s1, hpersist, -, heq⟩ := hperform
      obtain ⟨rfl, rfl⟩ := Prod.mk.inj heq
      exact .inr (.inl ⟨c, hc, fault, rfl, rfl, hpersist⟩)
    | forgetSource source expected fault =>
      simp only [perform, bind_eq_ok, commit_ok] at hperform
      obtain ⟨⟨n, s1⟩, hforget, -, heq⟩ := hperform
      obtain ⟨rfl, rfl⟩ := Prod.mk.inj heq
      exact .inr (.inr (.inl ⟨source, expected, fault, n, rfl, rfl, hforget⟩))
    | reopen fault =>
      simp only [perform, bind_eq_ok, commit_ok] at hperform
      obtain ⟨_, -, -, heq⟩ := hperform
      obtain ⟨rfl, rfl⟩ := Prod.mk.inj heq
      exact .inr (.inr (.inr ⟨fault, rfl, rfl, rfl⟩))

theorem step_persist {hc : Assembled env c}
    (h : (machine env limits).step s (.persist c hc fault) = (s', .ok .persisted)) :
    persistIn env limits c s = .ok s' := by
  obtain ⟨_, herr, -⟩ | ⟨_, _, _, heq, -, hpersist⟩ | ⟨_, _, _, _, heq, -, -⟩ | ⟨_, heq, -, -⟩ :=
    step_cases h
  · cases herr
  · cases heq
    exact hpersist
  · cases heq
  · cases heq

variable {source : SourceId} {tr : List (Event CaptureStore (Op env) (Except CaptureError Report))}
  {id : String} {row : CaptureRow}

theorem step_forgetSource {expected : List String} {n : ℕ}
    (h : (machine env limits).step s (.forgetSource source expected fault)
      = (s', .ok (.forgot n))) :
    expected = captureIds s source ∧ Forgotten source s s' := by
  obtain ⟨_, herr, -⟩ | ⟨_, _, _, heq, -, -⟩ | ⟨_, _, _, _, heq, -, hforget⟩ | ⟨_, heq, -, -⟩ :=
    step_cases h
  · cases herr
  · cases heq
  · cases heq
    exact forgetIn_ok hforget
  · cases heq

theorem Assembled.complete (h : Assembled env c) : Complete env c := by
  obtain ⟨m, bytes, captureLimits, h⟩ := h
  exact (assembleCapture_ok h).2.2.1

theorem step_sound (hs : Sound env limits s)
    (h : (machine env limits).step s op = (s', out)) : Sound env limits s' := by
  obtain ⟨_, -, rfl⟩ | ⟨c, hc, _, -, -, hpersist⟩ | ⟨_, _, _, _, -, -, hforget⟩ | ⟨_, -, -, rfl⟩ :=
    step_cases h
  · exact hs
  · exact persistIn_sound hc.complete hs hpersist
  · exact forgetIn_sound hs (forgetIn_ok hforget).2
  · exact hs

theorem reachable_sound (h : (machine env limits).Reachable s) :
    limits.validate = .ok () ∧ Sound env limits s := by
  refine h.invariant (P := fun s => limits.validate = .ok () ∧ Sound env limits s) ?_ ?_
  · rintro _ ⟨hlimits, rfl⟩
    exact ⟨hlimits, sound_empty⟩
  · rintro s op s' out ⟨hlimits, hs⟩ - hstep
    exact ⟨hlimits, step_sound hs hstep⟩

/-! ### Persisted captures -/

/-- The event forgets the source. -/
def Forgets (source : SourceId)
    (e : Event CaptureStore (Op env) (Except CaptureError Report)) : Prop :=
  ∃ expected fault n, e.op = .forgetSource source expected fault ∧ e.out = .ok (.forgot n)

theorem Retains.grows (h : Retains s c) (hgrows : Grows s s') : Retains s' c := by
  obtain ⟨row, hrow, hsame, hcap⟩ := h.row
  obtain ⟨row', hrow', hsame', hcap'⟩ := hgrows.row _ _ hrow
  exact ⟨⟨row', hrow', hsame'.trans hsame, hcap'.trans hcap⟩,
    fun path file hfile => hgrows.object _ _ (h.bytes path file hfile)⟩

theorem Retains.forgotten (hc : Complete env c) (h : Retains s c) (hforget : Forgotten source s s')
    (hother : c.manifest.sourceId ≠ source) :
    Retains s' c := by
  obtain ⟨row, hrow, hsame, hcap⟩ := h.row
  have hrow' : s'.captures.find? c.id = some row :=
    hforget.capture_eq_some.mpr ⟨hrow, hsame ▸ hother⟩
  refine ⟨⟨row, hrow', hsame, hcap⟩, ?_⟩
  intro path file hfile
  obtain ⟨entry, he, -, hreference, -⟩ := hc.file hfile
  have hmem : file.reference.digest ∈ digests row.manifest := by
    rw [hreference, hsame]
    exact List.mem_map_of_mem he
  rw [hforget.object_of_referenced ⟨c.id, row, hrow', hmem⟩, h.bytes path file hfile]

theorem retained_later (hc : Complete env c) (h : (machine env limits).Steps s tr s')
    (hkeep : ∀ e ∈ tr, ¬Forgets c.manifest.sourceId e) (hret : Retains s c) : Retains s' c := by
  -- Along the run, call by call.
  induction h with
  | refl => exact hret
  | @snoc tr s1 s2 op out _ _ hstep ih =>
    have hret1 := ih fun e he => hkeep e (List.mem_append_left _ he)
    have hlast := hkeep ⟨s1, op, out, s2⟩ (by simp)
    obtain ⟨_, -, rfl⟩ | ⟨c', hc', _, -, -, hpersist⟩ | ⟨source, expected, fault, n, hop, hout,
      hforget⟩ | ⟨_, -, -, rfl⟩ := step_cases hstep
    · exact hret1
    · exact hret1.grows (persistIn_grows hc'.complete hpersist)
    · refine hret1.forgotten hc (forgetIn_ok hforget).2 ?_
      rintro rfl
      exact hlast ⟨expected, fault, n, hop, hout⟩
    · exact hret1

theorem step_cap (h : (machine env limits).step s op = (s', out)) {row' : CaptureRow}
    (hrow : s.captures.find? id = some row) (hrow' : s'.captures.find? id = some row') :
    row'.manifest = row.manifest ∧ row'.maxSpanBytes ≤ row.maxSpanBytes := by
  have hsame : s'.captures.find? id = s.captures.find? id →
      row'.manifest = row.manifest ∧ row'.maxSpanBytes ≤ row.maxSpanBytes := by
    intro heq
    obtain rfl := Option.some.inj (hrow'.symm.trans (heq.trans hrow))
    exact ⟨rfl, le_rfl⟩
  obtain ⟨_, -, rfl⟩ | ⟨c, hc, _, -, -, hpersist⟩ | ⟨_, _, _, _, -, -, hforget⟩ | ⟨_, -, -, rfl⟩ :=
    step_cases h
  · exact hsame rfl
  · obtain ⟨row'', hrow'', hmanifest, hcap⟩ := (persistIn_grows hc.complete hpersist).row _ _ hrow
    obtain rfl := Option.some.inj (hrow'.symm.trans hrow'')
    exact ⟨hmanifest, hcap⟩
  · obtain ⟨hold, -⟩ := (forgetIn_ok hforget).2.capture_eq_some.mp hrow'
    exact hsame (hrow'.trans hold.symm)
  · exact hsame rfl

theorem cap_later (h : (machine env limits).Steps s tr s') (hrow : s.captures.find? id = some row)
    (hremain : ∀ e ∈ tr, (e.post.captures.find? id).isSome = true) :
    ∃ row', s'.captures.find? id = some row' ∧ row'.manifest = row.manifest
      ∧ row'.maxSpanBytes ≤ row.maxSpanBytes := by
  induction h with
  | refl => exact ⟨row, hrow, rfl, le_rfl⟩
  | @snoc tr s1 s2 op out _ _ hstep ih =>
    obtain ⟨row1, hrow1, hmanifest, hcap⟩ := ih fun e he => hremain e (List.mem_append_left _ he)
    obtain ⟨row2, hrow2⟩ := Option.isSome_iff_exists.mp
      (hremain ⟨s1, op, out, s2⟩ (by simp))
    obtain ⟨hmanifest', hcap'⟩ := step_cap hstep hrow1 hrow2
    exact ⟨row2, hrow2, hmanifest'.trans hmanifest, hcap'.trans hcap⟩

/-! ### A run -/

/-- One file, `a.ts`. -/
def sampleManifest (source : SourceId) : CaptureManifest :=
  ⟨1, source, .workingTree,
    [⟨"a.ts", "17762fddd969a453925d65717ac3eea21320b66b54342fde15128d6caf21215f", 1, none⟩]⟩

def sampleOne : SourceId := ⟨"one", by decide +kernel⟩

def sampleTwo : SourceId := ⟨"two", by decide +kernel⟩

/-- BLAKE3 on the inputs of this run. -/
def sampleHash (bytes : Bytes) : Hash :=
  if bytes = [97] then
    ⟨"17762fddd969a453925d65717ac3eea21320b66b54342fde15128d6caf21215f", by decide +kernel⟩
  else if bytes = Json.utf8 (sampleManifest sampleOne).toJson.render then
    ⟨"3d3ced78649eac4eac6ab3e3ded613418a261a36c2a36363be8c54c12d0011d9", by decide +kernel⟩
  else
    ⟨"28d86643c79cbea434f670298533dd831271f293ca12524fe56cd3550ec37669", by decide +kernel⟩

def sampleEnv : Env := ⟨sampleHash, fun _ => "2e65efe2a145dda7ee51d1741299f848e5bf752e"⟩

/-- A capture of one file, `a`. -/
def sampleCapture (source : SourceId) : Capture :=
  (assembleCapture sampleEnv (sampleManifest source) (Table.empty.put "a.ts" [97]) {}).toOption.getD
    ⟨"", sampleManifest source, .empty, 0⟩

theorem sample_assembled (source : SourceId) (h : (assembleCapture sampleEnv
    (sampleManifest source) (Table.empty.put "a.ts" [97]) {}).toOption.isSome = true) :
    Assembled sampleEnv (sampleCapture source) := by
  refine ⟨sampleManifest source, Table.empty.put "a.ts" [97], {}, ?_⟩
  cases hassemble : assembleCapture sampleEnv (sampleManifest source)
      (Table.empty.put "a.ts" [97]) {} with
  | error e =>
    rw [hassemble] at h
    cases h
  | ok c =>
    rw [sampleCapture, hassemble]
    rfl

theorem sample_assembled_two : Assembled sampleEnv (sampleCapture sampleTwo) :=
  sample_assembled _ (by decide)

/-- Two sources with the same file, of which the first is forgotten. -/
def sampleOps : List (Op sampleEnv) :=
  [.persist (sampleCapture sampleOne) (sample_assembled _ (by decide)) false,
    .persist (sampleCapture sampleTwo) sample_assembled_two false,
    .forgetSource sampleOne [(sampleCapture sampleOne).id] false]

/-- The second call of the run. -/
def samplePersist : Event CaptureStore (Op sampleEnv) (Except CaptureError Report) :=
  let s := (machine sampleEnv {}).exec .empty (sampleOps.take 1)
  let op := .persist (sampleCapture sampleTwo) sample_assembled_two false
  ⟨s, op, ((machine sampleEnv {}).step s op).2,
    ((machine sampleEnv {}).step s op).1⟩

theorem sample_steps (ops : List (Op sampleEnv)) :
    (machine sampleEnv {}).Steps .empty
      ((machine sampleEnv {}).trace .empty ops)
      ((machine sampleEnv {}).exec .empty ops) :=
  steps_exec fun _ _ _ => trivial

/-- The second capture is stored, and the first source is forgotten. -/
theorem sample_outcomes : samplePersist.out = .ok .persisted
    ∧ ((machine sampleEnv {}).step ((machine sampleEnv {}).exec .empty (sampleOps.take 2))
      (.forgetSource sampleOne [(sampleCapture sampleOne).id] false)).2 = .ok (.forgot 1)
    ∧ ∀ row ∈ ((machine sampleEnv {}).exec .empty (sampleOps.take 2)).captures.find?
        (sampleCapture sampleTwo).id, row.manifest.sourceId ≠ sampleOne :=
  ⟨by decide +kernel, by decide +kernel, by decide +kernel⟩

/-! ### The results -/

/-- **The capture store keeps what it was given.**  After any calls: the objects are those
the stored manifests name; a persisted capture whose source was not forgotten since loads
with its manifest and bytes; the cap of a capture that remains never widens; the limits
hold; and a call that failed changed nothing. -/
theorem capture_store_invariant {s₀ s : CaptureStore}
    {tr : List (Event CaptureStore (Op env) (Except CaptureError Report))}
    (h₀ : (machine env limits).init s₀)
    (h : (machine env limits).Steps s₀ tr s) :
    (∀ digest, (s.objects.find? digest).isSome = true
      ↔ ∃ id row, s.captures.find? id = some row ∧ digest ∈ digests row.manifest)
    ∧ (∀ tr₁ e tr₂ c hc fault, tr = tr₁ ++ e :: tr₂ → e.op = .persist c hc fault →
      e.out = .ok .persisted → (∀ e' ∈ tr₂, ¬Forgets c.manifest.sourceId e') →
      ∃ c', loadCapture env s c.id = .ok c' ∧ c'.manifest = c.manifest
        ∧ (∀ path, (c'.files.find? path).map CapturedFile.bytes
          = (c.files.find? path).map CapturedFile.bytes)
        ∧ c'.maxSpanBytes ≤ c.maxSpanBytes)
    ∧ (∀ tr₁ e tr₂ id row row', tr = tr₁ ++ e :: tr₂ → e.pre.captures.find? id = some row →
      (∀ e' ∈ e :: tr₂, (e'.post.captures.find? id).isSome = true) →
      s.captures.find? id = some row' → row'.maxSpanBytes ≤ row.maxSpanBytes)
    ∧ s.captures.rows.length ≤ limits.maxCaptures
    ∧ s.manifestBytes + s.objectBytes ≤ limits.maxBytes
    ∧ ∀ e ∈ tr, (∃ error, e.out = .error error) → e.post = e.pre := by
  obtain ⟨-, hs⟩ := reachable_sound ⟨s₀, tr, h₀, h⟩
  refine ⟨hs.objects_iff, ?_, ?_, hs.count, hs.bytes, ?_⟩
  · intro tr₁ e tr₂ c hc fault htr hop hout hkeep
    obtain ⟨-, -, hstep, hafter⟩ := h.around htr
    rw [hop, hout] at hstep
    have hret := persistIn_retains hc.complete (step_persist hstep)
    exact (retained_later hc.complete hafter hkeep hret).load hc.complete hs
  · intro tr₁ e tr₂ id row row' htr hrow hremain hrow'
    obtain ⟨-, hen, hstep, hafter⟩ := h.around htr
    have hfrom : (machine env limits).Steps e.pre ([e] ++ tr₂) s :=
      (Steps.refl.snoc hen hstep : (machine env limits).Steps e.pre [e] e.post).trans hafter
    obtain ⟨row'', hrow'', -, hcap⟩ := cap_later hfrom hrow hremain
    obtain rfl := Option.some.inj (hrow'.symm.trans hrow'')
    exact hcap
  · rintro e he ⟨error, hout⟩
    obtain ⟨_, _, -, -, -, hstep, -⟩ := h.split he
    rw [hout] at hstep
    exact (transact_error.mp hstep).2

/-- The second capture of `sampleOps` loads after the first was forgotten. -/
theorem capture_store_invariant_sample :
    ∃ c', loadCapture sampleEnv ((machine sampleEnv {}).exec .empty sampleOps)
        (sampleCapture sampleTwo).id = .ok c'
      ∧ c'.manifest = (sampleCapture sampleTwo).manifest := by
  have hlimits : StoreLimits.validate {} = .ok () := by decide
  have hkeep : ∀ e' ∈ ((machine sampleEnv {}).trace .empty sampleOps).drop 2,
      ¬Forgets (sampleCapture sampleTwo).manifest.sourceId e' := by
    intro e' he
    obtain rfl := List.mem_singleton.mp he
    rintro ⟨expected, fault, n, hop, -⟩
    have hsource : sampleOne = (sampleCapture sampleTwo).manifest.sourceId :=
      (Op.forgetSource.inj hop).1
    exact absurd hsource (by decide)
  obtain ⟨-, hloads, -⟩ := capture_store_invariant ⟨hlimits, rfl⟩ (sample_steps sampleOps)
  have htrace : (machine sampleEnv {}).trace .empty sampleOps
      = List.take 1 ((machine sampleEnv {}).trace .empty sampleOps) ++ samplePersist
        :: List.drop 2 ((machine sampleEnv {}).trace .empty sampleOps) := rfl
  obtain ⟨c', hload, hmanifest, -⟩ := hloads _ _ _ _ sample_assembled_two false htrace rfl
    sample_outcomes.1 hkeep
  exact ⟨c', hload, hmanifest⟩

/-- **Forgetting removes exactly the source.**  In any reachable store the call goes
through exactly when the caller lists the source's captures in order; then the captures of
the source are gone, the objects left are those a remaining capture references, and
captures and spans of other sources read as before.  Otherwise the store is unchanged. -/
theorem forgetSource_exact {s : CaptureStore}
    (h : (machine env limits).Reachable s) (source : SourceId)
    (expected : List String) (fault : Bool) {s' : CaptureStore}
    {out : Except CaptureError Report}
    (hstep : (machine env limits).step s (.forgetSource source expected fault)
      = (s', out)) :
    (fault = false → ((∃ n, out = .ok (.forgot n)) ↔ expected.Pairwise (· < ·)
      ∧ ∀ id, id ∈ expected ↔ ∃ row, s.captures.find? id = some row
        ∧ row.manifest.sourceId = source))
    ∧ ((∃ n, out = .ok (.forgot n)) →
      (∀ id row, s'.captures.find? id = some row
        ↔ s.captures.find? id = some row ∧ row.manifest.sourceId ≠ source)
      ∧ (∀ digest raw, s'.objects.find? digest = some raw ↔ s.objects.find? digest = some raw
        ∧ ∃ id row, s'.captures.find? id = some row ∧ digest ∈ digests row.manifest)
      ∧ (∀ id, (∀ row, s.captures.find? id = some row → row.manifest.sourceId ≠ source) →
        loadCapture env s' id = loadCapture env s id)
      ∧ ∀ reference : CaptureSpanRef, (∀ row, s.captures.find? reference.file.captureId = some row →
        row.manifest.sourceId ≠ source) → readSpan env s' reference = readSpan env s reference)
    ∧ ((¬∃ n, out = .ok (.forgot n)) → s' = s) := by
  obtain ⟨hlimits, hs⟩ := reachable_sound h
  refine ⟨?_, ?_, ?_⟩
  · intro hfault
    rw [← eq_captureIds_iff]
    constructor
    · rintro ⟨n, rfl⟩
      exact (step_forgetSource hstep).1
    · rintro rfl
      -- with the captures as they are, every check of the call succeeds
      obtain ⟨s₁, hforget⟩ : ∃ s₁, forgetIn env source (captureIds s source) s
          = .ok ((captureIds s source).length, s₁) := forgetIn_total hlimits hs
      have hperform : perform env limits (.forgetSource source (captureIds s source) fault) s
          = .ok (.forgot (captureIds s source).length, s₁) := by
        simp only [perform, bind_eq_ok, commit_ok]
        exact ⟨_, hforget, hfault, rfl⟩
      have hok : (s', out) = (s₁, .ok (.forgot (captureIds s source).length)) :=
        hstep.symm.trans (transact_ok.mpr hperform)
      exact ⟨_, (Prod.mk.inj hok).2⟩
  · rintro ⟨n, rfl⟩
    obtain ⟨-, hforgotten⟩ := step_forgetSource hstep
    refine ⟨fun _ _ => hforgotten.capture_eq_some, ?_, ?_, ?_⟩
    · intro digest raw
      by_cases href : Referenced s' digest
      · rw [hforgotten.object_of_referenced href]
        exact ⟨fun hraw => ⟨hraw, href⟩, And.left⟩
      · rw [hforgotten.object_of_not_referenced hs href]
        exact ⟨fun hraw => absurd hraw (by simp), fun hboth => absurd hboth.2 href⟩
    · intro id hother
      exact loadCapture_congr (hforgotten.sameCapture hother)
    · intro reference hother
      exact readSpan_congr (hforgotten.sameCapture hother)
  · intro hnot
    -- only one kind of step forgets
    obtain ⟨_, -, hsame⟩ | ⟨_, _, _, heq, -, -⟩ | ⟨_, _, _, n, -, hout, -⟩ | ⟨_, heq, -, -⟩ :=
      step_cases hstep
    · exact hsame
    · cases heq
    · exact absurd ⟨n, hout⟩ hnot
    · cases heq

/-- What the second source of `sampleOps` reads is the same before and after the first is
forgotten. -/
theorem forgetSource_exact_sample :
    loadCapture sampleEnv ((machine sampleEnv {}).exec .empty sampleOps)
        (sampleCapture sampleTwo).id
      = loadCapture sampleEnv
        ((machine sampleEnv {}).exec .empty (sampleOps.take 2))
        (sampleCapture sampleTwo).id := by
  have hlimits : StoreLimits.validate {} = .ok () := by decide
  have hreachable : (machine sampleEnv {}).Reachable
      ((machine sampleEnv {}).exec .empty (sampleOps.take 2)) :=
    ⟨_, _, ⟨hlimits, rfl⟩, sample_steps _⟩
  obtain ⟨-, hforgot, -⟩ := forgetSource_exact hreachable sampleOne
    [(sampleCapture sampleOne).id] false (Prod.eta _).symm
  obtain ⟨-, hforget, htwo⟩ := sample_outcomes
  obtain ⟨-, -, hload, -⟩ := hforgot ⟨1, hforget⟩
  exact hload _ htwo

end SourceCapture

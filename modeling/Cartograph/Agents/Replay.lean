/-
Replay rejection (`crates/agents/src/investigation/privacy.rs`, `crates/agents/src/staging.rs`).

Prose that a model wrote may not repeat what it was given: not 48 characters of an item in a
row, blanks apart, and not the whole of a shorter one.  The coordinator also looks at what
redaction makes of an item, and refuses prose that redaction would change; the staged
annotation is compared with the items as they are.

* `repeats_iff` — the comparison of windows, as a property of the two texts;
* `rejectReplay_ok` — what passes, exactly;
* `replay_exact` — the verdict is about the joined prose without blanks, within the guards,
  and the staging check has the same one.
-/
import Cartograph.Agents.Staging
import Cartograph.Redaction

namespace Investigation

open Checked

/-! ### Windows -/

theorem mem_windows {α : Type} {n : ℕ} {l part : List α} :
    part ∈ windows n l ↔ part <:+: l ∧ part.length = n := by
  rw [windows, List.mem_filter, List.mem_map]
  constructor
  · rintro ⟨⟨tail, htail, rfl⟩, hlength⟩
    have hsuffix : tail <:+ l := (List.mem_tails _ _).mp htail
    exact ⟨(List.take_prefix n tail).isInfix.trans hsuffix.isInfix, by simpa using hlength⟩
  · rintro ⟨⟨before, after, hl⟩, rfl⟩
    refine ⟨⟨part ++ after, ?_, List.take_left⟩, by simp⟩
    exact (List.mem_tails _ _).mpr ⟨before, by rw [← List.append_assoc, hl]⟩

/-- The prose has 48 characters of the item in a row, or, where that is looked at, the whole
of a shorter item. -/
def Replays (rejectShort : Bool) (output source : List Char) : Prop :=
  (∃ part : List Char, part.length = 48 ∧ part <:+: output ∧ part <:+: source)
    ∨ rejectShort = true ∧ source ≠ [] ∧ source.length < 48 ∧ source <:+: output

variable {rejectShort : Bool} {output : List Char}

theorem repeats_iff {source : List Char} :
    repeats rejectShort output source = true ↔ Replays rejectShort output source := by
  rw [repeats, Replays]
  by_cases hempty : source = []
  · subst hempty
    simp
  rw [if_neg (by simpa using hempty)]
  by_cases hshort : source.length < 48
  · have hnone : ¬∃ part : List Char, part.length = 48 ∧ part <:+: output ∧ part <:+: source := by
      rintro ⟨part, hlength, -, hpart⟩
      have hle := hpart.length_le
      omega
    rw [if_pos hshort, Bool.and_eq_true, List.contains_iff_mem, mem_windows]
    constructor
    · rintro ⟨hreject, hpiece, -⟩
      exact .inr ⟨hreject, hempty, hshort, hpiece⟩
    · rintro (hwindow | ⟨hreject, -, -, hpiece⟩)
      · exact absurd hwindow hnone
      · exact ⟨hreject, hpiece, rfl⟩
  · rw [if_neg hshort, List.any_eq_true]
    constructor
    · rintro ⟨part, hpart, houtput⟩
      obtain ⟨hpiece, hlength⟩ := mem_windows.mp hpart
      rw [List.contains_iff_mem, mem_windows] at houtput
      exact .inl ⟨part, hlength, houtput.1, hpiece⟩
    · rintro (⟨part, hlength, houtput, hpiece⟩ | ⟨-, -, hlt, -⟩)
      · refine ⟨part, mem_windows.mpr ⟨hpiece, hlength⟩, ?_⟩
        rw [List.contains_iff_mem, mem_windows]
        exact ⟨houtput, hlength⟩
      · exact absurd hlt hshort

/-! ### What passes -/

variable {env : Env}

theorem joinProse_ok : ∀ {parts : List String} {joined result : String},
    joined.utf8ByteSize ≤ MAX_INPUT_BYTES →
    (joinProse env joined parts = .ok result ↔
      (∀ part ∈ parts, (env.redactText part).2 = 0)
        ∧ joined.utf8ByteSize + (parts.map String.utf8ByteSize).sum ≤ MAX_INPUT_BYTES
        ∧ result = parts.foldl (· ++ ·) joined)
  | [], joined, result, hjoined => by
    rw [joinProse, pure_eq_ok, List.foldl_nil]
    simp [hjoined, eq_comm]
  | part :: rest, joined, result, hjoined => by
    simp only [joinProse, bind_eq_ok, ensure_eq_ok, List.forall_mem_cons, List.map_cons,
      List.sum_cons, List.foldl_cons]
    have hsize : (joined ++ part).utf8ByteSize = joined.utf8ByteSize + part.utf8ByteSize :=
      String.utf8ByteSize_append
    constructor
    · rintro ⟨⟨⟩, hfits, ⟨⟩, hclean, hrest⟩
      obtain ⟨hrest, hbytes, hresult⟩ := (joinProse_ok (by omega)).mp hrest
      exact ⟨⟨hclean, hrest⟩, by omega, hresult⟩
    · rintro ⟨⟨hclean, hrest⟩, hbytes, hresult⟩
      refine ⟨(), by omega, (), hclean, (joinProse_ok (by omega)).mpr ⟨hrest, by omega, hresult⟩⟩

/-- An item that the prose does not repeat, nor what redaction makes of it. -/
def Unrepeated (env : Env) (rejectShort : Bool) (output : List Char) (item : String) : Prop :=
  ¬Replays rejectShort output (normalize item)
    ∧ ((env.redactText item).2 ≠ 0 →
        ¬Replays rejectShort output (normalize (env.redactText item).1))

theorem rejectSupplied_ok {rejectShort : Bool} {output : List Char} :
    ∀ {supplied : List String} {bytes items : ℕ},
      rejectSupplied env rejectShort output bytes items supplied = .ok () ↔
        (supplied = [] ∨ bytes + (supplied.map String.utf8ByteSize).sum ≤ MAX_INPUT_BYTES
            ∧ items + supplied.length ≤ 16384)
          ∧ ∀ item ∈ supplied, Unrepeated env rejectShort output item
  | [], _, _ => by simp [rejectSupplied, pure_eq_ok]
  | item :: rest, bytes, items => by
    have hrepeats : ∀ source, repeats rejectShort output source = false
        ↔ ¬Replays rejectShort output source := by
      intro source
      rw [← repeats_iff, Bool.not_eq_true]
    simp only [rejectSupplied, bind_eq_ok, ensure_eq_ok, List.forall_mem_cons, List.map_cons,
      List.sum_cons, List.length_cons, rejectSupplied_ok, hrepeats, Unrepeated, ne_eq]
    constructor
    · rintro ⟨⟨⟩, ⟨hbytes, hitems⟩, ⟨⟩, hitem, ⟨⟩, hredacted, hbounds, hrest⟩
      refine ⟨.inr ?_, ⟨hitem, fun h => hredacted.resolve_left h⟩, hrest⟩
      rcases hbounds with rfl | hbounds
      · exact ⟨by simpa using hbytes, by simpa using hitems⟩
      · exact ⟨by omega, by omega⟩
    · rintro ⟨hbounds, ⟨hitem, hredacted⟩, hrest⟩
      obtain ⟨hbytes, hitems⟩ := hbounds.resolve_left (by simp)
      exact ⟨(), ⟨by omega, by omega⟩, (), hitem, (), or_iff_not_imp_left.mpr hredacted,
        .inr ⟨by omega, by omega⟩, hrest⟩

/-- The bounds on the texts, and prose that redaction leaves alone. -/
structure Guarded (env : Env) (prose supplied : List String) : Prop where
  clean : ∀ part ∈ prose, (env.redactText part).2 = 0
  proseBytes : (prose.map String.utf8ByteSize).sum ≤ MAX_INPUT_BYTES
  items : supplied.length ≤ 16384
  bytes : (supplied.map String.utf8ByteSize).sum ≤ MAX_INPUT_BYTES

theorem rejectReplay_ok {prose supplied : List String} :
    rejectReplay env rejectShort prose supplied = .ok () ↔
      Guarded env prose supplied
        ∧ ∀ item ∈ supplied, Unrepeated env rejectShort (normalize (String.join prose)) item := by
  have hempty : ("" : String).utf8ByteSize ≤ MAX_INPUT_BYTES := Nat.zero_le _
  simp only [rejectReplay, bind_eq_ok, joinProse_ok hempty, rejectSupplied_ok]
  constructor
  · rintro ⟨joined, ⟨hclean, hprose, rfl⟩, hbounds, hitems⟩
    refine ⟨⟨hclean, by simpa using hprose, ?_, ?_⟩, hitems⟩
    · rcases hbounds with rfl | hbounds
      · simp
      · simpa using hbounds.2
    · rcases hbounds with rfl | hbounds
      · simp
      · simpa using hbounds.1
  · rintro ⟨hguard, hitems⟩
    exact ⟨_, ⟨hguard.clean, by simpa using hguard.proseBytes, rfl⟩,
      .inr ⟨by simpa using hguard.bytes, by simpa using hguard.items⟩, hitems⟩

/-- The same item, as far as the comparison sees. -/
structure SameText (env : Env) (item item' : String) : Prop where
  plain : normalize item = normalize item'
  changed : (env.redactText item).2 = 0 ↔ (env.redactText item').2 = 0
  redacted : normalize (env.redactText item).1 = normalize (env.redactText item').1

theorem SameText.unrepeated {item item' : String} (h : SameText env item item') :
    Unrepeated env rejectShort output item ↔ Unrepeated env rejectShort output item' := by
  rw [Unrepeated, Unrepeated, h.plain, h.redacted, ne_eq, h.changed]

theorem forall_unrepeated {supplied supplied' : List String}
    (h : List.Forall₂ (SameText env) supplied supplied') :
    (∀ item ∈ supplied, Unrepeated env rejectShort output item)
      ↔ ∀ item ∈ supplied', Unrepeated env rejectShort output item := by
  induction h with
  | nil => simp
  | cons hitem _ ih => rw [List.forall_mem_cons, List.forall_mem_cons, hitem.unrepeated, ih]

end Investigation

namespace Agents

open Investigation Checked

/-- The texts a task gives to a model. -/
def AgentTask.texts (t : AgentTask) : List String :=
  t.evidence.map AgentEvidence.text ++ t.candidates.map AgentCandidate.summary

theorem rejectAnnotationReplay_ok {t : AgentTask} { annotation : String} :
    rejectAnnotationReplay t annotation = .ok () ↔
      ∀ item ∈ t.texts, ¬Replays true (normalize annotation) (normalize item) := by
  rw [rejectAnnotationReplay, ensure_eq_ok, List.any_eq_false]
  refine forall₂_congr fun item _ => ?_
  rw [repeats_iff]

/-- **Replay rejection.**  Within the guards, prose passes exactly when it repeats no item and no
redacted one; how it is divided and where its blanks are does not matter.  The staging check
compares with the items alone, so that it agrees where no redacted item is repeated. -/
theorem replay_exact (env : Env) (rejectShort : Bool) (prose supplied : List String) :
    (rejectReplay env rejectShort prose supplied = .ok () ↔
      Guarded env prose supplied
        ∧ ∀ item ∈ supplied, Unrepeated env rejectShort (normalize (String.join prose)) item)
    ∧ (∀ prose' supplied', normalize (String.join prose') = normalize (String.join prose) →
        List.Forall₂ (SameText env) supplied supplied' →
        Guarded env prose supplied → Guarded env prose' supplied' →
        (rejectReplay env rejectShort prose' supplied' = .ok ()
          ↔ rejectReplay env rejectShort prose supplied = .ok ()))
    ∧ ∀ (t : AgentTask) ( annotation : String),
        (rejectAnnotationReplay t annotation = .ok () ↔
          ∀ item ∈ t.texts, ¬Replays true (normalize annotation) (normalize item))
        ∧ (Guarded env [ annotation] t.texts →
            (∀ item ∈ t.texts, (env.redactText item).2 ≠ 0 →
              ¬Replays true (normalize annotation) (normalize (env.redactText item).1)) →
            (rejectAnnotationReplay t annotation = .ok ()
              ↔ rejectReplay env true [ annotation] t.texts = .ok ())) := by
  refine ⟨rejectReplay_ok, fun prose' supplied' hprose hitems hguard hguard' => ?_,
    fun t annotation => ⟨rejectAnnotationReplay_ok, fun hguard hredacted => ?_⟩⟩
  · rw [rejectReplay_ok, rejectReplay_ok, hprose, forall_unrepeated hitems]
    exact and_congr_left fun _ => iff_of_true hguard' hguard
  · have hjoin : String.join [ annotation] = annotation := by simp [String.join]
    rw [rejectReplay_ok, rejectAnnotationReplay_ok, hjoin]
    constructor
    · intro hitems
      exact ⟨hguard, fun item hitem => ⟨hitems item hitem, hredacted item hitem⟩⟩
    · rintro ⟨-, hitems⟩ item hitem
      exact (hitems item hitem).1

namespace Sample

/-- The patterns of redaction, and one hash. -/
def redacting : Env where
  redactText := Redaction.redactText Redaction.Words.plain
  domainHash _ := noHash
  promptFingerprint := noHash

end Sample

/-- A recognised secret in the prose is refused where nothing was supplied, but neither in two
parts nor by the staging check. -/
theorem replay_secret_refused :
    rejectReplay Sample.redacting true ["password=synthetic-value"] [] = .error .sensitiveOutput
      ∧ rejectReplay Sample.redacting true ["pass", "word=synthetic-value"] [] = .ok ()
      ∧ rejectAnnotationReplay { Sample.task [] with candidates := [] } "password=synthetic-value"
        = .ok ()
      ∧ ∀ item ∈ ([] : List String), Unrepeated Sample.redacting true
          (normalize "password=synthetic-value") item := by
  have hsecret : (Redaction.redactText Redaction.Words.plain "password=synthetic-value").2 = 1 := by
    decide
  have hparts : (Redaction.redactText Redaction.Words.plain "pass").2 = 0
      ∧ (Redaction.redactText Redaction.Words.plain "word=synthetic-value").2 = 0 := by
    decide
  refine ⟨?_, ?_, rfl, by simp⟩
  · have hsize : "password=synthetic-value".utf8ByteSize ≤ MAX_INPUT_BYTES := by decide
    have hjoin : joinProse Sample.redacting "" ["password=synthetic-value"]
        = .error .sensitiveOutput := by
      rw [joinProse, ensure_of (by simpa using hsize), ok_bind, bind_eq_error]
      exact .inl (ensure_eq_error.mpr ⟨by simp [Sample.redacting, hsecret], rfl⟩)
    rw [rejectReplay, hjoin]
    rfl
  · refine rejectReplay_ok.mpr ⟨⟨?_, by decide, by decide, by decide⟩, by simp⟩
    simpa [Sample.redacting] using hparts

end Agents

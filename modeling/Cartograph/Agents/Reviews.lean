/-
Runs of the proposal store.

A call does one of three things: it fails and leaves the store, it stages a content under
its id, or it reviews a row at the revision it expects.

* `step_cases` — these three, with what they establish;
* `Kept` — what no call changes in a row;
* `Healthy` — a row that can be staged again and reviewed again;
* `proposal_store` — immutability, idempotence and compare and swap along every run.
-/
import Cartograph.Agents.Staging

namespace Agents

open Investigation Checked

variable {contentHash : String → Hash}

/-! ### Reading a row -/

variable {u : Unit} {c c' : ImmutableContent} {expected : ℕ}

theorem validate_version {c : StageContent} (h : c.validate contentHash = .ok u) :
    c.schemaVersion = 1 := by
  simp only [StageContent.validate, bind_eq_ok, ensure_eq_ok] at h
  obtain ⟨-, ⟨hversion, -⟩, -⟩ := h
  exact hversion

theorem validateV2_version {c : StageContentV2} (h : c.validate contentHash = .ok u) :
    c.base.schemaVersion = 2
      ∧ c.selectedFactsFingerprint = selectedFingerprint contentHash c.sourceBasis := by
  simp only [StageContentV2.validate, bind_eq_ok, ensure_eq_ok] at h
  obtain ⟨-, ⟨hversion, -⟩, -, -, -, -, -, hfingerprint⟩ := h
  exact ⟨hversion, hfingerprint⟩

theorem decode_ok (h : c.decode contentHash = .ok c') :
    c' = c ∧ c.json.size ≤ MAX_STAGED_RECORD_BYTES := by
  simp only [ImmutableContent.decode, checkSize, bind_eq_ok, ensure_eq_ok, pure_eq_ok] at h
  obtain ⟨-, hsize, -, -, rfl⟩ := h
  exact ⟨rfl, hsize⟩

section

variable {row : StoredRow} {id : String} {staged : StagedProposal} {s s' : ProposalStore}
  {now : Timestamp} {skipped : ℕ} {content : ImmutableContent} {decision : ProposalDecision}
  {note : Option String} {op : StagingOp contentHash} {out : Except StagingError StagedProposal}

theorem versionedContent_staged (h : c.decode contentHash = .ok c') (id : String)
    (hrow : row.immutableJson = c) :
    versionedContent contentHash (row.staged id) = .ok c := by
  subst hrow
  simp only [ImmutableContent.decode, bind_eq_ok] at h
  obtain ⟨-, -, _, hvalid, -⟩ := h
  rw [versionedContent, StoredRow.staged]
  cases hcontent : row.immutableJson with
  | v1 c =>
    rw [hcontent] at hvalid
    have hversion := validate_version hvalid
    simp only [ImmutableContent.base, ImmutableContent.sourceBasis, hversion]
    rw [← hversion]
  | v2 c =>
    rw [hcontent, ImmutableContent.validate] at hvalid
    obtain ⟨-, -, hvalid⟩ := bind_eq_ok.mp hvalid
    obtain ⟨hversion, hfingerprint⟩ := validateV2_version hvalid
    simp only [ImmutableContent.base, ImmutableContent.sourceBasis, hversion]
    rw [← hversion, ← hfingerprint]

theorem decodeRow_ok (h : decodeRow contentHash id row = .ok staged) :
    staged = row.staged id ∧ row.immutableJson.json.size ≤ MAX_STAGED_RECORD_BYTES
      ∧ row.immutableJson.identity contentHash = id ∧ checkRecordSize staged = .ok ()
      ∧ versionedContent contentHash staged = .ok row.immutableJson := by
  simp only [decodeRow, bind_eq_ok, ensure_eq_ok, pure_eq_ok] at h
  obtain ⟨-, -, -, -, content, hdecode, -, hidentity, -, -, ⟨⟩, hsize, rfl⟩ := h
  obtain ⟨rfl, hbytes⟩ := decode_ok hdecode
  exact ⟨rfl, hbytes, hidentity, hsize, versionedContent_staged hdecode id rfl⟩

theorem get_ok :
    s.get contentHash id = .ok (some staged) ↔
      ∃ row, s.find? id = some row ∧ decodeRow contentHash id row = .ok staged := by
  rw [ProposalStore.get]
  cases hrow : s.find? id with
  | none => simp
  | some row =>
    cases hdecode : decodeRow contentHash id row with
    | error e | ok p => simp [Except.map, hdecode]

/-! ### What a call does -/

/-- A row that is read, and that has room for a review without a note. -/
structure Healthy (contentHash : String → Hash) (id : String) (row : StoredRow) : Prop where
  decodes : decodeRow contentHash id row = .ok (row.staged id)
  headroom : checkReviewHeadroom (row.staged id) = .ok ()

theorem persistIn_ok (h : persistIn contentHash now skipped content s = .ok (staged, s')) :
    s' = s.insert now skipped (content.identity contentHash) content
      ∧ ((s.find? (content.identity contentHash)).isSome = true ∨ s.nextSequence skipped ≤ I64_MAX)
      ∧ ∃ row, s'.find? (content.identity contentHash) = some row ∧ row.immutableJson = content
        ∧ Healthy contentHash (content.identity contentHash) row
        ∧ staged = row.staged (content.identity contentHash) := by
  simp only [persistIn, bind_eq_ok, ensure_eq_ok, orFail_eq_ok, pure_eq_ok, Prod.mk.injEq] at h
  obtain ⟨-, -, -, hnumber, found, hget, p, rfl, stored, hstored, -, rfl, -, -, ⟨⟩, hheadroom, rfl,
    rfl⟩ := h
  obtain ⟨row, hrow, hdecode⟩ := get_ok.mp hget
  obtain ⟨rfl, -, -, -, hcontent⟩ := decodeRow_ok hdecode
  have hsame := Except.ok.inj (hcontent.symm.trans hstored)
  exact ⟨rfl, hnumber, row, hrow, hsame, ⟨hdecode, hheadroom⟩, rfl⟩

theorem persistIn_again (hrow : s.find? id = some row) (h : Healthy contentHash id row)
    (now : Timestamp) (skipped : ℕ) :
    persistIn contentHash now skipped row.immutableJson s = .ok (row.staged id, s) := by
  obtain ⟨-, hbytes, hidentity, hsize, hcontent⟩ := decodeRow_ok h.decodes
  have hinsert : s.insert now skipped id row.immutableJson = s := by
    rw [ProposalStore.insert, hrow]
  have hget : s.get contentHash id = .ok (some (row.staged id)) := get_ok.mpr ⟨row, hrow, h.decodes⟩
  simp only [persistIn, checkSize, bind_eq_ok, ensure_eq_ok, orFail_eq_ok, pure_eq_ok, hidentity,
    hinsert]
  exact ⟨(), hbytes, (), .inl (by rw [hrow]; rfl), _, hget, _, rfl, _, hcontent, (), rfl, (), hsize, (),
    h.headroom, rfl⟩

theorem reviewIn_ok (h : reviewIn contentHash now id expected decision note s = .ok (staged, s')) :
    ∃ row, s.find? id = some row ∧ row.reviewRevision = expected
      ∧ s' = s.put id (row.reviewed (expected + 1) decision note now)
      ∧ decodeRow contentHash id (row.reviewed (expected + 1) decision note now) = .ok staged := by
  simp only [reviewIn, bind_eq_ok, ensure_eq_ok, orFail_eq_ok, pure_eq_ok, Prod.mk.injEq] at h
  obtain ⟨-, -, found, hget, current, rfl, -, hcurrent, -, -, -, -, found', hget', reviewed, rfl, -, -,
    rfl, rfl⟩ := h
  obtain ⟨row, hrow, hdecode⟩ := get_ok.mp hget
  obtain ⟨rfl, -⟩ := decodeRow_ok hdecode
  have hexpected : row.reviewRevision = expected := hcurrent
  have hupdate : (s.update id expected (expected + 1) decision note now).1
      = s.put id (row.reviewed (expected + 1) decision note now) := by
    rw [ProposalStore.update, hrow]
    exact congrArg Prod.fst (if_pos hexpected)
  rw [hupdate] at hget' ⊢
  obtain ⟨row', hrow', hdecode'⟩ := get_ok.mp hget'
  rw [Table.find?_put, if_pos rfl] at hrow'
  obtain rfl := Option.some.inj hrow'
  exact ⟨row, hrow, hexpected, rfl, hdecode'⟩

theorem Healthy.reviewed (h : Healthy contentHash id row) {revision : ℕ}
    (hdecode : decodeRow contentHash id (row.reviewed revision decision note now) = .ok staged) :
    Healthy contentHash id (row.reviewed revision decision note now) := by
  obtain ⟨rfl, -⟩ := decodeRow_ok hdecode
  exact ⟨hdecode, h.headroom⟩

/-- What one call does. -/
inductive Does (s : ProposalStore) (op : StagingOp contentHash) :
    ProposalStore → Except StagingError StagedProposal → Prop
  | fails (e : StagingError) : Does s op s (.error e)
  | stages (now : Timestamp) (skipped : ℕ) (content : ImmutableContent) (row : StoredRow) :
      op.content = .ok content →
      (s.find? (content.identity contentHash)).isSome = true ∨ s.nextSequence skipped ≤ I64_MAX →
      (s.insert now skipped (content.identity contentHash) content).find?
        (content.identity contentHash) = some row →
      row.immutableJson = content → Healthy contentHash (content.identity contentHash) row →
      Does s op (s.insert now skipped (content.identity contentHash) content)
        (.ok (row.staged (content.identity contentHash)))
  | reviews (now : Timestamp) (id : String) (expected : ℕ) (decision : ProposalDecision)
      (note : Option String) (row : StoredRow) :
      op = .review now id expected decision note → s.find? id = some row →
      row.reviewRevision = expected →
      decodeRow contentHash id (row.reviewed (expected + 1) decision note now)
        = .ok ((row.reviewed (expected + 1) decision note now).staged id) →
      Does s op (s.put id (row.reviewed (expected + 1) decision note now))
        (.ok ((row.reviewed (expected + 1) decision note now).staged id))

theorem does_persist (h : s.stageContent contentHash now skipped op.content = (s', out)) :
    Does s op s' out := by
  cases hcontent : op.content with
  | error e =>
    rw [hcontent] at h
    obtain ⟨rfl, rfl⟩ := Prod.mk.inj h
    exact .fails _
  | ok content =>
    rw [hcontent, ProposalStore.stageContent, ProposalStore.persist] at h
    cases out with
    | error e =>
      obtain ⟨-, rfl⟩ := transact_error.mp h
      exact .fails e
    | ok staged =>
      obtain ⟨rfl, hnumber, row, hrow, hsame, hhealthy, rfl⟩ := persistIn_ok (transact_ok.mp h)
      exact .stages now skipped content row hcontent hnumber hrow hsame hhealthy

theorem step_does (h : s.step op = (s', out)) : Does s op s' out := by
  cases op with
  | stage now skipped task proposal jobId graphSnapshotId => exact does_persist h
  | stagePrepared now skipped task proposal jobId graphSnapshotId => exact does_persist h
  | review now id expected decision note =>
    rw [ProposalStore.step, ProposalStore.review] at h
    cases out with
    | error e =>
      obtain ⟨-, rfl⟩ := transact_error.mp h
      exact .fails e
    | ok staged =>
      obtain ⟨row, hrow, hexpected, rfl, hdecode⟩ := reviewIn_ok (transact_ok.mp h)
      obtain ⟨rfl, -⟩ := decodeRow_ok hdecode
      exact .reviews now id expected decision note row rfl hrow hexpected hdecode

/-! ### Along a run -/

/-- Calls from any number of callers, one transaction after the other. -/
def stagingMachine (contentHash : String → Hash) :
    Machine ProposalStore (StagingOp contentHash) (Except StagingError StagedProposal) where
  init _ := True
  enabled _ _ := True
  step := ProposalStore.step

/-- What stays of a row; its revision only rises. -/
structure Kept (row row' : StoredRow) : Prop where
  sequence : row'.sequence = row.sequence
  immutableJson : row'.immutableJson = row.immutableJson
  createdAt : row'.createdAt = row.createdAt
  revision : row.reviewRevision ≤ row'.reviewRevision

theorem Kept.refl (row : StoredRow) : Kept row row := ⟨rfl, rfl, rfl, Nat.le_refl _⟩

theorem Kept.trans {r1 r2 r3 : StoredRow} (h : Kept r1 r2) (h' : Kept r2 r3) : Kept r1 r3 :=
  ⟨h'.sequence.trans h.sequence, h'.immutableJson.trans h.immutableJson,
    h'.createdAt.trans h.createdAt, h.revision.trans h'.revision⟩

theorem find?_insert {id' : String} (h : s.find? id = some row) :
    (s.insert now skipped id' content).find? id = some row := by
  rw [ProposalStore.insert]
  cases hrow : s.find? id' with
  | some _ => exact h
  | none =>
    have hne : id ≠ id' := by
      rintro rfl
      rw [h] at hrow
      exact absurd hrow (by simp)
    rw [Table.find?_put, if_neg hne, h]

theorem Does.kept (h : Does s op s' out) (hrow : s.find? id = some row) :
    ∃ row', s'.find? id = some row' ∧ Kept row row'
      ∧ (Healthy contentHash id row → Healthy contentHash id row') := by
  cases h with
  | fails e => exact ⟨row, hrow, .refl row, fun h => h⟩
  | stages now skipped content _ => exact ⟨row, find?_insert hrow, .refl row, fun h => h⟩
  | reviews now id' expected decision note row' _ hrow' hexpected hdecode =>
    rw [Table.find?_put]
    split_ifs with hid
    · subst hid
      obtain rfl : row = row' := Option.some.inj (hrow.symm.trans hrow')
      refine ⟨_, rfl, ⟨rfl, rfl, rfl, ?_⟩, fun h => h.reviewed hdecode⟩
      show row.reviewRevision ≤ expected + 1
      omega
    · exact ⟨row, hrow, .refl row, fun h => h⟩

theorem Does.failed {e : StagingError} (h : Does s op s' (.error e)) : s' = s := by
  cases h with
  | fails e => rfl

theorem steps_kept
    {tr : List (Machine.Event ProposalStore (StagingOp contentHash) (Except StagingError StagedProposal))}
    (h : (stagingMachine contentHash).Steps s tr s') (hrow : s.find? id = some row) :
    ∃ row', s'.find? id = some row' ∧ Kept row row'
      ∧ (Healthy contentHash id row → Healthy contentHash id row') := by
  induction h with
  | refl => exact ⟨row, hrow, .refl row, fun h => h⟩
  | snoc _ _ hst ih =>
    obtain ⟨row1, hrow1, hkept, hhealthy⟩ := ih
    obtain ⟨row2, hrow2, hkept', hhealthy'⟩ := (step_does hst).kept hrow1
    exact ⟨row2, hrow2, hkept.trans hkept', fun h => hhealthy' (hhealthy h)⟩

theorem step_content (h : op.content = .ok content) :
    ∃ now skipped, s.step op = s.persist contentHash now skipped content := by
  cases op with
  | stage now skipped | stagePrepared now skipped =>
    refine ⟨now, skipped, ?_⟩
    rw [StagingOp.content] at h
    rw [ProposalStore.step, h, ProposalStore.stageContent]
  | review now id expected decision note => exact absurd h (by simp [StagingOp.content])

theorem stage_row (h : op.content = .ok content) (hstep : s.step op = (s', .ok staged)) :
    ∃ row, s'.find? (content.identity contentHash) = some row ∧ row.immutableJson = content
      ∧ Healthy contentHash (content.identity contentHash) row := by
  obtain ⟨now, skipped, hpersist⟩ := step_content (s := s) h
  rw [hpersist] at hstep
  obtain ⟨-, -, row, hrow, hsame, hhealthy, -⟩ := persistIn_ok (transact_ok.mp hstep)
  exact ⟨row, hrow, hsame, hhealthy⟩

theorem stage_again (h : op.content = .ok content) (hstep : s.step op = (s', out))
    (hrow : s.find? (content.identity contentHash) = some row) : s' = s := by
  obtain ⟨now, skipped, hpersist⟩ := step_content (s := s) h
  rw [hpersist] at hstep
  cases out with
  | error e => exact (transact_error.mp hstep).2
  | ok staged =>
    obtain ⟨rfl, -⟩ := persistIn_ok (transact_ok.mp hstep)
    rw [ProposalStore.insert, hrow]

theorem review_step
    (h : s.step (.review now id expected decision note : StagingOp contentHash) = (s', .ok staged))
    :
    ∃ row, s.find? id = some row ∧ row.reviewRevision = expected
      ∧ s' = s.put id (row.reviewed (expected + 1) decision note now)
      ∧ staged = (row.reviewed (expected + 1) decision note now).staged id := by
  obtain ⟨row, hrow, hexpected, hs', hdecode⟩ := reviewIn_ok (transact_ok.mp h)
  exact ⟨row, hrow, hexpected, hs', (decodeRow_ok hdecode).1⟩

/-- The proposal store along a run of any calls from any store.  What was staged stays as it was
staged; a failed call changes nothing; a call that stages an id that is there changes nothing, and
succeeds with the current review if its content was staged in the run; a review raises the revision
it expected by one; and no two reviews of a proposal succeed with one expected revision. -/
theorem proposal_store {s₀ s : ProposalStore}
    {tr : List (Machine.Event ProposalStore (StagingOp contentHash) (Except StagingError StagedProposal))}
    (h : (stagingMachine contentHash).Steps s₀ tr s) :
    (∀ id row, s₀.find? id = some row → ∃ row', s.find? id = some row' ∧ Kept row row')
    ∧ (∀ e ∈ tr, ∀ error, e.out = .error error → e.post = e.pre)
    ∧ (∀ e ∈ tr, ∀ content row, e.op.content = .ok content →
      e.pre.find? (content.identity contentHash) = some row → e.post = e.pre)
    ∧ (∀ tr₁ e₁ tr₂ e₂ tr₃ content staged, tr = tr₁ ++ e₁ :: (tr₂ ++ e₂ :: tr₃) →
      e₁.op.content = .ok content → e₁.out = .ok staged → e₂.op.content = .ok content →
      e₂.post = e₂.pre ∧ ∃ row, e₂.pre.find? (content.identity contentHash) = some row
        ∧ e₂.out = .ok (row.staged (content.identity contentHash)))
    ∧ (∀ e ∈ tr, ∀ now id expected decision note staged,
      e.op = .review now id expected decision note → e.out = .ok staged →
      ∃ row, e.pre.find? id = some row ∧ row.reviewRevision = expected
        ∧ e.post = e.pre.put id (row.reviewed (expected + 1) decision note now)
        ∧ staged.reviewRevision = expected + 1)
    ∧ (∀ tr₁ e₁ tr₂ e₂ tr₃ id expected, tr = tr₁ ++ e₁ :: (tr₂ ++ e₂ :: tr₃) →
      (∃ now decision note, e₁.op = .review now id expected decision note) →
      (∃ now decision note, e₂.op = .review now id expected decision note) →
      ∀ staged₁ staged₂, ¬ (e₁.out = .ok staged₁ ∧ e₂.out = .ok staged₂)) := by
  refine ⟨?_, ?_, ?_, ?_, ?_, ?_⟩
  · intro id row hrow
    obtain ⟨row', hrow', hkept, -⟩ := steps_kept h hrow
    exact ⟨row', hrow', hkept⟩
  · intro e he error herror
    obtain ⟨-, -, -, -, -, hstep, -⟩ := h.split he
    rw [herror] at hstep
    exact (step_does hstep).failed
  · intro e he content row hcontent hrow
    obtain ⟨-, -, -, -, -, hstep, -⟩ := h.split he
    exact stage_again hcontent hstep hrow
  · intro tr₁ e₁ tr₂ e₂ tr₃ content staged htr hcontent₁ hout₁ hcontent₂
    obtain ⟨-, -, hstep₁, hrest⟩ := h.around htr
    obtain ⟨hbetween, -, hstep₂, -⟩ := hrest.around rfl
    rw [hout₁] at hstep₁
    -- the row of the first call is kept until the second
    obtain ⟨row₁, hrow₁, hsame, hhealthy⟩ := stage_row hcontent₁ hstep₁
    obtain ⟨row₂, hrow₂, hkept, hhealthy₂⟩ := steps_kept hbetween hrow₁
    obtain ⟨now, skipped, hpersist⟩ := step_content (s := e₂.pre) hcontent₂
    have hcontent : row₂.immutableJson = content := hkept.immutableJson.trans hsame
    -- the row is as the content was staged, so that persisting it finds it
    have hagain : persistIn contentHash now skipped content e₂.pre
        = .ok (row₂.staged (content.identity contentHash), e₂.pre) := by
      have hagain := persistIn_again hrow₂ (hhealthy₂ hhealthy) now skipped
      rwa [hcontent] at hagain
    have hstep : e₂.pre.step e₂.op = (e₂.pre, .ok (row₂.staged (content.identity contentHash))) := by
      rw [hpersist, ProposalStore.persist]
      exact transact_ok.mpr hagain
    obtain ⟨hpost, hout⟩ := Prod.mk.inj (hstep₂.symm.trans hstep)
    exact ⟨hpost, row₂, hrow₂, hout⟩
  · intro e he now id expected decision note staged hop hout
    obtain ⟨-, -, -, -, -, hstep, -⟩ := h.split he
    rw [hop, hout] at hstep
    obtain ⟨row, hrow, hexpected, hpost, rfl⟩ := review_step hstep
    exact ⟨row, hrow, hexpected, hpost, rfl⟩
  · rintro tr₁ e₁ tr₂ e₂ tr₃ id expected htr ⟨now₁, decision₁, note₁, hop₁⟩
      ⟨now₂, decision₂, note₂, hop₂⟩ staged₁ staged₂ ⟨hout₁, hout₂⟩
    obtain ⟨-, -, hstep₁, hrest⟩ := h.around htr
    obtain ⟨hbetween, -, hstep₂, -⟩ := hrest.around rfl
    rw [hop₁, hout₁] at hstep₁
    rw [hop₂, hout₂] at hstep₂
    obtain ⟨row₁, -, -, hpost, -⟩ := review_step hstep₁
    obtain ⟨row₂, hrow₂, hexpected, -, -⟩ := review_step hstep₂
    -- the first review raised the revision, and it never falls
    have hraised : e₁.post.find? id
        = some (row₁.reviewed (expected + 1) decision₁ note₁ now₁) := by
      rw [hpost, Table.find?_put, if_pos rfl]
    obtain ⟨row', hrow', hkept, -⟩ := steps_kept hbetween hraised
    obtain rfl : row' = row₂ := Option.some.inj (hrow'.symm.trans hrow₂)
    have hle : expected + 1 ≤ row'.reviewRevision := hkept.revision
    omega

end

namespace Sample

theorem now_size : "2025-01-01T00:00:00Z".utf8ByteSize = 20 := by decide

theorem now_plain : (Json.utf8 "2025-01-01T00:00:00Z").all Json.plain = true := by decide

def now : Timestamp := ⟨"2025-01-01T00:00:00Z", now_size, now_plain⟩

def stage : StagingOp noHash := .stage now 0 (task ["1", "2"]) (proposal ["1", "2"]) 1 "snapshot"

def content : ImmutableContent :=
  .v1 ⟨1, proposal ["1", "2"], 1, "snapshot", manifest noHash (task ["1", "2"]) 1,
    .workingTreeUnverified⟩

def review (expected : ℕ) (decision : ProposalDecision) : StagingOp noHash :=
  .review now (content.identity noHash) expected decision none

/-- A proposal is staged and reviewed, reviewed late, and staged again. -/
def calls : List (StagingOp noHash) :=
  [stage, review 0 .accepted, review 0 .rejected, stage]

end Sample

theorem proposal_store_calls :
    (((stagingMachine Sample.noHash).exec .empty Sample.calls).find?
        (Sample.content.identity Sample.noHash)).map
      (fun row => (row.reviewRevision, row.reviewDecision)) = some (1, some .accepted)
    ∧ ∀ e ∈ (stagingMachine Sample.noHash).trace .empty Sample.calls, ∀ error,
        e.out = .error error → e.post = e.pre := by
  have hsteps : (stagingMachine Sample.noHash).Steps .empty
      ((stagingMachine Sample.noHash).trace .empty Sample.calls)
      ((stagingMachine Sample.noHash).exec .empty Sample.calls) :=
    Machine.steps_exec fun _ _ _ => trivial
  exact ⟨by decide, (proposal_store hsteps).2.1⟩

end Agents

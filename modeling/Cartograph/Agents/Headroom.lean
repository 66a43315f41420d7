/-
Room for a review (`crates/agents/src/staging.rs`).

A proposal is staged only if its record stays within its bound with the longest review that has
no note.  Every later record without a note is at most as long, so that a review without a note
is never refused for its size.

* `size_fullyReviewed` — no review without a note makes a longer record;
* `Healthy.next` — a row with room is read after its next review;
* `review_headroom` — in every store a run can lead to.
-/
import Cartograph.Agents.Reviews
import Cartograph.Lib.JsonTree

namespace Json

theorem size_obj_mono {l l' : List (String × Json)}
    (h : List.Forall₂ (fun f f' => fieldSize f ≤ fieldSize f') l l') :
    size (.obj l) ≤ size (.obj l') := by
  have hsum : (l.map fun f => 1 + fieldSize f).sum ≤ (l'.map fun f => 1 + fieldSize f).sum := by
    refine List.Forall₂.sum_le_sum ?_
    rw [List.forall₂_map_left_iff, List.forall₂_map_right_iff]
    exact h.imp fun _ _ hle => Nat.add_le_add_left hle 1
  have hlength := h.length_eq
  have hsize := size_obj l
  have hsize' := size_obj l'
  omega

end Json

namespace Agents

open Investigation Checked

variable {contentHash : String → Hash}

/-! ### The longest record -/

/-- A staged proposal under a review without a note. -/
def StagedProposal.withReview (p : StagedProposal) (revision : ℕ) (decision : ProposalDecision)
    (now : Timestamp) : StagedProposal :=
  { p with
    reviewRevision := revision
    reviewDecision := some decision
    reviewNote := none
    reviewedAt := some now.text }

theorem size_str_timestamp (now : Timestamp) : Json.size (.str now.text) = 22 := by
  rw [Json.size, Json.strSize_plain now.plain, now.size]

theorem size_fullyReviewed (p : StagedProposal) {revision : ℕ} (hrevision : revision ≤ I64_MAX)
    (decision : ProposalDecision) (now : Timestamp) :
    (p.withReview revision decision now).toJson.size ≤ p.fullyReviewed.toJson.size := by
  have hnumber : Json.size (.nat revision) ≤ Json.size (.nat I64_MAX) := by
    have hbound : Json.size (.nat revision) ≤ 19 := by
      refine Json.size_nat_le (by omega) ?_
      have hmax : I64_MAX < 10 ^ 19 := by decide
      omega
    have hfull : Json.size (.nat I64_MAX) = 19 := by decide
    omega
  have hdecision : Json.size (.str decision.text) = Json.size (.str ProposalDecision.rejected.text) := by
    cases decision with
    | accepted => decide
    | rejected => rfl
  have htime : Json.size (.str now.text) = Json.size (.str "9999-12-31T23:59:59Z") := by
    rw [size_str_timestamp]
    decide
  have hsame : ∀ l : List (String × Json),
      List.Forall₂ (fun f f' => Json.fieldSize f ≤ Json.fieldSize f') l l := fun l =>
    List.forall₂_same.mpr fun _ _ => le_rfl
  -- the two records differ in the four members of the review
  refine Json.size_obj_mono (List.rel_append (List.rel_append (hsame _) ?_) (hsame _))
  refine .cons le_rfl (.cons le_rfl (.cons le_rfl (.cons le_rfl (.cons le_rfl (.cons ?_
    (.cons ?_ (.cons le_rfl (.cons le_rfl (.cons ?_ .nil)))))))))
  · exact Nat.add_le_add_left hnumber _
  · exact Nat.add_le_add_left hdecision.le _
  · exact Nat.add_le_add_left htime.le _

/-! ### The next review -/

theorem staged_reviewed (id : String) (row : StoredRow) (revision : ℕ)
    (decision : ProposalDecision) (now : Timestamp) :
    (row.reviewed revision decision none now).staged id
      = (row.staged id).withReview revision decision now := rfl

theorem Healthy.next {id : String} {row : StoredRow} (h : Healthy contentHash id row)
    {revision : ℕ} (hpos : 0 < revision) (hrevision : revision ≤ I64_MAX)
    (decision : ProposalDecision) (now : Timestamp) :
    decodeRow contentHash id (row.reviewed revision decision none now)
      = .ok ((row.reviewed revision decision none now).staged id) := by
  have hroom := h.headroom
  have hdecodes := h.decodes
  simp only [checkReviewHeadroom, checkRecordSize, checkSize, ensure_eq_ok] at hroom
  simp only [decodeRow, checkRecordSize, checkSize, bind_eq_ok, ensure_eq_ok, pure_eq_ok] at hdecodes ⊢
  obtain ⟨_, ⟨hid, hbytes, -⟩, _, hsize, content, hdecode, _, hidentity, -⟩ := hdecodes
  have hle := size_fullyReviewed (row.staged id) hrevision decision now
  refine ⟨(), ⟨hid, hbytes, fun note hnote => absurd hnote (by simp [StoredRow.reviewed])⟩, (), hsize,
    content, hdecode, (), hidentity, (), ⟨fun hzero => ?_, fun _ => ⟨by simp [StoredRow.reviewed],
      rfl⟩⟩, (), ?_, trivial⟩
  · have hrevision : revision = 0 := hzero
    omega
  · rw [staged_reviewed]
    exact hle.trans hroom

theorem reviewIn_healthy {s : ProposalStore} {id : String} {row : StoredRow}
    (hrow : s.find? id = some row) (h : Healthy contentHash id row) (now : Timestamp)
    (decision : ProposalDecision) :
    reviewIn contentHash now id row.reviewRevision decision none s =
      if row.reviewRevision < I64_MAX then
        .ok ((row.reviewed (row.reviewRevision + 1) decision none now).staged id,
          s.put id (row.reviewed (row.reviewRevision + 1) decision none now))
      else .error (.invalidMetadata "review revision exhausted") := by
  have hget : s.get contentHash id = .ok (some (row.staged id)) := get_ok.mpr ⟨row, hrow, h.decodes⟩
  have hnote : ∀ n ∈ (none : Option String), n.utf8ByteSize ≤ MAX_STAGED_RECORD_BYTES := by simp
  have hcurrent : (row.staged id).reviewRevision = row.reviewRevision := rfl
  simp only [reviewIn, ensure_of hnote, hget, orFail, ok_bind, ensure_of hcurrent]
  split_ifs with hleft
  · have hdecodes := h.next (Nat.succ_pos _) (Nat.succ_le_of_lt hleft) decision now
    have hupdate : s.update id row.reviewRevision (row.reviewRevision + 1) decision none now
        = (s.put id (row.reviewed (row.reviewRevision + 1) decision none now), 1) := by
      rw [ProposalStore.update, hrow]
      exact if_pos rfl
    have hget' : ProposalStore.get contentHash
        (s.put id (row.reviewed (row.reviewRevision + 1) decision none now)) id
        = .ok (some ((row.reviewed (row.reviewRevision + 1) decision none now).staged id)) :=
      get_ok.mpr ⟨_, by rw [Table.find?_put, if_pos rfl], hdecodes⟩
    obtain ⟨-, -, -, hsize, -⟩ := decodeRow_ok hdecodes
    simp only [ensure_of (Nat.succ_le_of_lt hleft), hupdate, hget', ok_bind, hsize, ensure_of trivial]
    rfl
  · have hexhausted : ¬ row.reviewRevision + 1 ≤ I64_MAX := by omega
    rw [ensure, if_neg hexhausted]
    rfl

/-- **Review headroom.**  After any calls that follow the staging of a proposal, a review of it
without a note at the revision it has is not refused as too large: it goes through while there is
a revision left for it. -/
theorem review_headroom {s₀ s : ProposalStore}
    {tr tr₁ tr₂ : List (Machine.Event ProposalStore (StagingOp contentHash)
      (Except StagingError StagedProposal))}
    {e : Machine.Event ProposalStore (StagingOp contentHash) (Except StagingError StagedProposal)}
    {content : ImmutableContent} {staged : StagedProposal}
    (h : (stagingMachine contentHash).Steps s₀ tr s) (htr : tr = tr₁ ++ e :: tr₂)
    (hcontent : e.op.content = .ok content) (hout : e.out = .ok staged) :
    ∃ row, s.find? (content.identity contentHash) = some row
      ∧ ∀ now decision,
        (∀ bytes, (s.review contentHash now (content.identity contentHash) row.reviewRevision decision
          none).2 ≠ .error (.recordTooLarge bytes))
        ∧ (row.reviewRevision < I64_MAX → ∃ reviewed,
          (s.review contentHash now (content.identity contentHash) row.reviewRevision decision
            none).2 = .ok reviewed) := by
  obtain ⟨-, -, hstep, hrest⟩ := h.around htr
  rw [hout] at hstep
  obtain ⟨row₁, hrow₁, -, hhealthy⟩ := stage_row hcontent hstep
  obtain ⟨row, hrow, -, hkeeps⟩ := steps_kept hrest hrow₁
  refine ⟨row, hrow, fun now decision => ?_⟩
  have hreview := reviewIn_healthy hrow (hkeeps hhealthy) now decision
  by_cases hleft : row.reviewRevision < I64_MAX
  · rw [if_pos hleft] at hreview
    have hok := transact_ok.mpr hreview
    rw [ProposalStore.review, hok]
    exact ⟨fun _ => by simp, fun _ => ⟨_, rfl⟩⟩
  · rw [if_neg hleft] at hreview
    have herror := transact_error.mpr ⟨hreview, rfl⟩
    rw [ProposalStore.review, herror]
    exact ⟨fun _ => by simp, fun hlt => absurd hlt hleft⟩

/-- The proposal that `Sample.calls` stages and reviews has room for another review. -/
theorem review_headroom_calls :
    ∃ row, Table.find? ((stagingMachine Sample.noHash).exec .empty Sample.calls)
        (Sample.content.identity Sample.noHash) = some row
      ∧ ∀ bytes, (ProposalStore.review Sample.noHash
        ((stagingMachine Sample.noHash).exec .empty Sample.calls) Sample.now
        (Sample.content.identity Sample.noHash) row.reviewRevision .rejected none).2
          ≠ .error (.recordTooLarge bytes) := by
  have hsteps : (stagingMachine Sample.noHash).Steps .empty
      ((stagingMachine Sample.noHash).trace .empty Sample.calls)
      ((stagingMachine Sample.noHash).exec .empty Sample.calls) :=
    Machine.steps_exec fun _ _ _ => trivial
  have hcontent : Sample.stage.content = .ok Sample.content := by decide
  have hok : (ProposalStore.step .empty Sample.stage).2.isOk = true := by decide
  cases hout : (ProposalStore.step .empty Sample.stage).2 with
  | error e =>
    rw [hout] at hok
    cases hok
  | ok staged =>
    have hfirst : (stagingMachine Sample.noHash).trace .empty Sample.calls
        = [] ++ ⟨.empty, Sample.stage, (ProposalStore.step .empty Sample.stage).2,
          (ProposalStore.step .empty Sample.stage).1⟩
          :: (stagingMachine Sample.noHash).trace (ProposalStore.step .empty Sample.stage).1
            (Sample.calls.drop 1) := rfl
    obtain ⟨row, hrow, hreview⟩ := review_headroom hsteps hfirst hcontent hout
    exact ⟨row, hrow, (hreview Sample.now .rejected).1⟩

end Agents

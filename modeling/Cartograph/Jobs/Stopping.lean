/-
What the owner of a task is never refused.

A stop is checked against the phase and the revision of the task, and so is a result.
The owner reads the task first, so that only what others do in between can make it stale.

* `stop_refused` — a stop at the current revision, for a reason its phase admits, fails for
  want of capacity only;
* `finish_not_stale` — a result at the current revision of an invocation is not stale;
* `advance_stale` — at another revision everything is.
-/
import Cartograph.Jobs.Ownership

namespace Jobs

open Investigation Checked

/-! ### What can refuse an ending -/

variable {t : StoredTask} {clock : Clock} {d : Draft}

variable {kind : InvestigationEventKind} {step : Option String} {tool : Option InvestigationTool}
  {summary : String} {revision : ℕ} {response : InvestigationResponseMeta} {s : Store}

section Refusals

variable {env : Env} {e : InvestigationStoreError}

theorem encode_refused {value : Json} {maximum : ℕ} (h : encode value maximum = .error e) :
    e = .capacity := (ensure_eq_error.mp h).2.symm

theorem validateTask_refused (hfields : validFields env t)
    (hscope : t.detail.summary.scope.validate = .ok ())
    (hprovider : validateProvider env t.detail.provider = .ok ())
    (husage : validateUsage t.detail.usage t.detail.limits = .ok ()) (hstatus : validStatus t = true
      ∧ (t.detail.summary.hasResult = true ↔ t.detail.summary.status = .completed))
    (hexecution : validExecution t = true) (hpending : validatePending t.pending = .ok ())
    (hpresence : validPresence t) (h : validateTask env t = .error e) : e = .capacity := by
  have hscope' : admitted t.detail.summary.scope.validate = .ok () := admitted_eq_ok.mpr hscope
  simp only [validateTask, ensure_of hfields, hscope', hprovider, husage, ensure_of hstatus,
    ensure_of hexecution, hpending, ensure_of hpresence, ok_bind] at h
  exact encode_refused h

theorem note_refused (hfresh : d.rows.events.find? (d.sequence + 1) = none)
    (h : note clock d kind step tool summary = .error e) : e = .capacity := by
  simp only [note, bump, event, bind_eq_error, bind_eq_ok, ensure_eq_error, ensure_eq_ok,
    pure_eq_ok] at h
  rcases h with (⟨-, rfl⟩ | ⟨_, -, h⟩) | ⟨_, ⟨_, -, rfl⟩, ⟨-, rfl⟩ | ⟨_, -, h | ⟨_, -, ⟨hn, -⟩ |
    ⟨_, -, h⟩⟩⟩⟩
  · rfl
  · exact absurd h pure_ne_error
  · rfl
  · exact encode_refused h
  · exact absurd hfresh hn
  · exact absurd h pure_ne_error

theorem saveTask_refused {d : Draft} {row : TaskRow} {revision : ℕ} {terminal : Bool}
    (hvalid : ∀ e, validateTask env d.task = .error e → e = .capacity)
    (hsigned : d.task.detail.summary.revision ≤ MAX_ROWID ∧ revision ≤ MAX_ROWID)
    (hrow : s.tasks.find? d.task.detail.summary.investigationId = some row)
    (hrevision : row.revision = revision) (h : s.saveTask env d revision terminal = .error e) :
    e = .capacity := by
  rw [Store.saveTask, bind_eq_error] at h
  rcases h with h | ⟨⟨⟩, -, h⟩
  · exact hvalid e h
  rw [bind_eq_error] at h
  rcases h with h | ⟨⟨⟩, -, h⟩
  · exact encode_refused h
  simp only [signed, checkTaskCapacity, ensure_of hsigned.1, ensure_of hsigned.2, hrow, orFail,
    ensure_of hrevision, ok_bind, bind_eq_error, ensure_eq_error] at h
  rcases h with ⟨-, rfl⟩ | ⟨_, -, h⟩
  · rfl
  · exact absurd h pure_ne_error

end Refusals

/-! ### A stop -/

section Stop

variable {env : Env} {x : JobExecution} {id : String} {row : TaskRow}

theorem stopStatus_cases (t : StoredTask) (reason : InvestigationStopReason) :
    stopStatus t reason = .outcomeUnknown ∨ stopStatus t reason = .cancelled
      ∨ stopStatus t reason = .failed := by
  unfold stopStatus
  split_ifs <;> simp

/-- The record of a stopped task. -/
def stoppedTask (t : StoredTask) (clock : Clock) (reason : InvestigationStopReason) (ms : UInt64) :
    StoredTask :=
  StoredTask.sequenced (StoredTask.bumped (ended (elapsed t ms) (stopStatus (elapsed t ms) reason)
    (stopCancelled (elapsed t ms) reason) reason.message) (clock 0))

variable {e : InvestigationStoreError}

theorem stoppedTask_refused (hv : ValidTask env t) (hlive : t.phase ≠ .terminal)
    (hsequence : t.detail.summary.lastEventSequence + 1 ≤ MAX_EVENTS) (clock : Clock)
    (reason : InvestigationStopReason) (ms : UInt64)
    (h : validateTask env (stoppedTask t clock reason ms) = .error e) : e = .capacity := by
  have hresult := hv.no_result hlive
  have hstatus := stopStatus_cases (elapsed t ms) reason
  have hphase : (stoppedTask t clock reason ms).phase = .terminal := rfl
  have hends : (stoppedTask t clock reason ms).detail.summary.status
      = stopStatus (elapsed t ms) reason := rfl
  refine validateTask_refused (t := stoppedTask t clock reason ms) ?_ hv.scope hv.provider ?_ ?_ ?_
    rfl ?_ h
  · obtain ⟨h1, h2, h3, h4, h5, h6, h7, h8, h9, h10, h11, h12, h13, -, -, h16, -, h18, h19, h20, h21,
      -⟩ := hv.fields
    refine ⟨h1, h2, h3, h4, h5, h6, h7, h8, h9, h10, h11, h12, h13, hsequence, ?_, h16, ?_, h18, h19,
      h20, h21, ?_⟩
    · simp [stoppedTask, StoredTask.sequenced, StoredTask.bumped, ended]
    · simp [stoppedTask, StoredTask.sequenced, StoredTask.bumped, ended]
    · exact (clock 0).size.trans_le (by omega)
  · exact (validateUsage_ended (elapsed t ms) (stopStatus (elapsed t ms) reason)
      (stopCancelled (elapsed t ms) reason) reason.message).trans hv.usage
  · refine ⟨?_, ?_⟩
    · rcases hstatus with h | h | h <;> simp [validStatus, hphase, hends, h]
    · show t.detail.summary.hasResult = true ↔ stopStatus (elapsed t ms) reason = .completed
      rcases hstatus with h | h | h <;> simp [h, hresult]
  · have hexecution := hv.execution
    have hsame : (stoppedTask t clock reason ms).execution = t.execution := rfl
    cases hx : t.execution with
    | none => simp [validExecution, hsame, hphase, hx]
    | some identity =>
      simp only [validExecution, hx] at hexecution
      simp only [validExecution, hsame, hx]
      exact hexecution
  · simp [validPresence, stoppedTask, StoredTask.sequenced, StoredTask.bumped, ended]

theorem Owned.advance_eq (h : Owned env x id s) (hrow : OwnedRow env x id s row)
    (hlive : row.record.phase ≠ .terminal) (clock : Clock) {transition : InvestigationTransition}
    (hlate : (transition.lateFinish || transition.stopping) = true) :
    s.advanceInvestigation env clock x row.record.detail.summary.revision transition = (do
      let d ← transition.apply env clock (row.draft s.jobs)
      let s' ← s.saveTask env d row.record.detail.summary.revision (d.task.phase == .terminal)
      pure (d.task.detail, s')) := by
  have hidentity : row.record.execution = some ⟨x.ns.value.text, x.id, x.generation, x.owner.text⟩ :=
    hrow.execution
  have hjob : s.checkJob x (transition.lateFinish || transition.stopping) = .ok () := by
    rw [hlate]
    exact ensure_of (h.holdsJob hrow hlive) _
  have hcancel : row.record.detail.summary.cancelRequested = true →
      (transition.lateFinish || transition.stopping) = true := fun _ => hlate
  rw [Store.advanceInvestigation, ensure_of h.verified, ensure_of h.ns, h.taskIdForJob, hjob]
  simp only [checkIdentity, orFail, hrow.loadTask, ensure_of hidentity, ensure_of trivial, ensure_of hlive,
    ensure_of hcancel, ok_bind]

theorem Owned.advance_stale (h : Owned env x id s) (hrow : OwnedRow env x id s row) (clock : Clock)
    (hne : row.record.detail.summary.revision ≠ revision) (transition : InvestigationTransition) :
    s.advanceInvestigation env clock x revision transition = .error .stale := by
  have hidentity : row.record.execution = some ⟨x.ns.value.text, x.id, x.generation, x.owner.text⟩ :=
    hrow.execution
  have hstale : ensure (row.record.detail.summary.revision = revision)
      InvestigationStoreError.stale = .error .stale := ensure_eq_error.mpr ⟨hne, rfl⟩
  simp only [Store.advanceInvestigation, checkIdentity, ensure_of h.verified, ensure_of h.ns,
    h.taskIdForJob, orFail, hrow.loadTask, ensure_of hidentity, hstale, ok_bind]
  rfl

/-- **A stop at the current revision is not refused**, unless for want of capacity. -/
theorem Owned.stop_refused (h : Owned env x id s) (hrow : OwnedRow env x id s row)
    (hlive : row.record.phase ≠ .terminal) (clock : Clock) {reason : InvestigationStopReason}
    (hreason : reason = .outcomeUnknown → row.record.phase = .invocation) {ms : UInt64}
    (hms : row.record.detail.usage.activeMilliseconds ≤ ms)
    (herror : s.advanceInvestigation env clock x row.record.detail.summary.revision
      (.stopWithElapsed reason ms) = .error e) : e = .capacity := by
  have hbound := hrow.sound.revision_le
  have hlarge : MAX_EVENTS + 1 ≤ MAX_ROWID := by decide
  have hfresh : row.rows.events.find? (row.record.detail.summary.lastEventSequence + 1) = none := by
    have hkeys := hrow.log.keys (row.record.detail.summary.lastEventSequence + 1)
    rw [← Option.not_isSome_iff_eq_none, Bool.not_eq_true, ← Bool.not_eq_true]
    intro hsome
    have hle : row.record.detail.summary.lastEventSequence + 1
        ≤ row.record.detail.summary.lastEventSequence := (hkeys.mp hsome).2
    omega
  rw [h.advance_eq hrow hlive clock rfl] at herror
  simp only [InvestigationTransition.apply, Jobs.stopWithElapsed, stop_eq, bind_eq_error,
    bind_eq_ok, ensure_eq_error, pure_eq_ok, note_eq_ok] at herror
  rcases herror with (⟨hn, -⟩ | ⟨_, -, ⟨hn, -⟩ | ⟨_, -, hnote | ⟨_, -, hp⟩⟩⟩) |
    ⟨_, ⟨_, -, _, -, _, ⟨-, hroom, -, rfl⟩, rfl⟩, hsave | ⟨_, -, hp⟩⟩
  · exact absurd hms hn
  · exact absurd hreason hn
  · exact note_refused hfresh hnote
  · exact absurd hp pure_ne_error
  · have hsequence := sequence_le_terminal hroom rfl
    refine @saveTask_refused _ _ _ _ row _ _ ?_ ⟨?_, ?_⟩ ?_ hrow.sound.revision.symm hsave
    · exact fun e he => stoppedTask_refused hrow.sound.valid hlive hsequence clock reason ms he
    · show row.record.detail.summary.revision + 1 ≤ MAX_ROWID
      omega
    · omega
    · show s.tasks.find? row.record.detail.summary.investigationId = some row
      rw [hrow.sound.investigationId]
      exact hrow.stored
  · exact absurd hp pure_ne_error

end Stop

/-! ### A result -/

section Finish

variable {α β : Type} {e e' : InvestigationStoreError}

theorem ensure_ne {c : Prop} [Decidable c] (h : e' ≠ e) : ensure c e' ≠ .error e :=
  fun he => h (ensure_eq_error.mp he).2

theorem orFail_ne {o : Option α} (h : e' ≠ e) : orFail o e' ≠ .error e :=
  fun he => h (orFail_eq_error.mp he).2

theorem admitted_ne_stale {r : Except InvestigationError α} : admitted r ≠ .error .stale :=
  fun h => absurd (admitted_eq_error h) (by simp)

theorem bind_ne {r : Except InvestigationStoreError α} {f : α → Except InvestigationStoreError β}
    (h : r ≠ .error e) (hf : ∀ a, f a ≠ .error e) : (r >>= f) ≠ .error e := by
  intro herror
  rcases bind_eq_error.mp herror with herror | ⟨a, -, herror⟩
  · exact h herror
  · exact hf a herror

theorem readBody_ne_stale {toJson : α → Json} {body : Option α} :
    readBody toJson body ≠ .error .stale :=
  bind_ne (ensure_ne (by simp)) fun _ => pure_ne_error

variable {env : Env}

theorem loadLedger_ne_stale : loadLedger env d ≠ .error .stale := by
  unfold loadLedger
  cases d.task.ledgerRevision with
  | none => exact pure_ne_error
  | some revision =>
    refine bind_ne (ensure_ne (by simp)) fun _ => bind_ne readBody_ne_stale fun _ => ?_
    refine bind_ne (orFail_ne (by simp)) fun ledger => bind_ne admitted_ne_stale fun _ => ?_
    refine bind_ne admitted_ne_stale fun _ => bind_ne (ensure_ne (by simp)) fun _ => ?_
    exact pure_ne_error

theorem addReported_ne_stale {previous current : Option UInt64} {first : Bool} :
    addReported previous current first ≠ .error .stale := by
  unfold addReported
  split_ifs
  · exact pure_ne_error
  · cases previous with
    | none => exact pure_ne_error
    | some previous =>
      cases current with
      | none => exact pure_ne_error
      | some current => exact bind_ne (ensure_ne (by simp)) fun _ => pure_ne_error

theorem note_ne_stale :
    note clock d kind step tool summary ≠ .error .stale := by
  refine bind_ne (bind_ne (ensure_ne (by simp)) fun _ => pure_ne_error) fun _ => ?_
  refine bind_ne (ensure_ne (by simp)) fun _ => bind_ne (ensure_ne (by simp)) fun _ => ?_
  exact bind_ne (ensure_ne (by simp)) fun _ => pure_ne_error

theorem validateTask_ne_stale : validateTask env t ≠ .error .stale := by
  refine bind_ne (ensure_ne (by simp)) fun _ => bind_ne admitted_ne_stale fun _ => ?_
  refine bind_ne (bind_ne (ensure_ne (by simp)) fun _ => ensure_ne (by simp)) fun _ => ?_
  refine bind_ne (ensure_ne (by simp)) fun _ => bind_ne (ensure_ne (by simp)) fun _ => ?_
  refine bind_ne (ensure_ne (by simp)) fun _ => bind_ne ?_ fun _ => ?_
  · cases t.pending with
    | none => exact pure_ne_error
    | some step => exact ensure_ne (by simp)
  · exact bind_ne (ensure_ne (by simp)) fun _ => ensure_ne (by simp)

theorem saveTask_ne_stale {terminal : Bool} :
    s.saveTask env d revision terminal ≠ .error .stale := by
  refine bind_ne validateTask_ne_stale fun _ => bind_ne (ensure_ne (by simp)) fun _ => ?_
  refine bind_ne (ensure_ne (by simp)) fun _ => bind_ne (ensure_ne (by simp)) fun _ => ?_
  refine bind_ne (orFail_ne (by simp)) fun row => bind_ne (ensure_ne (by simp)) fun _ => ?_
  exact bind_ne (ensure_ne (by simp)) fun _ => pure_ne_error

theorem checkResult_ne_stale {result : Option InvestigationResult} :
    checkResult env d response result ≠ .error .stale := by
  cases result with
  | none => exact pure_ne_error
  | some result =>
    refine bind_ne loadLedger_ne_stale fun _ => bind_ne (orFail_ne (by simp)) fun ledger => ?_
    refine bind_ne admitted_ne_stale fun _ => bind_ne (ensure_ne (by simp)) fun _ => ?_
    exact bind_ne (ensure_ne (by simp)) fun _ => ensure_ne (by simp)

theorem actionAdmitted_ne_stale {result : InvestigationResult}
    (hphase : d.task.phase = .invocation) :
    actionAdmitted env clock d response none (some result) ≠ .error .stale := by
  have hguard : d.task.phase = .invocation
      ∧ (none : Option InvestigationTool).isSome ≠ (some result).isSome := ⟨hphase, by simp⟩
  rw [actionAdmitted, ensure_of hguard, ok_bind]
  refine bind_ne (orFail_ne (by simp)) fun _ => bind_ne (ensure_ne (by simp)) fun _ => ?_
  refine bind_ne readBody_ne_stale fun _ => bind_ne (orFail_ne (by simp)) fun _ => ?_
  refine bind_ne (ensure_ne (by simp)) fun _ => bind_ne ?_ fun _ => ?_
  · refine bind_ne addReported_ne_stale fun _ => bind_ne addReported_ne_stale fun _ => ?_
    exact pure_ne_error
  refine bind_ne (ensure_ne (by simp)) fun _ => bind_ne checkResult_ne_stale fun _ => ?_
  refine bind_ne (ensure_ne (by simp)) fun _ => bind_ne (ensure_ne (by simp)) fun _ => ?_
  refine bind_ne note_ne_stale fun _ => bind_ne ?_ fun _ => pure_ne_error
  refine bind_ne (ensure_ne (by simp)) fun _ => bind_ne (ensure_ne (by simp)) fun _ => ?_
  exact bind_ne (ensure_ne (by simp)) fun _ => pure_ne_error

/-- **A result at the current revision of an invocation is not stale.** -/
theorem Owned.finish_not_stale {x : JobExecution} {id : String} {row : TaskRow}
    (h : Owned env x id s) (hrow : OwnedRow env x id s row)
    (hphase : row.record.phase = .invocation) (clock : Clock) (response : InvestigationResponseMeta)
    (result : InvestigationResult) :
    s.advanceInvestigation env clock x row.record.detail.summary.revision
      (.actionAdmitted response none (some result)) ≠ .error .stale := by
  have hlive : row.record.phase ≠ .terminal := by
    rw [hphase]
    simp
  rw [h.advance_eq hrow hlive clock rfl]
  refine bind_ne (actionAdmitted_ne_stale (d := row.draft s.jobs) hphase) fun _ => ?_
  exact bind_ne saveTask_ne_stale fun _ => pure_ne_error

end Finish

end Jobs

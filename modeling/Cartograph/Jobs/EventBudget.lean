/-
The budget of events.

A task has numbers for 96 events.  A live task leaves three of them alone, one for the request to
cancel it and two for its end, which takes at most two.

* `Draft.Log.note_ok` — an event is recorded when its number is within the maximum;
* `event_budget` — the numbers of a task in every state, and that its endings are recorded.
-/
import Cartograph.Jobs.Headroom
import Cartograph.Jobs.EventLog

namespace Jobs

open Investigation Checked

variable {clock : Clock} {d x : Draft} {kind : InvestigationEventKind} {step : Option String}
  {tool : Option InvestigationTool} {summary : String}

theorem Draft.Log.event_ok (h : d.Log)
    (hid : idValid d.task.detail.summary.investigationId = true)
    (hrevision : d.task.detail.summary.revision ≤ MAX_EVENTS)
    (hroom : d.sequence + 1 ≤ eventMaximum d.task.phase kind) (hstep : step.all idValid = true)
    (hsummary : summary ∈ eventTexts) (now : Timestamp) :
    event now d kind step tool summary = .ok (d.recorded now kind step tool summary) := by
  have hfresh : d.rows.events.find? (d.sequence + 1) = none := by
    by_contra hsome
    have hkeys := (h.keys (d.sequence + 1)).mp (Option.isSome_iff_ne_none.mpr hsome)
    omega
  have hlogged : Logged (d.recorded now kind step tool summary).task (d.sequence + 1)
      (d.task.eventRow now kind step tool summary) := by
    refine (h.recorded now kind tool hstep hsummary).1.logged _ _ ?_
    exact (Table.find?_put ..).trans (if_pos rfl)
  have hmaximum : eventMaximum d.task.phase kind ≤ MAX_EVENTS := by
    rw [eventMaximum]
    split_ifs <;> omega
  have hsize := hlogged.size hid (hroom.trans hmaximum) hrevision
  exact event_eq_ok.mpr ⟨⟨hroom, hfresh⟩, by omega, rfl⟩

theorem Draft.Log.note_ok (h : d.Log) (hevents : x.rows.events = d.rows.events)
    (hsequence : x.sequence = d.sequence)
    (hrevision : x.task.detail.summary.revision = d.task.detail.summary.revision)
    (hinvestigation : x.task.detail.summary.investigationId = d.task.detail.summary.investigationId)
    (hid : idValid d.task.detail.summary.investigationId = true)
    (hlow : d.task.detail.summary.revision + 1 ≤ MAX_EVENTS)
    (hroom : x.sequence + 1 ≤ eventMaximum x.task.phase kind) (hstep : step.all idValid = true)
    (hsummary : summary ∈ eventTexts) :
    note clock x kind step tool summary = .ok (x.noted clock kind step tool summary) := by
  have hmax := MAX_EVENTS_eq
  have hbumped : x.task.detail.summary.revision + 1 ≤ MAX_EVENTS := by omega
  have hlog := (h.same (x := { x with task := x.task.bumped (clock 0) }) hevents hinvestigation
    hsequence (show _ ≤ x.task.detail.summary.revision + 1 by omega)).1
  have hbump : bump (clock 0) x = .ok { x with task := x.task.bumped (clock 0) } :=
    bump_eq_ok.mpr ⟨by omega, rfl⟩
  rw [note, hbump]
  exact hlog.event_ok (hinvestigation ▸ hid) hbumped hroom hstep hsummary (clock 1)

/-- The events of a cancellation, a stop, a recovery and an admitted result are recorded. -/
structure Recordable (env : Env) (row : TaskRow) : Prop where
  cancel : row.record.detail.summary.cancelRequested = false → ∀ clock jobs, ∃ d,
    requestCancel clock (row.draft jobs) = .ok d
  stop : ∀ clock jobs ms reason, (reason = .outcomeUnknown → row.record.phase = .invocation) →
    ∃ d, stop clock { row.draft jobs with task := elapsed row.record ms } reason = .ok d
  recover : ∀ clock jobs, ∃ d, recoverDraft clock (row.draft jobs) = .ok d
  result : ∀ clock jobs pending response usage result, row.record.pending = some pending →
    responseValid env row.record pending response → ∃ first second,
      note clock { row.draft jobs with task := responded row.record usage none true
                                       rows := row.rows.withResponse response (some result) }
        .modelCompleted (some response.stepId) none
        "A complete provider response was admitted and its identity persisted." = .ok first
      ∧ event (clock 2) first .resultPersisted (some response.stepId) none
        "Cited findings were persisted against the original input ledger." = .ok second

theorem recordable {env : Env} {row : TaskRow} (hlog : row.log.Log)
    (hv : ValidTask env row.record) (hp : Paced row.record) : Recordable env row := by
  have hmax := MAX_EVENTS_eq
  have horder := hp.order
  have hbound := hp.bound
  have hextra := extra_le_one row.record
  obtain ⟨-, -, hid, -⟩ := hv.fields
  have hlow : row.record.detail.summary.revision + 1 ≤ MAX_EVENTS := by omega
  -- the end of a task may take the last two numbers
  have hended {x : Draft} {kind : InvestigationEventKind} {clock : Clock} {step : Option String}
      {summary : String} (hevents : x.rows.events = row.rows.events)
      (hsequence : x.sequence = row.record.detail.summary.lastEventSequence)
      (hrevision : x.task.detail.summary.revision = row.record.detail.summary.revision)
      (hinvestigation : x.task.detail.summary.investigationId
        = row.record.detail.summary.investigationId)
      (hphase : x.task.phase = .terminal) (hstep : step.all idValid = true)
      (hsummary : summary ∈ eventTexts) :
      note clock x kind step none summary = .ok (x.noted clock kind step none summary) := by
    refine hlog.note_ok hevents hsequence hrevision hinvestigation hid hlow ?_ hstep hsummary
    rw [eventMaximum, if_pos hphase]
    omega
  refine ⟨?_, ?_, ?_, ?_⟩
  · intro hcancel clock jobs
    have hroom : row.record.detail.summary.lastEventSequence + 1
        ≤ eventMaximum (cancelRequested row.record).phase .cancelRequested := by
      have hnone : extra row.record = 0 := if_neg (Bool.eq_false_iff.mp hcancel)
      rw [eventMaximum, if_pos rfl]
      split_ifs <;> omega
    exact ⟨_, bind_eq_ok.mpr ⟨_, hlog.note_ok rfl rfl rfl rfl hid hlow hroom rfl
      (by simp [eventTexts]), rfl⟩⟩
  · intro clock jobs ms reason hreason
    exact ⟨_, (stop_eq clock _ reason).trans (bind_eq_ok.mpr ⟨(), ensure_of hreason _,
      bind_eq_ok.mpr ⟨_, hended rfl rfl rfl rfl rfl rfl (message_mem reason), rfl⟩⟩)⟩
  · intro clock jobs
    have htext : recoverSummary row.record ∈ eventTexts := by
      rw [recoverSummary]
      split_ifs <;> simp [eventTexts]
    exact ⟨_, bind_eq_ok.mpr ⟨_, hended rfl rfl rfl rfl rfl rfl htext, rfl⟩⟩
  · intro clock jobs pending response usage result hpending hvalid
    have hstep : (some response.stepId).all idValid = true := by
      rw [Option.all_some, hvalid.1]
      exact idValid_pending hv.pending hpending
    have htext : "A complete provider response was admitted and its identity persisted."
        ∈ eventTexts := by
      simp [eventTexts]
    have hnoted := (hlog.noted (x := { row.draft jobs with
      task := responded row.record usage none true
      rows := row.rows.withResponse response (some result) }) rfl rfl rfl rfl clock .modelCompleted
      none hstep htext).1
    have hroom : row.record.detail.summary.lastEventSequence + 1 + 1
        ≤ eventMaximum .terminal .resultPersisted := by
      rw [eventMaximum, if_pos rfl]
      omega
    exact ⟨_, _, hended rfl rfl rfl rfl rfl hstep htext,
      hnoted.event_ok hid hlow hroom hstep (by simp [eventTexts]) (clock 2)⟩

/-- **The budget of events.**  In every state the events of a task are numbered from one on, to at
most 93 while it is live, 94 once its cancellation is requested and 96 at its end; so its endings
are always recorded. -/
theorem event_budget {env : Env} {s₀ s : Store} {tr : List Event} {id : String} {row : TaskRow}
    (h₀ : s₀.Initial) (hs : (machine env).Steps s₀ tr s) (hrow : s.tasks.find? id = some row) :
    row.events.map InvestigationEvent.sequence
        = List.range' 1 row.record.detail.summary.lastEventSequence
    ∧ row.record.detail.summary.lastEventSequence ≤ 96
    ∧ (row.record.phase ≠ .terminal → row.record.detail.summary.lastEventSequence
        ≤ (if row.record.detail.summary.cancelRequested then 94 else 93) ∧ Recordable env row) := by
  have hlog := steps_log hs h₀ id row hrow
  have hv := steps_valid hs h₀ id row hrow
  obtain ⟨-, -, -, -, -, -, -, -, -, -, -, -, -, hsequence, -⟩ := hv.fields
  refine ⟨hlog.events.1, hsequence, fun hlive => ?_⟩
  have hp := (steps_headroom hs h₀ id row hrow hlive).paced
  refine ⟨hp.bound.trans ?_, recordable hlog hv hp⟩
  rw [extra]
  split_ifs <;> omega

theorem event_budget_begun : ∃ row,
    ((machine (Sample.env Sample.intent)).exec Sample.empty Sample.begun).tasks.find? Sample.taskId
      = some row ∧ row.events.map InvestigationEvent.sequence = [1, 2] := by
  obtain ⟨row, hrow, hfields⟩ := Option.map_eq_some_iff.mp Sample.begun_row.1
  have hlast := congrArg (fun fields => fields.2.1) hfields
  have hbudget := (event_budget Sample.empty_initial
    (Machine.steps_exec (M := machine (Sample.env Sample.intent)) fun _ _ _ => trivial) hrow).1
  rw [show row.record.detail.summary.lastEventSequence = 2 from hlast] at hbudget
  exact ⟨row, hrow, hbudget⟩

end Jobs

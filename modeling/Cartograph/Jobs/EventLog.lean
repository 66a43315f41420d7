/-
The event log of a task, and paging through it.

Every move of a task adds one or two events behind the last one, with fixed texts, and
never touches an earlier one.

* `Draft.Log` — the events of a task are numbered from one to the last, and each names its
  task, its number and a revision the task has reached;
* `Move.log` — a move appends;
* `eventPage_ok` — a page of events is always read, within its limits;
* `EventPages` — reads that follow each other, with any operations between them.
-/
import Cartograph.Redaction
import Cartograph.Jobs.History

namespace Jobs

open Investigation Checked

/-! ### Texts -/

/-- The texts of events. -/
def eventTexts : List String :=
  ["Investigation created.",
   "Execution ownership attached atomically; preparation started.",
   "Frozen context and original input metadata committed.",
   "Tool input and its actual receipt references committed before lease release.",
   "Exact step consent is required; no provider call has started.",
   "Invocation boundary committed; the provider outcome is pending.",
   "A complete provider response was admitted and its identity persisted.",
   "Cited findings were persisted against the original input ledger.",
   "A bounded tool action was admitted; its tool has not started.",
   "Tool attempt budget reserved before execution.",
   "Full captured file validation bytes reserved before reading.",
   "Exact step approved; authorization will be consumed at invocation start.",
   "Cancellation requested; outstanding provider work retains its execution lease.",
   "Owner death confirmed; the started invocation outcome is unknown.",
   "Owner death confirmed; transient preparation was interrupted."]
  ++ [.cancelled, .preparationFailed, .inputChanged, .sourceUnavailable, .invalidResponse,
    .limitExceeded, .providerFailure, .outcomeUnknown, .consentExpired, .consentDeclined,
    .operational].map InvestigationStopReason.message

theorem message_mem (reason : InvestigationStopReason) : reason.message ∈ eventTexts := by
  refine List.mem_append_right _ (List.mem_map.mpr ⟨reason, ?_, rfl⟩)
  cases reason <;> decide

/-- A short text of printable characters, with none that redaction looks for. -/
def QuietText (summary : String) : Prop :=
  ∃ l, summary = String.ofList l ∧ (l.all fun c => Json.printable c && !Redaction.loud c) = true
    ∧ (l.length ≤ 120 ∧ (l.any fun c => !isWhitespace c) = true)
    ∧ Redaction.bearerToken.isMatch Redaction.Words.plain.word l = false

theorem eventTexts_quiet : ∀ summary ∈ eventTexts, QuietText summary := by
  simp only [eventTexts, List.map_cons, List.map_nil, List.cons_append, List.nil_append]
  repeat
    refine List.forall_mem_cons.mpr ⟨⟨_, rfl, ?_, ?_, ?_⟩, ?_⟩
    · decide
    · decide
    · decide
  exact fun _ h => absurd h List.not_mem_nil

variable {summary : String} {d x : Draft} {t : StoredTask} {s s₀ : Store} {tr : List Event}
  {k after : ℕ} {e : InvestigationEvent}

theorem QuietText.bounded (h : QuietText summary) :
    text summary 1024 = true ∧ summary.utf8ByteSize ≤ 1024 ∧ Json.strSize summary ≤ 128 := by
  obtain ⟨l, rfl, hchars, ⟨hlength, hblank⟩, -⟩ := h
  have hprintable : l.all Json.printable = true := by
    refine List.all_eq_true.mpr fun c hc => ?_
    exact ((Bool.and_eq_true _ _).mp (List.all_eq_true.mp hchars c hc)).1
  obtain ⟨hbytes, hplain⟩ := Json.utf8_printable hprintable
  have hsize : (String.ofList l).utf8ByteSize = l.length := hbytes
  have hnul : (Json.utf8 (String.ofList l)).contains 0 = false := by
    refine Bool.eq_false_iff.mpr fun hzero => ?_
    have hplain0 := List.all_eq_true.mp hplain 0 (List.contains_iff_mem.mp hzero)
    exact absurd hplain0 (by decide)
  refine ⟨?_, by omega, ?_⟩
  · rw [text, String.toList_ofList, hblank, hnul, decide_eq_true (by omega)]
    rfl
  · rw [Json.strSize_plain hplain]
    omega

theorem QuietText.unredacted (h : QuietText summary) (w : Redaction.Words) :
    Redaction.redactText w summary = (summary, 0) := by
  obtain ⟨l, rfl, hchars, -, hbearer⟩ := h
  refine Redaction.redactText_of_quiet w ?_ (by rwa [String.toList_ofList])
  rw [String.toList_ofList]
  refine List.all_eq_true.mpr fun c hc => ?_
  have hchar := List.all_eq_true.mp hchars c hc
  simp only [Json.printable, Bool.and_eq_true, decide_eq_true_eq] at hchar ⊢
  exact ⟨by omega, hchar.2⟩

/-! ### The log -/

/-- What event `k` of a task says. -/
structure Logged (t : StoredTask) (k : ℕ) (e : InvestigationEvent) : Prop where
  investigationId : e.investigationId = t.detail.summary.investigationId
  sequence : e.sequence = k
  revision : e.revision ≤ t.detail.summary.revision
  summary : e.summary ∈ eventTexts
  stepId : e.stepId.all idValid = true
  createdAt : ∃ now : Timestamp, e.createdAt = now.text

/-- Events are numbered from one to the last. -/
structure Draft.Log (d : Draft) : Prop where
  keys : ∀ k, (d.rows.events.find? k).isSome = true ↔ 1 ≤ k ∧ k ≤ d.sequence
  logged : ∀ k e, d.rows.events.find? k = some e → Logged d.task k e

/-- Earlier events stay. -/
structure Grows (d d' : Draft) : Prop where
  sequence : d.sequence ≤ d'.sequence
  events : ∀ k e, d.rows.events.find? k = some e → d'.rows.events.find? k = some e

theorem Grows.trans {d1 d2 d3 : Draft} (h : Grows d1 d2) (h' : Grows d2 d3) : Grows d1 d3 :=
  ⟨h.sequence.trans h'.sequence, fun k e he => h'.events k e (h.events k e he)⟩

variable {step : Option String} {clock : Clock} {action : Action} {row' row₁ : TaskRow} {s₁ : Store}

theorem Draft.Log.recorded (h : d.Log) (now : Timestamp) (kind : InvestigationEventKind)
    (tool : Option InvestigationTool) (hstep : step.all idValid = true)
    (hsummary : summary ∈ eventTexts) :
    (d.recorded now kind step tool summary).Log ∧ Grows d (d.recorded now kind step tool summary) := by
  have hevents (k : ℕ) : (d.recorded now kind step tool summary).rows.events.find? k
      = if k = d.sequence + 1 then some (d.task.eventRow now kind step tool summary)
        else d.rows.events.find? k := Table.find?_put ..
  have hlast : (d.recorded now kind step tool summary).sequence = d.sequence + 1 := rfl
  refine ⟨⟨fun k => ?_, fun k e he => ?_⟩, ⟨by omega, fun k e he => ?_⟩⟩
  · rw [hevents, hlast]
    split_ifs with hk
    · simp only [Option.isSome_some, true_iff]
      omega
    · rw [h.keys]
      omega
  · rw [hevents] at he
    split_ifs at he with hk
    · obtain rfl := Option.some.inj he
      exact ⟨rfl, hk.symm, le_rfl, hsummary, hstep, now, rfl⟩
    · obtain ⟨h1, h2, h3, h4, h5, h6⟩ := h.logged k e he
      exact ⟨h1, h2, h3, h4, h5, h6⟩
  · have hk := (h.keys k).mp (he ▸ rfl)
    rw [hevents, if_neg (by omega), he]

theorem Draft.Log.same (h : d.Log) (hevents : x.rows.events = d.rows.events)
    (hid : x.task.detail.summary.investigationId = d.task.detail.summary.investigationId)
    (hsequence : x.sequence = d.sequence)
    (hrevision : d.task.detail.summary.revision ≤ x.task.detail.summary.revision) :
    x.Log ∧ Grows d x := by
  refine ⟨⟨fun k => ?_, fun k e he => ?_⟩, ⟨hsequence.ge, fun k e he => hevents ▸ he⟩⟩
  · rw [hevents, hsequence]
    exact h.keys k
  · rw [hevents] at he
    obtain ⟨h1, h2, h3, h4, h5, h6⟩ := h.logged k e he
    exact ⟨h1.trans hid.symm, h2, h3.trans hrevision, h4, h5, h6⟩

theorem Draft.Log.noted (h : d.Log) (hevents : x.rows.events = d.rows.events)
    (hid : x.task.detail.summary.investigationId = d.task.detail.summary.investigationId)
    (hsequence : x.sequence = d.sequence)
    (hrevision : x.task.detail.summary.revision = d.task.detail.summary.revision) (clock : Clock)
    (kind : InvestigationEventKind) (tool : Option InvestigationTool)
    (hstep : step.all idValid = true) (hsummary : summary ∈ eventTexts) :
    (x.noted clock kind step tool summary).Log ∧ Grows d (x.noted clock kind step tool summary) := by
  have hbumped : d.task.detail.summary.revision
      ≤ (x.task.bumped (clock 0)).detail.summary.revision := by
    show _ ≤ x.task.detail.summary.revision + 1
    omega
  obtain ⟨hlog, hgrows⟩ := h.same (x := { x with task := x.task.bumped (clock 0) }) hevents hid
    hsequence hbumped
  obtain ⟨hlog', hgrows'⟩ := hlog.recorded (clock 1) kind tool hstep hsummary
  exact ⟨hlog', hgrows.trans hgrows'⟩

/-! ### Moves append -/

theorem idValid_pending (h : validatePending t.pending = .ok ()) {step : PendingInvestigationStep}
    (hstep : t.pending = some step) : idValid step.stepId = true := by
  rw [hstep] at h
  exact (ensure_eq_ok.mp h).1

theorem log_responded {env : Env} {response : InvestigationResponseMeta}
    {usage : InvestigationUsage} (h : d.Log) (hpending : validatePending d.task.pending = .ok ())
    (hanswers : Answers env d response usage) (tool : Option InvestigationTool)
    (result : Option InvestigationResult) :
    (d.responded clock response usage tool result).Log
      ∧ Grows d (d.responded clock response usage tool result) := by
  obtain ⟨step, hstep, -, hresponse⟩ := hanswers.pending
  have hid : (some response.stepId).all idValid = true := by
    rw [Option.all_some, hresponse.1]
    exact idValid_pending hpending hstep
  have hfirst := h.noted (x := { d with task := Jobs.responded d.task usage tool result.isSome
                                        rows := d.rows.withResponse response result })
    rfl rfl rfl rfl clock .modelCompleted tool hid
    (show "A complete provider response was admitted and its identity persisted." ∈ eventTexts by
      simp [eventTexts])
  have htext : (if result.isSome then "Cited findings were persisted against the original input ledger."
      else "A bounded tool action was admitted; its tool has not started.") ∈ eventTexts := by
    split_ifs
    · simp [eventTexts]
    · simp [eventTexts]
  have hsecond := hfirst.1.recorded (clock 2)
    (if result.isSome then .resultPersisted else .actionAdmitted) tool hid htext
  exact ⟨hsecond.1, hfirst.2.trans hsecond.2⟩

theorem log_jobs {y : Draft} (h : x.Log ∧ Grows d x) (htask : y.task = x.task)
    (hrows : y.rows = x.rows) : y.Log ∧ Grows d y := by
  have hsequence : y.sequence = x.sequence := by rw [Draft.sequence, htask, Draft.sequence]
  obtain ⟨hlog, hgrows⟩ := h.1.same (x := y) (by rw [hrows]) (by rw [htask]) hsequence (by rw [htask])
  exact ⟨hlog, h.2.trans hgrows⟩

theorem log_ended {clock : Clock} (h : d.Log)
    (hid : t.detail.summary.investigationId = d.task.detail.summary.investigationId)
    (hsequence : t.detail.summary.lastEventSequence = d.task.detail.summary.lastEventSequence)
    (hrevision : t.detail.summary.revision = d.task.detail.summary.revision)
    (status : InvestigationStatus) (cancelled : Bool) (error : String)
    (kind : InvestigationEventKind) (hsummary : summary ∈ eventTexts) :
    (syncTerminalJob (Draft.noted { d with task := ended t status cancelled error } clock kind
      none none summary)).Log
    ∧ Grows d (syncTerminalJob (Draft.noted { d with task := ended t status cancelled error } clock
      kind none none summary)) := by
  have hstep : (none : Option String).all idValid = true := rfl
  exact log_jobs (h.noted (x := { d with task := ended t status cancelled error }) rfl hid hsequence
    hrevision clock kind none hstep hsummary) rfl rfl

theorem Move.log {env : Env} {d' : Draft} (h : Move env clock d action d') (hlog : d.Log)
    (hpending : validatePending d.task.pending = .ok ()) : d'.Log ∧ Grows d d' := by
  cases h with
  | attach identity | inputPrepared ledger usage fingerprint | inputAdmitted ledger usage fingerprint
  | beginTool tool | chargeEvidence validationBytes =>
    refine hlog.noted ?_ ?_ ?_ ?_ clock _ _ ?_ ?_
    any_goals rfl
    simp [eventTexts]
  | awaitConsent step _ _ hstep =>
    refine hlog.noted ?_ ?_ ?_ ?_ clock _ _ ?_ ?_
    any_goals rfl
    · exact (ensure_eq_ok.mp hstep).1
    · simp [eventTexts]
  | beginInvocation step _ hinvokable =>
    refine hlog.noted ?_ ?_ ?_ ?_ clock _ _ ?_ ?_
    any_goals rfl
    · exact (ensure_eq_ok.mp hinvokable.valid).1
    · simp [eventTexts]
  | actionAdmitted response tool usage _ hanswers =>
    exact log_responded hlog hpending hanswers (some tool) none
  | finished response result usage hanswers =>
    exact log_jobs (log_responded hlog hpending hanswers none (some result)) rfl rfl
  | stopWithElapsed reason ms =>
    exact log_ended hlog (t := elapsed d.task ms) rfl rfl rfl _ _ _ _ (message_mem reason)
  | approve revision stepId payloadHash hdecides =>
    obtain ⟨step, hstep, rfl, -⟩ := hdecides.step
    refine hlog.noted ?_ ?_ ?_ ?_ clock _ _ ?_ ?_
    any_goals rfl
    · exact idValid_pending hpending hstep
    · simp [eventTexts]
  | decline revision stepId payloadHash =>
    exact log_ended hlog (t := declining d.task) rfl rfl rfl _ _ _ _ (message_mem _)
  | cancel =>
    have hcancel : "Cancellation requested; outstanding provider work retains its execution lease."
        ∈ eventTexts := by simp [eventTexts]
    have hstep : (none : Option String).all idValid = true := rfl
    exact log_jobs (hlog.noted (x := { d with task := cancelRequested d.task }) rfl rfl rfl rfl clock
      .cancelRequested none hstep hcancel) rfl rfl
  | recover =>
    refine log_ended hlog (t := d.task) rfl rfl rfl _ _ _ _ ?_
    rw [recoverSummary]
    split_ifs
    · simp [eventTexts]
    · simp [eventTexts]

/-! ### Along a run -/

/-- The record and the events of a row. -/
def TaskRow.log (row : TaskRow) : Draft := row.draft .empty

variable {row : TaskRow} {id : String}

theorem log_moved {env : Env} {ns : ExecutionNamespace} (h : row.log.Log)
    (hsound : Sound env ns id row) (hmoves : RowMoves env row action row') :
    row'.log.Log ∧ Grows row.log row'.log := by
  obtain ⟨clock, jobs, d, _, hmove, -, -, rfl⟩ := hmoves
  obtain ⟨hlog, hgrows⟩ := h.same (x := row.draft jobs) rfl rfl rfl le_rfl
  obtain ⟨hlog', hgrows'⟩ := hmove.log hlog hsound.valid.pending
  exact log_jobs ⟨hlog', hgrows.trans hgrows'⟩ rfl rfl

theorem log_started {env : Env} {op : Op} (h : RowStarts env s op id row) : row.log.Log := by
  obtain ⟨clock, request, offered, conversation, investigation, provider, intentHash, -, -, -, -, -,
    rfl⟩ := h
  have hempty : Draft.Log ⟨newTask env clock s request provider intentHash conversation investigation,
      .empty, s.jobs.put (s.jobSeq + 1) { kind := KIND_PREFIX ++ newId investigation }⟩ := by
    refine ⟨fun k => ?_, fun k e he => absurd he (by simp [Rows.empty])⟩
    show (none : Option InvestigationEvent).isSome = true ↔ 1 ≤ k ∧ k ≤ 0
    simp only [Option.isSome_none, Bool.false_eq_true, false_iff]
    omega
  have hstep : (none : Option String).all idValid = true := rfl
  have hcreated : "Investigation created." ∈ eventTexts := by simp [eventTexts]
  refine (log_jobs (hempty.recorded (clock 1) .created none hstep hcreated) ?_ ?_).1
  · rfl
  · rfl

theorem steps_log {env : Env} (h : (machine env).Steps s₀ tr s) (h0 : s₀.Initial) :
    ∀ id row, s.tasks.find? id = some row → row.log.Log := by
  induction h with
  | refl =>
    intro id row hrow
    rw [h0.2.2.1] at hrow
    exact absurd hrow (by simp)
  | snoc hs _ hst ih =>
    intro id row' hrow'
    rcases step_row hst hrow' with hrow | ⟨row, action, hrow, -, hmoves⟩ | ⟨-, hstarts⟩
    · exact ih id row' hrow
    · exact (log_moved (ih id row hrow) (steps_sound hs h0 id row hrow) hmoves).1
    · exact log_started hstarts

theorem steps_grows {env : Env} {s' : Store} {tr' : List Event} (h0 : s₀.Initial)
    (hs : (machine env).Steps s₀ tr s) (hrow : s.tasks.find? id = some row)
    (h : (machine env).Steps s tr' s') :
    ∃ row', s'.tasks.find? id = some row' ∧ Grows row.log row'.log := by
  induction h with
  | refl => exact ⟨row, hrow, ⟨le_rfl, fun _ _ he => he⟩⟩
  | snoc hs' _ hst ih =>
    obtain ⟨row₁, hrow1, hgrows⟩ := ih
    have hbefore := hs.trans hs'
    rcases step_task hst hrow1 with hsame | ⟨action, row', -, hmoves, hrow'⟩
    · exact ⟨row₁, hsame, hgrows⟩
    · have hmoved := log_moved (steps_log hbefore h0 id row₁ hrow1)
        (steps_sound hbefore h0 id row₁ hrow1) hmoves
      exact ⟨row', hrow', hgrows.trans hmoved.2⟩

/-! ### Pages of events -/

theorem Logged.size (h : Logged t k e) (hid : idValid t.detail.summary.investigationId = true)
    (hk : k ≤ MAX_EVENTS) (hrevision : t.detail.summary.revision ≤ MAX_EVENTS) :
    e.toJson.size ≤ 1024 := by
  have hkeys : Json.keysSize ["investigation_id", "sequence", "revision", "kind", "step_id", "tool",
    "summary", "created_at"] ≤ 200 := by decide
  have hnumber {n : ℕ} (hn : n ≤ MAX_EVENTS) : (Json.nat n).size ≤ 2 :=
    Json.size_nat_le (by omega) (Nat.lt_of_le_of_lt hn (by decide))
  have h1 : Json.strSize e.investigationId ≤ 130 := h.investigationId ▸ strSize_id hid
  have h2 : (Json.nat e.sequence).size ≤ 2 := hnumber (h.sequence ▸ hk)
  have h3 : (Json.nat e.revision).size ≤ 2 := hnumber (h.revision.trans hrevision)
  have h4 : Json.strSize e.kind.text ≤ 32 := by cases e.kind <;> decide
  have h5 : (Json.opt .str e.stepId).size ≤ 130 := by
    refine Json.size_opt_le (by omega) fun step hstep => ?_
    have hvalid := h.stepId
    rw [Option.mem_def.mp hstep, Option.all_some] at hvalid
    rw [Json.size_str]
    exact strSize_id hvalid
  have h6 : (Json.opt (fun t => .str (InvestigationTool.text t)) e.tool).size ≤ 32 := by
    refine Json.size_opt_le (by omega) fun tool _ => ?_
    rw [Json.size_str]
    cases tool <;> decide
  have h7 := (eventTexts_quiet _ h.summary).bounded.2.2
  have h8 : Json.strSize e.createdAt = 22 := by
    obtain ⟨now, hnow⟩ := h.createdAt
    rw [hnow]
    exact strSize_timestamp now
  refine (Json.size_obj_le _).trans ?_
  simp only [List.map_cons, List.map_nil, List.sum_cons, List.sum_nil, Json.size_str]
  linarith

/-- What reading the events of a task relies on. -/
structure EventsReadable (env : Env) (id : String) (row : TaskRow) : Prop where
  log : row.log.Log
  investigationId : row.record.detail.summary.investigationId = id
  idValid : idValid id = true
  sequence : row.record.detail.summary.lastEventSequence ≤ MAX_EVENTS
  revision : row.record.detail.summary.revision ≤ MAX_EVENTS
  texts : ∀ summary ∈ eventTexts, env.redactText summary = (summary, 0)

section Reading

variable {env : Env} (h : EventsReadable env id row)

include h

theorem EventsReadable.logged (he : row.rows.events.find? k = some e) :
    Logged row.record k e ∧ 1 ≤ k ∧ k ≤ row.record.detail.summary.lastEventSequence :=
  ⟨h.log.logged k e he, (h.log.keys k).mp (Option.isSome_iff_exists.mpr ⟨e, he⟩)⟩

theorem EventsReadable.size (he : row.rows.events.find? k = some e) : e.toJson.size ≤ 1024 := by
  obtain ⟨hlogged, -, hk⟩ := h.logged he
  exact hlogged.size (h.investigationId ▸ h.idValid) (hk.trans h.sequence) h.revision

theorem EventsReadable.shown {last : ℕ} (he : row.rows.events.find? (last + 1) = some e) :
    eventShown env row.record id (last + 1) last e = .ok () := by
  obtain ⟨hlogged, -, hk⟩ := h.logged he
  obtain ⟨htext, hlength, -⟩ := (eventTexts_quiet _ hlogged.summary).bounded
  have hrowid : MAX_EVENTS ≤ MAX_ROWID := by decide
  have hsequence := h.sequence
  have hcreated : e.createdAt.utf8ByteSize ≤ 32 := by
    obtain ⟨now, hnow⟩ := hlogged.createdAt
    rw [hnow, now.size]
    omega
  have hredacted : redactedHistoryText env e.summary 1024 = .ok e.summary := by
    simp only [redactedHistoryText, h.texts _ hlogged.summary, bind_eq_ok, ensure_eq_ok, pure_eq_ok]
    exact ⟨(), ⟨htext, by decide⟩, (), htext, trivial⟩
  simp only [eventShown, signed, hlogged.sequence, bind_eq_ok, ensure_eq_ok, admitted_eq_ok]
  exact ⟨(), hlogged.investigationId.trans h.investigationId, (), by omega, (),
    ⟨trivial, trivial, hk, hlogged.revision, hlength⟩, e.summary, hredacted, rfl, hlogged.stepId,
    hcreated⟩

theorem fillEvents_eq : ∀ (l items : List InvestigationEvent) (remaining last : ℕ),
    (∀ e ∈ l, row.rows.events.find? e.sequence = some e) →
    l.map InvestigationEvent.sequence = List.range' (last + 1) l.length → items.length ≤ 50 →
    let k := Paging.fits (fun e : InvestigationEvent => e.toJson.size) (50 - items.length) remaining l
    fillEvents env row id items remaining last (l.map InvestigationEvent.sequence)
      = .ok (items ++ l.take k, last + k, decide (k < l.length)) := by
  intro l
  induction l with
  | nil =>
    intro items remaining last _ _ _
    simp [fillEvents]
    rfl
  | cons e rest ih =>
    intro items remaining last hstored hsequences hitems
    obtain ⟨he, hrest⟩ := List.forall_mem_cons.mp hstored
    rw [List.map_cons, List.length_cons, List.range'_succ] at hsequences
    obtain ⟨hsequence, hsequences⟩ := List.cons.inj hsequences
    rw [hsequence] at he
    -- a stored event is small enough to be read and written
    have hsize := h.size he
    have hbody : readBody InvestigationEvent.toJson (row.rows.events.find? (last + 1))
        = .ok (some e) := by
      simp only [readBody, he, bind_eq_ok, ensure_eq_ok, pure_eq_ok]
      exact ⟨(), decodable_event (hsize.trans (by omega)), trivial⟩
    have hencode : encode e.toJson (16 * 1024) = .ok () := ensure_eq_ok.mpr (hsize.trans (by omega))
    rw [List.map_cons, fillEvents, hsequence, hbody]
    show (do
      eventShown env row.record id (last + 1) last e
      encode e.toJson (16 * 1024)
      if items.length = 50 ∨ remaining < e.toJson.size + 1 then _ else _) = _
    rw [h.shown he, hencode]
    show (if items.length = 50 ∨ remaining < e.toJson.size + 1 then _ else _) = _
    by_cases hfull : items.length = 50
    · rw [if_pos (.inl hfull), hfull]
      simp [Paging.fits]
      rfl
    · obtain ⟨places, hplaces⟩ : ∃ places, 50 - items.length = places + 1 :=
        ⟨50 - items.length - 1, by omega⟩
      rw [hplaces, Paging.fits]
      -- out of places, out of bytes, or one event more
      by_cases hbig : remaining < e.toJson.size + 1
      · rw [if_pos (.inr hbig), if_pos hbig]
        simp
        rfl
      · rw [if_neg (by rintro (h | h) <;> contradiction), if_neg hbig]
        have hlength : 50 - (items ++ [e]).length = places := by
          rw [List.length_append, List.length_singleton]
          omega
        have hnext := ih (items ++ [e]) (remaining - (e.toJson.size + 1)) (last + 1) hrest hsequences
          (by rw [List.length_append, List.length_singleton]; omega)
        rw [hlength] at hnext
        rw [hsequence, hnext, List.take_succ_cons, List.append_assoc, List.singleton_append,
          List.length_cons, Nat.add_right_comm, Nat.add_assoc]
        simp

end Reading

/-- The events of a task in order. -/
def TaskRow.events (row : TaskRow) : List InvestigationEvent := row.rows.events.rows.map Prod.snd

theorem Draft.Log.sequences (h : row.log.Log) :
    row.rows.events.rows.map Prod.fst = List.range' 1 row.record.detail.summary.lastEventSequence := by
  have hsorted : (row.rows.events.rows.map Prod.fst).Pairwise (· < ·) :=
    List.pairwise_map.mpr row.rows.events.sorted
  refine hsorted.eq_of_mem_iff (List.pairwise_lt_range' 1) fun k => ?_
  rw [List.mem_range'_1]
  have hkeys : (row.rows.events.find? k).isSome = true
      ↔ 1 ≤ k ∧ k ≤ row.record.detail.summary.lastEventSequence := h.keys k
  rw [show 1 ≤ k ∧ k < 1 + row.record.detail.summary.lastEventSequence
    ↔ 1 ≤ k ∧ k ≤ row.record.detail.summary.lastEventSequence by omega, ← hkeys,
    Option.isSome_iff_exists, List.mem_map]
  constructor
  · rintro ⟨r, hr, rfl⟩
    exact ⟨r.2, Table.find?_eq_some_iff.mpr hr⟩
  · rintro ⟨e, he⟩
    exact ⟨(k, e), Table.find?_eq_some_iff.mp he, rfl⟩

theorem Draft.Log.events (h : row.log.Log) :
    row.events.map InvestigationEvent.sequence
        = List.range' 1 row.record.detail.summary.lastEventSequence
      ∧ ∀ e ∈ row.events, row.rows.events.find? e.sequence = some e := by
  have hrow : ∀ r ∈ row.rows.events.rows, row.rows.events.find? r.1 = some r.2 ∧ r.2.sequence = r.1 := by
    intro r hr
    have hfind : row.rows.events.find? r.1 = some r.2 := Table.find?_eq_some_iff.mpr hr
    exact ⟨hfind, (h.logged r.1 r.2 hfind).sequence⟩
  constructor
  · rw [← h.sequences, TaskRow.events, List.map_map]
    exact List.map_congr_left fun r hr => (hrow r hr).2
  · intro e he
    obtain ⟨r, hr, rfl⟩ := List.mem_map.mp he
    rw [(hrow r hr).2]
    exact (hrow r hr).1

theorem take_range' (a n k : ℕ) : (List.range' a n).take k = List.range' a (min k n) := by
  rcases Nat.le_total k n with hle | hle
  · rw [List.take_range'_of_length_ge hle, Nat.min_eq_left hle]
  · rw [List.take_range'_of_length_le hle, Nat.min_eq_right hle]

theorem filter_range' (a n : ℕ) :
    (List.range' 1 n).filter (fun k => decide (a < k)) = (List.range' 1 n).drop a := by
  have hdrop : (List.range' 1 n).drop a = List.range' (1 + a) (n - a) := by
    rw [List.drop_range', Nat.mul_one]
  rw [hdrop]
  refine ((List.pairwise_lt_range' 1).filter _).eq_of_mem_iff (List.pairwise_lt_range' 1) fun k => ?_
  rw [List.mem_filter, List.mem_range'_1, List.mem_range'_1, decide_eq_true_iff]
  omega

theorem Draft.Log.behind (h : row.log.Log) (after : ℕ) :
    (row.rows.events.rows.map Prod.fst).filter (fun n => decide (after < n))
        = (row.events.drop after).map InvestigationEvent.sequence
      ∧ (row.events.drop after).map InvestigationEvent.sequence
        = List.range' (after + 1) (row.events.drop after).length := by
  have hsequences := h.events.1
  have hlength : row.events.length = row.record.detail.summary.lastEventSequence := by
    have hlength := congrArg List.length hsequences
    rwa [List.length_map, List.length_range'] at hlength
  rw [h.sequences, filter_range', List.map_drop, hsequences, List.length_drop, hlength,
    List.drop_range', Nat.mul_one, Nat.add_comm 1]
  exact ⟨rfl, rfl⟩

theorem size_eventPage {page : InvestigationEventPage} (hid : idValid page.investigationId = true)
    (hitems : (page.items.map fun e => 1 + e.toJson.size).sum ≤ 256 * 1024 - 4096)
    (hnext : page.nextSequence < 10 ^ 3) : page.toJson.size ≤ 256 * 1024 := by
  have hkeys : Json.keysSize ["investigation_id", "items", "next_sequence", "has_more"] ≤ 80 := by
    decide
  have harr := Json.size_arr_le (page.items.map InvestigationEvent.toJson)
  rw [List.map_map] at harr
  have hsum : (page.items.map ((fun j => 1 + Json.size j) ∘ InvestigationEvent.toJson)).sum
      ≤ 256 * 1024 - 4096 := hitems
  have h1 := strSize_id hid
  have h2 : (Json.nat page.nextSequence).size ≤ 3 := Json.size_nat_le (by omega) hnext
  have h3 : (Json.bool page.hasMore).size ≤ 5 := by cases page.hasMore <;> decide
  refine (Json.size_obj_le _).trans ?_
  simp only [List.map_cons, List.map_nil, List.sum_cons, List.sum_nil, Json.size_str]
  omega

/-- A page of events within its limits: the first events behind number `after`, all of them or at
least one. -/
theorem eventPage_ok {env : Env} (h : EventsReadable env id row)
    (hload : s.loadTask env id = .ok row) (hafter : after ≤ MAX_EVENTS) :
    ∃ page k, s.investigationEvents env id after = .ok page
      ∧ page.items = (row.events.drop after).take k
      ∧ page.nextSequence = after + k
      ∧ after + k ≤ MAX_EVENTS
      ∧ page.toJson.size ≤ 256 * 1024
      ∧ k ≤ (row.events.drop after).length
      ∧ (page.hasMore = true → page.items ≠ [])
      ∧ (page.hasMore = false → k = (row.events.drop after).length) := by
  set l := row.events.drop after with hl
  set k := Paging.fits (fun e : InvestigationEvent => e.toJson.size) 50 (256 * 1024 - 4096) (l.take 51)
    with hk
  obtain ⟨hrows, hsequences⟩ := h.log.behind after
  rw [← hl] at hrows hsequences
  have hmax : MAX_EVENTS = 96 := rfl
  have hlast := h.sequence
  have hlength : l.length = row.record.detail.summary.lastEventSequence - after := by
    have hlength := congrArg List.length h.log.events.1
    rw [List.length_map, List.length_range'] at hlength
    rw [hl, List.length_drop, hlength]
  have hplaces : k ≤ 50 := Paging.fits_le_places ..
  have hbound : k ≤ (l.take 51).length := Paging.fits_le_length ..
  rw [List.length_take] at hbound
  -- what fits is a prefix of the events behind `after`, the one more is for `hasMore`
  have htake : (l.take 51).take k = l.take k := by
    rw [List.take_take, Nat.min_eq_left (by omega)]
  have hstored : ∀ e ∈ l.take 51, row.rows.events.find? e.sequence = some e := fun e he =>
    h.log.events.2 e (List.mem_of_mem_drop (List.mem_of_mem_take he))
  have hnumbers : (l.take 51).map InvestigationEvent.sequence
      = List.range' (after + 1) (l.take 51).length := by
    rw [List.map_take, hsequences, take_range', List.length_take]
  have hfill := fillEvents_eq h (l.take 51) [] (256 * 1024 - 4096) after hstored hnumbers
    (Nat.zero_le _)
  simp only [List.length_nil, Nat.sub_zero, ← hk, htake, List.nil_append, List.length_take] at hfill
  -- the reserve of 4096 bytes is for the frame of the page
  have hroom : ((l.take k).map fun e => 1 + e.toJson.size).sum ≤ 256 * 1024 - 4096 := by
    rw [← htake]
    exact Paging.sum_fits ..
  have hsize : (⟨id, l.take k, after + k, decide (k < min 51 l.length)⟩
      : InvestigationEventPage).toJson.size ≤ 256 * 1024 :=
    size_eventPage h.idValid hroom (by show after + k < 10 ^ 3; omega)
  refine ⟨⟨id, l.take k, after + k, decide (k < min 51 l.length)⟩, k, ?_, rfl, rfl, by omega, hsize,
    by omega, ?_, ?_⟩
  · simp only [Store.investigationEvents, signed, encode, bind_eq_ok, ensure_eq_ok, pure_eq_ok]
    refine ⟨(), hafter, row, hload, (), hafter.trans (by decide), (l.take k, after + k, _), ?_, (), ?_,
      (), hsize, rfl⟩
    · rw [hrows, ← List.map_take]
      exact hfill
    · rintro ⟨hmore, hbefore⟩
      have hall : ¬ k < min 51 l.length := of_decide_eq_false hmore
      have hbehind : after + k < row.record.detail.summary.lastEventSequence := hbefore
      omega
  · -- the first event always fits
    intro hhas
    have hmore : k < min 51 l.length := of_decide_eq_true hhas
    obtain ⟨e, rest, hcons⟩ : ∃ e rest, l = e :: rest :=
      List.exists_cons_of_ne_nil (List.ne_nil_of_length_pos (by omega))
    have he : e ∈ row.events := List.mem_of_mem_drop (hl ▸ hcons ▸ List.mem_cons_self ..)
    have hevent := h.size (h.log.events.2 e he)
    have hpos : 0 < k := by
      rw [hk, hcons, List.take_succ_cons]
      exact Paging.fits_pos (by omega) (by omega)
    refine List.ne_nil_of_length_pos ?_
    show 0 < (l.take k).length
    rw [List.length_take]
    omega
  · intro hno
    have hall : ¬ k < min 51 l.length := of_decide_eq_false hno
    show k = l.length
    omega

/-! ### Following the pages -/

/-- Pages of events read one after the other: the first one behind number `after`, each other one
behind the last event shown, after any operations. -/
inductive EventPages (env : Env) (id : String) (after : ℕ) (s₁ : Store) :
    List InvestigationEventPage → Store → ℕ → Bool → Prop
  | first {page : InvestigationEventPage} :
      s₁.investigationEvents env id after = .ok page →
      EventPages env id after s₁ [page] s₁ page.nextSequence page.hasMore
  | next {pages : List InvestigationEventPage} {s s' : Store} {tr : List Event} {n : ℕ} {more : Bool}
      {page : InvestigationEventPage} :
      EventPages env id after s₁ pages s n more → (machine env).Steps s tr s' →
      s'.investigationEvents env id n = .ok page →
      EventPages env id after s₁ (pages ++ [page]) s' page.nextSequence page.hasMore

def shownEvents (pages : List InvestigationEventPage) : List InvestigationEvent :=
  pages.flatMap fun page => page.items

theorem Grows.events_eq (h : Grows row.log row'.log) (hlog : row.log.Log) (hlog' : row'.log.Log) :
    row.events = row'.events.take row.events.length:= by
  have hlookup {r : TaskRow} (hr : r.log.Log)
      (hfind : ∀ k e, r.rows.events.find? k = some e → row'.rows.events.find? k = some e) :
      r.events.map some
        = (List.range' 1 r.record.detail.summary.lastEventSequence).map row'.rows.events.find? := by
    rw [← hr.events.1, List.map_map]
    refine List.map_congr_left fun e he => ?_
    exact (hfind _ _ (hr.events.2 e he)).symm
  have hlength : row.events.length = row.record.detail.summary.lastEventSequence := by
    have hlength := congrArg List.length hlog.events.1
    rwa [List.length_map, List.length_range'] at hlength
  have hsequence : row.record.detail.summary.lastEventSequence
      ≤ row'.record.detail.summary.lastEventSequence := h.sequence
  refine List.map_injective_iff.mpr (Option.some_injective _) ?_
  rw [hlookup hlog h.events, List.map_take, hlookup hlog' (fun _ _ he => he), ← List.map_take,
    take_range', hlength, Nat.min_eq_left hsequence]

theorem steps_eventsReadable {env : Env} (h : (machine env).Steps s₀ tr s) (h0 : s₀.Initial)
    (htexts : ∀ summary ∈ eventTexts, env.redactText summary = (summary, 0))
    (hrow : s.tasks.find? id = some row) : EventsReadable env id row := by
  have hsound := steps_sound h h0 id row hrow
  obtain ⟨-, -, hid, -, -, -, -, -, -, -, -, -, -, hsequence, -⟩ := hsound.valid.fields
  exact ⟨steps_log h h0 id row hrow, hsound.investigationId, hsound.investigationId ▸ hid, hsequence,
    hsound.revision_le, htexts⟩

/-- What was read so far: the first `k` events behind number `after`. -/
structure EventPages.Progress (row : TaskRow) (after : ℕ) (pages : List InvestigationEventPage)
    (n : ℕ) (more : Bool) (k : ℕ) : Prop where
  events : shownEvents pages = (row.events.drop after).take k
  last : n = after + k
  within : n ≤ MAX_EVENTS
  pages : ∀ page ∈ pages, page.toJson.size ≤ 256 * 1024 ∧ (page.hasMore = true → page.items ≠ [])
  some : k ≤ (row.events.drop after).length
  all : more = false → k = (row.events.drop after).length

theorem EventPages.progress {env : Env} {n : ℕ} {more : Bool} {pages : List InvestigationEventPage}
    (h0 : s₀.Initial) (hs1 : (machine env).Steps s₀ tr s₁)
    (htexts : ∀ summary ∈ eventTexts, env.redactText summary = (summary, 0))
    (hrow1 : s₁.tasks.find? id = some row₁) (hafter : after ≤ MAX_EVENTS)
    (h : EventPages env id after s₁ pages s n more) :
    ∃ tr' row k, (machine env).Steps s₁ tr' s ∧ s.tasks.find? id = some row
      ∧ EventPages.Progress row after pages n more k := by
  induction h with
  | @first page hread =>
    obtain ⟨page', k, hread', hitems, hnext, hwithin, hsize, hsome, hnonempty, hall⟩ := eventPage_ok
      (steps_eventsReadable hs1 h0 htexts hrow1) (steps_loadTask hs1 h0 hrow1) hafter
    obtain rfl : page = page' := Except.ok.inj (hread.symm.trans hread')
    refine ⟨[], row₁, k, .refl, hrow1, ?_, hnext, hnext ▸ hwithin, ?_, hsome, hall⟩
    · rw [shownEvents, List.flatMap_singleton, hitems]
    · intro p hp
      rw [List.mem_singleton.mp hp]
      exact ⟨hsize, hnonempty⟩
  | @next pages s s' tr1 n more page hpages hsteps hread ih =>
    obtain ⟨tr', row, k, hbefore, hrow, hevents, hlast, hwithin, hpages, hsome, -⟩ := ih
    have hreached := hs1.trans hbefore
    have hreached' := hreached.trans hsteps
    obtain ⟨row', hrow', hgrows⟩ := steps_grows h0 hreached hrow hsteps
    have hreadable := steps_eventsReadable hreached h0 htexts hrow
    have hreadable' := steps_eventsReadable hreached' h0 htexts hrow'
    obtain ⟨page', j, hread', hitems, hnext, hwithin', hsize, hsome', hnonempty, hall⟩ :=
      eventPage_ok hreadable' (steps_loadTask hreached' h0 hrow') hwithin
    obtain rfl : page = page' := Except.ok.inj (hread.symm.trans hread')
    -- what was shown before is still the beginning of the log
    have hcut := hgrows.events_eq hreadable.log hreadable'.log
    have hsame : (row.events.drop after).take k = (row'.events.drop after).take k := by
      rw [List.length_drop] at hsome
      conv_lhs => rw [hcut]
      rw [List.drop_take, List.take_take, Nat.min_eq_left hsome]
    have hle : row.events.length ≤ row'.events.length := by
      have hlength := congrArg List.length hcut
      rw [List.length_take] at hlength
      omega
    -- the next page starts where the shown events end
    have hdrop : row'.events.drop n = (row'.events.drop after).drop k := by
      rw [List.drop_drop, hlast]
    rw [hdrop] at hitems
    rw [List.length_drop] at hsome hsome' hall
    refine ⟨tr' ++ tr1, row', k + j, hbefore.trans hsteps, hrow', ?_, by omega, hnext ▸ hwithin', ?_,
      ?_, ?_⟩
    · rw [shownEvents, List.flatMap_append, List.flatMap_singleton, hitems, List.take_add, ← hsame,
        ← hevents]
      rfl
    · intro p hp
      rcases List.mem_append.mp hp with hp | hp
      · exact hpages p hp
      · rw [List.mem_singleton.mp hp]
        exact ⟨hsize, hnonempty⟩
    · rw [List.length_drop]
      omega
    · intro hno
      have hlast' := hall hno
      rw [List.length_drop]
      omega

/-- Reading the events of a task, whatever happens between the pages: every read succeeds within its
limits and shows an event while there are more; the numbers shown follow each other, the events
are those stored, and a page that announces no more was the last of them. -/
theorem events_cut {env : Env} (h0 : s₀.Initial) (hs1 : (machine env).Steps s₀ tr s₁)
    (htexts : ∀ summary ∈ eventTexts, env.redactText summary = (summary, 0))
    (hrow1 : s₁.tasks.find? id = some row₁) (hafter : after ≤ MAX_EVENTS) :
    (∃ page, s₁.investigationEvents env id after = .ok page)
    ∧ ∀ pages s n more, EventPages env id after s₁ pages s n more →
      (∀ page ∈ pages, page.toJson.size ≤ 256 * 1024 ∧ (page.hasMore = true → page.items ≠ []))
      ∧ (∀ tr' s', (machine env).Steps s tr' s' →
        ∃ page, s'.investigationEvents env id n = .ok page)
      ∧ (shownEvents pages).map InvestigationEvent.sequence = List.range' (after + 1) (n - after)
      ∧ ∃ row, s.tasks.find? id = some row
        ∧ (∀ e ∈ shownEvents pages, row.rows.events.find? e.sequence = some e)
        ∧ (more = false → ∀ k e, row.rows.events.find? k = some e → after < k →
          e ∈ shownEvents pages) := by
  refine ⟨?_, ?_⟩
  · obtain ⟨page, _, hread, -⟩ := eventPage_ok (steps_eventsReadable hs1 h0 htexts hrow1)
      (steps_loadTask hs1 h0 hrow1) hafter
    exact ⟨page, hread⟩
  · intro pages s n more hpages
    obtain ⟨tr', row, k, hsteps, hrow, hevents, hlast, hwithin, hsizes, hsome, hall⟩ :=
      hpages.progress h0 hs1 htexts hrow1 hafter
    have hlog := steps_log (hs1.trans hsteps) h0 id row hrow
    refine ⟨hsizes, ?_, ?_, row, hrow, ?_, ?_⟩
    · intro tr2 s₂ hsteps2
      have hreached := (hs1.trans hsteps).trans hsteps2
      obtain ⟨row₂, hrow2, -⟩ := steps_grows h0 (hs1.trans hsteps) hrow hsteps2
      obtain ⟨page, _, hread, -⟩ := eventPage_ok (steps_eventsReadable hreached h0 htexts hrow2)
        (steps_loadTask hreached h0 hrow2) hwithin
      exact ⟨page, hread⟩
    · rw [hevents, List.map_take, (hlog.behind after).2, take_range', Nat.min_eq_left hsome, hlast,
        Nat.add_sub_cancel_left]
    · intro e he
      rw [hevents] at he
      exact hlog.events.2 e (List.mem_of_mem_drop (List.mem_of_mem_take he))
    · intro hno i e he hi
      rw [hevents, hall hno, List.take_length]
      -- an event behind `after` has its number in the log
      have hmem : i ∈ (row.events.drop after).map InvestigationEvent.sequence := by
        rw [← (hlog.behind after).1, List.mem_filter]
        refine ⟨List.mem_map.mpr ⟨(i, e), Table.find?_eq_some_iff.mp he, rfl⟩, decide_eq_true hi⟩
      obtain ⟨e', he', rfl⟩ := List.mem_map.mp hmem
      have hstored := hlog.events.2 e' (List.mem_of_mem_drop he')
      obtain rfl : e = e' := Option.some.inj (he.symm.trans hstored)
      exact he'

/-! ### Both readers -/

/-- Following the pages of the history, or of the events of a task, shows a consistent cut of it,
whatever operations happen between the pages. -/
theorem paging_consistent {env : Env} {w : Redaction.Words}
    (hredact : env.redactText = Redaction.redactText w) {s₀ s₁ : Store} {tr : List Event}
    (h₀ : s₀.Initial) (hs₁ : (machine env).Steps s₀ tr s₁) {conversationId : Option String}
    (hconversation : conversationId.all idValid = true) :
    ((∃ page, s₁.investigationHistory env conversationId none = .ok page)
      ∧ ∀ pages s cursor, Pages env conversationId s₁ pages s cursor →
        (∀ page ∈ pages, page.toJson.size ≤ 256 * 1024)
        ∧ pages.length ≤ s₁.tasks.rows.length + 1
        ∧ (∀ c ∈ cursor, ∀ tr' s', (machine env).Steps s tr' s' →
          ∃ page, s'.investigationHistory env conversationId (some c) = .ok page)
        ∧ (cursor = none → (shownIds pages).Nodup
          ∧ ∃ rows : List (String × TaskRow), shownIds pages = rows.map Prod.fst
          ∧ rows.Pairwise (fun a b => b.2.ordinal < a.2.ordinal)
          ∧ ∀ r, r ∈ rows ↔ r ∈ s.tasks.rows ∧ r.2.ordinal ≤ s₁.maxOrdinal
            ∧ ∀ id ∈ conversationId, r.2.conversationId = id))
    ∧ ∀ id row₁ after, s₁.tasks.find? id = some row₁ → after ≤ MAX_EVENTS →
      (∃ page, s₁.investigationEvents env id after = .ok page)
      ∧ ∀ pages s n more, EventPages env id after s₁ pages s n more →
        (∀ page ∈ pages, page.toJson.size ≤ 256 * 1024 ∧ (page.hasMore = true → page.items ≠ []))
        ∧ (∀ tr' s', (machine env).Steps s tr' s' →
          ∃ page, s'.investigationEvents env id n = .ok page)
        ∧ (shownEvents pages).map InvestigationEvent.sequence = List.range' (after + 1) (n - after)
        ∧ ∃ row, s.tasks.find? id = some row
          ∧ (∀ e ∈ shownEvents pages, row.rows.events.find? e.sequence = some e)
          ∧ (more = false → ∀ k e, row.rows.events.find? k = some e → after < k →
            e ∈ shownEvents pages) := by
  refine ⟨history_cut h₀ hs₁ hconversation, fun id row₁ after hrow₁ hafter => ?_⟩
  refine events_cut h₀ hs₁ (fun summary hsummary => ?_) hrow₁ hafter
  rw [hredact]
  exact (eventTexts_quiet summary hsummary).unredacted w

namespace Sample

/-- The environment with the patterns of redaction. -/
def redactingEnv : Env := { env intent with redactText := Redaction.redactText Redaction.Words.plain }

end Sample

/-- A task that has begun: the history is its one page, and its events are two. -/
theorem paging_consistent_begun :
    ∃ page events, ((machine Sample.redactingEnv).exec Sample.empty Sample.begun).investigationHistory
        Sample.redactingEnv none none = .ok page
      ∧ ((machine Sample.redactingEnv).exec Sample.empty Sample.begun).investigationEvents
        Sample.redactingEnv Sample.taskId 0 = .ok events
      ∧ page.toJson.size ≤ 256 * 1024
      ∧ events.items.map InvestigationEvent.sequence = List.range' 1 events.nextSequence := by
  have hrow : (((machine Sample.redactingEnv).exec Sample.empty Sample.begun).tasks.find?
      Sample.taskId).map (fun row => row.record.detail.summary.lastEventSequence) = some 2 := by
    decide +kernel
  obtain ⟨row, hrow, -⟩ := Option.map_eq_some_iff.mp hrow
  obtain ⟨⟨⟨page, hpage⟩, hhistory⟩, hevents⟩ := paging_consistent
    (show Sample.redactingEnv.redactText = Redaction.redactText Redaction.Words.plain from rfl)
    Sample.empty_initial
    (Machine.steps_exec (M := machine Sample.redactingEnv) fun _ i (_ : i ∈ Sample.begun) => trivial)
    (show (none : Option String).all idValid = true from rfl)
  obtain ⟨⟨events, hread⟩, hcut⟩ := hevents Sample.taskId row 0 hrow (Nat.zero_le _)
  refine ⟨page, events, hpage, hread, ?_, ?_⟩
  · exact (hhistory _ _ _ (.first hpage)).1 page (List.mem_singleton.mpr rfl)
  · have hshown := (hcut _ _ _ _ (.first hread)).2.2.1
    rwa [shownEvents, List.flatMap_singleton] at hshown

end Jobs

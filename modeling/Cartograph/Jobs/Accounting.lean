/-
Accounting of invocations.

The counters of a task are in its record, and what they count is in other tables:
an invocation row when a call starts, a response row when its answer is admitted, a
result row with the last answer.  `Booking` sorts the moves by what they do to the two
sides:

* `Accounted` — counters and rows agree, in every state;
* `UsageGrows` — what a counter of an earlier state is to the same counter later;
* `Lost` — a call whose answer never came, because the task ended first;
* `invocation_accounting` — all of it, along every run.
-/
import Cartograph.Jobs.Consent

namespace Jobs

open Investigation Checked

/-! ### One move -/

/-- Reported totals are kept, or forgotten. -/
def KeepsTotals (u u' : InvestigationUsage) : Prop :=
  (u'.reportedInputTokens = u.reportedInputTokens ∨ u'.reportedInputTokens = none)
    ∧ (u'.reportedOutputTokens = u.reportedOutputTokens ∨ u'.reportedOutputTokens = none)

/-- The rows and counters of invocations are as before. -/
structure SameBooks (d d' : Draft) : Prop where
  invocations : d'.rows.invocations = d.rows.invocations
  responses : d'.rows.responses = d.rows.responses
  modelInvocations : d'.task.detail.usage.modelInvocations = d.task.detail.usage.modelInvocations
  reservations : d'.task.detail.usage.generatedTokenReservations
    = d.task.detail.usage.generatedTokenReservations
  totals : KeepsTotals d.task.detail.usage d'.task.detail.usage

inductive Booking (d : Draft) : Action → Draft → Prop
  | invokes (step : PendingInvestigationStep) (d' : Draft) :
      d.task.phase ≠ .invocation → d'.task.phase = .invocation →
      d.rows.invocations.find? step.stepId = none →
      d'.rows.invocations = d.rows.invocations.put step.stepId step →
      d'.rows.responses = d.rows.responses →
      d'.task.detail.usage.modelInvocations = d.task.detail.usage.modelInvocations + 1 →
      d'.task.detail.usage.generatedTokenReservations
        = d.task.detail.usage.generatedTokenReservations + step.generatedTokens →
      KeepsTotals d.task.detail.usage d'.task.detail.usage →
      Booking d (.advance (.beginInvocation step)) d'
  | answers (response : InvestigationResponseMeta) (tool : Option InvestigationTool)
      (result : Option InvestigationResult) (d' : Draft) :
      d.task.phase = .invocation → d'.task.phase ≠ .invocation →
      d.rows.responses.find? response.stepId = none →
      d'.rows.invocations = d.rows.invocations →
      d'.rows.responses = d.rows.responses.put response.stepId response →
      responseUsage d.task.detail.usage response = .ok d'.task.detail.usage →
      Booking d (.advance (.actionAdmitted response tool result)) d'
  | stops {action : Action} (d' : Draft) :
      (∃ reason activeMilliseconds, action = .advance (.stopWithElapsed reason activeMilliseconds))
        ∨ action = .recover →
      d'.task.phase = .terminal → SameBooks d d' → Booking d action d'
  | keeps {action : Action} (d' : Draft) :
      (d'.task.phase = .invocation ↔ d.task.phase = .invocation) →
      (d.task.phase = .invocation → d'.task.phase ≠ .terminal) →
      SameBooks d d' → Booking d action d'

section

variable {usage u : InvestigationUsage} {d d' : Draft} {env : Env} {clock : Clock} {action : Action}
  {id : String} {s s' : Store} {response : InvestigationResponseMeta}

theorem responseUsage_ok {usage' : InvestigationUsage}
    (h : responseUsage usage response = .ok usage') :
    ∃ input output,
      addReported usage.reportedInputTokens response.reportedInputTokens
        (usage.modelInvocations == 1) = .ok input
      ∧ addReported usage.reportedOutputTokens response.reportedOutputTokens
        (usage.modelInvocations == 1) = .ok output
      ∧ usage' = { usage with reportedInputTokens := input, reportedOutputTokens := output
                              activeMilliseconds := response.activeMilliseconds } := by
  simp only [responseUsage, bind_eq_ok, pure_eq_ok] at h
  obtain ⟨input, hinput, output, houtput, rfl⟩ := h
  exact ⟨input, output, hinput, houtput, rfl⟩

theorem SameBooks.of_usage (hinvocations : d'.rows.invocations = d.rows.invocations)
    (hresponses : d'.rows.responses = d.rows.responses)
    (h1 : d'.task.detail.usage.modelInvocations = d.task.detail.usage.modelInvocations)
    (h2 : d'.task.detail.usage.generatedTokenReservations
      = d.task.detail.usage.generatedTokenReservations)
    (h3 : d'.task.detail.usage.reportedInputTokens = d.task.detail.usage.reportedInputTokens)
    (h4 : d'.task.detail.usage.reportedOutputTokens = d.task.detail.usage.reportedOutputTokens) :
    SameBooks d d' :=
  ⟨hinvocations, hresponses, h1, h2, .inl h3, .inl h4⟩

variable {ledger : InvestigationInputLedger}

theorem sameBooks_withInput {fingerprint : String} {first : Bool}
    (h : Continues env d ledger usage fingerprint) :
    SameBooks d (d.withInput clock ledger fingerprint usage first) := by
  obtain ⟨h1, -, -, -, h2, h3, h4, -⟩ := h.counters
  refine .of_usage rfl rfl ?_ ?_ ?_ ?_ <;> rw [Draft.withInput, usage_noted]
  · exact h1
  · exact h2
  · exact h3
  · exact h4

theorem sameBooks_ended {t : StoredTask} (hinvocations : d'.rows.invocations = d.rows.invocations)
    (hresponses : d'.rows.responses = d.rows.responses)
    (hused : d'.task.detail.usage = if t.phase = .invocation
      then clearUnmeasuredUsage t.detail.usage else t.detail.usage)
    (h1 : t.detail.usage.modelInvocations = d.task.detail.usage.modelInvocations)
    (h2 : t.detail.usage.generatedTokenReservations
      = d.task.detail.usage.generatedTokenReservations)
    (h3 : t.detail.usage.reportedInputTokens = d.task.detail.usage.reportedInputTokens)
    (h4 : t.detail.usage.reportedOutputTokens = d.task.detail.usage.reportedOutputTokens) :
    SameBooks d d' := by
  by_cases hphase : t.phase = .invocation
  · rw [if_pos hphase] at hused
    refine ⟨hinvocations, hresponses, ?_, ?_, ?_, ?_⟩ <;> rw [hused]
    · exact h1
    · exact h2
    · exact .inr rfl
    · exact .inr rfl
  · rw [if_neg hphase] at hused
    refine .of_usage hinvocations hresponses ?_ ?_ ?_ ?_ <;> rw [hused]
    · exact h1
    · exact h2
    · exact h3
    · exact h4

theorem Move.booking (h : Move env clock d action d') : Booking d action d' := by
  cases h with
  | attach _ hphase =>
    refine .keeps _ (by simp [attached, hphase]) (by simp [hphase]) ?_
    exact .of_usage rfl rfl rfl rfl rfl rfl
  | inputPrepared _ usage _ hphase _ _ hcont | inputAdmitted _ usage _ hphase _ hcont =>
    refine .keeps _ (by simp [Draft.withInput, inputTaken, hphase]) (by simp [hphase]) ?_
    exact sameBooks_withInput hcont
  | awaitConsent _ hphase =>
    refine .keeps _ (by simp [awaiting, hphase]) (by simp [hphase]) ?_
    exact .of_usage rfl rfl rfl rfl rfl rfl
  | beginInvocation step _ hinv =>
    have hphase : d.task.phase ≠ .invocation := by
      rcases mayInvoke_phase hinv.may with hphase | hphase <;> simp [hphase]
    exact .invokes step _ hphase (by simp [Draft.invoked, invoking]) hinv.fresh
      (by simp [Draft.invoked]) (by simp [Draft.invoked])
      (by simp [Draft.invoked, invoking, invocationUsage])
      (by simp [Draft.invoked, invoking, invocationUsage])
      (by simp [Draft.invoked, invoking, invocationUsage, KeepsTotals])
  | actionAdmitted response tool usage _ hans =>
    exact .answers response (some tool) none _ hans.phase (by simp [Draft.responded, responded])
      hans.fresh (by simp [Draft.responded, Rows.withResponse])
      (by simp [Draft.responded, Rows.withResponse])
      (by simpa [Draft.responded, responded] using hans.reported)
  | finished response result usage hans =>
    exact .answers response none (some result) _ hans.phase (by simp [Draft.responded, responded])
      hans.fresh (by simp [Draft.responded, Rows.withResponse])
      (by simp [Draft.responded, Rows.withResponse])
      (by simpa [Draft.responded, responded] using hans.reported)
  | beginTool _ hphase =>
    refine .keeps _ (by simp [toolStarted, hphase]) (by simp [hphase]) ?_
    exact .of_usage rfl rfl rfl rfl rfl rfl
  | chargeEvidence _ hphase =>
    refine .keeps _ (by simp [charged, hphase]) (by simp [hphase]) ?_
    exact .of_usage rfl rfl rfl rfl rfl rfl
  | stopWithElapsed reason activeMilliseconds =>
    refine .stops _ (.inl ⟨reason, activeMilliseconds, rfl⟩) (by simp [Draft.stopped, ended]) ?_
    exact sameBooks_ended rfl rfl rfl rfl rfl rfl rfl
  | approve _ _ _ hdecides =>
    refine .keeps _ (by simp [consented]) (by simp [hdecides.phase]) ?_
    exact .of_usage rfl rfl rfl rfl rfl rfl
  | decline _ _ _ hdecides =>
    refine .keeps _ (by simp [Draft.stopped, ended, hdecides.phase]) (by simp [hdecides.phase]) ?_
    exact sameBooks_ended rfl rfl rfl rfl rfl rfl rfl
  | cancel hlive =>
    -- only a queued task ends with its cancellation, and it has no call
    have hphase : (cancelRequested d.task).phase
        = if d.task.phase = .queued then .terminal else d.task.phase := rfl
    refine .keeps _ ?_ ?_ ?_
    · by_cases hq : d.task.phase = .queued <;> simp [Draft.cancelledBy, hphase, hq]
    · intro hinv
      simp [Draft.cancelledBy, hphase, hinv]
    · exact .of_usage rfl rfl rfl rfl rfl rfl
  | recover =>
    refine .stops _ (.inr rfl) (by simp [Draft.recovered, ended]) ?_
    exact sameBooks_ended rfl rfl rfl rfl rfl rfl rfl

/-! ### Counters and rows -/

/-- The counters of invocations are those of the stored rows. -/
structure Accounted (t : StoredTask) (rows : Rows) : Prop where
  modelInvocations : t.detail.usage.modelInvocations = rows.invocations.rows.length
  reservations : t.detail.usage.generatedTokenReservations
    = (rows.invocations.rows.map fun r => r.2.generatedTokens).sum
  stepIds : ∀ r ∈ rows.invocations.rows, r.2.stepId = r.1

theorem SameBooks.accounted (h : SameBooks d d') (hd : Accounted d.task d.rows) :
    Accounted d'.task d'.rows := by
  refine ⟨?_, ?_, ?_⟩
  · rw [h.modelInvocations, h.invocations]
    exact hd.modelInvocations
  · rw [h.reservations, h.invocations]
    exact hd.reservations
  · rw [h.invocations]
    exact hd.stepIds

theorem Booking.accounted (h : Booking d action d') (hd : Accounted d.task d.rows) :
    Accounted d'.task d'.rows := by
  cases h with
  | invokes step _ _ _ hfresh hinvocations _ hcount hreserved =>
    have hperm : d'.rows.invocations.rows.Perm ((step.stepId, step) :: d.rows.invocations.rows) := by
      rw [hinvocations]
      exact Table.rows_put_perm step hfresh
    refine ⟨?_, ?_, ?_⟩
    · rw [hcount, hperm.length_eq, hd.modelInvocations]
      rfl
    · rw [hreserved, (hperm.map _).sum_eq, List.map_cons, List.sum_cons, hd.reservations]
      exact Nat.add_comm _ _
    · intro r hr
      rcases List.mem_cons.mp (hperm.mem_iff.mp hr) with rfl | hold
      · rfl
      · exact hd.stepIds r hold
  | answers _ _ _ _ _ _ _ hinvocations _ hused =>
    obtain ⟨_, _, -, -, hused'⟩ := responseUsage_ok hused
    refine ⟨?_, ?_, ?_⟩
    · rw [hused', hinvocations]
      exact hd.modelInvocations
    · rw [hused', hinvocations]
      exact hd.reservations
    · rw [hinvocations]
      exact hd.stepIds
  | stops _ _ _ hsame | keeps _ _ _ hsame => exact hsame.accounted hd

theorem Booking.invoked (h : Booking d action d') {stepId : String}
    (hd : (d.rows.invocations.find? stepId).isSome) :
    (d'.rows.invocations.find? stepId).isSome := by
  cases h with
  | invokes step _ _ _ _ hinvocations =>
    rw [hinvocations, Table.find?_put]
    split_ifs
    · rfl
    · exact hd
  | answers _ _ _ _ _ _ _ hinvocations => rwa [hinvocations]
  | stops _ _ _ hsame | keeps _ _ _ hsame => rwa [hsame.invocations]

theorem Move.result (h : Move env clock d action d')
    (hd : d.rows.result.isSome = d.task.detail.summary.hasResult) :
    d'.rows.result.isSome = d'.task.detail.summary.hasResult := by
  cases h with
  | attach => simpa [attached] using hd
  | inputPrepared | inputAdmitted => simpa [Draft.withInput, inputTaken, Rows.withInput] using hd
  | awaitConsent => simpa [awaiting] using hd
  | beginInvocation => simpa [Draft.invoked, invoking] using hd
  | actionAdmitted => simpa [Draft.responded, responded, Rows.withResponse] using hd
  | finished => simp [Draft.responded, responded, Rows.withResponse]
  | beginTool => simpa [toolStarted] using hd
  | chargeEvidence => simpa [charged] using hd
  | stopWithElapsed => simpa [Draft.stopped, ended, elapsed] using hd
  | approve => simpa [consented] using hd
  | decline => simpa [Draft.stopped, ended, declining] using hd
  | cancel => simpa [Draft.cancelledBy, cancelRequested] using hd
  | recover => simpa [Draft.recovered, ended] using hd

/-! ### Usage -/

/-- No counter goes back. -/
structure UsageGrows (u u' : InvestigationUsage) : Prop where
  modelInvocations : u.modelInvocations ≤ u'.modelInvocations
  toolActions : u.toolActions ≤ u'.toolActions
  selectedFacts : u.selectedFacts ≤ u'.selectedFacts
  evidenceRequests : u.evidenceRequests ≤ u'.evidenceRequests
  evidenceItems : u.evidenceItems ≤ u'.evidenceItems
  evidenceBytes : u.evidenceBytes ≤ u'.evidenceBytes
  capturedValidationBytes : u.capturedValidationBytes ≤ u'.capturedValidationBytes
  generatedTokenReservations : u.generatedTokenReservations ≤ u'.generatedTokenReservations
  activeMilliseconds : u.activeMilliseconds ≤ u'.activeMilliseconds

theorem UsageGrows.refl (u : InvestigationUsage) : UsageGrows u u :=
  ⟨le_rfl, le_rfl, le_rfl, le_rfl, le_rfl, le_rfl, le_rfl, le_rfl, UInt64.le_refl _⟩

theorem UsageGrows.trans {u1 u2 : InvestigationUsage} (h : UsageGrows u u1) (h' : UsageGrows u1 u2)
    : UsageGrows u u2 where
  modelInvocations := h.modelInvocations.trans h'.modelInvocations
  toolActions := h.toolActions.trans h'.toolActions
  selectedFacts := h.selectedFacts.trans h'.selectedFacts
  evidenceRequests := h.evidenceRequests.trans h'.evidenceRequests
  evidenceItems := h.evidenceItems.trans h'.evidenceItems
  evidenceBytes := h.evidenceBytes.trans h'.evidenceBytes
  capturedValidationBytes := h.capturedValidationBytes.trans h'.capturedValidationBytes
  generatedTokenReservations := h.generatedTokenReservations.trans h'.generatedTokenReservations
  activeMilliseconds := UInt64.le_trans h.activeMilliseconds h'.activeMilliseconds

theorem UsageGrows.of_continues {u' : InvestigationUsage} (h : usageContinues u u' ledger) :
    UsageGrows u u':= by
  obtain ⟨h1, h2, h3, h4, h5, -, -, h6, h7, h8, h9, -⟩ := h
  exact ⟨h1.ge, h2.ge, h7, h3.ge, h8, h9, h4.ge, h5.ge, h6⟩

theorem usageGrows_ended (t : StoredTask) (status : InvestigationStatus) (cancelled : Bool)
    (error : String) :
    UsageGrows t.detail.usage (ended t status cancelled error).detail.usage := by
  show UsageGrows _ (if t.phase = .invocation then clearUnmeasuredUsage t.detail.usage
    else t.detail.usage)
  split_ifs
  · exact { UsageGrows.refl t.detail.usage with }
  · exact .refl _

theorem Answers.usageGrows (h : Answers env d response usage) :
    UsageGrows d.task.detail.usage usage := by
  obtain ⟨_, _, -, -, rfl⟩ := responseUsage_ok h.reported
  obtain ⟨_, -, -, hvalid⟩ := h.pending
  exact { UsageGrows.refl d.task.detail.usage with activeMilliseconds := hvalid.2.2.2.1 }

variable {env : Env} {d d' : Draft} {action : Action}

theorem Move.usageGrows {clock : Clock} (h : Move env clock d action d') :
    UsageGrows d.task.detail.usage d'.task.detail.usage:= by
  cases h with
  | inputPrepared _ usage _ _ _ _ hcont | inputAdmitted _ usage _ _ _ hcont =>
    rw [Draft.withInput, usage_noted]
    exact .of_continues hcont.counters
  | beginInvocation =>
    rw [Draft.invoked, usage_noted]
    exact { UsageGrows.refl d.task.detail.usage with
      modelInvocations := Nat.le_succ _
      generatedTokenReservations := Nat.le_add_right _ _ }
  | actionAdmitted _ _ _ _ hans =>
    rw [Draft.responded, usage_recorded, usage_noted]
    exact hans.usageGrows
  | finished _ _ _ hans =>
    rw [task_syncTerminalJob, Draft.responded, usage_recorded, usage_noted]
    exact hans.usageGrows
  | beginTool tool =>
    rw [usage_noted]
    refine { UsageGrows.refl d.task.detail.usage with
      toolActions := Nat.le_succ _
      evidenceRequests := ?_ }
    -- only reading evidence counts as a request
    show _ ≤ (if tool = .readEvidence then d.task.detail.usage.evidenceRequests + 1
      else d.task.detail.usage.evidenceRequests)
    split_ifs
    · exact Nat.le_succ _
    · exact le_rfl
  | chargeEvidence =>
    rw [usage_noted]
    exact { UsageGrows.refl d.task.detail.usage with
      capturedValidationBytes := Nat.le_add_right _ _ }
  | stopWithElapsed _ activeMilliseconds _ _ helapsed =>
    rw [Draft.stopped, task_syncTerminalJob, usage_noted]
    refine UsageGrows.trans ?_ (usageGrows_ended _ _ _ _)
    exact { UsageGrows.refl d.task.detail.usage with activeMilliseconds := helapsed }
  | decline =>
    rw [Draft.stopped, task_syncTerminalJob, usage_noted]
    exact usageGrows_ended _ _ _ _
  | recover =>
    rw [Draft.recovered, task_syncTerminalJob, usage_noted]
    exact usageGrows_ended _ _ _ _
  | attach | awaitConsent | approve => rw [usage_noted]; exact .refl _
  | cancel => rw [Draft.cancelledBy, task_cancelOpenJob, usage_noted]; exact .refl _

/-! ### Reported totals -/

/-- Some response was admitted. -/
def answered (rows : Rows) : Prop := rows.responses.rows ≠ []

/-- A reported total, earlier and later: it grows while it is known, and stays unknown
when a response did not report it. -/
structure TotalLater (answered : Prop) (total total' : Option UInt64) : Prop where
  known : ∀ n n', total = some n → total' = some n' → n ≤ n'
  unknown : answered → total = none → total' = none

theorem TotalLater.of_kept {answered : Prop} {total total' : Option UInt64}
    (h : total' = total ∨ total' = none) : TotalLater answered total total' := by
  rcases h with rfl | rfl
  · refine ⟨fun n n' hn hn' => ?_, fun _ h => h⟩
    rw [hn, Option.some_inj] at hn'
    rw [hn']
    exact UInt64.le_refl _
  · exact ⟨fun _ _ _ h => absurd h (by simp), fun _ _ => rfl⟩

theorem TotalLater.trans {answered answered1 : Prop} {total total1 total2 : Option UInt64}
    (h : TotalLater answered total total1) (h' : TotalLater answered1 total1 total2)
    (hmono : answered → answered1) (hmeasured : total.isSome → answered) :
    TotalLater answered total total2 := by
  refine ⟨fun n n2 hn hn2 => ?_, fun ha hnone => h'.unknown (hmono ha) (h.unknown ha hnone)⟩
  cases hn1 : total1 with
  | none =>
    have hanswered : answered := hmeasured (by simp [hn])
    rw [h'.unknown (hmono hanswered) hn1] at hn2
    exact absurd hn2 (by simp)
  | some n1 => exact UInt64.le_trans (h.known n n1 hn hn1) (h'.known n1 n2 hn1 hn2)

theorem addReported_later {previous current total : Option UInt64} {first : Bool} {answered : Prop}
    (h : addReported previous current first = .ok total)
    (hfirst : first = true → previous = none ∧ ¬ answered) :
    TotalLater answered previous total := by
  cases first with
  | true =>
    obtain ⟨rfl, hnot⟩ := hfirst rfl
    exact ⟨fun _ _ h => absurd h (by simp), fun ha => absurd ha hnot⟩
  | false =>
    cases previous with
    | none =>
      obtain rfl : none = total := by simpa [addReported, pure_eq_ok] using h
      exact .of_kept (.inl rfl)
    | some n =>
      cases current with
      | none =>
        obtain rfl : none = total := by simpa [addReported, pure_eq_ok] using h
        exact .of_kept (.inr rfl)
      | some m =>
        simp only [addReported, Bool.false_eq_true, if_false, bind_eq_ok, ensure_eq_ok,
          pure_eq_ok] at h
        obtain ⟨⟨⟩, hroom, rfl⟩ := h
        refine ⟨fun k k' hk hk' => ?_, fun _ h => absurd h (by simp)⟩
        rw [Option.some_inj] at hk hk'
        rw [← hk, ← hk', UInt64.le_iff_toNat_le, UInt64.toNat_add, Nat.mod_eq_of_lt hroom]
        omega

/-- A total is known only after a response. -/
structure Measured (t : StoredTask) (rows : Rows) : Prop where
  input : t.detail.usage.reportedInputTokens.isSome → answered rows
  output : t.detail.usage.reportedOutputTokens.isSome → answered rows

/-- How the totals of a task change. -/
structure TotalsLater (t : StoredTask) (rows : Rows) (t' : StoredTask) (rows' : Rows) : Prop where
  answered : Jobs.answered rows → Jobs.answered rows'
  input : TotalLater (Jobs.answered rows) t.detail.usage.reportedInputTokens
    t'.detail.usage.reportedInputTokens
  output : TotalLater (Jobs.answered rows) t.detail.usage.reportedOutputTokens
    t'.detail.usage.reportedOutputTokens

theorem TotalsLater.of_kept (hresponses : d'.rows.responses = d.rows.responses)
    (h : KeepsTotals d.task.detail.usage d'.task.detail.usage) :
    TotalsLater d.task d.rows d'.task d'.rows where
  answered := by
    unfold Jobs.answered
    rw [hresponses]
    exact id
  input := .of_kept h.1
  output := .of_kept h.2

theorem Measured.of_kept (hd : Measured d.task d.rows)
    (hresponses : d'.rows.responses = d.rows.responses)
    (h : KeepsTotals d.task.detail.usage d'.task.detail.usage) : Measured d'.task d'.rows := by
  have hsome : ∀ total total' : Option UInt64, total' = total ∨ total' = none →
      total'.isSome → total.isSome := by
    rintro total total' (rfl | rfl) hsome
    · exact hsome
    · exact absurd hsome (by simp)
  refine ⟨fun h' => ?_, fun h' => ?_⟩
  · rw [answered, hresponses]
    exact hd.input (hsome _ _ h.1 h')
  · rw [answered, hresponses]
    exact hd.output (hsome _ _ h.2 h')

/-- The totals of one move, given that a pending invocation is the only one without a
response. -/
theorem Booking.totals (h : Booking d action d')
    (hmeasured : Measured d.task d.rows)
    (hpending : d.task.phase = .invocation →
      d.rows.responses.rows.length + 1 = d.task.detail.usage.modelInvocations) :
    Measured d'.task d'.rows ∧ TotalsLater d.task d.rows d'.task d'.rows := by
  cases h with
  | invokes step _ _ _ _ _ hresponses _ _ htotals =>
    exact ⟨hmeasured.of_kept hresponses htotals, .of_kept hresponses htotals⟩
  | answers response tool result _ hphase _ hfresh _ hresponses hused =>
    have hanswered : answered d'.rows := by
      have hlength := (Table.rows_put_perm response hfresh).length_eq
      rw [answered, hresponses]
      intro hnil
      rw [hnil] at hlength
      exact absurd hlength (by simp)
    obtain ⟨input, output, hinput, houtput, hused'⟩ := responseUsage_ok hused
    -- a first invocation has no response before this one, and so no total
    have hfirst : (d.task.detail.usage.modelInvocations == 1) = true → ¬ answered d.rows := by
      intro hone
      have hcount := hpending hphase
      rw [beq_iff_eq.mp hone] at hcount
      have hnil : d.rows.responses.rows = [] := List.length_eq_zero_iff.mp (by omega)
      exact fun h => h hnil
    refine ⟨⟨fun _ => hanswered, fun _ => hanswered⟩, fun _ => hanswered, ?_, ?_⟩
    · rw [hused']
      refine addReported_later hinput fun hone => ⟨?_, hfirst hone⟩
      by_contra hsome
      exact hfirst hone (hmeasured.input (Option.isSome_iff_ne_none.mpr hsome))
    · rw [hused']
      refine addReported_later houtput fun hone => ⟨?_, hfirst hone⟩
      by_contra hsome
      exact hfirst hone (hmeasured.output (Option.isSome_iff_ne_none.mpr hsome))
  | stops _ _ _ hsame | keeps _ _ _ hsame =>
    exact ⟨hmeasured.of_kept hsame.responses hsame.totals, .of_kept hsame.responses hsame.totals⟩

/-! ### Responses -/

/-- The move ends the task while a call is pending. -/
def Loses (d : Draft) (action : Action) (d' : Draft) : Prop :=
  d.task.phase = .invocation ∧ d'.task.phase = .terminal
    ∧ ((∃ reason activeMilliseconds, action = .advance (.stopWithElapsed reason activeMilliseconds))
      ∨ action = .recover)

/-- A response is missing exactly for an invocation that is pending, or that this move
gives up. -/
theorem Booking.responses (h : Booking d action d')
    (hpending : d.task.phase = .invocation →
      d.rows.responses.rows.length + 1 = d.rows.invocations.rows.length)
    (hidle : d.task.phase ≠ .invocation →
      d.rows.responses.rows.length = d.rows.invocations.rows.length) :
    (d'.task.phase = .invocation ∨ Loses d action d' →
      d'.rows.responses.rows.length + 1 = d'.rows.invocations.rows.length)
    ∧ (¬ (d'.task.phase = .invocation ∨ Loses d action d') →
      d'.rows.responses.rows.length = d'.rows.invocations.rows.length) := by
  cases h with
  | invokes step _ hphase hphase' hfresh hinvocations hresponses =>
    refine ⟨fun _ => ?_, fun hnot => absurd (.inl hphase') hnot⟩
    have hlength := (Table.rows_put_perm step hfresh).length_eq
    rw [hresponses, hinvocations, hlength, List.length_cons, hidle hphase]
  | answers response tool result _ hphase hphase' hfresh hinvocations hresponses =>
    have hlength := (Table.rows_put_perm response hfresh).length_eq
    refine ⟨fun hopen => ?_, fun _ => ?_⟩
    · rcases hopen with hinv | ⟨-, -, ⟨_, _, hstop⟩ | hrecover⟩
      · exact absurd hinv hphase'
      · exact absurd hstop (by simp)
      · exact absurd hrecover (by simp)
    · rw [hresponses, hinvocations, hlength, List.length_cons, hpending hphase]
  | stops _ hstops hphase' hsame =>
    rw [hsame.responses, hsame.invocations]
    refine ⟨fun hopen => ?_, fun hnot => ?_⟩
    · rcases hopen with hinv | ⟨hphase, -⟩
      · rw [hphase'] at hinv
        exact absurd hinv (by simp)
      · exact hpending hphase
    · refine hidle fun hphase => hnot (.inr ⟨hphase, hphase', hstops⟩)
  | keeps _ hiff hlive hsame =>
    rw [hsame.responses, hsame.invocations]
    refine ⟨fun hopen => ?_, fun hnot => ?_⟩
    · rcases hopen with hinv | ⟨hphase, hterminal, -⟩
      · exact hpending (hiff.mp hinv)
      · exact absurd hterminal (hlive hphase)
    · exact hidle fun hphase => hnot (.inl (hiff.mpr hphase))

/-! ### Lost invocations -/

/-- The task ends while a call is pending, by a stop or a recovery. -/
def LostAt (e : Event) (id : String) : Prop :=
  ∃ row row', e.pre.tasks.find? id = some row ∧ row.record.phase = .invocation
    ∧ e.post.tasks.find? id = some row' ∧ row'.record.phase = .terminal
    ∧ ((∃ reason activeMilliseconds,
        Does e id (.advance (.stopWithElapsed reason activeMilliseconds))) ∨ Does e id .recover)

def Lost (tr : List Event) (id : String) : Prop := ∃ e ∈ tr, LostAt e id

/-- An invocation is pending, or was lost. -/
def Outstanding (tr : List Event) (id : String) (row : TaskRow) : Prop :=
  row.record.phase = .invocation ∨ Lost tr id

/-- The books of a task after a run. -/
structure Balanced (tr : List Event) (id : String) (row : TaskRow) : Prop where
  accounted : Accounted row.record row.rows
  measured : Measured row.record row.rows
  result : row.rows.result.isSome = row.record.detail.summary.hasResult
  outstanding : Outstanding tr id row →
    row.rows.responses.rows.length + 1 = row.rows.invocations.rows.length
  settled : ¬ Outstanding tr id row →
    row.rows.responses.rows.length = row.rows.invocations.rows.length

variable {tr : List Event} {e : Event}

theorem lost_snoc :
    Lost (tr ++ [e]) id ↔ Lost tr id ∨ LostAt e id := by
  constructor
  · rintro ⟨e', he', hlost⟩
    rcases List.mem_append.mp he' with hold | hnew
    · exact .inl ⟨e', hold, hlost⟩
    · obtain rfl : e' = e := by simpa using hnew
      exact .inr hlost
  · rintro (⟨e', he', hlost⟩ | hlost)
    · exact ⟨e', List.mem_append_left _ he', hlost⟩
    · exact ⟨e, by simp, hlost⟩

theorem not_lostAt_same (h : e.post.tasks.find? id = e.pre.tasks.find? id) :
    ¬ LostAt e id := by
  rintro ⟨row, row', hrow, hphase, hrow', hphase', -⟩
  rw [h, hrow, Option.some_inj] at hrow'
  rw [← hrow', hphase] at hphase'
  exact absurd hphase' (by simp)

variable {id : String} {row : TaskRow}

theorem Balanced.same (h : Balanced tr id row) (he : e.post.tasks.find? id = e.pre.tasks.find? id) :
    Balanced (tr ++ [e]) id row := by
  have hsame : Outstanding (tr ++ [e]) id row ↔ Outstanding tr id row := by
    unfold Outstanding
    rw [lost_snoc]
    have hnot := not_lostAt_same he
    tauto
  exact ⟨h.accounted, h.measured, h.result, fun ho => h.outstanding (hsame.mp ho),
    fun ho => h.settled fun ho' => ho (hsame.mpr ho')⟩

/-- **Step lemma** for a task that moves. -/
theorem Balanced.moved {clock : Clock} {jobs : Table ℕ JobRow} {d : Draft} (h : Balanced tr id row)
    (hlive : ¬ Lost tr id) (hdoes : Does e id action) (hpre : e.pre.tasks.find? id = some row)
    (hpost : e.post.tasks.find? id = some (row.saved d))
    (hmove : Move env clock (row.draft jobs) action d) :
    Balanced (tr ++ [e]) id (row.saved d) ∧ TotalsLater row.record row.rows d.task d.rows := by
  have hbooking := hmove.booking
  have hpending : row.record.phase = .invocation →
      row.rows.responses.rows.length + 1 = row.record.detail.usage.modelInvocations := by
    intro hphase
    rw [h.accounted.modelInvocations]
    exact h.outstanding (.inl hphase)
  -- outside a call every invocation has its response, as none was lost
  have hidle : row.record.phase ≠ .invocation →
      row.rows.responses.rows.length = row.rows.invocations.rows.length := by
    intro hphase
    refine h.settled ?_
    rintro (hinv | hlost)
    · exact hphase hinv
    · exact hlive hlost
  obtain ⟨hmeasured, htotals⟩ := hbooking.totals h.measured hpending
  obtain ⟨hopen, hclosed⟩ := hbooking.responses (fun hphase => h.outstanding (.inl hphase)) hidle
  -- the step loses an invocation exactly when the move does
  have hlost : LostAt e id ↔ Loses (row.draft jobs) action d := by
    constructor
    · rintro ⟨row1, row2, hrow1, hphase, hrow2, hphase', hstops⟩
      rw [hpre, Option.some_inj] at hrow1
      rw [hpost, Option.some_inj] at hrow2
      subst hrow1 hrow2
      refine ⟨hphase, hphase', ?_⟩
      rcases hstops with ⟨reason, activeMilliseconds, hstop⟩ | hrecover
      · exact .inl ⟨reason, activeMilliseconds, hdoes.unique hstop⟩
      · exact .inr (hdoes.unique hrecover)
    · rintro ⟨hphase, hphase', hstops⟩
      refine ⟨row, row.saved d, hpre, hphase, hpost, hphase', ?_⟩
      rcases hstops with ⟨reason, activeMilliseconds, rfl⟩ | rfl
      · exact .inl ⟨reason, activeMilliseconds, hdoes⟩
      · exact .inr hdoes
  have hiff : Outstanding (tr ++ [e]) id (row.saved d) ↔
      d.task.phase = .invocation ∨ Loses (row.draft jobs) action d := by
    unfold Outstanding
    rw [lost_snoc, hlost]
    constructor
    · rintro (hphase | hbefore | hnow)
      · exact .inl hphase
      · exact absurd hbefore hlive
      · exact .inr hnow
    · rintro (hphase | hnow)
      · exact .inl hphase
      · exact .inr (.inr hnow)
  exact ⟨⟨hbooking.accounted h.accounted, hmeasured, hmove.result h.result,
    fun ho => hopen (hiff.mp ho), fun ho => hclosed fun ho' => ho (hiff.mpr ho')⟩, htotals⟩

variable {op : Op}

theorem Balanced.started {s : Store} (hlive : ¬ Lost tr id) (h : RowStarts env s op id row) :
    Balanced tr id row:= by
  obtain ⟨_, _, _, _, _, _, _, -, -, -, -, -, rfl⟩ := h
  refine ⟨⟨rfl, rfl, fun r hr => absurd hr (by simp [TaskRow.saved, startDraft, Rows.empty,
    Table.empty])⟩, ⟨?_, ?_⟩, rfl, ?_, fun _ => rfl⟩
  · rintro ⟨⟩
  · rintro ⟨⟩
  · rintro (hphase | hlost)
    · cases hphase
    · exact absurd hlost hlive

variable {out : Except Failure Answer}

theorem accounting_step {s s' : Store} (h : s.step env op = (s', out))
    (hlost : Lost tr id → ∃ row, s.tasks.find? id = some row ∧ row.record.phase = .terminal)
    (hs : ∀ row, s.tasks.find? id = some row → Balanced tr id row) :
    (Lost (tr ++ [⟨s, op, out, s'⟩]) id →
      ∃ row, s'.tasks.find? id = some row ∧ row.record.phase = .terminal)
    ∧ ∀ row, s'.tasks.find? id = some row → Balanced (tr ++ [⟨s, op, out, s'⟩]) id row := by
  refine ⟨fun hlost' => ?_, fun row' hrow' => ?_⟩
  · rcases lost_snoc.mp hlost' with hbefore | ⟨_, row', -, -, hrow', hphase', -⟩
    · obtain ⟨row, hrow, hphase⟩ := hlost hbefore
      exact ⟨row, step_terminal h hrow hphase, hphase⟩
    · exact ⟨row', hrow', hphase'⟩
  · rcases step_row h hrow' with hrow |
      ⟨row, action, hrow, hdoes, ⟨clock, jobs, d, _, hmove, -, -, rfl⟩⟩ | ⟨hnone, hstarts⟩
    · exact (hs row' hrow).same (hrow'.trans hrow.symm)
    · refine ((hs row hrow).moved ?_ hdoes hrow hrow' hmove).1
      intro hbefore
      obtain ⟨row1, hrow1, hphase⟩ := hlost hbefore
      rw [hrow, Option.some_inj] at hrow1
      rw [← hrow1] at hphase
      exact hmove.live hphase
    · refine Balanced.started ?_ hstarts
      intro hlost'
      rcases lost_snoc.mp hlost' with hbefore | ⟨row, _, hrow, -⟩
      · obtain ⟨row, hrow, -⟩ := hlost hbefore
        rw [hnone] at hrow
        exact absurd hrow (by simp)
      · rw [hnone] at hrow
        exact absurd hrow (by simp)

/-! ### Runs -/

theorem steps_accounting {s0 s : Store} (id : String) (h : (machine env).Steps s0 tr s)
    (h0 : s0.Initial) :
    (Lost tr id → ∃ row, s.tasks.find? id = some row ∧ row.record.phase = .terminal)
    ∧ ∀ row, s.tasks.find? id = some row → Balanced tr id row := by
  induction h with
  | refl =>
    refine ⟨fun ⟨e, he, _⟩ => absurd he (by simp), fun row hrow => ?_⟩
    rw [h0.2.2.1] at hrow
    exact absurd hrow (by simp)
  | snoc _ _ hst ih => exact accounting_step hst ih.1 ih.2

theorem steps_valid {s0 s : Store} (h : (machine env).Steps s0 tr s) (h0 : s0.Initial) :
    ∀ id row, s.tasks.find? id = some row → ValidTask env row.record := by
  induction h with
  | refl =>
    intro id row hrow
    rw [h0.2.2.1] at hrow
    exact absurd hrow (by simp)
  | snoc _ _ hst ih =>
    intro id row' hrow'
    rcases step_row hst hrow' with hrow |
      ⟨row, action, hrow, -, ⟨clock, jobs, d, _, -, hsavable, -, rfl⟩⟩ |
      ⟨-, _, _, _, _, _, _, _, -, -, -, -, hsavable, rfl⟩
    · exact ih id row' hrow
    · exact validateTask_eq_ok.mp hsavable.valid
    · exact validateTask_eq_ok.mp hsavable.valid

/-- A row of a task, earlier and later. -/
structure RowLater (row row' : TaskRow) : Prop where
  usage : UsageGrows row.record.detail.usage row'.record.detail.usage
  totals : TotalsLater row.record row.rows row'.record row'.rows

theorem RowLater.refl (row : TaskRow) : RowLater row row :=
  ⟨.refl _, id, .of_kept (.inl rfl), .of_kept (.inl rfl)⟩

theorem RowLater.trans {row row1 row2 : TaskRow} (h : RowLater row row1) (h' : RowLater row1 row2)
    (hmeasured : Measured row.record row.rows) : RowLater row row2 where
  usage := h.usage.trans h'.usage
  totals := {
    answered := fun ha => h'.totals.answered (h.totals.answered ha)
    input := h.totals.input.trans h'.totals.input h.totals.answered hmeasured.input
    output := h.totals.output.trans h'.totals.output h.totals.answered hmeasured.output }

theorem steps_later {s0 s s' : Store} {tr0 tr : List Event} (h0 : s0.Initial)
    (hs : (machine env).Steps s0 tr0 s) (hs' : (machine env).Steps s tr s')
    (hrow : s.tasks.find? id = some row) :
    ∃ row', s'.tasks.find? id = some row' ∧ RowLater row row' := by
  have hmeasured := ((steps_accounting id hs h0).2 row hrow).measured
  induction hs' with
  | refl => exact ⟨row, hrow, .refl row⟩
  | @snoc tr s1 s2 op out hs1 _ hst ih =>
    obtain ⟨row1, hrow1, hlater⟩ := ih
    obtain ⟨hlost, hbalanced⟩ := steps_accounting id (hs.trans hs1) h0
    rcases step_task hst hrow1 with hsame |
      ⟨action, _, hdoes, ⟨clock, jobs, d, _, hmove, -, -, rfl⟩, hrow2⟩
    · exact ⟨row1, hsame, hlater⟩
    · have hlive : ¬ Lost (tr0 ++ tr) id := by
        intro hbefore
        obtain ⟨row', hrow', hphase⟩ := hlost hbefore
        rw [hrow1, Option.some_inj] at hrow'
        rw [← hrow'] at hphase
        exact hmove.live hphase
      have htotals := ((hbalanced row1 hrow1).moved hlive hdoes hrow1 hrow2 hmove).2
      exact ⟨_, hrow2, hlater.trans ⟨hmove.usageGrows, htotals⟩ hmeasured⟩

/-- No two events of a run invoke a step under the same id. -/
def InvokedOnce (tr : List Event) : Prop :=
  tr.Pairwise fun e e' => ∀ id step step', Does e id (.advance (.beginInvocation step)) →
    Does e' id (.advance (.beginInvocation step')) → step.stepId ≠ step'.stepId

/-- The step is among the stored invocations of the task. -/
def Store.Invoked (s : Store) (id stepId : String) : Prop :=
  ∃ row, s.tasks.find? id = some row ∧ (row.rows.invocations.find? stepId).isSome

theorem step_invoked {stepId : String} (h : s.step env op = (s', out)) (hs : s.Invoked id stepId) :
    s'.Invoked id stepId := by
  obtain ⟨row, hrow, hinvoked⟩ := hs
  rcases step_task h hrow with hsame | ⟨_, _, -, ⟨clock, jobs, d, _, hmove, -, -, rfl⟩, hrow'⟩
  · exact ⟨row, hsame, hinvoked⟩
  · exact ⟨row.saved d, hrow', hmove.booking.invoked hinvoked⟩

theorem invoke_step {step : PendingInvestigationStep} (h : s.step env op = (s', out))
    (hdoes : Does ⟨s, op, out, s'⟩ id (.advance (.beginInvocation step))) :
    ¬ s.Invoked id step.stepId ∧ s'.Invoked id step.stepId := by
  obtain ⟨row, _, hrow, ⟨clock, jobs, d, _, hmove, -, -, rfl⟩, hrow'⟩ := does_moves h hdoes rfl
  cases hmove with
  | beginInvocation _ _ hinv =>
    refine ⟨?_, _, hrow', ?_⟩
    · rintro ⟨row1, hrow1, hinvoked⟩
      rw [hrow, Option.some_inj] at hrow1
      subst hrow1
      have hfresh : row.rows.invocations.find? step.stepId = none := hinv.fresh
      rw [hfresh] at hinvoked
      exact absurd hinvoked (by simp)
    · simp [TaskRow.saved, Draft.invoked]

theorem steps_invokedOnce (h : (machine env).Steps s tr s') :
    InvokedOnce tr ∧ ∀ e ∈ tr, ∀ id step, Does e id (.advance (.beginInvocation step)) →
      s'.Invoked id step.stepId := by
  induction h with
  | refl => exact ⟨List.Pairwise.nil, fun e he => absurd he (by simp)⟩
  | @snoc tr s1 s2 op out _ _ hst ih =>
    obtain ⟨hpair, hkept⟩ := ih
    refine ⟨List.pairwise_append.mpr ⟨hpair, List.pairwise_singleton _ _, ?_⟩, ?_⟩
    · intro e he e' he' id step step' hdoes hdoes' hsame
      obtain rfl : e' = ⟨s1, op, out, s2⟩ := by simpa using he'
      have hinvoked := hkept e he id step hdoes
      rw [hsame] at hinvoked
      exact (invoke_step hst hdoes').1 hinvoked
    · intro e he id step hdoes
      rcases List.mem_append.mp he with hold | hnew
      · exact step_invoked hst (hkept e hold id step hdoes)
      · obtain rfl : e = ⟨s1, op, out, s2⟩ := by simpa using hnew
        exact (invoke_step hst hdoes).2

/-- The counters that have a limit of their own. -/
structure WithinLimits (u : InvestigationUsage) (l : InvestigationLimits) : Prop where
  modelInvocations : u.modelInvocations ≤ l.modelInvocations
  toolActions : u.toolActions ≤ l.toolActions
  selectedFacts : u.selectedFacts ≤ l.selectedFacts
  evidenceRequests : u.evidenceRequests ≤ l.evidenceRequests
  evidenceItems : u.evidenceItems ≤ l.evidenceItems
  evidenceBytes : u.evidenceBytes ≤ l.evidenceBytes
  capturedValidationBytes : u.capturedValidationBytes ≤ l.capturedValidationBytes
  generatedTokenReservations : u.generatedTokenReservations ≤ l.generatedTokenReservations

theorem validateUsage_ok {l : InvestigationLimits} (h : validateUsage u l = .ok ()) :
    WithinLimits u l := by
  rw [validateUsage, ensure_eq_ok] at h
  obtain ⟨h1, h2, h3, h4, h5, h6, h7, h8⟩ := h
  exact ⟨h1, h2, h3, h4, h5, h6, h7, h8⟩

/-- **Invocation accounting**, in every state of every run: the counters of invocations
are those of the stored rows; a response is missing exactly for an invocation that is
pending or was lost; no step is invoked twice; the counters are within their limits,
and no counter goes back, nor does a reported total while it is known; and a result is
stored exactly for a completed task. -/
theorem invocation_accounting {env : Env} {s₀ s s' : Store} {tr₀ tr : List Event} {id : String}
    {row : TaskRow} (h₀ : s₀.Initial) (hs : (machine env).Steps s₀ tr₀ s)
    (hs' : (machine env).Steps s tr s') (hrow : s.tasks.find? id = some row) :
    Accounted row.record row.rows
    ∧ (Outstanding tr₀ id row →
      row.rows.responses.rows.length + 1 = row.rows.invocations.rows.length)
    ∧ (¬ Outstanding tr₀ id row →
      row.rows.responses.rows.length = row.rows.invocations.rows.length)
    ∧ InvokedOnce tr₀
    ∧ WithinLimits row.record.detail.usage row.record.detail.limits
    ∧ (∃ row', s'.tasks.find? id = some row' ∧ RowLater row row')
    ∧ (row.rows.result.isSome ↔ row.record.detail.summary.hasResult)
    ∧ (row.record.detail.summary.hasResult ↔ row.record.detail.summary.status = .completed) := by
  have hbalanced := (steps_accounting id hs h₀).2 row hrow
  have hvalid := steps_valid hs h₀ id row hrow
  refine ⟨hbalanced.accounted, hbalanced.outstanding, hbalanced.settled, (steps_invokedOnce hs).1,
    validateUsage_ok hvalid.usage, steps_later h₀ hs hs' hrow, ?_, hvalid.result⟩
  rw [hbalanced.result]

/-- A call is pending, and then given up. -/
theorem invocation_accounting_pending :
    ∃ row, ((machine (Sample.env Sample.intent)).exec Sample.empty Sample.invoked).tasks.find?
        Sample.taskId = some row
      ∧ row.record.phase = .invocation
      ∧ row.rows.responses.rows.length + 1 = row.rows.invocations.rows.length
      ∧ ∃ row', ((machine (Sample.env Sample.intent)).exec
            ((machine (Sample.env Sample.intent)).exec Sample.empty Sample.invoked)
            [.advanceInvestigation Sample.clock Sample.handle 5 (.stopWithElapsed .outcomeUnknown 9)]
          ).tasks.find? Sample.taskId = some row' ∧ RowLater row row' := by
  obtain ⟨row, hrow, hfields⟩ := Option.map_eq_some_iff.mp Sample.invoked_row
  have hinvocation : row.record.phase = .invocation := congrArg Prod.fst hfields
  obtain ⟨-, hopen, -, -, -, hlater, -⟩ := invocation_accounting Sample.empty_initial
    (Machine.steps_exec (M := machine (Sample.env Sample.intent)) fun _ _ _ => trivial)
    (Machine.steps_exec (M := machine (Sample.env Sample.intent)) fun _ _ _ => trivial) hrow
  exact ⟨row, hrow, hinvocation, hopen (.inl hinvocation), hlater⟩

end

namespace Sample

def secondLedger : InvestigationInputLedger := { ledger with revision := 1 }

/-- The hashes of both ledgers. -/
def secondEnv : Env :=
  { env intent with
    domainHash := fun domain body =>
      if domain ≠ "cartograph:investigation-client-intent:v1\x00"
          ∧ body = secondLedger.toJson.render then
        ⟨"e8092ff42e18cb665097f1ff36a70f5afc2987dc757e6e5973245e99766359c2", by decide⟩
      else (env intent).domainHash domain body }

def response : InvestigationResponseMeta where
  stepId := "step-1"
  responseHash := "0000000000000000000000000000000000000000000000000000000000000000"
  actionHash := "0000000000000000000000000000000000000000000000000000000000000000"
  observedModel := none
  reportedInputTokens := some 5
  reportedOutputTokens := some 7
  activeMilliseconds := 9

def secondStep : PendingInvestigationStep :=
  { pendingStep with
    stepId := "step-2"
    inputLedgerHash := "e8092ff42e18cb665097f1ff36a70f5afc2987dc757e6e5973245e99766359c2" }

/-- The first call is answered and asks for a query. -/
def firstAnswer : List Op :=
  invoked ++ [.advanceInvestigation clock handle 5 (.actionAdmitted response (some .queryContext) none)]

/-- The second call has no answer. -/
def secondCall : List Op :=
  [.advanceInvestigation clock handle 6 (.beginTool .queryContext),
    .advanceInvestigation clock handle 7 (.inputAdmitted secondLedger
      { modelInvocations := 1, toolActions := 1, generatedTokenReservations := 256
        reportedInputTokens := some 5, reportedOutputTokens := some 7, activeMilliseconds := 9 }),
    .advanceInvestigation clock handle 8 (.awaitConsent secondStep),
    .approveInvestigation clock taskId 9 secondStep.stepId secondStep.payloadHash,
    .advanceInvestigation clock handle 10 (.beginInvocation secondStep),
    .advanceInvestigation clock handle 11 (.stopWithElapsed .providerFailure 9)]

theorem answers :
    ((((machine secondEnv).exec empty firstAnswer).tasks.find? taskId).map (fun row =>
        (row.record.phase, row.record.detail.usage.reportedInputTokens)) = some (.action, some 5)
    ∧ (((machine secondEnv).exec empty (firstAnswer ++ secondCall)).tasks.find? taskId).map
        (fun row => row.record.detail.usage.reportedInputTokens) = some none)
    ∧ (((machine (env intent)).exec empty (begun ++
        [.advanceInvestigation clock handle 1 (.stopWithElapsed .operational 600123)])
      ).tasks.find? taskId).map (fun row => (row.record.detail.limits.activeSeconds * 1000,
        row.record.detail.usage.activeMilliseconds)) = some (600000, 600123) :=
  ⟨by decide +kernel, by decide +kernel⟩

end Sample

/-- The time of a stop is recorded as it was measured, beyond the ten minutes after which
nothing new is started; and a total is unknown again after a call without an answer. -/
theorem usage_beyond_limit :
    (((machine (Sample.env Sample.intent)).exec Sample.empty (Sample.begun ++
        [.advanceInvestigation Sample.clock Sample.handle 1 (.stopWithElapsed .operational 600123)])
      ).tasks.find? Sample.taskId).map (fun row => (row.record.detail.limits.activeSeconds * 1000,
        row.record.detail.usage.activeMilliseconds)) = some (600000, 600123)
    ∧ (((machine Sample.secondEnv).exec Sample.empty Sample.firstAnswer).tasks.find?
        Sample.taskId).map (fun row => row.record.detail.usage.reportedInputTokens)
      = some (some 5)
    ∧ (((machine Sample.secondEnv).exec Sample.empty
        (Sample.firstAnswer ++ Sample.secondCall)).tasks.find? Sample.taskId).map
          (fun row => row.record.detail.usage.reportedInputTokens) = some none := by
  obtain ⟨⟨hfirst, hsecond⟩, hstopped⟩ := Sample.answers
  obtain ⟨row, hrow, hfields⟩ := Option.map_eq_some_iff.mp hfirst
  exact ⟨hstopped, Option.map_eq_some_iff.mpr ⟨row, hrow, congrArg Prod.snd hfields⟩, hsecond⟩

end Jobs

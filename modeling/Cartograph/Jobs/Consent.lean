/-
Consent before a cloud invocation.

The worker asks for consent, the user approves, the worker starts the call: three
transactions, with anything of other tasks in between.  What links them is the row of
the task, which is the same after one as before the next:

* `Asked` — the task is as the request for consent to a step left it;
* `Approved` — the task is as the approval of that step left it, and was asked before;
* `consent_step` — a task that waits for consent was asked, and if its consent is
  given, it was approved;
* `consent_before_invocation` — so every start of a cloud call has its own approval,
  and nothing starts after a refusal.
-/
import Cartograph.Jobs.Cancellation

namespace Jobs

open Investigation Checked

/-! ### The history of a consent -/

/-- Nothing in this part of the run concerns task `id`. -/
def Quiet (id : String) (tr : List Event) : Prop :=
  ∀ e ∈ tr, e.post.tasks.find? id = e.pre.tasks.find? id

/-- Consent to `step` was asked for, and the task has been `task` since. -/
def Asked (tr : List Event) (id : String) (step : PendingInvestigationStep)
    (task : Option TaskRow) : Prop :=
  ∃ before ask after, tr = before ++ ask :: after
    ∧ Does ask id (.advance (.awaitConsent step)) ∧ ask.post.tasks.find? id = task ∧ Quiet id after

/-- `step` was approved by its id, its payload hash and the revision consent was asked
for at, and the task has been `task` since. -/
def Approved (tr : List Event) (id : String) (step : PendingInvestigationStep)
    (task : Option TaskRow) : Prop :=
  ∃ before approval after row, tr = before ++ approval :: after
    ∧ Asked before id step (some row)
    ∧ Does approval id
      (.approve row.record.detail.summary.revision step.stepId step.payloadHash)
    ∧ approval.pre.tasks.find? id = some row ∧ approval.post.tasks.find? id = task
    ∧ Quiet id after

variable {tr : List Event}

theorem Quiet.snoc {id : String} {e : Event} (h : Quiet id tr)
    (he : e.post.tasks.find? id = e.pre.tasks.find? id) : Quiet id (tr ++ [e]) := by
  intro e' he'
  rcases List.mem_append.mp he' with hold | hnew
  · exact h e' hold
  · obtain rfl : e' = e := by simpa using hnew
    exact he

variable {step : PendingInvestigationStep}

theorem Asked.snoc {id : String} {task : Option TaskRow} {e : Event} (h : Asked tr id step task)
    (he : e.post.tasks.find? id = e.pre.tasks.find? id) : Asked (tr ++ [e]) id step task := by
  obtain ⟨before, ask, after, rfl, hdoes, htask, hquiet⟩ := h
  exact ⟨before, ask, after ++ [e], by simp, hdoes, htask, hquiet.snoc he⟩

theorem Approved.snoc {id : String} {task : Option TaskRow} {e : Event}
    (h : Approved tr id step task) (he : e.post.tasks.find? id = e.pre.tasks.find? id) :
    Approved (tr ++ [e]) id step task:= by
  obtain ⟨before, approval, after, row, rfl, hasked, hdoes, hpre, hpost, hquiet⟩ := h
  exact ⟨before, approval, after ++ [e], row, by simp, hasked, hdoes, hpre, hpost, hquiet.snoc he⟩

/-- What the run so far has to show for a task that waits for consent and was not
cancelled. -/
def Consented (tr : List Event) (id : String) (row : TaskRow) : Prop :=
  row.record.phase = .consent → row.record.detail.summary.cancelRequested = false →
    ∀ step, row.record.pending = some step →
      if row.record.approved then Approved tr id step (some row) else Asked tr id step (some row)

/-! ### One move -/

section

variable {env : Env} {clock : Clock} {s s' : Store} {op : Op} {out : Except Failure Answer}
  {id : String}

theorem Move.to_consent {d d' : Draft} {action : Action} (h : Move env clock d action d')
    (hphase : d'.task.phase = .consent) (hcancel : d'.task.detail.summary.cancelRequested = false) :
    (∃ step, action = .advance (.awaitConsent step) ∧ d'.task.pending = some step
        ∧ d'.task.approved = false)
      ∨ ∃ revision stepId payloadHash, action = .approve revision stepId payloadHash
        ∧ Decides d.task revision stepId payloadHash
        ∧ d.task.detail.summary.cancelRequested = false
        ∧ d'.task.pending = d.task.pending ∧ d'.task.approved = true := by
  cases h with
  | attach => simp [attached] at hphase
  | inputPrepared | inputAdmitted => simp [Draft.withInput, inputTaken] at hphase
  | awaitConsent step => exact .inl ⟨step, rfl, by simp [awaiting], by simp [awaiting]⟩
  | beginInvocation => simp [Draft.invoked, invoking] at hphase
  | actionAdmitted | finished => simp [Draft.responded, responded] at hphase
  | beginTool => simp [toolStarted] at hphase
  | chargeEvidence _ htool => simp [charged, htool] at hphase
  | stopWithElapsed | decline => simp [Draft.stopped, ended] at hphase
  | approve revision stepId payloadHash hdecides hnot =>
    exact .inr ⟨revision, stepId, payloadHash, rfl, hdecides, hnot, by simp [consented],
      by simp [consented]⟩
  | cancel => simp [Draft.cancelledBy, cancelRequested] at hcancel
  | recover => simp [Draft.recovered, ended] at hphase

theorem Move.begins_cloud {d d' : Draft}
    (h : Move env clock d (.advance (.beginInvocation step)) d')
    (hcloud : d.task.detail.provider.mode = .cloud) :
    d.task.phase = .consent ∧ d.task.approved = true ∧ d.task.pending = some step
      ∧ d.task.detail.summary.cancelRequested = false ∧ d'.task.phase = .invocation := by
  cases h with
  | beginInvocation _ hcancel hinv =>
    have hmay := hinv.may
    simp only [mayInvoke, hcloud, ensure_eq_ok] at hmay
    exact ⟨hmay.1, hmay.2.1, hmay.2.2, hcancel, by simp [Draft.invoked, invoking]⟩

/-! ### One step -/

theorem consent_step (h : s.step env op = (s', out))
    (hs : ∀ row, s.tasks.find? id = some row → Consented tr id row) :
    ∀ row, s'.tasks.find? id = some row → Consented (tr ++ [⟨s, op, out, s'⟩]) id row := by
  intro row' hrow' hphase hcancel step hpending
  rcases step_row h hrow' with hrow | ⟨row, action, hrow, hdoes, ⟨clock, jobs, d, _, hmove, -, -, rfl⟩⟩ |
    ⟨-, _, _, _, _, _, _, _, -, -, -, -, -, rfl⟩
  · have hquiet : s'.tasks.find? id = s.tasks.find? id := hrow'.trans hrow.symm
    have hold := hs row' hrow hphase hcancel step hpending
    split_ifs at hold ⊢
    · exact hold.snoc hquiet
    · exact hold.snoc hquiet
  · rcases hmove.to_consent hphase hcancel with ⟨step', rfl, hpending', happroved⟩ |
      ⟨revision, stepId, payloadHash, rfl, hdecides, hnot, hsame, happroved⟩
    · -- just asked
      obtain rfl : step' = step := by
        rw [← Option.some_inj, ← hpending']
        exact hpending
      rw [if_neg (by simpa [TaskRow.saved] using happroved)]
      exact ⟨tr, ⟨s, op, out, s'⟩, [], rfl, hdoes, hrow', fun e he => absurd he (by simp)⟩
    · -- just approved: the task was asked before
      have hpending0 : row.record.pending = some step := hsame.symm.trans hpending
      obtain ⟨step0, hstep0, rfl, rfl⟩ := hdecides.step
      obtain rfl : step0 = step := by
        rw [← Option.some_inj, ← hpending0]
        exact hstep0.symm
      obtain rfl := hdecides.revision
      have hasked := hs row hrow hdecides.phase hnot step0 hpending0
      have hundecided : row.record.approved = false := hdecides.undecided
      rw [if_neg (by simp [hundecided])] at hasked
      rw [if_pos (by simpa [TaskRow.saved] using happroved)]
      exact ⟨tr, ⟨s, op, out, s'⟩, [], row, rfl, hasked, hdoes, hrow, hrow',
        fun e he => absurd he (by simp)⟩
  · -- a new task is queued
    exact absurd hphase nofun

/-- The task is over or will be: nothing more is started for it. -/
def Store.Settled (s : Store) (id : String) : Prop :=
  ∃ row, s.tasks.find? id = some row ∧ settled row.record

theorem Store.Cancelled.settled (h : s.Cancelled id) : s.Settled id := by
  obtain ⟨row, hrow, hcancel⟩ := h
  exact ⟨row, hrow, .inr hcancel⟩

theorem step_settled (h : s.step env op = (s', out)) (hs : s.Settled id) : s'.Settled id := by
  obtain ⟨row, hrow, hterminal | hcancel⟩ := hs
  · exact ⟨row, step_terminal h hrow hterminal, .inl hterminal⟩
  · exact (step_cancelled h ⟨row, hrow, hcancel⟩).settled

theorem Moves.settled (h : Moves env clock s id .cancel s') : s'.Settled id := by
  obtain ⟨row, d, terminal, -, hmove, -, -, rfl⟩ := h
  refine ⟨row.saved d, by simp, .inr ?_⟩
  cases hmove with
  | cancel => simp [TaskRow.saved, Draft.cancelledBy, cancelRequested]

theorem cancel_settles (h : s.step env op = (s', out)) (hdoes : Does ⟨s, op, out, s'⟩ id .cancel) :
    s'.Settled id := by
  obtain ⟨hacts, a, rfl⟩ := hdoes
  simp only at hacts
  rcases step_cases h with ⟨_, hout, -⟩ | ⟨a', -, heffect⟩
  · exact absurd hout (by simp)
  · cases heffect with
    | cancelJob clock jobId row job _ _ hsettled =>
      obtain ⟨taskId, hid, heq⟩ := Option.map_eq_some_iff.mp hacts
      obtain ⟨rfl, -⟩ := Prod.mk.inj heq
      obtain ⟨task, hload, htask⟩ := hsettled taskId hid
      exact ⟨task, hload.stored, htask⟩
    | cancelJobTask clock jobId row job taskId s' _ _ hid hmoves =>
      simp only [Store.acts, hid, Option.map_some, Option.some_inj, Prod.mk.injEq] at hacts
      obtain ⟨rfl, -⟩ := hacts
      exact hmoves.settled
    | moved clock id' action s' habout _ hmoves =>
      rw [acts_of_about habout, Option.some_inj, Prod.mk.injEq] at hacts
      obtain ⟨rfl, rfl⟩ := hacts
      exact hmoves.settled
    | cancelled clock id' row detail hload hsettled =>
      simp only [Store.acts, Store.about, Option.some_inj, Prod.mk.injEq] at hacts
      obtain ⟨rfl, -⟩ := hacts
      exact ⟨row, hload.stored, hsettled⟩
    | idle hidle => cases op <;> simp_all [Store.acts, Store.about, idles]
    | claim _ _ _ _ _ _ _ hnone => simp [Store.acts, hnone] at hacts
    | attach _ _ _ _ _ _ _ _ _ hid => simp [Store.acts, hid] at hacts
    | update _ _ _ _ hop => cases op <;> simp_all [Op.update?, Store.acts, Store.about]
    | enqueue | interrupt | clear | start => simp [Store.acts, Store.about] at hacts

theorem decline_settles {revision : ℕ} {stepId payloadHash : String} (h : s.step env op = (s', out))
    (hdoes : Does ⟨s, op, out, s'⟩ id (.decline revision stepId payloadHash)) : s'.Settled id := by
  obtain ⟨row, _, hrow, ⟨clock, jobs, d, _, hmove, -, -, rfl⟩, hrow'⟩ := does_moves h hdoes rfl
  refine ⟨row.saved d, hrow', .inl ?_⟩
  cases hmove with
  | decline => simp [TaskRow.saved, Draft.stopped, ended]

theorem not_begins_settled (h : s.step env op = (s', out)) (hs : s.Settled id) :
    ¬ Does ⟨s, op, out, s'⟩ id (.advance (.beginInvocation step)) := by
  intro hdoes
  obtain ⟨row, hrow, hsettled⟩ := hs
  obtain ⟨row1, _, hrow1, ⟨clock, jobs, d, _, hmove, -⟩, -⟩ := does_moves h hdoes rfl
  rw [hrow, Option.some_inj] at hrow1
  subst hrow1
  rcases hsettled with hterminal | hcancel
  · exact hmove.live hterminal
  · have hfinishing := (hmove.of_cancelled hcancel).1
    exact absurd hfinishing (by simp [Action.finishing, InvestigationTransition.lateFinish,
      InvestigationTransition.stopping])

/-! ### Runs -/

theorem steps_consented {s0 : Store} (h : (machine env).Steps s0 tr s) (h0 : s0.Initial) :
    ∀ row, s.tasks.find? id = some row → Consented tr id row := by
  induction h with
  | refl =>
    intro row hrow
    rw [h0.2.2.1] at hrow
    exact absurd hrow (by simp)
  | snoc _ _ hst ih => exact consent_step hst ih

theorem begins_approved {s0 : Store} {f : Fixed} (hs : (machine env).Steps s0 tr s)
    (h0 : s0.Initial) (h : s.step env op = (s', out)) (hfixed : s'.fixed? id = some f)
    (hcloud : f.provider.mode = .cloud)
    (hdoes : Does ⟨s, op, out, s'⟩ id (.advance (.beginInvocation step))) :
    Approved tr id step (s.tasks.find? id) ∧ s'.tasks.find? id ≠ s.tasks.find? id := by
  obtain ⟨row, _, hrow, ⟨clock, jobs, d, _, hmove, -, -, rfl⟩, hrow'⟩ := does_moves h hdoes rfl
  have hmode : row.record.detail.provider.mode = .cloud := by
    rw [Store.fixed?, hrow', Option.map_some, Option.some_inj] at hfixed
    rw [← hcloud, ← hfixed]
    exact (congrArg (fun f : Fixed => f.provider.mode) hmove.fixed).symm
  obtain ⟨hphase, happroved, hpending, hcancel, hphase'⟩ := hmove.begins_cloud hmode
  refine ⟨?_, ?_⟩
  · have hconsented := steps_consented hs h0 row hrow hphase hcancel step hpending
    rw [if_pos (show row.record.approved = true from happroved)] at hconsented
    rw [hrow]
    exact hconsented
  · rw [hrow, hrow', Ne, Option.some_inj]
    intro heq
    have hsame : d.task.phase = row.record.phase := congrArg (fun r : TaskRow => r.record.phase) heq
    rw [hphase', show row.record.phase = .consent from hphase] at hsame
    exact absurd hsame (by simp)

theorem mem_between {α : Type} {x y : α} {before between before' after : List α}
    (h : before ++ x :: between = before' ++ y :: after) (hne : x ≠ y) (hnot : x ∉ after) :
    y ∈ between := by
  rcases List.append_eq_append_iff.mp h with ⟨mid, -, hmid⟩ | ⟨mid, -, hmid⟩
  · cases mid with
    | nil =>
      obtain ⟨hxy, -⟩ := List.cons.inj hmid
      exact absurd hxy hne
    | cons z mid =>
      obtain ⟨-, rfl⟩ := List.cons.inj hmid
      simp
  · cases mid with
    | nil =>
      obtain ⟨hxy, -⟩ := List.cons.inj hmid
      exact absurd hxy.symm hne
    | cons z mid =>
      obtain ⟨-, rfl⟩ := List.cons.inj hmid
      exact absurd (List.mem_append_right mid List.mem_cons_self) hnot

/-- **Consent before invocation**: every start of a call of a cloud task follows the
request for consent to that very step and its approval, with nothing between that
concerns the task; two starts never share an approval; and no call starts after a
refusal or a cancellation. -/
theorem consent_before_invocation {env : Env} {s₀ s : Store} {tr : List Event} {id : String}
    {row : TaskRow} (h₀ : s₀.Initial) (hs : (machine env).Steps s₀ tr s)
    (hrow : s.tasks.find? id = some row) (hcloud : row.record.detail.provider.mode = .cloud) :
    (∀ before e after step, tr = before ++ e :: after →
      Does e id (.advance (.beginInvocation step)) →
      Approved before id step (e.pre.tasks.find? id))
    ∧ (∀ before e between e' after step step', tr = before ++ e :: (between ++ e' :: after) →
      Does e id (.advance (.beginInvocation step)) →
      Does e' id (.advance (.beginInvocation step')) →
      ∃ approval ∈ between, ∃ revision,
        Does approval id (.approve revision step'.stepId step'.payloadHash))
    ∧ (∀ before e after, tr = before ++ e :: after →
      ((∃ revision stepId payloadHash, Does e id (.decline revision stepId payloadHash))
        ∨ Does e id .cancel) →
      ∀ e' ∈ after, ∀ step, ¬ Does e' id (.advance (.beginInvocation step))) := by
  have hfixed : s.fixed? id = some (fixed row.record) := by
    rw [Store.fixed?, hrow]
    rfl
  -- the start of a call, wherever it stands in the run
  have hbegins : ∀ before e after step, tr = before ++ e :: after →
      Does e id (.advance (.beginInvocation step)) →
      Approved before id step (e.pre.tasks.find? id)
        ∧ e.post.tasks.find? id ≠ e.pre.tasks.find? id := by
    intro before e after step htr hdoes
    obtain ⟨hbefore, -, hst, hafter⟩ := hs.around htr
    obtain ⟨row₁, _, hrow₁, -, hrow₁'⟩ := does_moves hst hdoes rfl
    -- the locality of a task is set when it is created
    have hfixed₁ : e.post.fixed? id = some (fixed row.record) := by
      cases hpost : e.post.fixed? id with
      | none => simp [Store.fixed?, hrow₁'] at hpost
      | some f => rw [← hfixed, steps_fixed hafter hpost]
    exact begins_approved hbefore h₀ hst hfixed₁ hcloud hdoes
  refine ⟨fun before e after step htr hdoes => (hbegins before e after step htr hdoes).1, ?_, ?_⟩
  · rintro before e between e' after step step' htr hdoes hdoes'
    obtain ⟨⟨before', approval, quiet, row', hsplit, -, happroval, -, -, hquiet⟩, -⟩ :=
      hbegins (before ++ e :: between) e' after step' (by simp [htr]) hdoes'
    -- the first start moved the task, so it is not in the quiet part
    have hmoved := (hbegins before e (between ++ e' :: after) step htr hdoes).2
    refine ⟨approval, mem_between hsplit ?_ ?_, _, happroval⟩
    · rintro rfl
      exact absurd (hdoes.unique happroval) (by simp)
    · exact fun hmem => hmoved (hquiet e hmem)
  · intro before e after htr hrefused e' he' step
    obtain ⟨-, -, hst, hafter⟩ := hs.around htr
    have hsettled : e.post.Settled id := by
      rcases hrefused with ⟨revision, stepId, payloadHash, hdecline⟩ | hcancel
      · exact decline_settles hst hdecline
      · exact cancel_settles hst hcancel
    obtain ⟨tr₁, tr₂, -, hbefore, -, hst', -⟩ := hafter.split he'
    have hsettled' : e'.pre.Settled id :=
      hbefore.invariant (P := fun s => s.Settled id) (fun _ _ _ _ hp _ hst => step_settled hst hp)
        hsettled
    exact not_begins_settled hst' hsettled'

end

namespace Sample

def pendingStep : PendingInvestigationStep where
  stepId := "step-1"
  payloadHash := "0000000000000000000000000000000000000000000000000000000000000000"
  inputLedgerHash := "df5144422389e4bcd6601a31cc888611abbf5761dcbe16a188d36f2d086ab88d"
  inputBytes := 1
  generatedTokens := 256

/-- A worker prepares the input, asks for consent, is given it and starts the call. -/
def invoked : List Op := begun ++
  [.advanceInvestigation clock handle 1 (.inputPrepared ledger {}),
    .advanceInvestigation clock handle 2 (.awaitConsent pendingStep),
    .approveInvestigation clock taskId 3 pendingStep.stepId pendingStep.payloadHash,
    .advanceInvestigation clock handle 4 (.beginInvocation pendingStep)]

theorem invoked_row : (((machine (env intent)).exec empty invoked).tasks.find? taskId).map
    (fun row => (row.record.phase, row.record.detail.provider.mode)) = some (.invocation, .cloud) := by
  decide +kernel

end Sample

theorem consent_before_invocation_cloud :
    (((machine (Sample.env Sample.intent)).exec Sample.empty Sample.invoked).tasks.find?
        Sample.taskId).map (fun row => (row.record.phase, row.record.detail.provider.mode))
      = some (.invocation, .cloud)
    ∧ ∀ before e after step,
        (machine (Sample.env Sample.intent)).trace Sample.empty Sample.invoked
          = before ++ e :: after →
        Does e Sample.taskId (.advance (.beginInvocation step)) →
        Approved before Sample.taskId step (e.pre.tasks.find? Sample.taskId) := by
  obtain ⟨row, hrow, heq⟩ := Option.map_eq_some_iff.mp Sample.invoked_row
  have hrun := Machine.steps_exec (M := machine (Sample.env Sample.intent)) (s := Sample.empty)
    fun s i (_ : i ∈ Sample.invoked) => trivial
  exact ⟨Sample.invoked_row,
    (consent_before_invocation Sample.empty_initial hrun hrow (Prod.mk.inj heq).2).1⟩

end Jobs

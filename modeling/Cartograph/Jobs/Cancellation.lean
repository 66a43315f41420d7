/-
Cancellation stops new work.

A cancellation can come from the task or from its job, and between any two steps of
the worker.  From then on the worker can only bring what is under way to its end:

* `Move.of_cancelled` — the only moves of a cancelled task end it;
* `Move.live` — a task that has ended makes no move;
* `cancellation_stops_work` — both, along every run.

Nothing here depends on how the state was reached.
-/
import Cartograph.Jobs.Agreement

namespace Jobs

open Investigation Checked

/-! ### One move -/

/-- A late result, a stop, or the recovery of a dead owner. -/
def Action.finishing : Action → Bool
  | .advance transition => transition.lateFinish || transition.stopping
  | .recover => true
  | _ => false

section

variable {env : Env} {action : Action} {s s' : Store} {op : Op} {out : Except Failure Answer}
  {id : String}

theorem Move.live {clock : Clock} {d d' : Draft} (h : Move env clock d action d') :
    d.task.phase ≠ .terminal := by
  cases h.course with
  | attached _ _ hphase =>
    rw [hphase]
    simp
  | works _ hwork => exact hwork.2
  | ends _ hlive => exact hlive
  | flagged _ hwork => exact hwork.2

theorem Move.of_cancelled {clock : Clock} {d d' : Draft} (h : Move env clock d action d')
    (hcancel : d.task.detail.summary.cancelRequested = true) :
    action.finishing = true ∧ d'.task.phase = .terminal
      ∧ d'.task.detail.summary.cancelRequested = true := by
  -- every other move asks for a task that was not cancelled
  have hnot : d.task.detail.summary.cancelRequested ≠ false := by simp [hcancel]
  cases h with
  | attach _ _ _ h | inputPrepared _ _ _ _ _ h | inputAdmitted _ _ _ _ h | awaitConsent _ _ h
  | beginInvocation _ h | actionAdmitted _ _ _ h | beginTool _ _ _ h | chargeEvidence _ _ h
  | approve _ _ _ _ h | decline _ _ _ _ h | cancel _ h => exact absurd h hnot
  | finished =>
    refine ⟨rfl, by simp [Draft.responded, responded], ?_⟩
    simpa [Draft.responded, responded] using hcancel
  | stopWithElapsed =>
    exact ⟨rfl, by simp [Draft.stopped, ended],
      by simp [Draft.stopped, ended, stopCancelled, elapsed, hcancel]⟩
  | recover =>
    refine ⟨rfl, by simp [Draft.recovered, ended], ?_⟩
    simpa [Draft.recovered, ended] using hcancel

/-! ### One step -/

/-- Task `id` is there, and cancellation of it was requested. -/
def Store.Cancelled (s : Store) (id : String) : Prop :=
  ∃ row, s.tasks.find? id = some row ∧ row.record.detail.summary.cancelRequested = true

theorem step_cancelled (h : s.step env op = (s', out)) (hs : s.Cancelled id) : s'.Cancelled id := by
  obtain ⟨row, hrow, hcancel⟩ := hs
  rcases step_task h hrow with hsame | ⟨action, row', -, ⟨clock, jobs, d, _, hmove, -, -, rfl⟩, hrow'⟩
  · exact ⟨row, hsame, hcancel⟩
  · exact ⟨row.saved d, hrow', (hmove.of_cancelled hcancel).2.2⟩

theorem does_cancelled (h : s.step env op = (s', out)) (hs : s.Cancelled id)
    (hdoes : Does ⟨s, op, out, s'⟩ id action) :
    action.finishing = true ∨ action = .cancel ∧ s'.tasks.find? id = s.tasks.find? id := by
  obtain ⟨row, hrow, hcancel⟩ := hs
  rcases step_task h hrow with hsame |
    ⟨action', row', hdoes', ⟨clock, jobs, d, _, hmove, -, -, rfl⟩, -⟩
  · by_cases halways : action.always = true
    · obtain ⟨row1, _, hrow1, ⟨clock, jobs, d, _, hmove, -⟩, -⟩ := does_moves h hdoes halways
      rw [hrow, Option.some_inj] at hrow1
      subst hrow1
      exact .inl (hmove.of_cancelled hcancel).1
    · cases action with
      | cancel => exact .inr ⟨rfl, hsame.trans hrow.symm⟩
      | recover => exact .inl rfl
      | attach | advance | approve | decline => exact absurd rfl halways
  · obtain rfl := hdoes.unique hdoes'
    exact .inl (hmove.of_cancelled hcancel).1

theorem step_terminal {row : TaskRow} (h : s.step env op = (s', out))
    (hrow : s.tasks.find? id = some row) (hterminal : row.record.phase = .terminal) :
    s'.tasks.find? id = some row := by
  rcases step_task h hrow with hsame | ⟨_, _, -, ⟨clock, jobs, d, _, hmove, -⟩, -⟩
  · exact hsame
  · exact absurd hterminal hmove.live

/-! ### Runs -/

theorem steps_cancelled {tr : List Event} (h : (machine env).Steps s tr s') (hs : s.Cancelled id) :
    s'.Cancelled id :=
  h.invariant (P := fun s => s.Cancelled id) (fun _ _ _ _ hc _ hst => step_cancelled hst hc) hs

/-- **Cancellation stops new work**: of a cancelled task only the end can still be
recorded, and a repeated cancellation finds nothing to do; and the row of a task that
has ended, with its record, events, ledgers, invocations, responses and result, stays
as it is. -/
theorem cancellation_stops_work {env : Env} {s s' : Store} {tr : List Event} {id : String}
    {row : TaskRow} (hs : (machine env).Steps s tr s') (hrow : s.tasks.find? id = some row) :
    (row.record.detail.summary.cancelRequested = true →
      s'.Cancelled id ∧ ∀ e ∈ tr, ∀ action, Does e id action →
        action.finishing = true
          ∨ action = .cancel ∧ e.post.tasks.find? id = e.pre.tasks.find? id)
    ∧ (row.record.phase = .terminal → s'.tasks.find? id = some row) := by
  refine ⟨fun hcancel => ?_, fun hterminal => ?_⟩
  · have hcancelled : s.Cancelled id := ⟨row, hrow, hcancel⟩
    refine ⟨steps_cancelled hs hcancelled, fun e he action hdoes => ?_⟩
    obtain ⟨tr₁, tr₂, -, hbefore, -, hst, -⟩ := hs.split he
    exact does_cancelled hst (steps_cancelled hbefore hcancelled) hdoes
  · exact hs.invariant (P := fun s => s.tasks.find? id = some row)
      (fun _ _ _ _ hp _ hst => step_terminal hst hp hterminal) hrow

end

namespace Sample

/-- The input a worker prepares. -/
def ledger : InvestigationInputLedger where
  schemaVersion := 1
  graphSnapshotId := "context-v1:0000000000000000000000000000000000000000000000000000000000000000"
  scopeSnapshotId := "context-v1:0000000000000000000000000000000000000000000000000000000000000000"
  revision := 0
  selectedFacts := []
  receiptReferences := []
  citations := []
  queries := []
  suppliedHistoryHash := none
  suppliedHistoryBytes := 0

/-- A worker takes a task, which is then cancelled. -/
def cancelled : Store :=
  (machine (env intent)).exec empty
    [start, claim (KIND_PREFIX ++ taskId), .cancelInvestigation clock taskId]

/-- The worker goes on at the revision it knows and at the one of the cancellation, and
gives up. -/
def goesOn : List Op :=
  [.advanceInvestigation clock handle 1 (.inputPrepared ledger {}),
    .advanceInvestigation clock handle 2 (.inputPrepared ledger {}),
    .advanceInvestigation clock handle 2 (.stopWithElapsed .cancelled 7)]

theorem cancelled_row :
    (cancelled.tasks.find? taskId).map (fun row => row.record.detail.summary.cancelRequested)
      = some true
    ∧ (((machine (env intent)).exec cancelled goesOn).tasks.find? taskId).map
        (fun row => (row.record.detail.summary.status, row.record.phase))
      = some (.cancelled, .terminal) := by
  decide +kernel

end Sample

theorem cancellation_stops_work_preparing :
    (((machine (Sample.env Sample.intent)).exec Sample.cancelled Sample.goesOn).tasks.find?
        Sample.taskId).map (fun row => row.record.detail.summary.status) = some .cancelled
    ∧ ∀ e ∈ (machine (Sample.env Sample.intent)).trace Sample.cancelled Sample.goesOn,
        ∀ ledger usage, ¬ Does e Sample.taskId (.advance (.inputPrepared ledger usage)) := by
  obtain ⟨row', hrow', hfields⟩ := Option.map_eq_some_iff.mp Sample.cancelled_row.2
  refine ⟨Option.map_eq_some_iff.mpr ⟨row', hrow', congrArg Prod.fst hfields⟩, ?_⟩
  intro e he ledger usage hdoes
  obtain ⟨row, hrow, hcancel⟩ := Option.map_eq_some_iff.mp Sample.cancelled_row.1
  have hrun := Machine.steps_exec (M := machine (Sample.env Sample.intent)) (s := Sample.cancelled)
    fun s i (_ : i ∈ Sample.goesOn) => trivial
  obtain ⟨-, hstops⟩ := (cancellation_stops_work hrun hrow).1 hcancel
  rcases hstops e he _ hdoes with hfinishing | ⟨hcancel, -⟩
  · exact absurd hfinishing (by simp [Action.finishing, InvestigationTransition.lateFinish,
      InvestigationTransition.stopping])
  · exact absurd hcancel (by simp)

end Jobs

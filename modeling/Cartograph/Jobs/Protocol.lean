/-
The protocol of a task.

Of a task the protocol sees who answers it, its phase, and whether a step is approved and a
cancellation requested.  `Control.next` says where an action may take it.  The coordinator refines
the protocol: whatever its users and its worker do in between, what becomes of a task in a run is
a path of the protocol, and its revision counts the steps of the path.

* `Move.follows` — a move is a step of the protocol;
* `protocol_refined` — a run is a path of it.
-/
import Cartograph.Jobs.Cancellation

namespace Jobs

open Investigation Checked

/-- What the protocol sees of a task. -/
@[ext] structure Control where
  cloud : Bool
  phase : Phase
  approved : Bool
  cancelling : Bool
  deriving DecidableEq

namespace Control

/-- New work, which a requested cancellation forbids. -/
def work (c : Control) (before after : Phase) : Option Control :=
  if c.phase = before ∧ c.cancelling = false then some ⟨c.cloud, after, false, false⟩ else none

/-- The end of a task that is not there yet. -/
def close (c : Control) : Option Control :=
  if c.phase = .terminal then none else some ⟨c.cloud, .terminal, false, false⟩

/-- Where an action takes a task, if it may take place. -/
def next (c : Control) : Action → Option Control
  | .attach _ => c.work .queued .preparing
  | .advance (.inputPrepared _ _) => c.work .preparing .ready
  | .advance (.inputAdmitted _ _) => c.work .tool .ready
  | .advance (.awaitConsent _) => if c.cloud then c.work .ready .consent else none
  | .advance (.beginInvocation _) =>
    if c.cloud = false then c.work .ready .invocation
    else if c.approved then c.work .consent .invocation else none
  | .advance (.actionAdmitted _ (some _) _) => c.work .invocation .action
  | .advance (.actionAdmitted _ none _) => if c.phase = .invocation then c.close else none
  | .advance (.beginTool _) => c.work .action .tool
  | .advance (.chargeEvidence _) => c.work .tool .tool
  | .advance (.stopWithElapsed reason _) =>
    if reason = .outcomeUnknown ∧ c.phase ≠ .invocation then none else c.close
  | .approve _ _ _ =>
    if c.approved then none else (c.work .consent .consent).map fun c => { c with approved := true }
  | .decline _ _ _ =>
    if c.phase = .consent ∧ c.approved = false ∧ c.cancelling = false then c.close else none
  | .cancel =>
    if c.cancelling then none
    else if c.phase = .queued then c.close
    else if c.phase = .terminal then none else some { c with cancelling := true }
  | .recover => c.close

end Control

/-- Approval is of the consent that is waited for; of a task that has ended nothing is wanted. -/
def control (t : StoredTask) : Control where
  cloud := t.detail.provider.mode == .cloud
  phase := t.phase
  approved := t.phase == .consent && t.approved
  cancelling := t.phase != .terminal && t.detail.summary.cancelRequested

section

variable (d : Draft) (clock : Clock) (kind : InvestigationEventKind) (step : Option String)
  (tool : Option InvestigationTool) (summary : String)

theorem control_noted : control (d.noted clock kind step tool summary).task = control d.task := rfl

theorem control_recorded (now : Timestamp) :
    control (d.recorded now kind step tool summary).task = control d.task := rfl

end

section

variable {t t' : StoredTask} {before after : Phase}

theorem work_eq (hphase : t.phase = before)
    (hcancel : t.detail.summary.cancelRequested = false)
    (hmode : t'.detail.provider = t.detail.provider) (hphase' : t'.phase = after)
    (happroved : after = .consent → t'.approved = false)
    (hcancel' : t'.detail.summary.cancelRequested = false) :
    (control t).work before after = some (control t') := by
  have hnone : (t'.phase == .consent && t'.approved) = false := by
    rw [hphase']
    by_cases h : after = .consent
    · rw [happroved h, Bool.and_false]
    · rw [beq_eq_false_iff_ne.mpr h, Bool.false_and]
  rw [Control.work, if_pos ⟨hphase, by simp [control, hcancel]⟩, control, control, hmode, hnone,
    hphase', hcancel', Bool.and_false]

theorem close_eq (hlive : t.phase ≠ .terminal) (hmode : t'.detail.provider = t.detail.provider)
    (hphase' : t'.phase = .terminal) : (control t).close = some (control t') := by
  have hphase : ¬ (control t).phase = .terminal := hlive
  rw [Control.close, if_neg hphase]
  simp [control, hmode, hphase']

end

variable {env : Env} {s s' : Store} {tr : List Event} {id : String} {row : TaskRow}
  {action : Action}

theorem Move.follows {clock : Clock} {d d' : Draft} (h : Move env clock d action d') :
    (control d.task).next action = some (control d'.task) := by
  cases h with
  | attach _ hphase _ hcancel | beginTool _ hphase _ hcancel =>
    exact work_eq hphase hcancel rfl rfl (by simp) hcancel
  | inputPrepared _ _ _ hphase _ hcancel | inputAdmitted _ _ _ hphase hcancel =>
    rw [Draft.withInput, control_noted]
    exact work_eq hphase hcancel rfl rfl (by simp) hcancel
  | chargeEvidence _ hphase hcancel => exact work_eq hphase hcancel rfl hphase (by simp) hcancel
  | actionAdmitted _ _ _ hcancel hans =>
    rw [Draft.responded, control_recorded, control_noted]
    exact work_eq hans.phase hcancel rfl rfl (by simp) hcancel
  | awaitConsent _ hphase hcancel _ hmode =>
    have hcloud : (control d.task).cloud = true := beq_iff_eq.mpr hmode
    rw [Control.next, if_pos hcloud]
    exact work_eq hphase hcancel rfl rfl (fun _ => rfl) hcancel
  | beginInvocation step hcancel hinv =>
    have hmay := hinv.may
    rw [Draft.invoked, control_noted, Control.next]
    cases hmode : d.task.detail.provider.mode with
    | localMode =>
      simp only [mayInvoke, hmode, checkReady, bind_eq_ok, ensure_eq_ok] at hmay
      obtain ⟨-, -, -, hready, -⟩ := hmay
      rw [if_pos (by simp [control, hmode])]
      exact work_eq hready.1 hcancel rfl rfl (by simp) hcancel
    | cloud =>
      simp only [mayInvoke, hmode, ensure_eq_ok] at hmay
      rw [if_neg (by simp [control, hmode]), if_pos (by simp [control, hmay])]
      exact work_eq hmay.1 hcancel rfl rfl (by simp) hcancel
  | finished _ _ _ hans =>
    have hphase : (control d.task).phase = .invocation := hans.phase
    rw [task_syncTerminalJob, Draft.responded, control_recorded, control_noted, Control.next,
      if_pos hphase]
    exact close_eq (by simp [hans.phase]) rfl rfl
  | stopWithElapsed reason _ hlive hunknown =>
    rw [Draft.stopped, task_syncTerminalJob, Control.next, if_neg fun h => h.2 (hunknown h.1)]
    exact close_eq hlive rfl rfl
  | recover hlive =>
    rw [Draft.recovered, task_syncTerminalJob]
    exact close_eq hlive rfl rfl
  | approve _ _ _ hdecides hcancel =>
    rw [control_noted, Control.next, if_neg (by simp [control, hdecides.undecided]), Control.work,
      if_pos ⟨hdecides.phase, by simp [control, hcancel]⟩]
    simp [control, hdecides.phase, hcancel, consented]
  | decline _ _ _ hdecides hcancel =>
    rw [Draft.stopped, task_syncTerminalJob, control_noted, Control.next,
      if_pos ⟨hdecides.phase, by simp [control, hdecides.undecided, hcancel]⟩]
    exact close_eq (by simp [hdecides.phase]) rfl rfl
  | cancel hlive hcancel =>
    rw [Draft.cancelledBy, task_cancelOpenJob, control_noted, Control.next,
      if_neg (by simp [control, hcancel])]
    by_cases hqueued : d.task.phase = .queued
    · rw [if_pos (show (control d.task).phase = .queued from hqueued)]
      exact close_eq hlive rfl (if_pos hqueued)
    · rw [if_neg (show ¬ (control d.task).phase = .queued from hqueued),
        if_neg (show ¬ (control d.task).phase = .terminal from hlive)]
      simp [control, cancelRequested, hqueued, hlive]

theorem Move.counts {clock : Clock} {d d' : Draft} (h : Move env clock d action d') :
    d'.task.detail.summary.revision = d.task.detail.summary.revision + 1 := by
  cases h <;> rfl

/-- **The protocol of a task.**  In a run, whoever takes part in it, a task goes along a path of
the protocol: the actions on it that had an effect, in the order of the run.  Its revision counts
them. -/
theorem protocol_refined (hs : (machine env).Steps s tr s')
    (hrow : s.tasks.find? id = some row) :
    ∃ row' events actions, s'.tasks.find? id = some row' ∧ events.Sublist tr
      ∧ List.Forall₂ (fun e action => Does e id action) events actions
      ∧ actions.foldlM Control.next (control row.record) = some (control row'.record)
      ∧ row'.record.detail.summary.revision
        = row.record.detail.summary.revision + actions.length := by
  induction hs with
  | refl => exact ⟨row, [], [], hrow, .refl [], .nil, rfl, rfl⟩
  | @snoc tr s1 s2 op out _ _ hst ih =>
    obtain ⟨row1, events, actions, hrow1, hsub, hdone, hpath, hcount⟩ := ih
    rcases step_task hst hrow1 with hsame | ⟨action, row', hdoes, hmoves, hrow'⟩
    · exact ⟨row1, events, actions, hsame, hsub.trans (List.sublist_append_left tr _), hdone, hpath,
        hcount⟩
    · obtain ⟨clock, jobs, d, terminal, hmove, -, -, rfl⟩ := hmoves
      refine ⟨row1.saved d, events ++ [_], actions ++ [action], hrow',
        hsub.append (.refl [_]), List.rel_append hdone (.cons hdoes .nil), ?_, ?_⟩
      · have hfollows : (control row1.record).next action = some (control (row1.saved d).record) :=
          hmove.follows
        rw [List.foldlM_append, hpath]
        simp [hfollows]
      · rw [List.length_append, ← Nat.add_assoc, ← hcount]
        exact hmove.counts

theorem protocol_refined_cancelled :
    ∃ (row : TaskRow) (c : Control) (actions : List Action),
      Sample.cancelled.tasks.find? Sample.taskId = some row ∧ c.phase = .terminal
        ∧ actions.foldlM Control.next (control row.record) = some c := by
  obtain ⟨row, hrow, -⟩ := Option.map_eq_some_iff.mp Sample.cancelled_row.1
  have hend := Sample.cancelled_row.2
  obtain ⟨row', -, actions, hrow', -, -, hpath, -⟩ := protocol_refined
    (Machine.steps_exec (M := machine (Sample.env Sample.intent)) fun _ _ _ => trivial) hrow
  rw [hrow', Option.map_some, Option.some_inj] at hend
  exact ⟨row, control row'.record, actions, hrow, congrArg Prod.snd hend, hpath⟩

end Jobs

/-
Starting an investigation twice.

The nonce of a request names the task it created.  A request with the nonce of a task
is answered by that task, or refused when its intent is another one; only a new nonce
creates a task, and only while the store has room for it.

* `Effect.tasks` — an operation replaces the row of one task, or adds one;
* `steps_bounded` — nonces stay distinct, at most two tasks are live, at most 128 exist;
* `start_idempotent` — the answers to repeated requests, and the recovery candidates.
-/
import Cartograph.Jobs.Loading
import Cartograph.Jobs.Headroom

namespace Jobs

open Investigation Checked

/-! ### The table of tasks -/

/-- What an operation does to the table of tasks. -/
inductive TasksStep (env : Env) (s s' : Store) : Prop
  | same : s'.tasks = s.tasks → TasksStep env s s'
  | moved (id : String) (action : Action) (row row' : TaskRow) :
      s.tasks.find? id = some row → RowMoves env row action row' →
      s'.tasks = s.tasks.put id row' → TasksStep env s s'
  | started (d : Draft) (id : String) : Starts env s d id s' → TasksStep env s s'

variable {env : Env} {clock : Clock} {s' s : Store} {id intentHash nonce : String} {row : TaskRow}
  {request : StartInvestigationRequest}

variable {action : Action} {op : Op} {s₀ : Store} {tr : List Event}
  {conversation investigation : Token}

theorem Moves.tasks {s1 : Store} (h : Moves env clock s1 id action s') (s : Store)
    (htasks : s1.tasks = s.tasks) :
    TasksStep env s s' := by
  obtain ⟨row, d, terminal, hload, hmove, hsavable, hflag, rfl⟩ := h
  refine .moved id action row (row.saved d) (by rw [← htasks, hload.stored])
    ⟨clock, s1.jobs, d, terminal, hmove, hsavable, hflag, rfl⟩ ?_
  rw [← htasks]

theorem Effect.tasks {a : Answer} (h : Effect env s op a s') :
    TasksStep env s s' := by
  cases h with
  | attach _ _ _ _ _ _ _ _ _ _ _ hmoves | cancelJobTask _ _ _ _ _ _ _ _ _ hmoves
  | moved _ _ _ _ _ _ hmoves => exact hmoves.tasks s rfl
  | start _ _ _ _ _ _ _ _ _ _ _ _ hstarts => exact .started _ _ hstarts
  | idle | enqueue | claim | update | interrupt | cancelJob | clear | cancelled => exact .same rfl

theorem step_tasks {out : Except Failure Answer} (h : s.step env op = (s', out)) :
    TasksStep env s s' := by
  rcases step_cases h with ⟨_, -, rfl⟩ | ⟨a, -, heffect⟩
  · exact .same rfl
  · exact heffect.tasks

/-! ### Nonces and bounds -/

def Store.live (s : Store) : List (String × TaskRow) := s.tasks.rows.filter fun r => r.2.live

/-- One task for each nonce, and room for every task there is. -/
structure Store.Bounded (s : Store) : Prop where
  nonces : (s.tasks.rows.map fun r => r.2.nonce).Nodup
  live : s.live.length ≤ MAX_LIVE_TASKS
  tasks : s.tasks.rows.length ≤ MAX_TASKS

theorem Store.Bounded.moved {row' : TaskRow} (h : s.Bounded) (hsound : Sound env s.ns id row)
    (hrow : s.tasks.find? id = some row) (hmoves : RowMoves env row action row')
    (htasks : s'.tasks = s.tasks.put id row') :
    s'.Bounded := by
  obtain ⟨clock, jobs, d, _, hmove, -, -, rfl⟩ := hmoves
  have hlive : row.live = true := hsound.live.mpr hmove.live
  obtain ⟨l1, l2, hbefore, hafter⟩ := Table.rows_put_of_find? (row.saved d) hrow
  obtain ⟨hnonces, hcount, hlength⟩ := h
  simp only [Store.live, hbefore, List.map_append, List.map_cons, List.filter_append, List.filter_cons,
    hlive, if_true, List.length_append, List.length_cons] at hnonces hcount hlength
  refine ⟨?_, ?_, ?_⟩
  · rw [htasks, hafter, List.map_append, List.map_cons]
    exact hnonces
  · rw [Store.live, htasks, hafter, List.filter_append, List.filter_cons, List.length_append]
    split_ifs with hlive'
    · exact hcount
    · exact (Nat.add_le_add_left (Nat.le_succ _) _).trans hcount
  · rw [htasks, hafter, List.length_append, List.length_cons]
    exact hlength

theorem Store.Bounded.started {d : Draft} (h : s.Bounded) (hstarts : Starts env s d id s') :
    s'.Bounded := by
  have hperm := Table.rows_put_perm ((insertedRow s d.task).saved d) hstarts.fresh
  rw [← hstarts.tasks] at hperm
  obtain ⟨hroom, hlive⟩ := hstarts.room
  refine ⟨?_, ?_, ?_⟩
  · rw [(hperm.map fun r => r.2.nonce).nodup_iff, List.map_cons, List.nodup_cons]
    refine ⟨?_, h.nonces⟩
    rw [List.mem_map]
    rintro ⟨r, hr, hnonce⟩
    exact hstarts.nonce r hr hnonce
  · have hlength := (hperm.filter fun r => r.2.live).length_eq
    rw [Store.live, hlength, List.filter_cons]
    split_ifs
    · rw [List.length_cons]
      exact hlive
    · exact hlive.le
  · rw [hperm.length_eq, List.length_cons]
    exact hroom

theorem steps_bounded (h : (machine env).Steps s₀ tr s) (h0 : s₀.Initial) : s.Bounded := by
  induction h with
  | refl =>
    have hempty : s₀.tasks.rows = [] := by rw [h0.2.2.1]; rfl
    refine ⟨?_, ?_, ?_⟩ <;> simp [Store.live, hempty]
  | snoc hs _ hst ih =>
    cases step_tasks hst with
    | same hsame =>
      refine ⟨?_, ?_, ?_⟩
      · rw [hsame]
        exact ih.nonces
      · rw [Store.live, hsame]
        exact ih.live
      · rw [hsame]
        exact ih.tasks
    | moved id action row row' hrow hmoves htasks =>
      exact ih.moved (steps_sound hs h0 id row hrow) hrow hmoves htasks
    | started d id hstarts => exact ih.started hstarts

/-! ### The task of a request -/

/-- The task `id` was created by a request with this nonce and this intent. -/
structure TaskOf (s : Store) (id nonce intentHash : String) (row : TaskRow) : Prop where
  stored : s.tasks.find? id = some row
  nonce : row.nonce = nonce
  intent : row.record.intentHash = intentHash

theorem createTask_detail {provider : InvestigationProvider} {detail : InvestigationDetail}
    (h : s.createTask env clock request provider intentHash conversation investigation
      = .ok (detail, s')) : detail.summary.investigationId = newId investigation := by
  simp only [Store.createTask, bind_eq_ok, pure_eq_ok, Prod.mk.injEq, Prod.exists,
    event_eq_ok] at h
  obtain ⟨⟨⟩, -, ⟨⟩, -, _, -, ⟨⟩, -, _, -, _, _, -, _, -, _, -, _, ⟨-, -, rfl⟩, _, -, _, -, ⟨⟩, -, rfl,
    -⟩ := h
  rfl

theorem startInvestigation_task {offered : Option InvestigationProvider}
    {start : InvestigationStart}
    (h : s.startInvestigation env clock request offered conversation investigation
      = .ok (start, s')) :
    ∃ intentHash row, request.intentHash env = .ok intentHash
      ∧ TaskOf s' start.detail.summary.investigationId request.requestNonce intentHash row := by
  simp only [Store.startInvestigation, bind_eq_ok, admitted_eq_ok] at h
  obtain ⟨⟨⟩, -, intentHash, hintent, h⟩ := h
  cases hprior : s.tasks.rows.find? fun r => r.2.nonce == request.requestNonce with
  | some prior =>
    simp only [hprior, bind_eq_ok, ensure_eq_ok, pure_eq_ok, Prod.mk.injEq] at h
    obtain ⟨row, hload, ⟨⟩, hsame, rfl, rfl⟩ := h
    have hloaded := loadTask_ok hload
    have hstored := Table.find?_eq_some_iff.mpr (List.mem_of_find?_eq_some hprior)
    have hrow : row = prior.2 := Option.some_inj.mp (hloaded.stored.symm.trans hstored)
    have hnonce : prior.2.nonce = request.requestNonce := by
      simpa using List.find?_some hprior
    refine ⟨intentHash, row, hintent, ?_, hrow ▸ hnonce, hsame⟩
    rw [hloaded.investigationId]
    exact hloaded.stored
  | none =>
    simp only [hprior, bind_eq_ok, orFail_eq_ok, pure_eq_ok, Prod.mk.injEq, Prod.exists] at h
    obtain ⟨provider, -, detail, s1, hcreate, rfl, rfl⟩ := h
    have hstarts := createTask_ok hcreate
    rw [createTask_detail hcreate]
    have hstored := hstarts.tasks ▸ Table.find?_put s.tasks (newId investigation) (newId investigation) _
    rw [if_pos rfl] at hstored
    exact ⟨intentHash, _, hintent, hstored, rfl, rfl⟩

theorem TaskOf.steps {tr0 : List Event} (h : TaskOf s id nonce intentHash row) (h0 : s₀.Initial)
    (hs : (machine env).Steps s₀ tr0 s) (hs' : (machine env).Steps s tr s') :
    ∃ row', TaskOf s' id nonce intentHash row' := by
  have hfixed : s.fixed? id = some (fixed row.record) := by rw [Store.fixed?, h.stored]; rfl
  obtain ⟨row', hrow', hsame⟩ := Option.map_eq_some_iff.mp (steps_fixed hs' hfixed)
  have hbefore := (steps_sound hs h0 id row h.stored).nonce
  have hafter := (steps_sound (hs.trans hs') h0 id row' hrow').nonce
  refine ⟨row', hrow', ?_, (congrArg Fixed.intentHash hsame).trans h.intent⟩
  rw [← hafter, ← h.nonce, ← hbefore]
  exact congrArg Fixed.nonce hsame

/-! ### Repeated requests -/

theorem find?_nonce (hb : s.Bounded) (h : TaskOf s id nonce intentHash row) :
    (s.tasks.rows.find? fun r => r.2.nonce == nonce) = some (id, row) :=
  Table.find?_distinct hb.nonces (Table.find?_eq_some_iff.mp h.stored) h.nonce

theorem start_repeated (hb : s.Bounded) (hsound : Sound env s.ns id row)
    (h : TaskOf s id nonce intentHash row) (clock : Clock) (offered : Option InvestigationProvider)
    (conversation investigation : Token) {intent : String} (hnonce : request.requestNonce = nonce)
    (hintent : request.intentHash env = .ok intent) :
    s.step env (.startInvestigation clock request offered conversation investigation)
      = if intentHash = intent then (s, .ok (.started ⟨row.record.detail, false⟩))
        else (s, .error (.task .conflict)) := by
  have hvalid : request.validate = .ok () := by
    simp only [StartInvestigationRequest.intentHash, bind_eq_ok] at hintent
    exact hintent.choose_spec.1
  have hstart : s.startInvestigation env clock request offered conversation investigation
      = (ensure (intentHash = intent) .conflict >>= fun _ => pure (⟨row.record.detail, false⟩, s)) := by
    simp only [Store.startInvestigation, hvalid, hintent, hnonce, find?_nonce hb h,
      hsound.loadTask h.stored, admitted, ← h.intent]
    rfl
  simp only [Store.step, transact, Store.perform, hstart, ensure]
  split_ifs with hsame
  · rfl
  · rfl

/-! ### Recovery candidates -/

theorem recoveryCandidates_ok (hb : s.Bounded)
    (hload : ∀ id row, s.tasks.find? id = some row → s.loadTask env id = .ok row) :
    ∃ candidates, s.investigationRecoveryCandidates env = .ok candidates := by
  simp only [Store.investigationRecoveryCandidates, bind_eq_ok, ensure_eq_ok, pure_eq_ok]
  obtain ⟨rows, hrows⟩ := mapM_ok (f := fun r : String × TaskRow => s.loadTask env r.1)
    (l := s.live.mergeSort fun a b => decide (a.2.ordinal ≤ b.2.ordinal)) (by
      intro r hr
      have hmem := (List.mem_filter.mp (List.mem_mergeSort.mp hr)).1
      exact ⟨r.2, hload r.1 r.2 (Table.find?_eq_some_iff.mpr hmem)⟩)
  refine ⟨_, (), ?_, rows, hrows, rfl⟩
  rw [List.length_mergeSort]
  exact hb.live

/-! ### Every run -/

/-- **Idempotent starts and bounded tasks**, along every run: a nonce has one task; a start
that was answered is answered by the same task again, as it is now, when the intent is the
same, and refused with nothing changed when it is not; and the live tasks can always be
enumerated for recovery. -/
theorem start_idempotent {env : Env} {s₀ s : Store} {tr : List Event} (h₀ : s₀.Initial)
    (hs : (machine env).Steps s₀ tr s) :
    (∀ id id' row row', s.tasks.find? id = some row → s.tasks.find? id' = some row' →
      row.nonce = row'.nonce → id = id')
    ∧ (∀ e ∈ tr, ∀ clock request offered conversation investigation start,
      e.op = .startInvestigation clock request offered conversation investigation →
      e.out = .ok (.started start) →
      ∃ row, s.tasks.find? start.detail.summary.investigationId = some row
        ∧ row.nonce = request.requestNonce
        ∧ ∀ clock' request' offered' conversation' investigation' intent,
          request'.requestNonce = request.requestNonce → request'.intentHash env = .ok intent →
          (request.intentHash env = .ok intent →
            s.step env (.startInvestigation clock' request' offered' conversation' investigation')
              = (s, .ok (.started ⟨row.record.detail, false⟩)))
          ∧ (request.intentHash env ≠ .ok intent →
            s.step env (.startInvestigation clock' request' offered' conversation' investigation')
              = (s, .error (.task .conflict))))
    ∧ (s.tasks.rows.filter fun r => r.2.live).length ≤ 2 ∧ s.tasks.rows.length ≤ 128
    ∧ ∃ candidates, s.investigationRecoveryCandidates env = .ok candidates := by
  have hb := steps_bounded hs h₀
  refine ⟨?_, ?_, hb.live, hb.tasks, recoveryCandidates_ok hb fun id row hrow =>
    steps_loadTask hs h₀ hrow⟩
  · intro id id' row row' hrow hrow' hnonce
    have heq := List.inj_on_of_nodup_map hb.nonces (Table.find?_eq_some_iff.mp hrow)
      (Table.find?_eq_some_iff.mp hrow') hnonce
    exact congrArg Prod.fst heq
  · intro e he clock request offered conversation investigation start hop hout
    obtain ⟨tr₁, tr₂, rfl, hbefore, -, hstep, hafter⟩ := hs.split he
    rw [hop, hout] at hstep
    obtain ⟨_, hperform, heq⟩ := report_eq_ok.mp (transact_ok.mp hstep)
    obtain rfl := Answer.started.inj heq
    obtain ⟨intentHash, row₁, hintent, htask⟩ := startInvestigation_task hperform
    have hpost := hbefore.snoc trivial (machine_step env _ _ ▸ hstep)
    -- the task keeps its nonce and its intent
    obtain ⟨row, htask'⟩ := htask.steps h₀ hpost hafter
    have hsound := steps_sound hs h₀ _ row htask'.stored
    refine ⟨row, htask'.stored, htask'.nonce, ?_⟩
    intro clock' request' offered' conversation' investigation' intent hnonce hintent'
    have hanswer := start_repeated hb hsound htask' clock' offered' conversation' investigation'
      hnonce hintent'
    rw [hanswer, hintent]
    refine ⟨fun hsame => ?_, fun hother => ?_⟩
    · rw [if_pos (Except.ok.inj hsame)]
    · rw [if_neg fun hsame => hother (by rw [hsame])]

/-- The task that a start was answered with. -/
def Sample.startedId : Store × Except Failure Answer → String
  | (_, .ok (.started start)) => start.detail.summary.investigationId
  | _ => ""

/-- The request of a task that a worker has taken is made once more. -/
theorem start_idempotent_again :
    ∃ row, ((machine (Sample.env Sample.intent)).exec Sample.empty Sample.begun).tasks.find?
        Sample.taskId = some row
      ∧ row.record.phase = .preparing
      ∧ ((machine (Sample.env Sample.intent)).exec Sample.empty Sample.begun).step
          (Sample.env Sample.intent) Sample.start
        = ((machine (Sample.env Sample.intent)).exec Sample.empty Sample.begun,
          .ok (.started ⟨row.record.detail, false⟩)) := by
  obtain ⟨-, hrepeated, -⟩ := start_idempotent Sample.empty_initial
    (Machine.steps_exec (M := machine (Sample.env Sample.intent))
      fun _ i (_ : i ∈ Sample.begun) => trivial)
  have hfirst : ∃ post start, Sample.empty.step (Sample.env Sample.intent) Sample.start
      = (post, .ok (.started start)) ∧ start.detail.summary.investigationId = Sample.taskId := by
    have hid : Sample.startedId (Sample.empty.step (Sample.env Sample.intent) Sample.start)
        = Sample.taskId := by decide +kernel
    unfold Sample.startedId at hid
    split at hid
    · next post start hstep => exact ⟨post, start, hstep, hid⟩
    · exact absurd hid (by decide)
  obtain ⟨post, start, hstep, hid⟩ := hfirst
  have hmem : (⟨Sample.empty, Sample.start, .ok (.started start), post⟩ : Event)
      ∈ (machine (Sample.env Sample.intent)).trace Sample.empty Sample.begun := by
    rw [Sample.begun, Machine.trace, machine_step, hstep]
    exact List.mem_cons_self ..
  obtain ⟨row, hrow, -, hanswer⟩ := hrepeated _ hmem Sample.clock Sample.request
    (some (Sample.provider .cloud)) Sample.owner Sample.investigation start rfl rfl
  rw [hid] at hrow
  have hphase : (((machine (Sample.env Sample.intent)).exec Sample.empty Sample.begun).tasks.find?
      Sample.taskId).map (fun row => row.record.phase) = some .preparing := by decide +kernel
  rw [hrow] at hphase
  have hintent : Sample.request.intentHash (Sample.env Sample.intent)
      = .ok Sample.intent.text := by decide
  exact ⟨row, hrow, Option.some_inj.mp hphase,
    (hanswer _ _ _ _ _ Sample.intent.text rfl hintent).1 hintent⟩

end Jobs

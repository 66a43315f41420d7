/-
Reported token totals.

A provider may report what a call used.  The record of a task holds the sum of the
reports, and `None` both before the first call and after a call that did not report.

* `Summed` — a total and the counts it adds up;
* `Tallied` — what one move does to the totals: it adds a response, drops the totals of a
  call without an answer, or leaves them alone;
* `reported_totals` — the totals of every state of every run.
-/
import Cartograph.Jobs.Accounting

namespace Jobs

open Investigation Checked

/-! ### Sums of reports -/

/-- A total and the counts that were reported: it is known when there are counts and none
is missing, and it is then their sum. -/
structure Summed (total : Option UInt64) (counts : List (Option UInt64)) : Prop where
  known : total.isSome ↔ counts ≠ [] ∧ ∀ c ∈ counts, c.isSome
  sum : ∀ n, total = some n → n.toNat = (counts.map fun c => (c.getD 0).toNat).sum

theorem summed_nil : Summed none [] :=
  ⟨by simp, fun _ h => absurd h (by simp)⟩

variable {total : Option UInt64} {d d' : Draft} {env : Env}

theorem Summed.perm {counts counts' : List (Option UInt64)} (h : Summed total counts)
    (hperm : counts'.Perm counts) : Summed total counts' := by
  refine ⟨?_, fun n hn => ?_⟩
  · rw [h.known, ne_eq, ne_eq, ← List.length_eq_zero_iff, ← List.length_eq_zero_iff,
      hperm.length_eq]
    refine and_congr_right fun _ => ?_
    exact ⟨fun h c hc => h c (hperm.mem_iff.mp hc), fun h c hc => h c (hperm.mem_iff.mpr hc)⟩
  · rw [h.sum n hn, (hperm.map _).sum_eq]

theorem Summed.add {previous current : Option UInt64} {first : Bool} {counts : List (Option UInt64)}
    (h : Summed previous counts) (hadd : addReported previous current first = .ok total)
    (hfirst : first = true ↔ counts = []) : Summed total (current :: counts) := by
  cases first with
  | true =>
    obtain rfl := hfirst.mp rfl
    obtain rfl : current = total := by simpa [addReported, pure_eq_ok] using hadd
    refine ⟨by simp, fun n hn => ?_⟩
    simp [hn]
  | false =>
    have hcounts : counts ≠ [] := fun hnil => absurd (hfirst.mpr hnil) (by simp)
    cases previous with
    | none =>
      obtain rfl : none = total := by simpa [addReported, pure_eq_ok] using hadd
      refine ⟨⟨fun h => absurd h (by simp), fun hall => ?_⟩, fun _ h => absurd h (by simp)⟩
      -- a count was missing before, and is still missing
      have hbefore : ∀ c ∈ counts, c.isSome := fun c hc => hall.2 c (List.mem_cons_of_mem _ hc)
      exact absurd (h.known.mpr ⟨hcounts, hbefore⟩) (by simp)
    | some n =>
      have hall := (h.known.mp rfl).2
      cases current with
      | none =>
        obtain rfl : none = total := by simpa [addReported, pure_eq_ok] using hadd
        exact ⟨by simp, fun _ h => absurd h (by simp)⟩
      | some m =>
        simp only [addReported, Bool.false_eq_true, if_false, bind_eq_ok, ensure_eq_ok,
          pure_eq_ok] at hadd
        obtain ⟨⟨⟩, hroom, rfl⟩ := hadd
        refine ⟨⟨fun _ => ⟨by simp, ?_⟩, fun _ => rfl⟩, fun k hk => ?_⟩
        · intro c hc
          rcases List.mem_cons.mp hc with rfl | hc
          · rfl
          · exact hall c hc
        · rw [Option.some_inj] at hk
          have hsum := h.sum n rfl
          rw [← hk, UInt64.toNat_add, Nat.mod_eq_of_lt hroom, List.map_cons, List.sum_cons, ← hsum,
            Option.getD_some]
          omega

/-! ### One move -/

inductive Tallied (d d' : Draft) : Prop
  | answers (response : InvestigationResponseMeta) :
      d.task.phase = .invocation → d'.task.phase ≠ .invocation →
      (d.rows.invocations.find? response.stepId).isSome →
      d.rows.responses.find? response.stepId = none →
      d'.rows.invocations = d.rows.invocations →
      d'.rows.responses = d.rows.responses.put response.stepId response →
      responseUsage d.task.detail.usage response = .ok d'.task.detail.usage → Tallied d d'
  | drops : d.task.phase = .invocation → d'.task.phase ≠ .invocation →
      d'.rows.invocations = d.rows.invocations → d'.rows.responses = d.rows.responses →
      d'.task.detail.usage.reportedInputTokens = none →
      d'.task.detail.usage.reportedOutputTokens = none → Tallied d d'
  | keeps : d'.rows.responses = d.rows.responses →
      (d'.task.phase ≠ .invocation →
        d'.rows.invocations = d.rows.invocations ∧ d.task.phase ≠ .invocation) →
      d'.task.detail.usage.reportedInputTokens = d.task.detail.usage.reportedInputTokens →
      d'.task.detail.usage.reportedOutputTokens = d.task.detail.usage.reportedOutputTokens →
      Tallied d d'

theorem tallied_ended (hinvocations : d'.rows.invocations = d.rows.invocations)
    (hresponses : d'.rows.responses = d.rows.responses) (hphase' : d'.task.phase ≠ .invocation)
    (hinput : d'.task.detail.usage.reportedInputTokens = if d.task.phase = .invocation
      then none else d.task.detail.usage.reportedInputTokens)
    (houtput : d'.task.detail.usage.reportedOutputTokens = if d.task.phase = .invocation
      then none else d.task.detail.usage.reportedOutputTokens) : Tallied d d' := by
  by_cases hphase : d.task.phase = .invocation
  · rw [if_pos hphase] at hinput houtput
    exact .drops hphase hphase' hinvocations hresponses hinput houtput
  · rw [if_neg hphase] at hinput houtput
    exact .keeps hresponses (fun _ => ⟨hinvocations, hphase⟩) hinput houtput

theorem Move.tallied {clock : Clock} {action : Action} (h : Move env clock d action d') :
    Tallied d d' := by
  cases h with
  | attach _ hphase | awaitConsent _ hphase | beginTool _ hphase | chargeEvidence _ hphase =>
    exact .keeps rfl (fun _ => ⟨rfl, by simp [hphase]⟩) rfl rfl
  | inputPrepared _ usage _ hphase _ _ hcont | inputAdmitted _ usage _ hphase _ hcont =>
    obtain ⟨-, -, -, -, -, hinput, houtput, -⟩ := hcont.counters
    exact .keeps rfl (fun _ => ⟨rfl, by simp [hphase]⟩) hinput houtput
  | beginInvocation step _ hinv =>
    exact .keeps rfl (fun hnot => absurd rfl hnot) rfl rfl
  | actionAdmitted response tool usage _ hans | finished response result usage hans =>
    obtain ⟨step, -, hfind, -⟩ := hans.pending
    exact .answers response hans.phase (by simp [Draft.responded, responded])
      (Option.isSome_of_eq_some hfind) hans.fresh rfl rfl hans.reported
  | stopWithElapsed reason activeMilliseconds | decline _ _ _ hdecides | recover =>
    refine tallied_ended rfl rfl (by simp [Draft.stopped, Draft.recovered, ended]) ?_ ?_
    · show (ite _ _ _ : InvestigationUsage).reportedInputTokens = _
      exact apply_ite _ _ _ _
    · show (ite _ _ _ : InvestigationUsage).reportedOutputTokens = _
      exact apply_ite _ _ _ _
  | approve _ _ _ hdecides =>
    exact .keeps rfl (fun _ => ⟨rfl, by simp [hdecides.phase]⟩) rfl rfl
  | cancel hlive =>
    -- a cancellation starts no call
    have hphase : (cancelRequested d.task).phase
        = if d.task.phase = .queued then .terminal else d.task.phase := rfl
    refine .keeps rfl (fun hnot => ⟨rfl, fun hinv => hnot ?_⟩) rfl rfl
    simp [Draft.cancelledBy, hphase, hinv]

/-! ### Records and rows -/

/-- The counts of a field, over the responses. -/
def counts (field : InvestigationResponseMeta → Option UInt64) (rows : Rows) : List (Option UInt64) :=
  rows.responses.rows.map fun r => field r.2

/-- A total in a record.  While a call is pending it is that of the calls before; a lost
call leaves it unknown. -/
structure TotalOf (field : InvestigationResponseMeta → Option UInt64) (total : Option UInt64)
    (phase : Phase) (rows : Rows) : Prop where
  summed : phase = .invocation ∨ rows.responses.rows.length = rows.invocations.rows.length →
    Summed total (counts field rows)
  lost : phase ≠ .invocation → rows.responses.rows.length ≠ rows.invocations.rows.length →
    total = none

/-- The totals of a task, and the calls its responses answer. -/
structure Totalled (t : StoredTask) (rows : Rows) : Prop where
  calls : ∀ r ∈ rows.responses.rows, (rows.invocations.find? r.1).isSome
  input : TotalOf InvestigationResponseMeta.reportedInputTokens t.detail.usage.reportedInputTokens
    t.phase rows
  output : TotalOf InvestigationResponseMeta.reportedOutputTokens t.detail.usage.reportedOutputTokens
    t.phase rows

variable {field : InvestigationResponseMeta → Option UInt64}

theorem TotalOf.keeps {phase phase' : Phase} {rows rows' : Rows}
    (h : TotalOf field total phase rows)
    (hidle : phase ≠ .invocation → rows.responses.rows.length = rows.invocations.rows.length)
    (hresponses : rows'.responses = rows.responses)
    (hphase' : phase' ≠ .invocation → rows'.invocations = rows.invocations ∧ phase ≠ .invocation) :
    TotalOf field total phase' rows' := by
  refine ⟨fun _ => ?_, fun hnot hlost => ?_⟩
  · rw [counts, hresponses]
    refine h.summed ?_
    by_cases hphase : phase = .invocation
    · exact .inl hphase
    · exact .inr (hidle hphase)
  · obtain ⟨hinvocations, hphase⟩ := hphase' hnot
    rw [hresponses, hinvocations] at hlost
    exact absurd (hidle hphase) hlost

/-- **Step lemma.**  A pending call is the only one without a response. -/
theorem Totalled.moved {clock : Clock} {action : Action} (h : Totalled d.task d.rows)
    (hmove : Move env clock d action d')
    (hcount : d.task.detail.usage.modelInvocations = d.rows.invocations.rows.length)
    (hpending : d.task.phase = .invocation →
      d.rows.responses.rows.length + 1 = d.rows.invocations.rows.length)
    (hidle : d.task.phase ≠ .invocation →
      d.rows.responses.rows.length = d.rows.invocations.rows.length) :
    Totalled d'.task d'.rows := by
  have hinvoked : ∀ r ∈ d.rows.responses.rows, (d'.rows.invocations.find? r.1).isSome :=
    fun r hr => hmove.booking.invoked (h.calls r hr)
  cases hmove.tallied with
  | answers response hphase hphase' hcall hfresh hinvocations hresponses hused =>
    have hperm := Table.rows_put_perm response hfresh
    have hlength : d'.rows.responses.rows.length = d'.rows.invocations.rows.length := by
      rw [hresponses, hinvocations, hperm.length_eq, List.length_cons, hpending hphase]
    -- one response is added to those before
    have hcounts : ∀ field, (counts field d'.rows).Perm (field response :: counts field d.rows) := by
      intro field
      rw [counts, hresponses]
      exact hperm.map _
    -- the first response is that of the first call
    have hfirst : ∀ field, (d.task.detail.usage.modelInvocations == 1) = true
        ↔ counts field d.rows = [] := by
      intro field
      have hcalls := hpending hphase
      rw [beq_iff_eq, hcount, counts, List.map_eq_nil_iff, ← List.length_eq_zero_iff]
      omega
    obtain ⟨input, output, hinput, houtput, hused'⟩ := responseUsage_ok hused
    refine ⟨fun r hr => ?_, ⟨fun _ => ?_, fun _ hlost => absurd hlength hlost⟩,
      ⟨fun _ => ?_, fun _ hlost => absurd hlength hlost⟩⟩
    · rw [hresponses] at hr
      rcases List.mem_cons.mp (hperm.mem_iff.mp hr) with rfl | hold
      · rwa [hinvocations]
      · exact hinvoked r hold
    · rw [hused']
      exact ((h.input.summed (.inl hphase)).add hinput (hfirst _)).perm (hcounts _)
    · rw [hused']
      exact ((h.output.summed (.inl hphase)).add houtput (hfirst _)).perm (hcounts _)
  | drops hphase hphase' hinvocations hresponses hinput houtput =>
    -- the call stays without a response, and no total is open any more
    have hlength : d'.rows.responses.rows.length ≠ d'.rows.invocations.rows.length := by
      have hcalls := hpending hphase
      rw [hresponses, hinvocations]
      omega
    have hnot : ¬ (d'.task.phase = .invocation
        ∨ d'.rows.responses.rows.length = d'.rows.invocations.rows.length) := by
      rintro (hinv | hsame)
      · exact hphase' hinv
      · exact hlength hsame
    refine ⟨fun r hr => ?_, ⟨fun hopen => absurd hopen hnot, fun _ _ => hinput⟩,
      ⟨fun hopen => absurd hopen hnot, fun _ _ => houtput⟩⟩
    rw [hresponses] at hr
    exact hinvoked r hr
  | keeps hresponses hphase' hinput houtput =>
    refine ⟨fun r hr => ?_, ?_, ?_⟩
    · rw [hresponses] at hr
      exact hinvoked r hr
    · rw [hinput]
      exact h.input.keeps hidle hresponses hphase'
    · rw [houtput]
      exact h.output.keeps hidle hresponses hphase'

/-! ### Runs -/

theorem steps_totalled {s0 s : Store} {tr : List Event} {id : String}
    (h : (machine env).Steps s0 tr s) (h0 : s0.Initial) :
    ∀ row, s.tasks.find? id = some row → Totalled row.record row.rows := by
  induction h with
  | refl =>
    intro row hrow
    rw [h0.2.2.1] at hrow
    exact absurd hrow (by simp)
  | @snoc tr s1 s2 op out hs _ hst ih =>
    intro row' hrow'
    rcases step_row hst hrow' with hrow |
      ⟨row, action, hrow, hdoes, ⟨clock, jobs, d, _, hmove, -, -, rfl⟩⟩ |
      ⟨-, _, _, _, _, _, _, _, -, -, -, -, -, rfl⟩
    · exact ih row' hrow
    · obtain ⟨hlost, hbalanced⟩ := steps_accounting id hs h0
      have hbooks := hbalanced row hrow
      have hlive : ¬ Lost tr id := by
        intro hbefore
        obtain ⟨row1, hrow1, hphase⟩ := hlost hbefore
        rw [hrow, Option.some_inj] at hrow1
        rw [← hrow1] at hphase
        exact hmove.live hphase
      refine Totalled.moved (d := row.draft jobs) (ih row hrow) hmove
        hbooks.accounted.modelInvocations (fun hphase => hbooks.outstanding (.inl hphase))
        fun hphase => hbooks.settled ?_
      rintro (hinv | hbefore)
      · exact hphase hinv
      · exact hlive hbefore
    · exact ⟨fun r hr => absurd hr (by simp [TaskRow.saved, startDraft, Rows.empty, Table.empty]),
        ⟨fun _ => summed_nil, fun _ _ => rfl⟩, ⟨fun _ => summed_nil, fun _ _ => rfl⟩⟩

/-! ### Totals over all calls -/

/-- The count a call reported, if it has an admitted response with one. -/
def reported (field : InvestigationResponseMeta → Option UInt64) (rows : Rows) (stepId : String) :
    Option UInt64 :=
  (rows.responses.find? stepId).bind field

/-- The total is known when there were calls and each has a response that reported a
count, and it is then the sum of the counts. -/
structure ReportedTotal (field : InvestigationResponseMeta → Option UInt64) (total : Option UInt64)
    (rows : Rows) : Prop where
  known : total.isSome ↔ rows.invocations.rows ≠ []
    ∧ ∀ r ∈ rows.invocations.rows, (reported field rows r.1).isSome
  sum : ∀ n, total = some n →
    n.toNat = (rows.invocations.rows.map fun r => ((reported field rows r.1).getD 0).toNat).sum

/-- A call did not report, or was lost. -/
def Unknown (total : Option UInt64) (row : TaskRow) : Prop :=
  total = none
    ∧ (answered row.rows ∨ row.record.phase ≠ .invocation ∧ row.rows.invocations.rows ≠ [])

theorem counts_eq (rows : Rows) :
    counts field rows = (rows.responses.rows.map Prod.fst).map (reported field rows) := by
  rw [List.map_map, counts]
  refine List.map_congr_left fun r hr => ?_
  have hfind : rows.responses.find? r.1 = some r.2 := Table.find?_eq_some_iff.mpr hr
  rw [Function.comp, reported, hfind, Option.bind_some]

theorem TotalOf.reported {total : Option UInt64} {phase : Phase} {rows : Rows}
    (h : TotalOf field total phase rows)
    (hcalls : ∀ r ∈ rows.responses.rows, (rows.invocations.find? r.1).isSome)
    (hphase : phase ≠ .invocation) : ReportedTotal field total rows := by
  have hsubset : rows.responses.rows.map Prod.fst ⊆ rows.invocations.rows.map Prod.fst := by
    intro stepId hid
    obtain ⟨r, hr, rfl⟩ := List.mem_map.mp hid
    obtain ⟨step, hstep⟩ := Option.isSome_iff_exists.mp (hcalls r hr)
    exact List.mem_map_of_mem (Table.find?_eq_some_iff.mp hstep)
  have hsubperm := List.subperm_of_subset (Table.keys_nodup _) hsubset
  by_cases hlength : rows.responses.rows.length = rows.invocations.rows.length
  · have hperm := hsubperm.perm_of_length_le (by simp [hlength])
    have hsummed : Summed total ((rows.invocations.rows.map Prod.fst).map (Jobs.reported field rows)) := by
      refine (h.summed (.inr hlength)).perm ?_
      rw [counts_eq]
      exact (hperm.map _).symm
    refine ⟨?_, fun n hn => ?_⟩
    · rw [hsummed.known, List.map_map, ne_eq, List.map_eq_nil_iff, List.forall_mem_map]
      rfl
    · rw [hsummed.sum n hn, List.map_map, List.map_map]
      rfl
  · have hnone := h.lost hphase hlength
    refine ⟨⟨fun hsome => ?_, fun ⟨_, hall⟩ => ?_⟩, fun n hn => ?_⟩
    · rw [hnone] at hsome
      exact absurd hsome (by simp)
    · -- a call without a response cannot have reported
      have hback : rows.invocations.rows.map Prod.fst ⊆ rows.responses.rows.map Prod.fst := by
        intro stepId hid
        obtain ⟨r, hr, rfl⟩ := List.mem_map.mp hid
        obtain ⟨n, hn⟩ := Option.isSome_iff_exists.mp (hall r hr)
        obtain ⟨response, hfind, -⟩ := Option.bind_eq_some_iff.mp hn
        exact List.mem_map.mpr ⟨(r.1, response), Table.find?_eq_some_iff.mp hfind, rfl⟩
      have hle := (List.subperm_of_subset (Table.keys_nodup _) hback).length_le
      have hge := hsubperm.length_le
      rw [List.length_map, List.length_map] at hle hge
      exact absurd (Nat.le_antisymm hge hle) hlength
    · rw [hnone] at hn
      exact absurd hn (by simp)

theorem steps_unchanged {s s' : Store} {tr : List Event} {id : String} {row : TaskRow}
    (h : (machine env).Steps s tr s') (hrow : s.tasks.find? id = some row)
    (hterminal : row.record.phase = .terminal) : s'.tasks.find? id = some row :=
  h.invariant (P := fun s => s.tasks.find? id = some row)
    (fun _ _ _ _ hrow _ hst => step_terminal hst hrow hterminal) hrow

/-- **Reported totals**, in every state of every run: outside a pending call, a total is known
exactly when there were calls and each has an admitted response that reported a count,
and it is their sum; and a total that is unknown after a call stays unknown. -/
theorem reported_totals {env : Env} {s₀ s s' : Store} {tr₀ tr : List Event} {id : String}
    {row : TaskRow} (h₀ : s₀.Initial) (hs : (machine env).Steps s₀ tr₀ s)
    (hs' : (machine env).Steps s tr s') (hrow : s.tasks.find? id = some row) :
    (row.record.phase ≠ .invocation →
      ReportedTotal InvestigationResponseMeta.reportedInputTokens
        row.record.detail.usage.reportedInputTokens row.rows
      ∧ ReportedTotal InvestigationResponseMeta.reportedOutputTokens
        row.record.detail.usage.reportedOutputTokens row.rows)
    ∧ ∃ row', s'.tasks.find? id = some row'
      ∧ (Unknown row.record.detail.usage.reportedInputTokens row →
        row'.record.detail.usage.reportedInputTokens = none)
      ∧ (Unknown row.record.detail.usage.reportedOutputTokens row →
        row'.record.detail.usage.reportedOutputTokens = none) := by
  have htotals := steps_totalled hs h₀ row hrow
  refine ⟨fun hphase => ⟨htotals.input.reported htotals.calls hphase,
    htotals.output.reported htotals.calls hphase⟩, ?_⟩
  by_cases hanswered : answered row.rows
  · obtain ⟨row', hrow', hlater⟩ := steps_later h₀ hs hs' hrow
    exact ⟨row', hrow', fun hunknown => hlater.totals.input.unknown hanswered hunknown.1,
      fun hunknown => hlater.totals.output.unknown hanswered hunknown.1⟩
  · -- a call without any response, and none pending: the task ended with it
    have hrest : ∀ total, Unknown total row → row.record.phase = .terminal := by
      rintro total ⟨-, ha | ⟨hphase, hcalls⟩⟩
      · exact absurd ha hanswered
      obtain ⟨hlost, hbalanced⟩ := steps_accounting id hs h₀
      have hopen : Outstanding tr₀ id row := by
        by_contra hnot
        have hlength := (hbalanced row hrow).settled hnot
        rw [not_not.mp hanswered, List.length_nil] at hlength
        exact hcalls (List.length_eq_zero_iff.mp hlength.symm)
      -- no call is pending, so one was lost
      rcases hopen with hinv | hbefore
      · exact absurd hinv hphase
      · obtain ⟨row₁, hrow₁, hterminal⟩ := hlost hbefore
        rw [hrow, Option.some_inj] at hrow₁
        rwa [hrow₁]
    obtain ⟨row', hrow', -⟩ := steps_later h₀ hs hs' hrow
    refine ⟨row', hrow', fun hunknown => ?_, fun hunknown => ?_⟩
    · have hsame := steps_unchanged hs' hrow (hrest _ hunknown)
      rw [hrow', Option.some_inj] at hsame
      rw [hsame]
      exact hunknown.1
    · have hsame := steps_unchanged hs' hrow (hrest _ hunknown)
      rw [hrow', Option.some_inj] at hsame
      rw [hsame]
      exact hunknown.1

/-- The first call is answered, with counts. -/
theorem reported_totals_answered :
    ∃ row, ((machine Sample.secondEnv).exec Sample.empty Sample.firstAnswer).tasks.find?
        Sample.taskId = some row
      ∧ row.record.phase ≠ .invocation
      ∧ ReportedTotal InvestigationResponseMeta.reportedInputTokens (some 5) row.rows := by
  obtain ⟨row, hrow, hfields⟩ := Option.map_eq_some_iff.mp Sample.answers.1.1
  obtain ⟨hphase, htotal⟩ := Prod.mk.inj hfields
  have hidle : row.record.phase ≠ .invocation := by simp [hphase]
  obtain ⟨htotals, -⟩ := reported_totals Sample.empty_initial
    (Machine.steps_exec (M := machine Sample.secondEnv) fun _ _ _ => trivial) .refl hrow
  exact ⟨row, hrow, hidle, htotal ▸ (htotals hidle).1⟩

/-- Before the first call every call has reported, and the total is not known. -/
theorem reported_totals_none :
    ¬ ∀ (env : Env) (s₀ s : Store) (tr : List Event) (id : String) (row : TaskRow),
      s₀.Initial → (machine env).Steps s₀ tr s → s.tasks.find? id = some row →
      row.record.phase ≠ .invocation →
      (row.record.detail.usage.reportedInputTokens.isSome ↔ ∀ r ∈ row.rows.invocations.rows,
        (reported InvestigationResponseMeta.reportedInputTokens row.rows r.1).isSome) := by
  intro h
  obtain ⟨row, hrow, hfields⟩ := Option.map_eq_some_iff.mp Sample.begun_row.1
  obtain ⟨hphase, hfields⟩ := Prod.mk.inj hfields
  obtain ⟨-, hfields⟩ := Prod.mk.inj hfields
  obtain ⟨htotal, hcalls⟩ := Prod.mk.inj hfields
  have hiff := h _ _ _ _ _ row Sample.empty_initial
    (Machine.steps_exec (M := machine (Sample.env Sample.intent)) fun _ _ _ => trivial) hrow
    (by simp [hphase])
  rw [htotal, hcalls] at hiff
  exact absurd (hiff.mpr fun r hr => absurd hr (by simp)) (by simp)

end Jobs

/-
The input ledgers of a task.

A task admits one ledger when its input is prepared and one after each tool.  Every
later ledger extends the earlier ones, and the index of receipt references records the
revision each reference came with.

* `Move.input` — a move leaves the input alone, or admits a ledger;
* `mem_index` — the index has every reference at the revision that introduced it;
* `steps_indexed` — what the rows of a task say about its input, along a run;
* `steps_ledgers` — the stored ledgers are the ledgers the run admitted, in order.
-/
import Cartograph.Jobs.Loading

namespace Jobs

open Investigation Checked

/-! ### What a move does to the input -/

/-- The input of a task, as its record and its rows have it. -/
structure Input where
  ledgerRevision : Option ℕ
  ledgerHash : Option String
  graphSnapshotId : Option String
  scopeSnapshotId : Option String
  citations : List InvestigationCitation
  inputs : Table ℕ InvestigationInputLedger
  refs : List (InvestigationReceiptReference × ℕ)

def Draft.input (d : Draft) : Input where
  ledgerRevision := d.task.ledgerRevision
  ledgerHash := d.task.ledgerHash
  graphSnapshotId := d.task.detail.summary.graphSnapshotId
  scopeSnapshotId := d.task.detail.scopeSnapshotId
  citations := d.task.detail.citations
  inputs := d.rows.inputs
  refs := d.rows.refs

@[simp] theorem input_recorded (d : Draft) (now : Timestamp) (kind : InvestigationEventKind)
    (step : Option String) (tool : Option InvestigationTool) (summary : String) :
    (d.recorded now kind step tool summary).input = d.input := rfl

@[simp] theorem input_noted (d : Draft) (clock : Clock) (kind : InvestigationEventKind)
    (step : Option String) (tool : Option InvestigationTool) (summary : String) :
    (d.noted clock kind step tool summary).input = d.input := rfl

@[simp] theorem input_syncTerminalJob (d : Draft) : (syncTerminalJob d).input = d.input := rfl

/-- The input with one more ledger. -/
def Input.take (i : Input) (ledger : InvestigationInputLedger) (fingerprint : String) : Input where
  ledgerRevision := some ledger.revision
  ledgerHash := some fingerprint
  graphSnapshotId := some ledger.graphSnapshotId
  scopeSnapshotId := some ledger.scopeSnapshotId
  citations := ledger.citations
  inputs := i.inputs.put ledger.revision ledger
  refs := addRefs ledger.revision i.refs ledger.receiptReferences

/-- The number of ledgers a task may have by now: one at first, and one for each tool that
has ended. -/
def allowance (t : StoredTask) : ℕ :=
  match t.phase with
  | .queued | .preparing => 0
  | .tool => t.detail.usage.toolActions
  | _ => t.detail.usage.toolActions + 1

/-- The ledger an action brings. -/
def Action.ledger? : Action → Option InvestigationInputLedger
  | .advance (.inputPrepared ledger _) => some ledger
  | .advance (.inputAdmitted ledger _) => some ledger
  | _ => none

variable {status : InvestigationStatus}

theorem allowance_ended {t : StoredTask} {cancelled : Bool} {error : String} :
    allowance t ≤ allowance (ended t status cancelled error):= by
  have htools : (ended t status cancelled error).detail.usage.toolActions
      = t.detail.usage.toolActions := by
    simp only [ended]
    split_ifs <;> rfl
  have hended : allowance (ended t status cancelled error) = t.detail.usage.toolActions + 1 := by
    show (ended t status cancelled error).detail.usage.toolActions + 1 = _
    rw [htools]
  rw [hended, allowance]
  split <;> omega

/-- A move of a task that brings no ledger. -/
structure Keeps (d d' : Draft) : Prop where
  input : d'.input = d.input
  allowance : allowance d.task ≤ allowance d'.task

variable {d : Draft} {env : Env} {usage : InvestigationUsage} {r : InvestigationReceiptReference}
  {ledger : InvestigationInputLedger} {fingerprint id : String} {action : Action} {s s₀ : Store}
  {tr : List Event}

theorem keeps_of_phase {d' : Draft} (hinput : d'.input = d.input)
    (htools : d'.task.detail.usage.toolActions = d.task.detail.usage.toolActions)
    (hqueued : d'.task.phase ≠ .queued) (hpreparing : d'.task.phase ≠ .preparing)
    (htool : d'.task.phase ≠ .tool) : Keeps d d' := by
  refine ⟨hinput, ?_⟩
  have hnew : allowance d'.task = d'.task.detail.usage.toolActions + 1 := by
    rw [allowance]
    split <;> simp_all
  have hold : allowance d.task ≤ d.task.detail.usage.toolActions + 1 := by
    rw [allowance]
    split <;> omega
  omega

theorem keeps_responded {response : InvestigationResponseMeta} (h : Answers env d response usage)
    (clock : Clock) (tool : Option InvestigationTool) (result : Option InvestigationResult) :
    Keeps d (d.responded clock response usage tool result) := by
  have htools : usage.toolActions = d.task.detail.usage.toolActions := by
    obtain ⟨_, _, -, -, rfl⟩ := responseUsage_ok h.reported
    rfl
  have hphase : (d.responded clock response usage tool result).task.phase
      = if result.isSome then .terminal else .action := rfl
  refine keeps_of_phase ?_ htools ?_ ?_ ?_
  · rw [Draft.responded, input_recorded, input_noted]
    rfl
  all_goals
    rw [hphase]
    split_ifs <;> simp

@[simp] theorem allowance_noted (d : Draft) (clock : Clock) (kind : InvestigationEventKind)
    (step : Option String) (tool : Option InvestigationTool) (summary : String) :
    allowance (d.noted clock kind step tool summary).task = allowance d.task := rfl

theorem keeps_ended {t : StoredTask} {cancelled : Bool} {error summary : String}
    {kind : InvestigationEventKind} {clock : Clock}
    (hinput : Draft.input { d with task := t } = d.input)
    (hallowance : allowance d.task = allowance t) :
    Keeps d (syncTerminalJob (Draft.noted { d with task := ended t status cancelled error } clock kind
      none none summary)) := by
  refine ⟨?_, ?_⟩
  · rw [input_syncTerminalJob, input_noted, ← hinput]
    rfl
  · rw [task_syncTerminalJob, allowance_noted, hallowance]
    exact allowance_ended

theorem Move.input {env : Env} {clock : Clock} {d d' : Draft} {action : Action}
    (h : Move env clock d action d') :
    action.ledger? = none ∧ Keeps d d'
      ∨ ∃ ledger usage fingerprint, action.ledger? = some ledger
        ∧ Continues env d ledger usage fingerprint ∧ d'.input = d.input.take ledger fingerprint
        ∧ allowance d.task + 1 ≤ allowance d'.task := by
  cases h with
  | attach identity hphase =>
    refine .inl ⟨rfl, rfl, ?_⟩
    rw [allowance, hphase]
    exact Nat.zero_le _
  | inputPrepared ledger usage fingerprint hphase hnone _ hcontinues =>
    refine .inr ⟨ledger, usage, fingerprint, rfl, hcontinues, rfl, ?_⟩
    rw [allowance, hphase]
    show 0 + 1 ≤ usage.toolActions + 1
    omega
  | inputAdmitted ledger usage fingerprint hphase _ hcontinues =>
    refine .inr ⟨ledger, usage, fingerprint, rfl, hcontinues, rfl, ?_⟩
    have htools := hcontinues.counters.2.1
    rw [allowance, hphase]
    show d.task.detail.usage.toolActions + 1 ≤ usage.toolActions + 1
    rw [htools]
  | awaitConsent | beginInvocation => exact .inl ⟨rfl, keeps_of_phase rfl rfl nofun nofun nofun⟩
  | actionAdmitted response tool usage _ hanswers =>
    exact .inl ⟨rfl, keeps_responded hanswers clock (some tool) none⟩
  | finished response result usage hanswers =>
    have hkeeps := keeps_responded hanswers clock none (some result)
    exact .inl ⟨rfl, (input_syncTerminalJob _).trans hkeeps.input, hkeeps.allowance⟩
  | beginTool tool hphase =>
    refine .inl ⟨rfl, rfl, ?_⟩
    rw [allowance, hphase]
    exact le_rfl
  | chargeEvidence validationBytes hphase =>
    refine .inl ⟨rfl, rfl, ?_⟩
    rw [allowance, hphase]
    show _ ≤ allowance (charged d.task validationBytes)
    rw [allowance, charged, hphase]
  | stopWithElapsed reason ms =>
    exact .inl ⟨rfl, keeps_ended (d := d) (t := elapsed d.task ms) rfl rfl⟩
  | approve =>
    refine .inl ⟨rfl, ?_, ?_⟩
    · rw [input_noted]
      rfl
    · rw [allowance_noted]
      exact le_rfl
  | decline => exact .inl ⟨rfl, keeps_ended (d := d) (t := declining d.task) rfl rfl⟩
  | cancel hlive =>
    refine .inl ⟨rfl, rfl, ?_⟩
    show _ ≤ allowance (cancelRequested d.task)
    by_cases hphase : d.task.phase = .queued
    · rw [allowance, hphase]
      exact Nat.zero_le _
    · -- a queued task ends here, and has taken no input; any other keeps its phase
      have hsame : (cancelRequested d.task).phase = d.task.phase := if_neg hphase
      rw [allowance, allowance, hsame]
      exact le_rfl
  | recover => exact .inl ⟨rfl, keeps_ended (d := d) (t := d.task) rfl rfl⟩

/-! ### The index of references -/

/-- What the index has after these ledgers. -/
def index (ledgers : List InvestigationInputLedger) : List (InvestigationReceiptReference × ℕ) :=
  ledgers.foldl (fun refs l => addRefs l.revision refs l.receiptReferences) []

theorem index_append (ledgers : List InvestigationInputLedger) (l : InvestigationInputLedger) :
    index (ledgers ++ [l]) = addRefs l.revision (index ledgers) l.receiptReferences := by
  rw [index, List.foldl_append]
  rfl

variable {references : List InvestigationReceiptReference}

theorem mem_addRefs {revision n : ℕ} :
    ∀ {refs : List (InvestigationReceiptReference × ℕ)},
    (r, n) ∈ addRefs revision refs references ↔
      (r, n) ∈ refs ∨ n = revision ∧ r ∈ references ∧ r ∉ refs.map Prod.fst := by
  induction references with
  | nil =>
    intro refs
    simp [addRefs]
  | cons r' rest ih =>
    intro refs
    rw [addRefs, ih]
    by_cases hold : r' ∈ refs.map Prod.fst
    · rw [if_pos hold]
      constructor
      · rintro (h | ⟨rfl, hmem, hnew⟩)
        · exact .inl h
        · exact .inr ⟨rfl, List.mem_cons_of_mem _ hmem, hnew⟩
      · rintro (h | ⟨rfl, hmem, hnew⟩)
        · exact .inl h
        · rcases List.mem_cons.mp hmem with rfl | hmem
          · exact absurd hold hnew
          · exact .inr ⟨rfl, hmem, hnew⟩
    · rw [if_neg hold, List.map_append, List.mem_append, List.mem_append]
      rw [List.mem_singleton, Prod.mk.injEq, List.map_singleton, List.mem_singleton, not_or,
        List.mem_cons]
      constructor
      · rintro ((h | ⟨rfl, rfl⟩) | ⟨rfl, hmem, hnew, hne⟩)
        · exact .inl h
        · exact .inr ⟨rfl, .inl rfl, hold⟩
        · exact .inr ⟨rfl, .inr hmem, hnew⟩
      · rintro (h | ⟨rfl, rfl | hmem, hnew⟩)
        · exact .inl (.inl h)
        · exact .inl (.inr ⟨rfl, rfl⟩)
        · by_cases hsame : r = r'
          · exact .inl (.inr ⟨hsame, rfl⟩)
          · exact .inr ⟨rfl, hmem, hnew, hsame⟩

theorem addRefs_nodup {revision : ℕ} :
    ∀ {refs : List (InvestigationReceiptReference × ℕ)}, (refs.map Prod.fst).Nodup →
    ((addRefs revision refs references).map Prod.fst).Nodup := by
  induction references with
  | nil =>
    intro refs h
    exact h
  | cons r rest ih =>
    intro refs h
    rw [addRefs]
    refine ih ?_
    split_ifs with hold
    · exact h
    · rw [List.map_append, List.nodup_append]
      refine ⟨h, by simp, ?_⟩
      simp only [List.map_cons, List.map_nil, List.mem_singleton]
      rintro r' hr' _ rfl rfl
      exact hold hr'

theorem index_nodup (ledgers : List InvestigationInputLedger) :
    ((index ledgers).map Prod.fst).Nodup := by
  induction ledgers using List.reverseRecOn with
  | nil => exact List.nodup_nil
  | append_singleton ledgers l ih =>
    rw [index_append]
    exact addRefs_nodup ih

theorem mem_index_keys {ledgers : List InvestigationInputLedger} :
    r ∈ (index ledgers).map Prod.fst ↔ ∃ l ∈ ledgers, r ∈ l.receiptReferences := by
  induction ledgers using List.reverseRecOn with
  | nil => simp [index]
  | append_singleton ledgers l ih =>
    constructor
    · intro h
      obtain ⟨⟨r', n⟩, hmem, rfl⟩ := List.mem_map.mp h
      rw [index_append, mem_addRefs] at hmem
      rcases hmem with hmem | ⟨-, hmem, -⟩
      · obtain ⟨l', hl', hr⟩ := ih.mp (List.mem_map.mpr ⟨_, hmem, rfl⟩)
        exact ⟨l', List.mem_append_left _ hl', hr⟩
      · exact ⟨l, by simp, hmem⟩
    · rintro ⟨l', hl', hr⟩
      by_cases hold : r ∈ (index ledgers).map Prod.fst
      · obtain ⟨⟨r', n⟩, hmem, rfl⟩ := List.mem_map.mp hold
        refine List.mem_map.mpr ⟨(r', n), ?_, rfl⟩
        rw [index_append, mem_addRefs]
        exact .inl hmem
      · refine List.mem_map.mpr ⟨(r, l.revision), ?_, rfl⟩
        rw [index_append, mem_addRefs]
        refine .inr ⟨rfl, ?_, hold⟩
        rcases List.mem_append.mp hl' with hl' | hl'
        · exact absurd (ih.mpr ⟨l', hl', hr⟩) hold
        · rwa [List.mem_singleton.mp hl'] at hr

theorem mem_index {ledgers : List InvestigationInputLedger} {n : ℕ}
    (h : ledgers.Pairwise ledgerExtends) :
    (r, n) ∈ index ledgers ↔ ∃ l ∈ ledgers, l.revision = n ∧ r ∈ l.receiptReferences
      ∧ ∀ l' ∈ ledgers, r ∈ l'.receiptReferences → n ≤ l'.revision := by
  induction ledgers using List.reverseRecOn with
  | nil => simp [index]
  | append_singleton ledgers l ih =>
    obtain ⟨hledgers, -, hl⟩ := List.pairwise_append.mp h
    have hafter : ∀ l' ∈ ledgers, l'.revision < l.revision := fun l' hl' =>
      (hl l' hl' l (List.mem_singleton_self l)).1
    rw [index_append, mem_addRefs, ih hledgers, mem_index_keys]
    constructor
    · rintro (⟨l', hl', rfl, hr, hfirst⟩ | ⟨rfl, hr, hnew⟩)
      · refine ⟨l', List.mem_append_left _ hl', rfl, hr, ?_⟩
        intro l'' hl'' hr''
        rcases List.mem_append.mp hl'' with hl'' | hl''
        · exact hfirst l'' hl'' hr''
        · rw [List.mem_singleton.mp hl'']
          exact (hafter l' hl').le
      · refine ⟨l, by simp, rfl, hr, ?_⟩
        intro l'' hl'' hr''
        rcases List.mem_append.mp hl'' with hl'' | hl''
        · exact absurd ⟨l'', hl'', hr''⟩ hnew
        · rw [List.mem_singleton.mp hl'']
    · rintro ⟨l', hl', rfl, hr, hfirst⟩
      rcases List.mem_append.mp hl' with hl' | hl'
      · exact .inl ⟨l', hl', rfl, hr, fun l'' hl'' => hfirst l'' (List.mem_append_left _ hl'')⟩
      · obtain rfl := List.mem_singleton.mp hl'
        refine .inr ⟨rfl, hr, ?_⟩
        rintro ⟨l'', hl'', hr''⟩
        exact absurd (hfirst l'' (List.mem_append_left _ hl'') hr'') (not_le_of_gt (hafter l'' hl''))

/-! ### The stored input -/

theorem ledgerExtends_trans {a b c : InvestigationInputLedger} (h : ledgerExtends a b)
    (h' : ledgerExtends b c) : ledgerExtends a c := by
  obtain ⟨h1, h2, h3, h4, h5, h6, h7, h8, h9⟩ := h
  obtain ⟨h1', h2', h3', h4', h5', h6', h7', h8', h9'⟩ := h'
  refine ⟨h1.trans h1', h2'.trans h2, h3'.trans h3, h4'.trans h4, h5'.trans h5,
    fun f hf => h6' f (h6 f hf), fun c hc => h7' c (h7 c hc), ?_, fun r hr => h9' r (h9 r hr)⟩
  rw [List.isPrefixOf_iff_prefix] at h8 h8' ⊢
  exact h8.trans h8'

def Input.ledgers (i : Input) : List InvestigationInputLedger := i.inputs.rows.map Prod.snd

/-- The stored ledgers extend each other, the last one is the current one, and the index is
theirs. -/
structure Indexed (env : Env) (i : Input) : Prop where
  refs : i.refs = index i.ledgers
  stored : ∀ r ∈ i.inputs.rows, r.2.revision = r.1 ∧ r.2.validate = .ok () ∧ r.1 ≤ MAX_ROWID
    ∧ i.graphSnapshotId = some r.2.graphSnapshotId ∧ i.scopeSnapshotId = some r.2.scopeSnapshotId
  chain : i.ledgers.Pairwise ledgerExtends
  last : i.ledgerRevision = i.inputs.rows.getLast?.map Prod.fst
  current : ∀ r ∈ i.inputs.rows.getLast?, ∃ fingerprint, r.2.fingerprint env = .ok fingerprint
    ∧ i.ledgerHash = some fingerprint ∧ i.citations = r.2.citations

theorem Indexed.loadLedger {env : Env} {d : Draft} (h : Indexed env d.input) :
    loadLedger env d = .ok (d.input.inputs.rows.getLast?.map Prod.snd) := by
  have hlast : d.task.ledgerRevision = d.input.inputs.rows.getLast?.map Prod.fst := h.last
  cases hrow : d.input.inputs.rows.getLast? with
  | none =>
    rw [hrow] at hlast
    rw [Jobs.loadLedger, hlast]
    rfl
  | some r =>
    rw [hrow] at hlast
    have hmem : r ∈ d.input.inputs.rows := List.mem_of_getLast? hrow
    obtain ⟨hrevision, hvalid, hbound, hgraph, hscope⟩ := h.stored r hmem
    obtain ⟨fingerprint, hprint, hhash, hcitations⟩ := h.current r hrow
    have hfind : d.rows.inputs.find? r.1 = some r.2 := Table.find?_eq_some_iff.mpr hmem
    simp only [Jobs.loadLedger, hlast, Option.map_some, bind_eq_ok, signed, readBody, ensure_eq_ok,
      pure_eq_ok, orFail_eq_ok, admitted_eq_ok, hfind]
    refine ⟨(), hbound, some r.2, ⟨(), ?_, rfl⟩, r.2, rfl, (), hvalid, fingerprint, hprint, (),
      ⟨hhash, hrevision, hgraph, hscope, hcitations.symm⟩, rfl⟩
    simpa using decodable_ledger hvalid

theorem Indexed.of_last {i : Input} (h : Indexed env i) {r : ℕ × InvestigationInputLedger}
    (hlast : i.inputs.rows.getLast? = some r) {l : InvestigationInputLedger} (hl : l ∈ i.ledgers) :
    l = r.2 ∨ ledgerExtends l r.2 := by
  obtain ⟨front, hfront⟩ := List.getLast?_eq_some_iff.mp hlast
  have hledgers : i.ledgers = front.map Prod.snd ++ [r.2] := by
    rw [Input.ledgers, hfront, List.map_append]
    rfl
  have hchain := h.chain
  rw [hledgers] at hl hchain
  rcases List.mem_append.mp hl with hl | hl
  · exact .inr ((List.pairwise_append.mp hchain).2.2 l hl r.2 (List.mem_singleton_self _))
  · exact .inl (List.mem_singleton.mp hl)

theorem Indexed.extends (h : Indexed env d.input) (hc : Continues env d ledger usage fingerprint) :
    ∀ l ∈ d.input.ledgers, ledgerExtends l ledger := by
  intro l hl
  obtain ⟨previous, hload, hextends⟩ := hc.extending
  rw [h.loadLedger, Except.ok.injEq] at hload
  cases hlast : d.input.inputs.rows.getLast? with
  | none =>
    rw [List.getLast?_eq_none_iff] at hlast
    rw [Input.ledgers, hlast] at hl
    exact absurd hl (by simp)
  | some r =>
    rw [hlast] at hload
    have hr : ledgerExtends r.2 ledger := hextends r.2 (by rw [← hload]; rfl)
    rcases h.of_last hlast hl with rfl | hbefore
    · exact hr
    · exact ledgerExtends_trans hbefore hr

theorem Indexed.rows_take (h : Indexed env d.input) (hc : Continues env d ledger usage fingerprint)
    :
    (d.input.take ledger fingerprint).inputs.rows = d.input.inputs.rows ++ [(ledger.revision, ledger)] := by
  refine Table.rows_put_of_lt ledger ?_
  intro r hr
  have hextends := h.extends hc r.2 (List.mem_map.mpr ⟨r, hr, rfl⟩)
  rw [← (h.stored r hr).1]
  exact hextends.1

theorem Indexed.take (h : Indexed env d.input) (hc : Continues env d ledger usage fingerprint) :
    Indexed env (d.input.take ledger fingerprint) := by
  have hrows := h.rows_take hc
  have hextends := h.extends hc
  have hledgers : (d.input.take ledger fingerprint).ledgers = d.input.ledgers ++ [ledger] := by
    rw [Input.ledgers, hrows, List.map_append]
    rfl
  refine ⟨?_, ?_, ?_, ?_, ?_⟩
  · rw [hledgers, index_append, ← h.refs]
    rfl
  · intro r hr
    rw [hrows] at hr
    rcases List.mem_append.mp hr with hr | hr
    · obtain ⟨hrevision, hvalid, hbound, -, -⟩ := h.stored r hr
      obtain ⟨-, hgraph, hscope, -⟩ := hextends r.2 (List.mem_map.mpr ⟨r, hr, rfl⟩)
      exact ⟨hrevision, hvalid, hbound, congrArg some hgraph, congrArg some hscope⟩
    · obtain rfl := List.mem_singleton.mp hr
      exact ⟨rfl, hc.valid, hc.revision, rfl, rfl⟩
  · rw [hledgers, List.pairwise_append]
    refine ⟨h.chain, List.pairwise_singleton _ _, ?_⟩
    intro l hl l' hl'
    rw [List.mem_singleton.mp hl']
    exact hextends l hl
  · rw [hrows, List.getLast?_append]
    rfl
  · intro r hr
    rw [hrows, List.getLast?_append] at hr
    obtain rfl : (ledger.revision, ledger) = r := by simpa using hr
    exact ⟨fingerprint, hc.fingerprint, rfl, rfl⟩

/-! ### Along a run -/

def TaskRow.input (row : TaskRow) : Input := Draft.input ⟨row.record, row.rows, .empty⟩

theorem Indexed.moved {row row' : TaskRow} (h : Indexed env row.input)
    (hcount : row.input.inputs.rows.length ≤ allowance row.record)
    (hmoves : RowMoves env row action row') :
    Indexed env row'.input ∧ row'.input.inputs.rows.length ≤ allowance row'.record
      ∧ row'.input.ledgers = row.input.ledgers ++ action.ledger?.toList := by
  obtain ⟨clock, jobs, d, _, hmove, -, -, rfl⟩ := hmoves
  have hbefore : Indexed env (row.draft jobs).input := h
  have hrow : (row.saved d).input = d.input := rfl
  rw [hrow]
  rcases hmove.input with ⟨hnone, hinput, hallowance⟩ |
    ⟨ledger, usage, fingerprint, hledger, hcontinues, hinput, hallowance⟩
  · rw [hinput, hnone, Option.toList_none, List.append_nil]
    exact ⟨h, hcount.trans hallowance, rfl⟩
  · have hrows := hbefore.rows_take hcontinues
    rw [hinput, hledger, hrows, List.length_append]
    refine ⟨hbefore.take hcontinues, (Nat.succ_le_succ hcount).trans hallowance, ?_⟩
    rw [Input.ledgers, hrows, List.map_append]
    rfl

theorem Indexed.started {op : Op} {row : TaskRow} (h : RowStarts env s op id row) :
    Indexed env row.input ∧ row.input.inputs.rows.length ≤ allowance row.record
      ∧ row.input.ledgers = [] := by
  obtain ⟨clock, request, offered, conversation, investigation, provider, intentHash, -, -, -, -, -,
    rfl⟩ := h
  exact ⟨⟨rfl, nofun, List.Pairwise.nil, rfl, nofun⟩, le_rfl, rfl⟩

theorem steps_indexed (h : (machine env).Steps s₀ tr s) (h0 : s₀.Initial) :
    ∀ id row, s.tasks.find? id = some row →
      Indexed env row.input ∧ row.input.inputs.rows.length ≤ allowance row.record := by
  induction h with
  | refl =>
    intro id row hrow
    rw [h0.2.2.1] at hrow
    exact absurd hrow (by simp)
  | snoc _ _ hst ih =>
    intro id row' hrow'
    rcases step_row hst hrow' with hrow | ⟨row, action, hrow, -, hmoves⟩ | ⟨-, hstarts⟩
    · exact ih id row' hrow
    · obtain ⟨hindexed, hcount⟩ := ih id row hrow
      obtain ⟨hindexed', hcount', -⟩ := hindexed.moved hcount hmoves
      exact ⟨hindexed', hcount'⟩
    · obtain ⟨hindexed, hcount, -⟩ := Indexed.started hstarts
      exact ⟨hindexed, hcount⟩

/-- The ledger an event admits for task `id`. -/
def brings (id : String) (e : Event) : Option InvestigationInputLedger :=
  match e.out, e.pre.acts e.op with
  | .ok _, some (id', action) => if id' = id then action.ledger? else none
  | _, _ => none

/-- The ledgers a run has admitted for task `id`, in order. -/
def ledgersOf (tr : List Event) (id : String) : List InvestigationInputLedger :=
  tr.filterMap (brings id)

theorem brings_of_does {e : Event} (h : Does e id action) :
    brings id e = action.ledger? := by
  obtain ⟨hacts, a, hout⟩ := h
  rw [brings, hout, hacts]
  exact if_pos rfl

theorem does_of_brings {e : Event} (h : brings id e = some ledger) :
    ∃ action, Does e id action ∧ action.ledger? = some ledger := by
  unfold brings at h
  split at h
  · next a id' action hout hacts =>
    split_ifs at h with hid
    subst hid
    exact ⟨action, ⟨hacts, a, hout⟩, h⟩
  · exact absurd h (by simp)

theorem always_of_ledger? (h : action.ledger? = some ledger) : action.always = true := by
  cases action with
  | cancel | recover => simp [Action.ledger?] at h
  | attach | advance | approve | decline => rfl

theorem ledgersOf_append (tr : List Event) (e : Event) (id : String) :
    ledgersOf (tr ++ [e]) id = ledgersOf tr id ++ (brings id e).toList := by
  rw [ledgersOf, List.filterMap_append]
  cases h : brings id e with
  | none | some l => simp [ledgersOf, h]

theorem steps_ledgers (h : (machine env).Steps s₀ tr s) (h0 : s₀.Initial) (id : String) :
    (∀ row, s.tasks.find? id = some row → row.input.ledgers = ledgersOf tr id)
      ∧ (s.tasks.find? id = none → ledgersOf tr id = []) := by
  induction h with
  | refl =>
    refine ⟨fun row hrow => ?_, fun _ => rfl⟩
    rw [h0.2.2.1] at hrow
    exact absurd hrow (by simp)
  | @snoc tr s₁ s₂ op out hs _ hst ih =>
    rw [ledgersOf_append]
    cases hbrings : brings id ⟨s₁, op, out, s₂⟩ with
    | some ledger =>
      obtain ⟨action, hdoes, hledger⟩ := does_of_brings hbrings
      obtain ⟨row, row', hrow, hmoves, hrow'⟩ :=
        does_moves hst hdoes (always_of_ledger? hledger)
      obtain ⟨hindexed, hcount⟩ := steps_indexed hs h0 id row hrow
      obtain ⟨-, -, hledgers⟩ := hindexed.moved hcount hmoves
      rw [hledger, ih.1 row hrow] at hledgers
      rw [hrow']
      refine ⟨fun row'' heq => ?_, nofun⟩
      rw [← Option.some_inj.mp heq, hledgers]
    | none =>
      rw [Option.toList_none, List.append_nil]
      refine ⟨fun row' hrow' => ?_, fun hnone => ?_⟩
      · rcases step_row hst hrow' with hrow | ⟨row, action, hrow, hdoes, hmoves⟩ | ⟨hfresh, hstarts⟩
        · exact ih.1 row' hrow
        · obtain ⟨hindexed, hcount⟩ := steps_indexed hs h0 id row hrow
          obtain ⟨-, -, hledgers⟩ := hindexed.moved hcount hmoves
          rw [← brings_of_does hdoes, hbrings, Option.toList_none, List.append_nil] at hledgers
          rw [hledgers, ih.1 row hrow]
        · obtain ⟨-, -, hempty⟩ := Indexed.started hstarts
          rw [hempty, ih.2 hfresh]
      · refine ih.2 ?_
        cases hrow : s₁.tasks.find? id with
        | none => rfl
        | some row =>
          rcases step_task hst hrow with hsame | ⟨_, _, -, -, hsome⟩
          · exact absurd hnone (by simp [hsame])
          · exact absurd hnone (by simp [hsome])

theorem steps_chain (h : (machine env).Steps s₀ tr s) (h0 : s₀.Initial) (id : String) :
    (ledgersOf tr id).Pairwise ledgerExtends := by
  obtain ⟨hsome, hnone⟩ := steps_ledgers h h0 id
  cases hrow : s.tasks.find? id with
  | none =>
    rw [hnone hrow]
    exact List.Pairwise.nil
  | some row =>
    rw [← hsome row hrow]
    exact (steps_indexed h h0 id row hrow).1.chain

end Jobs

/-
What the locks of an operation protect.

`Move` says once what a step can do.  The invariant has two parts: `Exclusive`, that nobody else
holds a source that is held for replacement, and `Sound`, what an operation knows about the
sources it holds at each stage.

* `setReady_ready` — which sources a batch leaves ready;
* `call_ready` — no other call changes what is ready;
* `step_move` — every step is a `Move`;
* `Sound.frame` — what an operation knows depends on the sources it has locked;
* `step_guarded` — a step keeps the invariant.
-/
import Cartograph.Sources.Operations
import Cartograph.Sources.Registered

namespace Sources

open Checked Machine

variable {url : UrlCrate} {s s' : Registry} {w w' : World}

/-! ### Readiness in the registry -/

/-- A managed source is marked ready. -/
def Ready (s : Registry) (id : String) : Prop :=
  ∃ row, s.rows.find? id = some row ∧ row.kind = .managed ∧ row.ready = true

variable {id : String} {source : RegisteredSource} {fault : Bool} {a : Action}

variable {row : SourceRow} {m : ℕ} {ok : Bool} {stage : Stage}

theorem readRow_ready_eq {dir reg : String} (h : readRow url dir reg id row = .ok source) :
    source.ready = row.ready := by
  simp only [readRow, bind_eq_ok] at h
  obtain ⟨_, -, _, -, _, -, h⟩ := h
  cases hkind : row.kind <;>
    · simp only [hkind, bind_eq_ok, pure_eq_ok] at h
      obtain ⟨_, -, rfl⟩ := h
      rfl

theorem setReadyEach_rows {ready : Bool} : ∀ {ids : List String} {s s' : Registry},
    setReadyEach url ready ids s = .ok s' → ∀ id,
      (id ∉ ids → s'.rows.find? id = s.rows.find? id)
      ∧ (id ∈ ids → ∃ row, s.rows.find? id = some row ∧ row.kind = .managed
        ∧ s'.rows.find? id = some { row with ready := ready })
  | [], s, s', h, id => by
    obtain rfl := Except.ok.inj h
    exact ⟨fun _ => rfl, fun hmem => absurd hmem (by simp)⟩
  | first :: rest, s, s', h, id => by
    simp only [setReadyEach, updateReady, bind_eq_ok, ensure_eq_ok, orFail_eq_ok, pure_eq_ok] at h
    obtain ⟨found, hfound, source, rfl, _, hmanaged, _, ⟨row, hrow, rfl⟩, hrest⟩ := h
    obtain ⟨id', row', hrow', hmatch, hread⟩ := (readOne_ok hfound).1 source rfl
    obtain rfl : id' = first := by simpa [Field.matches] using hmatch
    obtain rfl := Option.some.inj (hrow.symm.trans hrow')
    have hkind : row.kind = .managed := (readRow_ok hread).managed.mp hmanaged
    obtain ⟨hout, hin⟩ := setReadyEach_rows hrest id
    constructor
    · intro hid
      obtain ⟨hne, hid⟩ := List.ne_and_not_mem_of_not_mem_cons hid
      rw [hout hid, Table.find?_put, if_neg hne]
    · intro hid
      by_cases hid' : id ∈ rest
      · obtain ⟨row1, hrow1, hkind1, hset⟩ := hin hid'
        rcases Table.find?_put_eq_some.mp hrow1 with ⟨rfl, rfl⟩ | ⟨-, hold⟩
        · exact ⟨row, hrow, hkind, hset⟩
        · exact ⟨row1, hold, hkind1, hset⟩
      · have heq : id = id' := (List.mem_cons.mp hid).resolve_right hid'
        refine ⟨row, heq ▸ hrow, hkind, ?_⟩
        rw [hout hid', Table.find?_put, if_pos heq]

theorem setReady_ready {ids : List String} {ready : Bool}
    (h : setReady url ids ready fault s = .ok s') (id : String) :
    Ready s' id ↔ if id ∈ ids then ready = true else Ready s id := by
  unfold setReady at h
  split_ifs at h with hnil
  · obtain rfl := Except.ok.inj h
    rw [hnil]
    simp
  · simp only [Call.run, perform, setReadyBatch, bind_eq_ok, pure_eq_ok] at h
    obtain ⟨_, ⟨_, ⟨_, ⟨_, -, _, -, heach⟩, rfl⟩, _, -, rfl⟩, rfl⟩ := h
    obtain ⟨hout, hin⟩ := setReadyEach_rows heach id
    by_cases hid : id ∈ ids
    · rw [if_pos hid]
      obtain ⟨row, -, hkind, hset⟩ := hin hid
      simp [Ready, hset, hkind]
    · rw [if_neg hid]
      simp [Ready, hout hid]

theorem insertAndRead_ready (h : insertAndRead url s id row = .ok (source, s'))
    (hrow : row.kind = .managed → row.ready = false) (id' : String) :
    Ready s' id' ↔ Ready s id' := by
  obtain ⟨rfl, hfresh, -⟩ := insertAndRead_ok h
  by_cases hid : id' = id
  · subst hid
    simp only [Ready, Table.find?_put, if_true, hfresh]
    constructor
    · rintro ⟨_, heq, hkind, hready⟩
      obtain rfl := Option.some.inj heq
      rw [hrow hkind] at hready
      cases hready
    · rintro ⟨_, heq, -⟩
      cases heq
  · simp [Ready, hid]

/-- **No call but a batch changes what is ready.** -/
theorem call_ready {call : Call} {source : Option RegisteredSource}
    (h : call.run url s = .ok (source, s')) (hcall : (Action.call call).allowed = true)
    (id : String) : Ready s' id ↔ Ready s id := by
  simp only [Call.run, bind_eq_ok, pure_eq_ok] at h
  obtain ⟨_, hperform, _, -, rfl⟩ := h
  obtain ⟨op, fault⟩ := call
  cases op with
  | registerLocal fs draws path =>
    simp only [perform, registerLocal, bind_eq_ok, pure_eq_ok] at hperform
    obtain ⟨⟨source, s1⟩, ⟨_, -, _, -, _, -, found, -, hnew⟩, heq⟩ := hperform
    obtain ⟨-, rfl⟩ := Prod.mk.inj heq
    cases found with
    | some _ =>
      obtain ⟨-, rfl⟩ := Prod.mk.inj (pure_eq_ok.mp hnew)
      exact Iff.rfl
    | none =>
      simp only [registerNewLocal, bind_eq_ok] at hnew
      obtain ⟨_, -, hinsert⟩ := hnew
      exact insertAndRead_ready hinsert (by simp) id
  | reserveManaged fs draws input =>
    simp only [perform, reserveManaged, bind_eq_ok, pure_eq_ok] at hperform
    obtain ⟨⟨source, s1⟩, ⟨_, -, _, -, _, -, _, -, _, -, found, -, hnew⟩, heq⟩ := hperform
    obtain ⟨-, rfl⟩ := Prod.mk.inj heq
    cases found with
    | some _ =>
      obtain ⟨-, rfl⟩ := Prod.mk.inj (pure_eq_ok.mp hnew)
      exact Iff.rfl
    | none =>
      simp only [reserveNewManaged, bind_eq_ok] at hnew
      obtain ⟨_, -, _, -, _, -, _, -, hinsert⟩ := hnew
      exact insertAndRead_ready hinsert (by simp) id
  | setReadyBatch ids ready => cases hcall
  | reopen fs dir =>
    simp only [perform, reopen, bind_eq_ok, pure_eq_ok] at hperform
    obtain ⟨_, ⟨_, -, _, -, _, -, rfl⟩, heq⟩ := hperform
    obtain ⟨-, rfl⟩ := Prod.mk.inj heq
    exact Iff.rfl

theorem validateReady_ready (h : validateReady url w source = true)
    (hmanaged : source.origin.isSome = true) : Ready w.registry source.sourceId := by
  unfold validateReady at h
  split at h
  · rename_i current hget
    simp only [Bool.and_eq_true, beq_iff_eq] at h
    obtain ⟨⟨⟨⟨-, -⟩, hsame⟩, hready⟩, -⟩ := h
    simp only [getById, lookup, bind_eq_ok] at hget
    obtain ⟨_, -, _, -, hfound⟩ := hget
    obtain ⟨id, row, hrow, hmatch, hread⟩ := (readOne_ok hfound).1 current rfl
    obtain rfl : id = source.sourceId := by simpa [Field.matches] using hmatch
    have hkind := (readRow_ok hread).managed.mp (hsame.trans hmanaged)
    exact ⟨row, hrow, hkind, (readRow_ready_eq hread).symm.trans hready⟩
  · cases h

/-! ### Locks -/

theorem find?_planRequests : ∀ {requested : List (RegisteredSource × Bool)}
    {plan plan' : Table String Planned}, planRequests requested plan = some plan' →
    (∀ id p, plan.find? id = some p → p.source.sourceId = id) →
    ∀ id p, plan'.find? id = some p → p.source.sourceId = id
  | [], plan, plan', h, hplan => by
    obtain rfl := Option.some.inj h
    exact hplan
  | (source, write) :: rest, plan, plan', h, hplan => by
    rw [planRequests] at h
    split_ifs at h
    refine find?_planRequests h fun id p hp => ?_
    rcases Table.find?_put_eq_some.mp hp with ⟨rfl, rfl⟩ | ⟨-, hp⟩
    · cases hq : plan.find? source.sourceId with
      | some q => exact hplan _ q hq
      | none => rfl
    · exact hplan id p hp

theorem mem_writes {op : Operation} : id ∈ op.writes ↔ op.lock id = some true := by
  simp only [Operation.writes, List.mem_map, List.mem_filter, beq_iff_eq, Operation.lock,
    Option.bind_eq_some_iff]
  constructor
  · rintro ⟨⟨id', p⟩, ⟨hmem, hlock⟩, rfl⟩
    exact ⟨p, Table.find?_eq_some_iff.mpr hmem, hlock⟩
  · rintro ⟨p, hp, hlock⟩
    exact ⟨(id, p), ⟨Table.find?_eq_some_iff.mp hp, hlock⟩, rfl⟩

theorem free_eq_true {n : ℕ} {write : Bool} (h : w.free n id write = true) {op : Operation}
    (hm : w.ops.find? m = some op) (hne : m ≠ n) {held : Bool} (hheld : op.holds id = some held) :
    held = false ∧ write = false := by
  have hrow := List.all_eq_true.mp h (m, op) (Table.find?_eq_some_iff.mp hm)
  simpa [hne, hheld] using hrow

/-- Nobody else holds what is held for replacement. -/
def Exclusive (w : World) : Prop :=
  ∀ n m op op' id, n ≠ m → w.ops.find? n = some op → w.ops.find? m = some op' →
    op.holds id = some true → op'.holds id = none

/-! ### What a step can do -/

/-- The steps of the system. -/
inductive Move (url : UrlCrate) (w : World) : Action → Outcome → World → Prop
  | skip {a : Action} {out : Outcome} (hout : ∀ n fault, a = .finish n fault → out ≠ .done)
      (hfail : ∀ n ok, a = .reserve n ok → out ≠ .failed) : Move url w a out w
  | call {call : Call} {registry : Registry} (hready : ∀ id, Ready registry id ↔ Ready w.registry id) :
      Move url w (.call call) .done { w with registry := registry }
  | begin {process : ℕ} {requested : List (RegisteredSource × Bool)} {plan : Table String Planned}
      (hplan : ∀ id p, plan.find? id = some p → p.source.sourceId = id) :
      Move url w (.acquire process requested) .done
        { w with ops := w.ops.put w.next ⟨process, plan, .reserve plan.rows⟩, next := w.next + 1 }
  | reserve {n : ℕ} {ok : Bool} {op : Operation} {id : String} {p : Planned}
      {rest : List (String × Planned)} (hop : w.ops.find? n = some op)
      (hstage : op.stage = .reserve ((id, p) :: rest))
      (hfree : ∀ write, p.lock = some write → w.free n id write = true) :
      Move url w (.reserve n ok) .done (w.setStage n op (.reserve rest))
  | reserved {n : ℕ} {ok : Bool} {op : Operation} (hop : w.ops.find? n = some op)
      (hstage : op.stage = .reserve []) :
      Move url w (.reserve n ok) .done (w.setStage n op .invalidate)
  | invalidate {n : ℕ} {fault : Bool} {op : Operation} {registry : Registry}
      (hop : w.ops.find? n = some op) (hstage : op.stage = .invalidate)
      (hready : ∀ id, Ready registry id ↔ op.lock id ≠ some true ∧ Ready w.registry id) :
      Move url w (.invalidate n fault) .done
        ({ w with registry := registry }.setStage n op (.promote op.plan.rows))
  | promote {n : ℕ} {ok : Bool} {op : Operation} {id : String} {p : Planned}
      {rest : List (String × Planned)} (hop : w.ops.find? n = some op)
      (hstage : op.stage = .promote ((id, p) :: rest))
      (hready : p.lock = some false → Ready w.registry p.source.sourceId) :
      Move url w (.promote n ok) .done (w.setStage n op (.promote rest))
  | promoted {n : ℕ} {ok : Bool} {op : Operation} (hop : w.ops.find? n = some op)
      (hstage : op.stage = .promote []) :
      Move url w (.promote n ok) .done (w.setStage n op (.work []))
  | fetch {n : ℕ} {id commit : String} {op : Operation} {cloned : List String}
      (hop : w.ops.find? n = some op) (hstage : op.stage = .work cloned)
      (hlock : op.lock id = some true) (hid : id ∉ cloned) :
      Move url w (.fetch n id commit) .done (w.setStage n op (.staged cloned id ⟨n, commit⟩))
  | retire {n : ℕ} {op : Operation} {cloned : List String} {id : String} {tree : Tree}
      (hop : w.ops.find? n = some op) (hstage : op.stage = .staged cloned id tree) :
      Move url w (.retire n) .done ({ w with checkouts := w.checkouts.erase id }.setStage n op
        (.retired cloned id tree (w.checkouts.find? id)))
  | place {n : ℕ} {op : Operation} {cloned : List String} {id : String} {tree : Tree}
      {previous : Option Tree} (hop : w.ops.find? n = some op)
      (hstage : op.stage = .retired cloned id tree previous) :
      Move url w (.place n .placed) .done
        ({ w with checkouts := w.checkouts.put id tree }.setStage n op (.work (id :: cloned)))
  | restore {n : ℕ} {op : Operation} {cloned : List String} {id : String} {tree : Tree}
      {previous : Option Tree} (hop : w.ops.find? n = some op)
      (hstage : op.stage = .retired cloned id tree previous) :
      Move url w (.place n .restored) .failed
        ({ w with checkouts := restore w.checkouts id previous }.drop n)
  | finish {n : ℕ} {fault : Bool} {op : Operation} {cloned : List String} {registry : Registry}
      (hop : w.ops.find? n = some op) (hstage : op.stage = .work cloned)
      (hcloned : ∀ id, op.lock id = some true → id ∈ cloned)
      (hready : ∀ id, Ready registry id ↔ op.lock id = some true ∨ Ready w.registry id) :
      Move url w (.finish n fault) .done ({ w with registry := registry }.setStage n op .finished)
  | unfinished {n : ℕ} {fault : Bool} {op : Operation} {cloned : List String}
      (hop : w.ops.find? n = some op) (hstage : op.stage = .work cloned) :
      Move url w (.finish n fault) .failed (w.setStage n op .finished)
  | drop {a : Action} {n : ℕ} {out : Outcome} {op : Operation} (hop : w.ops.find? n = some op)
      (ha : a.operation = some n) (hfinish : ∀ n fault, a ≠ .finish n fault)
      (hreserve : ∀ n ok, a = .reserve n ok → ∃ todo, op.stage = .reserve todo) :
      Move url w a out (w.drop n)
  | crash {process : ℕ} :
      Move url w (.crash process) .done
        { w with ops := w.ops.filter fun _ op => op.process != process }

theorem onOperation_move {out : Outcome} {n : ℕ} {step : Operation → World × Outcome}
    (h : w.onOperation n step = (w', out))
    (hstep : ∀ op, w.ops.find? n = some op → step op = (w', out) → Move url w a out w') :
    Move url w a out w' := by
  unfold World.onOperation at h
  split at h
  · rename_i op hop
    exact hstep op hop h
  · obtain ⟨rfl, rfl⟩ := Prod.mk.inj h
    exact .skip (fun _ _ _ => by simp) (fun _ _ _ => by simp)

theorem idle_move {out : Outcome} (h : (w, Outcome.idle) = (w', out)) :
    Move url w a out w' := by
  obtain ⟨rfl, rfl⟩ := Prod.mk.inj h
  exact .skip (fun _ _ _ => by simp) (fun _ _ _ => by simp)

variable {n : ℕ} {op : Operation} {out : Outcome}

section

variable (hop : w.ops.find? n = some op)
include hop

theorem reserveStep_move (h : reserveStep n op ok w = (w', out)) :
    Move url w (.reserve n ok) out w' := by
  unfold reserveStep at h
  split at h
  · rename_i hstage
    obtain ⟨rfl, rfl⟩ := Prod.mk.inj h
    exact .reserved hop hstage
  · rename_i id p rest hstage
    split at h
    · rename_i hlock
      obtain ⟨rfl, rfl⟩ := Prod.mk.inj h
      exact .reserve hop hstage fun write hw => by simp [hlock] at hw
    · rename_i write hlock
      split_ifs at h with hfree
      · obtain ⟨rfl, rfl⟩ := Prod.mk.inj h
        refine .reserve hop hstage fun write' hw => ?_
        obtain rfl := Option.some.inj (hlock.symm.trans hw)
        exact (Bool.and_eq_true_iff.mp hfree).2
      · obtain ⟨rfl, rfl⟩ := Prod.mk.inj h
        exact .drop hop rfl (by simp) fun _ _ _ => ⟨_, hstage⟩
  · exact idle_move h

theorem invalidateStep_move (h : invalidateStep url n op fault w = (w', out)) :
    Move url w (.invalidate n fault) out w' := by
  unfold invalidateStep at h
  split at h
  · rename_i hstage
    split at h
    · rename_i registry hset
      obtain ⟨rfl, rfl⟩ := Prod.mk.inj h
      refine .invalidate hop hstage fun id => ?_
      rw [setReady_ready hset id]
      by_cases hid : op.lock id = some true <;> simp [mem_writes, hid]
    · obtain ⟨rfl, rfl⟩ := Prod.mk.inj h
      exact .drop hop rfl (by simp) (by simp)
  · exact idle_move h

theorem promoteStep_move (h : promoteStep url n op ok w = (w', out))
    : Move url w (.promote n ok) out w' := by
  unfold promoteStep at h
  split at h
  · rename_i hstage
    obtain ⟨rfl, rfl⟩ := Prod.mk.inj h
    exact .promoted hop hstage
  · rename_i id p rest hstage
    split_ifs at h with hok
    · obtain ⟨rfl, rfl⟩ := Prod.mk.inj h
      refine .promote hop hstage fun hlock => ?_
      have hmanaged : p.source.origin.isSome = true := by
        by_contra hlocal
        simp [Planned.lock, hlocal] at hlock
      have hwrite : p.write = false := by simpa [Planned.lock, hmanaged] using hlock
      have hvalid : validateReady url w p.source = true := by simpa [hwrite] using (Bool.and_eq_true_iff.mp hok).2
      exact validateReady_ready hvalid hmanaged
    · obtain ⟨rfl, rfl⟩ := Prod.mk.inj h
      exact .drop hop rfl (by simp) (by simp)
  · exact idle_move h

end

theorem observeStep_move (h : observeStep op id w = (w', out)) :
    Move url w (.observe n id) out w' := by
  have hsame : w' = w := by
    unfold observeStep at h
    split at h
    · split_ifs at h <;> exact (Prod.mk.inj h).1.symm
    · exact (Prod.mk.inj h).1.symm
  rw [hsame]
  exact .skip (by simp) (by simp)

section

variable (hop : w.ops.find? n = some op)
include hop

theorem fetchStep_move {commit : String}
    (h : fetchStep n op id commit w = (w', out)) : Move url w (.fetch n id commit) out w' := by
  unfold fetchStep at h
  split at h
  · rename_i cloned hstage
    split_ifs at h with hid
    · obtain ⟨rfl, rfl⟩ := Prod.mk.inj h
      exact .fetch hop hstage hid.1 hid.2
    · exact idle_move h
  · exact idle_move h

theorem retireStep_move (h : retireStep n op w = (w', out)) :
    Move url w (.retire n) out w' := by
  unfold retireStep at h
  split at h
  · rename_i cloned id tree hstage
    obtain ⟨rfl, rfl⟩ := Prod.mk.inj h
    exact .retire hop hstage
  · exact idle_move h

theorem placeStep_move {placement : Placement}
    (h : placeStep n op placement w = (w', out)) : Move url w (.place n placement) out w' := by
  unfold placeStep at h
  split at h
  · rename_i cloned id tree previous hstage
    cases placement with
    | placed =>
      obtain ⟨rfl, rfl⟩ := Prod.mk.inj h
      exact .place hop hstage
    | restored =>
      obtain ⟨rfl, rfl⟩ := Prod.mk.inj h
      exact .restore hop hstage
    | lost =>
      obtain ⟨rfl, rfl⟩ := Prod.mk.inj h
      exact .drop hop rfl (by simp) (by simp)
  · exact idle_move h

theorem finishStep_move
    (h : finishStep url n op fault w = (w', out)) : Move url w (.finish n fault) out w' := by
  unfold finishStep at h
  split at h
  · rename_i cloned hstage
    split_ifs at h with hall
    · split at h
      · rename_i registry hset
        obtain ⟨rfl, rfl⟩ := Prod.mk.inj h
        refine .finish hop hstage (fun id hid => hall id (mem_writes.mpr hid)) fun id => ?_
        rw [setReady_ready hset id]
        by_cases hid : op.lock id = some true <;> simp [mem_writes, hid]
      · obtain ⟨rfl, rfl⟩ := Prod.mk.inj h
        exact .unfinished hop hstage
    · exact idle_move h
  · exact idle_move h

theorem releaseStep_move (h : releaseStep n op w = (w', out)) :
    Move url w (.release n) out w' := by
  unfold releaseStep at h
  split at h
  · obtain ⟨rfl, rfl⟩ := Prod.mk.inj h
    exact .drop hop rfl (by simp) (by simp)
  · exact idle_move h

end

theorem step_move (ha : a.allowed = true) (h : w.step url a = (w', out)) :
    Move url w a out w' := by
  cases a with
  | call call =>
    have hcall : callStep url call w = (w', out) := h
    unfold callStep at hcall
    split at hcall
    · rename_i hrun
      obtain ⟨rfl, rfl⟩ := Prod.mk.inj hcall
      exact .call (call_ready hrun ha)
    · obtain ⟨rfl, rfl⟩ := Prod.mk.inj hcall
      exact .skip (by simp) (by simp)
  | acquire process requested =>
    have hacquire : acquireStep process requested w = (w', out) := h
    unfold acquireStep at hacquire
    split at hacquire
    · obtain ⟨rfl, rfl⟩ := Prod.mk.inj hacquire
      exact .skip (by simp) (by simp)
    · rename_i plan hplan
      obtain ⟨rfl, rfl⟩ := Prod.mk.inj hacquire
      exact .begin (find?_planRequests hplan (by simp))
  | reserve n ok => exact onOperation_move h fun _ hop => reserveStep_move hop
  | invalidate n fault => exact onOperation_move h fun _ hop => invalidateStep_move hop
  | promote n ok => exact onOperation_move h fun _ hop => promoteStep_move hop
  | observe n id => exact onOperation_move h fun _ _ => observeStep_move
  | fetch n id commit => exact onOperation_move h fun _ hop => fetchStep_move hop
  | retire n => exact onOperation_move h fun _ hop => retireStep_move hop
  | place n placement => exact onOperation_move h fun _ hop => placeStep_move hop
  | finish n fault => exact onOperation_move h fun _ hop => finishStep_move hop
  | release n => exact onOperation_move h fun _ hop => releaseStep_move hop
  | fail n =>
    refine onOperation_move h fun op hop heq => ?_
    obtain ⟨rfl, rfl⟩ := Prod.mk.inj heq
    exact .drop hop rfl (by simp) (by simp)
  | crash process =>
    obtain ⟨rfl, rfl⟩ := Prod.mk.inj (show (_, _) = (w', out) from h)
    exact .crash

/-! ### What an operation knows -/

/-- What it replaces is not ready. -/
def Dark (w : World) (op : Operation) : Prop :=
  ∀ id, op.lock id = some true → ¬ Ready w.registry id

/-- What it reads, but for the sources still to check, is ready. -/
def Lit (w : World) (op : Operation) (todo : List (String × Planned)) : Prop :=
  ∀ id, op.lock id = some false → id ∉ todo.map Prod.fst → Ready w.registry id

/-- What it has cloned is in its place. -/
def Placed (w : World) (n : ℕ) (op : Operation) (cloned : List String) : Prop :=
  ∀ id ∈ cloned, op.lock id = some true
    ∧ ∃ tree, w.checkouts.find? id = some tree ∧ tree.operation = n

/-- What it replaces is ready, all or none. -/
def Together (w : World) (op : Operation) : Prop :=
  (∀ id, op.lock id = some true → Ready w.registry id) ∨ Dark w op

def Sound (w : World) (n : ℕ) (op : Operation) : Prop :=
  match op.stage with
  | .reserve todo => ∀ r ∈ todo, r ∈ op.plan.rows
  | .invalidate => True
  | .promote todo => (∀ r ∈ todo, r ∈ op.plan.rows) ∧ Dark w op ∧ Lit w op todo
  | .work cloned => Dark w op ∧ Lit w op [] ∧ Placed w n op cloned
  | .staged cloned id tree => (Dark w op ∧ Lit w op [] ∧ Placed w n op cloned)
    ∧ op.lock id = some true ∧ id ∉ cloned ∧ tree.operation = n
  | .retired cloned id tree _ => (Dark w op ∧ Lit w op [] ∧ Placed w n op cloned)
    ∧ op.lock id = some true ∧ id ∉ cloned ∧ tree.operation = n
  | .finished => Together w op

/-- The same readiness and the same checkout. -/
def SameSlot (w w' : World) (id : String) : Prop :=
  (Ready w'.registry id ↔ Ready w.registry id) ∧ w'.checkouts.find? id = w.checkouts.find? id

theorem SameSlot.refl (w : World) (id : String) : SameSlot w w id := ⟨Iff.rfl, rfl⟩

/-- The sources of its plan are as they were. -/
def SameSlots (w w' : World) (op : Operation) : Prop :=
  ∀ id write, op.lock id = some write → SameSlot w w' id

theorem Dark.frame (h : Dark w op) (hsame : SameSlots w w' op) : Dark w' op :=
  fun id hid hready => h id hid ((hsame id true hid).1.mp hready)

theorem Lit.frame {todo : List (String × Planned)} (h : Lit w op todo)
    (hsame : SameSlots w w' op) : Lit w' op todo :=
  fun id hid hout => (hsame id false hid).1.mpr (h id hid hout)

theorem Placed.frame {cloned : List String} (h : Placed w n op cloned)
    (hsame : SameSlots w w' op) : Placed w' n op cloned := by
  intro id hid
  obtain ⟨hlock, tree, htree, hown⟩ := h id hid
  exact ⟨hlock, tree, (hsame id true hlock).2.trans htree, hown⟩

theorem Together.frame (h : Together w op) (hsame : SameSlots w w' op) : Together w' op := by
  rcases h with hall | hdark
  · exact .inl fun id hid => (hsame id true hid).1.mpr (hall id hid)
  · exact .inr (hdark.frame hsame)

theorem holds_eq_lock (h : ∀ todo, op.stage ≠ .reserve todo) (id : String) :
    op.holds id = op.lock id := by
  unfold Operation.holds
  split
  · rename_i todo hstage
    exact absurd hstage (h todo)
  · rfl

/-- **What an operation knows depends on the sources it holds.** -/
theorem Sound.frame (h : Sound w n op) (hheld : ∀ id, op.holds id ≠ none → SameSlot w w' id) :
    Sound w' n op := by
  have hsame : (∀ todo, op.stage ≠ .reserve todo) → SameSlots w w' op := by
    intro hpast id write hid
    exact hheld id (by rw [holds_eq_lock hpast id, hid]; simp)
  cases hstage : op.stage with
  | reserve todo =>
    rw [Sound, hstage] at h ⊢
    exact h
  | invalidate =>
    rw [Sound, hstage]
    trivial
  | promote todo =>
    have hsame := hsame (by simp [hstage])
    rw [Sound, hstage] at h ⊢
    exact ⟨h.1, h.2.1.frame hsame, h.2.2.frame hsame⟩
  | work cloned =>
    have hsame := hsame (by simp [hstage])
    rw [Sound, hstage] at h ⊢
    exact ⟨h.1.frame hsame, h.2.1.frame hsame, h.2.2.frame hsame⟩
  | staged cloned id tree | retired cloned id tree previous =>
    have hsame := hsame (by simp [hstage])
    rw [Sound, hstage] at h ⊢
    exact ⟨⟨h.1.1.frame hsame, h.1.2.1.frame hsame, h.1.2.2.frame hsame⟩, h.2⟩
  | finished =>
    have hsame := hsame (by simp [hstage])
    rw [Sound, hstage] at h ⊢
    exact Together.frame h hsame

/-! ### The invariant -/

structure Guarded (w : World) : Prop where
  plan : ∀ n op, w.ops.find? n = some op →
    ∀ id p, op.plan.find? id = some p → p.source.sourceId = id
  fresh : ∀ n op, w.ops.find? n = some op → n < w.next
  exclusive : Exclusive w
  sound : ∀ n op, w.ops.find? n = some op → Sound w n op

theorem Guarded.fewer (h : Guarded w)
    (hops : ∀ m op, w'.ops.find? m = some op → w.ops.find? m = some op) (hnext : w'.next = w.next)
    (hheld : ∀ m op id, w'.ops.find? m = some op → op.holds id ≠ none → SameSlot w w' id) :
    Guarded w' where
  plan m op hop := h.plan m op (hops m op hop)
  fresh m op hop := hnext ▸ h.fresh m op (hops m op hop)
  exclusive n m op op' id hne hop hop' := h.exclusive n m op op' id hne (hops n op hop) (hops m op' hop')
  sound m op hop := (h.sound m op (hops m op hop)).frame fun id => hheld m op id hop

/-- The locks an operation has after a step are those it had, or were free. -/
def Gains (w : World) (n : ℕ) (op op' : Operation) : Prop :=
  ∀ id write, op'.holds id = some write → op.holds id = some write
    ∨ ∀ m other held, m ≠ n → w.ops.find? m = some other → other.holds id = some held →
      held = false ∧ write = false

theorem Guarded.advance (h : Guarded w) (hop : w.ops.find? n = some op) {registry : Registry}
    {checkouts : Table String Tree} (hlocal : ∀ id, op.holds id ≠ some true →
      SameSlot w { w with registry := registry, checkouts := checkouts } id)
    (hgains : Gains w n op { op with stage := stage })
    (hsound : Sound { w with registry := registry, checkouts := checkouts } n
      { op with stage := stage }) :
    Guarded ({ w with registry := registry, checkouts := checkouts }.setStage n op stage) := by
  -- an operation is the one that goes on, or another as it was
  have hcases : ∀ {m : ℕ} {other : Operation},
      (w.ops.put n { op with stage := stage }).find? m = some other →
      (m = n ∧ other = { op with stage := stage }) ∨ (m ≠ n ∧ w.ops.find? m = some other) :=
    Table.find?_put_eq_some.mp
  refine ⟨?_, ?_, ?_, ?_⟩
  · intro m other hother
    rcases hcases hother with ⟨rfl, rfl⟩ | ⟨-, hother⟩
    · exact h.plan m op hop
    · exact h.plan m other hother
  · intro m other hother
    rcases hcases hother with ⟨rfl, rfl⟩ | ⟨-, hother⟩
    · exact h.fresh m op hop
    · exact h.fresh m other hother
  · intro k m other other' id hne hother hother' hheld
    rcases hcases hother with ⟨rfl, rfl⟩ | ⟨hk, hold⟩
    · rcases hcases hother' with ⟨rfl, -⟩ | ⟨hm, hother'⟩
      · exact absurd rfl hne
      · rcases hgains id true hheld with hheld | hfree
        · exact h.exclusive k m op other' id hne hop hother' hheld
        · by_contra hsome
          obtain ⟨held, hheld'⟩ := Option.ne_none_iff_exists'.mp hsome
          exact absurd (hfree m other' held hm hother' hheld').2 (by simp)
    · rcases hcases hother' with ⟨rfl, rfl⟩ | ⟨-, hother'⟩
      · -- the lock the operation gained was not free
        by_contra hsome
        obtain ⟨held, hheld'⟩ := Option.ne_none_iff_exists'.mp hsome
        rcases hgains id held hheld' with hheld' | hfree
        · rw [h.exclusive k m other op id hne hold hop hheld] at hheld'
          cases hheld'
        · exact absurd (hfree k other true hk hold hheld).1 (by simp)
      · exact h.exclusive k m other other' id hne hold hother' hheld
  · intro m other hother
    rcases hcases hother with ⟨rfl, rfl⟩ | ⟨hm, hother⟩
    · exact hsound
    · -- what the step changed is held by it alone
      refine Sound.frame (w := w) (h.sound m other hother) fun id hid => hlocal id fun htrue => ?_
      exact hid (h.exclusive n m op other id (Ne.symm hm) hop hother htrue)

theorem gains_of_past (h : ∀ todo, op.stage ≠ .reserve todo) (h' : ∀ todo, stage ≠ .reserve todo) :
    Gains w n op { op with stage := stage } := by
  intro id write hid
  have hheld : ({ op with stage := stage } : Operation).holds id = op.lock id := holds_eq_lock h' id
  rw [holds_eq_lock h id, ← hheld]
  exact .inl hid

theorem find?_drop {other : Operation} (h : (w.drop n).ops.find? m = some other) :
    m ≠ n ∧ w.ops.find? m = some other := by
  rw [World.drop, Table.find?_erase] at h
  split_ifs at h with hm
  exact ⟨hm, h⟩

theorem begin_guarded (h : Guarded w) {process : ℕ} {plan : Table String Planned}
    (hplan : ∀ id p, plan.find? id = some p → p.source.sourceId = id) :
    Guarded { w with ops := w.ops.put w.next ⟨process, plan, .reserve plan.rows⟩,
                     next := w.next + 1 } := by
  have hnone : ∀ id, (⟨process, plan, .reserve plan.rows⟩ : Operation).holds id = none := by
    intro id
    simp only [Operation.holds]
    split_ifs with hid
    · rfl
    · -- an id that is not in the plan has no lock
      simp only [Operation.lock]
      cases hfind : plan.find? id with
      | none => rfl
      | some p => exact absurd (List.mem_map.mpr ⟨_, Table.find?_eq_some_iff.mp hfind, rfl⟩) hid
  -- the new operation, or one that was there
  have hcases : ∀ {m : ℕ} {other : Operation},
      (w.ops.put w.next ⟨process, plan, .reserve plan.rows⟩).find? m = some other →
      (m = w.next ∧ other = ⟨process, plan, .reserve plan.rows⟩)
        ∨ w.ops.find? m = some other := by
    intro m other hother
    exact (Table.find?_put_eq_some.mp hother).imp_right And.right
  refine ⟨?_, ?_, ?_, ?_⟩
  · intro m other hother
    rcases hcases hother with ⟨-, rfl⟩ | hother
    · exact hplan
    · exact h.plan m other hother
  · intro m other hother
    show m < w.next + 1
    rcases hcases hother with ⟨rfl, -⟩ | hother
    · omega
    · have hlt := h.fresh m other hother
      omega
  · intro k m other other' id hne hother hother' hheld
    rcases hcases hother with ⟨-, rfl⟩ | hother
    · rw [hnone id] at hheld
      cases hheld
    · rcases hcases hother' with ⟨-, rfl⟩ | hother'
      · exact hnone id
      · exact h.exclusive k m other other' id hne hother hother' hheld
  · intro m other hother
    rcases hcases hother with ⟨-, rfl⟩ | hother
    · exact fun r hr => hr
    · exact (h.sound m other hother).frame fun id _ => .refl _ _

/-- **A step keeps the invariant.** -/
theorem step_guarded (h : Guarded w) (hmove : Move url w a out w') : Guarded w' := by
  cases hmove with
  | skip => exact h
  | call hready => exact h.fewer (fun _ _ hop => hop) rfl fun _ _ id _ _ => ⟨hready id, rfl⟩
  | begin hplan => exact begin_guarded h hplan
  | @reserve n ok op id p rest hop hstage hfree =>
    have htodo : ∀ r ∈ (id, p) :: rest, r ∈ op.plan.rows := by
      have hsound := h.sound n op hop
      rwa [Sound, hstage] at hsound
    refine h.advance hop (fun id _ => .refl _ id) ?_ fun r hr => htodo r (List.mem_cons_of_mem _ hr)
    intro id' write hid'
    simp only [Operation.holds] at hid'
    split_ifs at hid' with hrest
    by_cases hsame : id' = id
    · subst hsame
      -- the lock taken in this step was free
      have hp : op.plan.find? id' = some p :=
        Table.find?_eq_some_iff.mpr (htodo _ List.mem_cons_self)
      have hlock : p.lock = some write := by simpa [Operation.lock, hp] using hid'
      exact .inr fun m other held hm hother hheld => free_eq_true (hfree write hlock) hother hm hheld
    · refine .inl ?_
      simp only [Operation.holds, hstage]
      rw [if_neg (by simpa [hsame] using hrest)]
      exact hid'
  | @reserved n ok op hop hstage =>
    refine h.advance hop (fun id _ => .refl _ id) ?_ trivial
    intro id write hid
    refine .inl ?_
    have hheld : ({ op with stage := .invalidate } : Operation).holds id = op.lock id :=
      holds_eq_lock (by simp) id
    have hlock : op.lock id = some write := hheld.symm.trans hid
    simpa [Operation.holds, hstage] using hlock
  | @invalidate n fault op registry hop hstage hready =>
    have hpast : ∀ todo, op.stage ≠ .reserve todo := by simp [hstage]
    refine h.advance hop ?_ (gains_of_past hpast (by simp)) ⟨fun r hr => hr, ?_, ?_⟩
    · intro id hid
      rw [holds_eq_lock hpast id] at hid
      refine ⟨?_, rfl⟩
      rw [hready id]
      exact and_iff_right hid
    · intro id hid hready'
      exact ((hready id).mp hready').1 hid
    · -- nothing has been checked yet
      intro id hid hout
      obtain ⟨p, hp, -⟩ := Option.bind_eq_some_iff.mp hid
      exact absurd (List.mem_map.mpr ⟨_, Table.find?_eq_some_iff.mp hp, rfl⟩) hout
  | @promote n ok op id p rest hop hstage hready =>
    have hpast : ∀ todo, op.stage ≠ .reserve todo := by simp [hstage]
    have hsound := h.sound n op hop
    rw [Sound, hstage] at hsound
    obtain ⟨htodo, hdark, hlit⟩ := hsound
    have hp : op.plan.find? id = some p := Table.find?_eq_some_iff.mpr (htodo _ List.mem_cons_self)
    refine h.advance hop (fun id _ => .refl _ id) (gains_of_past hpast (by simp))
      ⟨fun r hr => htodo r (List.mem_cons_of_mem _ hr), hdark, ?_⟩
    intro id' hid' hout
    have hlock : op.lock id' = some false := hid'
    by_cases hsame : id' = id
    · subst hsame
      rw [← h.plan n op hop id' p hp]
      exact hready (by simpa [Operation.lock, hp] using hlock)
    · exact hlit id' hlock (by simpa [hsame] using hout)
  | @promoted n ok op hop hstage =>
    have hsound := h.sound n op hop
    rw [Sound, hstage] at hsound
    exact h.advance hop (fun id _ => .refl _ id) (gains_of_past (by simp [hstage]) (by simp))
      ⟨hsound.2.1, hsound.2.2, fun id hid => absurd hid (by simp)⟩
  | @fetch n id commit op cloned hop hstage hlock hid =>
    have hsound := h.sound n op hop
    rw [Sound, hstage] at hsound
    exact h.advance hop (fun id _ => .refl _ id) (gains_of_past (by simp [hstage]) (by simp))
      ⟨hsound, hlock, hid, rfl⟩
  | @retire n op cloned id tree hop hstage =>
    have hpast : ∀ todo, op.stage ≠ .reserve todo := by simp [hstage]
    have hsound := h.sound n op hop
    rw [Sound, hstage] at hsound
    obtain ⟨⟨hdark, hlit, hplaced⟩, hlock, hid, hown⟩ := hsound
    -- only the checkout of `id` goes: it is locked, and has not been placed yet
    refine h.advance hop ?_ (gains_of_past hpast (by simp)) ⟨⟨hdark, hlit, ?_⟩, hlock, hid, hown⟩
    · intro id' hid'
      have hne : id' ≠ id := by
        rintro rfl
        exact hid' ((holds_eq_lock hpast id').trans hlock)
      exact ⟨Iff.rfl, by simp [hne]⟩
    · intro id' hid'
      have hne : id' ≠ id := fun heq => hid (heq ▸ hid')
      obtain ⟨hlock', tree', htree', hown'⟩ := hplaced id' hid'
      exact ⟨hlock', tree', by simpa [hne] using htree', hown'⟩
  | @place n op cloned id tree previous hop hstage =>
    have hpast : ∀ todo, op.stage ≠ .reserve todo := by simp [hstage]
    have hsound := h.sound n op hop
    rw [Sound, hstage] at hsound
    obtain ⟨⟨hdark, hlit, hplaced⟩, hlock, hid, hown⟩ := hsound
    refine h.advance hop ?_ (gains_of_past hpast (by simp)) ⟨hdark, hlit, ?_⟩
    · intro id' hid'
      have hne : id' ≠ id := by
        rintro rfl
        exact hid' ((holds_eq_lock hpast id').trans hlock)
      exact ⟨Iff.rfl, by simp [hne]⟩
    · intro id' hid'
      by_cases hne : id' = id
      · exact ⟨hne ▸ hlock, tree, by simp [hne], hown⟩
      · obtain ⟨hlock', tree', htree', hown'⟩ := hplaced id' ((List.mem_cons.mp hid').resolve_left hne)
        exact ⟨hlock', tree', by simpa [hne] using htree', hown'⟩
  | @restore n op cloned id tree previous hop hstage =>
    have hpast : ∀ todo, op.stage ≠ .reserve todo := by simp [hstage]
    have hsound := h.sound n op hop
    rw [Sound, hstage] at hsound
    obtain ⟨-, hlock, -, -⟩ := hsound
    refine h.fewer (fun m other hother => (find?_drop hother).2) rfl fun m other id' hother hheld => ?_
    -- another operation that held `id` would share it with the one that failed
    obtain ⟨hm, hother⟩ := find?_drop hother
    have hne : id' ≠ id := by
      rintro rfl
      exact hheld (h.exclusive n m op other id' (Ne.symm hm) hop hother
        ((holds_eq_lock hpast id').trans hlock))
    refine ⟨Iff.rfl, ?_⟩
    show (restore w.checkouts id previous).find? id' = _
    cases previous with
    | none => rfl
    | some old => simp [restore, hne]
  | @finish n fault op cloned registry hop hstage hcloned hready =>
    have hpast : ∀ todo, op.stage ≠ .reserve todo := by simp [hstage]
    refine h.advance hop ?_ (gains_of_past hpast (by simp)) (.inl fun id hid => (hready id).mpr (.inl hid))
    intro id hid
    rw [holds_eq_lock hpast id] at hid
    refine ⟨?_, rfl⟩
    rw [hready id]
    exact or_iff_right hid
  | @unfinished n fault op cloned hop hstage =>
    have hsound := h.sound n op hop
    rw [Sound, hstage] at hsound
    exact h.advance hop (fun id _ => .refl _ id) (gains_of_past (by simp [hstage]) (by simp))
      (.inr hsound.1)
  | drop =>
    exact h.fewer (fun m other hother => (find?_drop hother).2) rfl fun _ _ id _ _ => ⟨Iff.rfl, rfl⟩
  | crash =>
    refine h.fewer (fun m other hother => ?_) rfl fun _ _ id _ _ => ⟨Iff.rfl, rfl⟩
    rw [Table.find?_filter] at hother
    exact (Option.filter_eq_some_iff.mp hother).1

end Sources

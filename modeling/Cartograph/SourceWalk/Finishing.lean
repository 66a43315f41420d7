/-
Every parallel run ends, and ends like the serial loop.

Each step but a spontaneous wake-up makes a weight smaller: what is still to be claimed, what
each worker is about, and what the calling thread still has to do, where a notification is
worth the threads it may wake.

* `step_weight` — the weight decreases;
* `can_finish` — every run can go on to its end;
* `map_ordered_serial` — the result of `map_ordered` is that of the serial loop.
-/
import Cartograph.SourceWalk.Ordered

namespace SourceWalk

variable {τ ε π μ : Type} {P : Pool} {E : Extraction τ ε π μ} {s s' : State P τ ε π μ}

/-! ### Weights -/

def Worker.weight : Worker → ℕ
  | .claiming => 1
  | .asleep => 0
  | .working _ _ => 4
  | .notifying => 3
  | .returned => 0

/-- What the calling thread has to do for `items` items and so many threads. -/
def Merger.weight (items threads : ℕ) : Merger τ ε π → ℕ
  | .taking index => (threads + 3) * (items - index) + 3 * (threads + 3) + 4
  | .asleep index => (threads + 3) * (items - index) + 3 * (threads + 3) + 3
  | .notifying index _ _ => (threads + 3) * (items - index) + 3 * (threads + 3) + 3
  | .merging index _ _ => (threads + 3) * (items - index) + 2 * (threads + 3) + 5
  | .stopping times _ => (threads + 3) * (times + 1) + 2
  | .releasing times _ => (threads + 3) * (times + 1) + 1
  | .joining _ => 1
  | .finished _ => 0

def State.weight (E : Extraction τ ε π μ) (s : State P τ ε π μ) : ℕ :=
  (∑ w, (s.workers w).weight) + 4 * (E.items.length - s.next)
    + s.merger.weight E.items.length P.threads

theorem sum_setWorker (s : State P τ ε π μ) (w : Fin P.threads) (worker : Worker) :
    (∑ w', ((s.setWorker w worker).workers w').weight) + (s.workers w).weight
      = (∑ w', (s.workers w').weight) + worker.weight := by
  have hrest : ∑ w' ∈ Finset.univ.erase w, ((s.setWorker w worker).workers w').weight
      = ∑ w' ∈ Finset.univ.erase w, (s.workers w').weight := by
    refine Finset.sum_congr rfl fun w' hw' => ?_
    rw [workers_setWorker, if_neg (Finset.ne_of_mem_erase hw')]
  have hnew := Finset.add_sum_erase Finset.univ
    (fun w' => ((s.setWorker w worker).workers w').weight) (Finset.mem_univ w)
  have hold := Finset.add_sum_erase Finset.univ (fun w' => (s.workers w').weight)
    (Finset.mem_univ w)
  simp only [workers_setWorker, if_pos] at hnew hrest hold ⊢
  omega

theorem sum_wakeWorkers (s : State P τ ε π μ) :
    ∑ w, (s.wakeWorkers.workers w).weight ≤ (∑ w, (s.workers w).weight) + P.threads := by
  have hone : ∀ w, (s.wakeWorkers.workers w).weight ≤ (s.workers w).weight + 1 := by
    intro w
    show (s.workers w).woken.weight ≤ _
    cases s.workers w <;> simp [Worker.woken, Worker.weight]
  calc ∑ w, (s.wakeWorkers.workers w).weight ≤ ∑ w, ((s.workers w).weight + 1) :=
        Finset.sum_le_sum fun w _ => hone w
    _ = (∑ w, (s.workers w).weight) + P.threads := by simp [Finset.sum_add_distrib]

theorem woken_weight (items threads : ℕ) (merger : Merger τ ε π) :
    merger.woken.weight items threads ≤ merger.weight items threads + 1 := by
  cases merger <;> simp [Merger.woken, Merger.weight]

theorem weight_worker {w : Fin P.threads} {worker worker' : Worker} (k : ℕ)
    (hw : s.workers w = worker) (hworkers : s'.workers = (s.setWorker w worker').workers)
    (hmerger : s'.merger.weight E.items.length P.threads
      ≤ s.merger.weight E.items.length P.threads + k)
    (hnext : s'.next = s.next) (hlt : worker'.weight + k < worker.weight) :
    s'.weight E < s.weight E := by
  have hsum := sum_setWorker s w worker'
  rw [hw, ← hworkers] at hsum
  rw [State.weight, State.weight, hnext]
  omega

/-- The calling thread goes on, and the workers it wakes are worth less than what it had to do. -/
theorem weight_merger {merger : Merger τ ε π} (k : ℕ) (hm : s.merger = merger)
    (hnext : s'.next = s.next)
    (hworkers : ∑ w, (s'.workers w).weight ≤ (∑ w, (s.workers w).weight) + k)
    (hlt : s'.merger.weight E.items.length P.threads + k
      < merger.weight E.items.length P.threads) : s'.weight E < s.weight E := by
  rw [State.weight, State.weight, hm, hnext]
  omega

variable {acc₀ : μ}

/-- **Weights decrease.**  Every step but a spontaneous wake-up leaves less to be done. -/
theorem step_weight {op : Op P} {o : Option ℕ} (h : Inv E acc₀ s) (hstep : Step E s op s' o)
    (hop : op.spontaneous = false) : s'.weight E < s.weight E := by
  have hplace := h.place
  -- one item less to merge, and with it the waking of every worker
  have hsplit : ∀ {index}, index < E.items.length → (P.threads + 3) * (E.items.length - index)
      = (P.threads + 3) * (E.items.length - (index + 1)) + (P.threads + 3) := by
    intro index hlt
    rw [show E.items.length - index = E.items.length - (index + 1) + 1 by omega, Nat.mul_succ]
  cases hstep with
  | returns w hw _ | waits w hw _ _ _ => exact weight_worker 0 hw rfl le_rfl rfl (by decide)
  | claims w item hw _ hitem _ =>
    have hlt : s.next < E.items.length := (List.getElem?_eq_some_iff.mp hitem).1
    have hsum := sum_setWorker s w (.working s.next item)
    rw [hw] at hsum
    change _ + 1 = _ + 4 at hsum
    show (∑ w', ((s.setWorker w (.working s.next item)).workers w').weight)
      + 4 * (E.items.length - (s.next + 1)) + s.merger.weight E.items.length P.threads < s.weight E
    rw [State.weight]
    omega
  | works w index item hw => exact weight_worker 0 hw rfl le_rfl rfl (Nat.lt_succ_self 3)
  | announces w hw =>
    -- the worker that announces pays for the merger it wakes
    exact weight_worker 1 hw rfl (woken_weight _ _ s.merger) rfl (by decide)
  | stirs | wakes => exact absurd hop (by simp [Op.spontaneous])
  | ends index hm _ | takes index item outcome hm _ _ | rests index hm _ _
  | stops times result hm | joins result hm _ =>
    refine weight_merger 0 hm rfl le_rfl ?_
    simp only [Merger.weight]
    omega
  | opens index item outcome hm =>
    refine weight_merger P.threads hm rfl (sum_wakeWorkers s) ?_
    simp only [Merger.weight]
    omega
  | merges index item value acc hm _ =>
    rw [hm] at hplace
    have := hsplit (List.getElem?_eq_some_iff.mp hplace.1.1).1
    refine weight_merger 0 hm rfl le_rfl ?_
    simp only [Merger.weight]
    omega
  | fails index item outcome acc times result hm htimes _ =>
    rw [hm] at hplace
    have := hsplit (List.getElem?_eq_some_iff.mp hplace.1.1).1
    have hle : (P.threads + 3) * (times + 1) ≤ (P.threads + 3) * 3 :=
      Nat.mul_le_mul_left _ (by omega)
    refine weight_merger 0 hm rfl le_rfl ?_
    simp only [Merger.weight]
    omega
  | releases times result merger hm hnext =>
    refine weight_merger P.threads hm rfl (sum_wakeWorkers s) ?_
    rcases hnext with ⟨hmore, rfl⟩ | rfl
    · -- one release less
      have hmul : (P.threads + 3) * (times + 1)
        = (P.threads + 3) * times + (P.threads + 3) := Nat.mul_succ _ _
      simp only [Merger.weight]
      rw [show times - 1 + 1 = times by omega]
      omega
    · simp only [Merger.weight]
      have hle : (P.threads + 3) * 1 ≤ (P.threads + 3) * (times + 1) :=
        Nat.mul_le_mul_left _ (by omega)
      omega

/-! ### Runs -/

/-- The history of a run. -/
abbrev History (P : Pool) (τ ε π μ : Type) :=
  List (Machine.Event (State P τ ε π μ) (Op P) (Option ℕ))

/-- No thread of the run woke by itself. -/
def Undisturbed (tr : History P τ ε π μ) : Prop := ∀ e ∈ tr, e.op.spontaneous = false

variable {tr : History P τ ε π μ}

theorem steps_weight (hinv : Inv E acc₀ s) (h : (E.machine P acc₀).Steps s tr s')
    (hquiet : Undisturbed tr) :
    tr.length + s'.weight E ≤ s.weight E := by
  induction h with
  | refl =>
    rw [List.length_nil]
    omega
  | @snoc tr s1 s2 op o hs hen hst ih =>
    have hmid : Inv E acc₀ s1 :=
      hs.invariant (fun _ _ _ _ hinv hen hst => hinv.step (step_cases hen hst)) hinv
    have hlast := hquiet ⟨s1, op, o, s2⟩ (by simp)
    have hlt := step_weight hmid (step_cases hen hst) hlast
    have hle := ih fun e he => hquiet e (List.mem_append_left _ he)
    rw [List.length_append, List.length_singleton]
    omega

/-- **Ends.**  From every state of a run, the threads can go on to its end. -/
theorem can_finish (h : Inv E acc₀ s) : ∃ tr s', (E.machine P acc₀).Steps s tr s'
    ∧ Undisturbed tr ∧ ∃ result, s'.merger = .finished result := by
  induction hn : s.weight E using Nat.strong_induction_on generalizing s with
  | _ n ih =>
    rcases progress h with hdone | ⟨op, hop, hen⟩
    · exact ⟨[], s, .refl, fun e he => absurd he List.not_mem_nil, hdone⟩
    · have hstep : Step E s op (E.step s op).1 (E.step s op).2 := step_cases hen rfl
      have hlt := step_weight h hstep hop
      obtain ⟨tr, s', hrun, hquiet, hdone⟩ := ih _ (hn ▸ hlt) (h.step hstep) rfl
      have hfirst : (E.machine P acc₀).Steps s [⟨s, op, (E.step s op).2, (E.step s op).1⟩]
          (E.step s op).1 := Machine.Steps.refl.snoc hen rfl
      refine ⟨_, s', hfirst.trans hrun, fun e he => ?_, hdone⟩
      rcases List.mem_append.mp he with he | he
      · rw [List.mem_singleton.mp he]
        exact hop
      · exact hquiet e he

/-! ### Claims -/

theorem step_claims {op : Op P} {o : Option ℕ} (h : Step E s op s' o) :
    (o = none ∧ s'.next = s.next) ∨ (o = some s.next ∧ s'.next = s.next + 1) := by
  cases h with
  | claims => exact .inr ⟨rfl, rfl⟩
  | returns | waits | works | announces | stirs | ends | takes | rests | opens | merges | fails
  | stops | releases | joins | wakes => exact .inl ⟨rfl, rfl⟩

theorem claims_steps (h : (E.machine P acc₀).Steps (.initial P acc₀) tr s) :
    tr.filterMap Machine.Event.out = List.range s.next := by
  induction h with
  | refl => rfl
  | snoc _ hen hst ih =>
    rw [List.filterMap_append, ih]
    rcases step_claims (step_cases hen hst) with ⟨rfl, hnext⟩ | ⟨rfl, hnext⟩
    · rw [hnext]
      exact List.append_nil _
    · rw [hnext, List.range_succ]
      rfl

/-! ### Results -/

theorem finished_serial (h : Inv E acc₀ s) {result : Outcome ε π Unit}
    (hm : s.merger = .finished result) : (s.acc, result) = E.serial acc₀ := by
  have hplace := h.place
  rw [hm] at hplace
  exact hplace.2.symm

theorem mapOrdered_iff (E : Extraction τ ε π μ) (acc₀ : μ) (workers : ℕ)
    (out : μ × Outcome ε π Unit) : E.MapOrdered workers acc₀ out ↔ out = E.serial acc₀ := by
  rw [Extraction.MapOrdered]
  split_ifs with hmany
  · constructor
    · rintro ⟨tr, s, h, hm, hacc⟩
      rw [← finished_serial (inv_steps h) hm, hacc]
    · rintro rfl
      obtain ⟨tr, s, h, -, result, hm⟩ := can_finish (inv_initial E (Extraction.pool _ hmany) acc₀)
      have hserial := finished_serial (inv_steps h) hm
      exact ⟨tr, s, h, by rw [hm, ← hserial], by rw [← hserial]⟩
  · exact Iff.rfl

/-- **Parallel extraction.**  A call of `map_ordered` returns, and leaves what `merge` captured,
as the serial loop does, for any number of workers.  Whatever the number of threads and the
window, in every schedule: when the call has returned, it is so; each index was claimed once,
in order; no worker is at an index a window or more ahead of the merge; until the end some
thread can go on that waits for no wake-up, and there is a bound on how often one does. -/
theorem map_ordered_serial (E : Extraction τ ε π μ) (acc₀ : μ) :
    (∀ workers out, E.MapOrdered workers acc₀ out ↔ out = E.serial acc₀)
    ∧ ∀ (P : Pool) tr (s : State P τ ε π μ),
      (E.machine P acc₀).Steps (.initial P acc₀) tr s →
      (∀ result, s.merger = .finished result → (s.acc, result) = E.serial acc₀)
      ∧ tr.filterMap Machine.Event.out = List.range s.next
      ∧ (∀ w index item, s.workers w = .working index item → index < s.merged + P.window)
      ∧ ((∃ result, s.merger = .finished result)
        ∨ ∃ op : Op P, op.spontaneous = false ∧ Extraction.Enabled s op)
      ∧ (Undisturbed tr → tr.length ≤ (State.initial P acc₀ : State P τ ε π μ).weight E) := by
  refine ⟨mapOrdered_iff E acc₀, fun P tr s h => ?_⟩
  have hinv := inv_steps h
  refine ⟨fun result hm => finished_serial hinv hm, claims_steps h, fun w index item hw => ?_,
    progress hinv, fun hquiet => ?_⟩
  · have hlt := (hinv.working w index item hw).1
    have hwindow := hinv.counts.2.2
    omega
  · have hlength := steps_weight (inv_initial E P acc₀) h hquiet
    omega

/-- Three items, of which the second cannot be parsed. -/
def sample : Extraction String String String (List String) where
  items := ["a.ts", "b.ts", "c.ts"]
  work := fun item => if item = "b.ts" then .error "parse" else .ok item
  merge := fun acc _ value => (acc ++ [value], .ok ())

/-- Three workers merge the first result and return the error of the second item. -/
theorem map_ordered_serial_sample : sample.MapOrdered 3 [] (["a.ts"], .error "parse") := by
  refine ((map_ordered_serial sample []).1 3 _).mpr ?_
  simp [Extraction.serial, Extraction.serialFrom, sample]

end SourceWalk

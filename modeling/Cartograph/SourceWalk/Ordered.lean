/-
The invariant of a parallel run.

* `Step` — what a step can do, guards included;
* `Inv` — every claimed index is merged, ready or worked on, the calling thread stands where
  the serial loop would, and no thread sleeps on a condition that holds unless a notification
  is due;
* `Inv.step` — every step keeps it;
* `progress` — some thread can go on that needs no spontaneous wake-up, until the end.
-/
import Cartograph.SourceWalk.Parallel

namespace SourceWalk

variable {τ ε π μ : Type} {P : Pool} (E : Extraction τ ε π μ)

/-! ### Steps -/

/-- What a step does. -/
inductive Step (s : State P τ ε π μ) : Op P → State P τ ε π μ → Option ℕ → Prop
  | returns (w : Fin P.threads) : s.workers w = .claiming →
      (s.stop = true ∨ E.items.length ≤ s.next) → Step s (.worker w) (s.setWorker w .returned) none
  | claims (w : Fin P.threads) (item : String) : s.workers w = .claiming → s.stop = false →
      E.items[s.next]? = some item → s.next < s.merged + P.window →
      Step s (.worker w) { s.setWorker w (.working s.next item) with next := s.next + 1 } (some s.next)
  | waits (w : Fin P.threads) : s.workers w = .claiming → s.stop = false →
      s.next < E.items.length → s.merged + P.window ≤ s.next →
      Step s (.worker w) (s.setWorker w .asleep) none
  | works (w : Fin P.threads) (index : ℕ) (item : String) : s.workers w = .working index item →
      Step s (.worker w) { s.setWorker w .notifying with ready := s.ready.put index (E.work item) } none
  | announces (w : Fin P.threads) : s.workers w = .notifying →
      Step s (.worker w) { s.setWorker w .claiming with merger := s.merger.woken } none
  | stirs (w : Fin P.threads) : s.workers w = .asleep → Step s (.wakeWorker w) (s.setWorker w .claiming) none
  | ends (index : ℕ) : s.merger = .taking index → E.items.length ≤ index →
      Step s .merger { s with merger := .stopping 1 (.ok ()) } none
  | takes (index : ℕ) (item : String) (outcome : Outcome ε π τ) : s.merger = .taking index →
      E.items[index]? = some item → s.ready.find? index = some outcome →
      Step s .merger { s with
        ready := s.ready.erase index
        merged := index + 1
        merger := .notifying index item outcome } none
  | rests (index : ℕ) : s.merger = .taking index → index < E.items.length →
      s.ready.find? index = none → Step s .merger { s with merger := .asleep index } none
  | opens (index : ℕ) (item : String) (outcome : Outcome ε π τ) :
      s.merger = .notifying index item outcome →
      Step s .merger { s.wakeWorkers with merger := .merging index item outcome } none
  | merges (index : ℕ) (item : String) (value : τ) (acc : μ) :
      s.merger = .merging index item (.ok value) → E.merge s.acc item value = (acc, .ok ()) →
      Step s .merger { s with acc := acc, merger := .taking (index + 1) } none
  | fails (index : ℕ) (item : String) (outcome : Outcome ε π τ) (acc : μ) (times : ℕ)
      (result : Outcome ε π Unit) : s.merger = .merging index item outcome → times ≤ 2 →
      (E.work item = outcome → ∀ rest, E.serialFrom (item :: rest) s.acc = (acc, result)) →
      Step s .merger { s with acc := acc, merger := .stopping times result } none
  | stops (times : ℕ) (result : Outcome ε π Unit) : s.merger = .stopping times result →
      Step s .merger { s with stop := true, merger := .releasing times result } none
  | releases (times : ℕ) (result : Outcome ε π Unit) (merger : Merger τ ε π) :
      s.merger = .releasing times result →
      (1 < times ∧ merger = .stopping (times - 1) result ∨ merger = .joining result) →
      Step s .merger { s.wakeWorkers with merger := merger } none
  | joins (result : Outcome ε π Unit) : s.merger = .joining result →
      (∀ w, s.workers w = .returned) → Step s .merger { s with merger := .finished result } none
  | wakes : Step s .wakeMerger { s with merger := s.merger.woken } none

variable {E} {s s' : State P τ ε π μ}

variable {w : Fin P.threads} {index : ℕ} {item : String}

variable {o : Option ℕ} {worker : Worker} {merger : Merger τ ε π}

theorem worker_cases (hen : Extraction.Enabled s (.worker w)) (h : E.workerStep s w = (s', o)) :
    Step E s (.worker w) s' o := by
  rw [Extraction.workerStep] at h
  cases hw : s.workers w with
  | claiming =>
    simp only [hw] at h
    cases hstop : s.stop with
    | true =>
      simp only [hstop] at h
      obtain ⟨rfl, rfl⟩ := Prod.mk.inj h
      exact .returns w hw (.inl hstop)
    | false =>
      cases hitem : E.items[s.next]? with
      | none =>
        simp only [hstop, hitem] at h
        obtain ⟨rfl, rfl⟩ := Prod.mk.inj h
        exact .returns w hw (.inr (List.getElem?_eq_none_iff.mp hitem))
      | some item =>
        simp only [hstop, hitem] at h
        by_cases hroom : s.next < s.merged + P.window
        · rw [if_pos hroom] at h
          obtain ⟨rfl, rfl⟩ := Prod.mk.inj h
          exact .claims w item hw hstop hitem hroom
        · rw [if_neg hroom] at h
          obtain ⟨rfl, rfl⟩ := Prod.mk.inj h
          have hlt : s.next < E.items.length := (List.getElem?_eq_some_iff.mp hitem).1
          exact .waits w hw hstop hlt (Nat.le_of_not_lt hroom)
  | working index item =>
    simp only [hw] at h
    obtain ⟨rfl, rfl⟩ := Prod.mk.inj h
    exact .works w index item hw
  | notifying =>
    simp only [hw] at h
    obtain ⟨rfl, rfl⟩ := Prod.mk.inj h
    exact .announces w hw
  | asleep => exact absurd hw hen.1
  | returned => exact absurd hw hen.2

theorem merger_cases (hen : Extraction.Enabled s .merger) (h : E.mergerStep s = s') :
    Step E s .merger s' none := by
  subst h
  rw [Extraction.mergerStep]
  rw [Extraction.Enabled] at hen
  cases hm : s.merger with
  | taking index =>
    dsimp only
    cases hitem : E.items[index]? with
    | none => exact .ends index hm (List.getElem?_eq_none_iff.mp hitem)
    | some item =>
      dsimp only
      cases hready : s.ready.find? index with
      | none => exact .rests index hm (List.getElem?_eq_some_iff.mp hitem).1 hready
      | some outcome => exact .takes index item outcome hm hitem hready
  | notifying index item outcome => exact .opens index item outcome hm
  | merging index item outcome =>
    -- what the serial run does at this item is the same, so its result is known
    cases outcome with
    | ok value =>
      dsimp only
      cases hmerge : E.merge s.acc item value with
      | mk acc result =>
        cases result with
        | ok u => exact .merges index item value acc hm hmerge
        | error e =>
          refine .fails index item _ acc 1 (.error e) hm (by decide) fun hwork rest => ?_
          simp only [Extraction.serialFrom, hwork, hmerge]
        | panic payload =>
          refine .fails index item _ acc 1 (.panic payload) hm (by decide) fun hwork rest => ?_
          simp only [Extraction.serialFrom, hwork, hmerge]
    | error e =>
      refine .fails index item _ s.acc 1 (.error e) hm (by decide) fun hwork rest => ?_
      simp only [Extraction.serialFrom, hwork]
    | panic payload =>
      refine .fails index item _ s.acc 2 (.panic payload) hm (by decide) fun hwork rest => ?_
      simp only [Extraction.serialFrom, hwork]
  | stopping times result => exact .stops times result hm
  | releasing times result =>
    refine .releases times result _ hm ?_
    by_cases hmore : 1 < times
    · rw [if_pos hmore]
      exact .inl ⟨hmore, rfl⟩
    · rw [if_neg hmore]
      exact .inr rfl
  | joining result =>
    rw [hm] at hen
    exact .joins result hm hen
  | asleep index | finished result =>
    rw [hm] at hen
    exact absurd hen id

theorem step_cases {op : Op P} (hen : Extraction.Enabled s op) (h : E.step s op = (s', o)) :
    Step E s op s' o := by
  cases op with
  | worker w => exact worker_cases hen h
  | merger =>
    obtain ⟨hmerger, rfl⟩ := Prod.mk.inj h
    exact merger_cases hen hmerger
  | wakeWorker w =>
    obtain ⟨rfl, rfl⟩ := Prod.mk.inj h
    exact .stirs w hen
  | wakeMerger =>
    obtain ⟨rfl, rfl⟩ := Prod.mk.inj h
    exact .wakes

/-! ### The invariant -/

/-- What keeps a worker from claiming. -/
def Blocked (E : Extraction τ ε π μ) (s : State P τ ε π μ) : Prop :=
  s.stop = false ∧ s.next < E.items.length ∧ s.merged + P.window ≤ s.next

/-- The calling thread is about to notify the workers. -/
def Merger.opening : Merger τ ε π → Prop
  | .notifying _ _ _ => True
  | .releasing _ _ => True
  | _ => False

/-- Where the calling thread stands in the serial loop. -/
def Place (E : Extraction τ ε π μ) (acc₀ : μ) (merged : ℕ) (stop : Bool) (acc : μ) :
    Merger τ ε π → Prop
  | .taking index => merged = index ∧ stop = false
      ∧ E.serial acc₀ = E.serialFrom (E.items.drop index) acc
  | .asleep index => index < E.items.length ∧ merged = index ∧ stop = false
      ∧ E.serial acc₀ = E.serialFrom (E.items.drop index) acc
  | .notifying index item outcome => (E.items[index]? = some item ∧ E.work item = outcome)
      ∧ merged = index + 1 ∧ stop = false
      ∧ E.serial acc₀ = E.serialFrom (E.items.drop index) acc
  | .merging index item outcome => (E.items[index]? = some item ∧ E.work item = outcome)
      ∧ merged = index + 1 ∧ stop = false
      ∧ E.serial acc₀ = E.serialFrom (E.items.drop index) acc
  | .stopping _ result => E.serial acc₀ = (acc, result)
  | .releasing _ result => stop = true ∧ E.serial acc₀ = (acc, result)
  | .joining result => stop = true ∧ E.serial acc₀ = (acc, result)
  | .finished result => stop = true ∧ E.serial acc₀ = (acc, result)

structure Inv (E : Extraction τ ε π μ) (acc₀ : μ) (s : State P τ ε π μ) : Prop where
  counts : s.next ≤ E.items.length ∧ s.merged ≤ s.next ∧ s.next ≤ s.merged + P.window
  working : ∀ w index item, s.workers w = .working index item →
    index < s.next ∧ E.items[index]? = some item
  ready : ∀ index outcome, s.ready.find? index = some outcome →
    index < s.next ∧ ∃ item, E.items[index]? = some item ∧ E.work item = outcome
  claimed : ∀ index, s.merged ≤ index → index < s.next →
    (∃ outcome, s.ready.find? index = some outcome) ∨ ∃ w item, s.workers w = .working index item
  place : Place E acc₀ s.merged s.stop s.acc s.merger
  pending : ∀ index, s.merger = .asleep index →
    s.ready.find? index = none ∨ ∃ w, s.workers w = .notifying
  asleep : ∀ w, s.workers w = .asleep → Blocked E s ∨ s.merger.opening
  returned : ∀ w, s.workers w = .returned → s.stop = true ∨ E.items.length ≤ s.next

@[simp] theorem workers_setWorker (w w' : Fin P.threads) (worker : Worker) :
    (s.setWorker w worker).workers w' = if w' = w then worker else s.workers w' :=
  Function.update_apply s.workers w worker w'

theorem drop_eq_cons {items : List String} (h : items[index]? = some item) :
    items.drop index = item :: items.drop (index + 1) := by
  obtain ⟨hlt, rfl⟩ := List.getElem?_eq_some_iff.mp h
  exact List.drop_eq_getElem_cons hlt

theorem inv_initial (E : Extraction τ ε π μ) (P : Pool) (acc : μ) :
    Inv E acc (State.initial P acc) where
  counts := ⟨Nat.zero_le _, Nat.le_refl _, Nat.zero_le _⟩
  working := fun _ _ _ h => absurd h (by simp [State.initial])
  ready := fun _ _ h => absurd h (by simp [State.initial])
  claimed := fun _ _ h => absurd h (Nat.not_lt_zero _)
  place := ⟨rfl, rfl, by rw [List.drop_zero]; rfl⟩
  pending := fun _ h => absurd h (by simp [State.initial])
  asleep := fun _ h => absurd h (by simp [State.initial])
  returned := fun _ h => absurd h (by simp [State.initial])

/-! ### Steps keep the invariant -/

section Steps

variable {acc₀ : μ}

theorem working_of_setWorker {w' : Fin P.threads}
    (h : (s.setWorker w worker).workers w' = .working index item) :
    (w' = w ∧ worker = .working index item) ∨ s.workers w' = .working index item := by
  rw [workers_setWorker] at h
  split_ifs at h with hw
  · exact .inl ⟨hw, h⟩
  · exact .inr h

section

variable (h : Inv E acc₀ s)
include h

theorem Inv.setWorker (hfree : s.workers w = .claiming ∨ s.workers w = .asleep)
    (hidle : ∀ index item, worker ≠ .working index item) (hasleep : worker = .asleep → Blocked E s)
    (hreturned : worker = .returned → s.stop = true ∨ E.items.length ≤ s.next) :
    Inv E acc₀ (s.setWorker w worker) where
  counts := h.counts
  working := by
    intro w' index item hw'
    rcases working_of_setWorker hw' with ⟨-, hnew⟩ | hold
    · exact absurd hnew (hidle index item)
    · exact h.working w' index item hold
  ready := h.ready
  claimed := by
    intro index hlow hhigh
    refine (h.claimed index hlow hhigh).imp id ?_
    rintro ⟨w', item, hw'⟩
    refine ⟨w', item, ?_⟩
    -- a worker with an index is another one
    have hne : w' ≠ w := by
      rintro rfl
      rw [hw'] at hfree
      exact absurd hfree (by simp)
    rw [workers_setWorker, if_neg hne, hw']
  place := h.place
  pending := by
    intro index hm
    refine (h.pending index hm).imp id ?_
    rintro ⟨w', hw'⟩
    refine ⟨w', ?_⟩
    have hne : w' ≠ w := by
      rintro rfl
      rw [hw'] at hfree
      exact absurd hfree (by simp)
    rw [workers_setWorker, if_neg hne, hw']
  asleep := by
    intro w' hw'
    rw [workers_setWorker] at hw'
    split_ifs at hw' with hw
    · exact .inl (hasleep hw')
    · exact h.asleep w' hw'
  returned := by
    intro w' hw'
    rw [workers_setWorker] at hw'
    split_ifs at hw' with hw
    · exact hreturned hw'
    · exact h.returned w' hw'

theorem Inv.claims (hw : s.workers w = .claiming)
    (hitem : E.items[s.next]? = some item) (hroom : s.next < s.merged + P.window) :
    Inv E acc₀ { s.setWorker w (.working s.next item) with next := s.next + 1 } := by
  obtain ⟨hnext, hmerged, hwindow⟩ := h.counts
  have hlt : s.next < E.items.length := (List.getElem?_eq_some_iff.mp hitem).1
  -- only the claiming worker moves
  have hother : ∀ {w' : Fin P.threads}, s.workers w' ≠ .claiming →
      (s.setWorker w (.working s.next item)).workers w' = s.workers w' := by
    intro w' hw'
    rw [workers_setWorker, if_neg]
    rintro rfl
    exact hw' hw
  constructor
  · show s.next + 1 ≤ E.items.length ∧ s.merged ≤ s.next + 1 ∧ s.next + 1 ≤ s.merged + P.window
    omega
  · intro w' index item' hw'
    show index < s.next + 1 ∧ _
    rcases working_of_setWorker hw' with ⟨-, hnew⟩ | hold
    · obtain ⟨rfl, rfl⟩ := Worker.working.inj hnew
      exact ⟨Nat.lt_succ_self _, hitem⟩
    · obtain ⟨hindex, hsame⟩ := h.working w' index item' hold
      exact ⟨Nat.lt_succ_of_lt hindex, hsame⟩
  · intro index outcome hfind
    obtain ⟨hindex, hsame⟩ := h.ready index outcome hfind
    exact ⟨Nat.lt_succ_of_lt hindex, hsame⟩
  · intro index hlow hhigh
    rcases Nat.lt_succ_iff_lt_or_eq.mp hhigh with hold | rfl
    · refine (h.claimed index hlow hold).imp id ?_
      rintro ⟨w', item', hw'⟩
      exact ⟨w', item', (hother (by rw [hw']; simp)).trans hw'⟩
    · refine .inr ⟨w, item, ?_⟩
      show (s.setWorker w _).workers w = _
      rw [workers_setWorker, if_pos rfl]
  · exact h.place
  · intro index hm
    refine (h.pending index hm).imp id ?_
    rintro ⟨w', hw'⟩
    exact ⟨w', (hother (by rw [hw']; simp)).trans hw'⟩
  · intro w' hw'
    have hold : s.workers w' = .asleep := by
      have hcases := workers_setWorker (s := s) w w' (.working s.next item)
      rw [show (s.setWorker w (.working s.next item)).workers w' = .asleep from hw'] at hcases
      split_ifs at hcases
      exact hcases.symm
    -- a worker that slept on the window would have seen no room
    rcases h.asleep w' hold with ⟨-, -, hfull⟩ | hopening
    · omega
    · exact .inr hopening
  · intro w' hw'
    have hold : s.workers w' = .returned := by
      have hcases := workers_setWorker (s := s) w w' (.working s.next item)
      rw [show (s.setWorker w (.working s.next item)).workers w' = .returned from hw'] at hcases
      split_ifs at hcases
      exact hcases.symm
    refine (h.returned w' hold).imp id fun hend => ?_
    show E.items.length ≤ s.next + 1
    omega

theorem Inv.works (hw : s.workers w = .working index item) :
    Inv E acc₀ { s.setWorker w .notifying with ready := s.ready.put index (E.work item) } := by
  have hworker : ∀ {w' : Fin P.threads} {worker : Worker}, worker ≠ .notifying →
      (s.setWorker w .notifying).workers w' = worker → s.workers w' = worker := by
    intro w' worker hne hw'
    rw [workers_setWorker] at hw'
    split_ifs at hw' with heq
    · exact absurd hw'.symm hne
    · exact hw'
  refine ⟨h.counts, fun w' i item' hw' => ?_, fun i outcome hfind => ?_, fun i hlow hhigh => ?_,
    h.place, fun i _ => .inr ⟨w, ?_⟩, fun w' hw' => ?_, fun w' hw' => ?_⟩
  · exact h.working w' i item' (hworker (by simp) hw')
  · replace hfind : (s.ready.put index (E.work item)).find? i = some outcome := hfind
    rcases Table.find?_put_eq_some.mp hfind with ⟨rfl, rfl⟩ | ⟨-, hold⟩
    · obtain ⟨hlt, hitem⟩ := h.working w i item hw
      exact ⟨hlt, item, hitem, rfl⟩
    · exact h.ready i outcome hold
  · show (∃ outcome, (s.ready.put index (E.work item)).find? i = some outcome) ∨ _
    rw [Table.find?_put]
    by_cases hi : i = index
    · rw [if_pos hi]
      exact .inl ⟨_, rfl⟩
    · rw [if_neg hi]
      refine (h.claimed i hlow hhigh).imp id ?_
      rintro ⟨w', item', hw'⟩
      have hne : w' ≠ w := by
        rintro rfl
        rw [hw] at hw'
        exact hi (Worker.working.inj hw').1.symm
      refine ⟨w', item', ?_⟩
      show (s.setWorker w .notifying).workers w' = _
      rw [workers_setWorker, if_neg hne, hw']
  · show (s.setWorker w .notifying).workers w = .notifying
    rw [workers_setWorker, if_pos rfl]
  · exact h.asleep w' (hworker (by simp) hw')
  · exact h.returned w' (hworker (by simp) hw')

theorem Inv.wakes : Inv E acc₀ { s with merger := s.merger.woken } := by
  have hplace := h.place
  cases hm : s.merger with
  | asleep index =>
    rw [hm] at hplace
    refine ⟨h.counts, h.working, h.ready, h.claimed, hplace.2, fun _ hne => ?_, fun w hw => ?_,
      h.returned⟩
    · exact absurd hne (by simp [Merger.woken])
    · refine (h.asleep w hw).imp id fun hopening => ?_
      rw [hm] at hopening
      exact hopening.elim
  | taking | notifying | merging | stopping | releasing | joining | finished =>
    have hsame : ({ s with merger := s.merger.woken } : State P τ ε π μ) = s := by
      rw [hm]
      show ({ s with merger := _ } : State P τ ε π μ) = s
      rw [show Merger.woken _ = s.merger from by rw [hm]; rfl]
    rw [← hm, hsame]
    exact h

theorem Inv.announces (hw : s.workers w = .notifying) :
    Inv E acc₀ { s.setWorker w .claiming with merger := s.merger.woken } := by
  have hwoken := h.wakes
  have hother : ∀ {w' : Fin P.threads} {worker : Worker}, worker ≠ .claiming →
      (s.setWorker w .claiming).workers w' = worker → s.workers w' = worker := by
    intro w' worker hne hw'
    rw [workers_setWorker] at hw'
    split_ifs at hw' with heq
    · exact absurd hw'.symm hne
    · exact hw'
  refine ⟨h.counts, fun w' i item hw' => h.working w' i item (hother (by simp) hw'), h.ready,
    fun i hlow hhigh => ?_, hwoken.place, fun i hm => ?_,
    fun w' hw' => hwoken.asleep w' (hother (by simp) hw'),
    fun w' hw' => h.returned w' (hother (by simp) hw')⟩
  · refine (h.claimed i hlow hhigh).imp id ?_
    rintro ⟨w', item, hw'⟩
    have hne : w' ≠ w := by
      rintro rfl
      rw [hw] at hw'
      exact absurd hw' (by simp)
    refine ⟨w', item, ?_⟩
    show (s.setWorker w .claiming).workers w' = _
    rw [workers_setWorker, if_neg hne, hw']
  · -- it sleeps no longer
    replace hm : s.merger.woken = .asleep i := hm
    cases hmerger : s.merger <;> rw [hmerger] at hm <;> exact absurd hm (by simp [Merger.woken])

theorem Inv.takes {outcome : Outcome ε π τ} (hm : s.merger = .taking index)
    (hitem : E.items[index]? = some item) (hready : s.ready.find? index = some outcome) :
    Inv E acc₀ { s with
      ready := s.ready.erase index
      merged := index + 1
      merger := .notifying index item outcome } := by
  obtain ⟨hnext, hmerged, hwindow⟩ := h.counts
  obtain ⟨hindex, item', hitem', hwork⟩ := h.ready index outcome hready
  have hplace := h.place
  rw [hm] at hplace
  obtain ⟨hat, hstop, hserial⟩ := hplace
  obtain rfl : item = item' := Option.some_inj.mp (hitem.symm.trans hitem')
  refine ⟨?_, h.working, fun i o hfind => ?_, fun i hlow hhigh => ?_,
    ⟨⟨hitem, hwork⟩, rfl, hstop, hserial⟩, fun _ hne => absurd hne (by simp),
    fun _ _ => .inr trivial, h.returned⟩
  · show s.next ≤ E.items.length ∧ index + 1 ≤ s.next ∧ s.next ≤ index + 1 + P.window
    omega
  · replace hfind : (s.ready.erase index).find? i = some o := hfind
    rw [Table.find?_erase] at hfind
    split_ifs at hfind
    exact h.ready i o hfind
  · replace hlow : index + 1 ≤ i := hlow
    have hne : i ≠ index := by omega
    refine (h.claimed i (by omega) hhigh).imp ?_ id
    rintro ⟨o, ho⟩
    refine ⟨o, ?_⟩
    show (s.ready.erase index).find? i = some o
    rw [Table.find?_erase, if_neg hne, ho]

/-- The calling thread goes on, and nothing else changes; it is not asleep, and did not owe
the workers a notification. -/
theorem Inv.setMerger {acc : μ}
    (hplace : Place E acc₀ s.merged s.stop acc merger)
    (hpending : ∀ index, merger = .asleep index → s.ready.find? index = none)
    (hopening : ¬ s.merger.opening) :
    Inv E acc₀ { s with acc := acc, merger := merger } where
  counts := h.counts
  working := h.working
  ready := h.ready
  claimed := h.claimed
  place := hplace
  pending := fun index hm => .inl (hpending index hm)
  asleep := fun w hw => .inl ((h.asleep w hw).resolve_right hopening)
  returned := h.returned

theorem Inv.wakeWorkers (hplace : Place E acc₀ s.merged s.stop s.acc merger)
    (hawake : ∀ index, merger ≠ .asleep index) :
    Inv E acc₀ { s.wakeWorkers with merger := merger } := by
  have hwoken : ∀ {w : Fin P.threads} {worker : Worker}, worker ≠ .claiming →
      (s.workers w).woken = worker → s.workers w = worker := by
    intro w worker hne hw
    cases hold : s.workers w with
    | asleep =>
      rw [hold] at hw
      exact absurd hw.symm hne
    | claiming | working | notifying | returned =>
      rw [hold] at hw
      exact hw
  refine ⟨h.counts, fun w i item hw => h.working w i item (hwoken (by simp) hw), h.ready,
    fun i hlow hhigh => ?_, hplace, fun i hm => absurd hm (hawake i), fun w hw => ?_,
    fun w hw => h.returned w (hwoken (by simp) hw)⟩
  · refine (h.claimed i hlow hhigh).imp id ?_
    rintro ⟨w, item, hw⟩
    refine ⟨w, item, ?_⟩
    show (s.workers w).woken = _
    rw [hw]
    rfl
  · have hsleeps : s.workers w = .asleep := hwoken (by simp) hw
    replace hw : (s.workers w).woken = .asleep := hw
    rw [hsleeps] at hw
    exact absurd hw (by simp [Worker.woken])

theorem Inv.step {op : Op P} {o : Option ℕ} (hstep : Step E s op s' o) :
    Inv E acc₀ s' := by
  have hplace := h.place
  cases hstep with
  | returns w hw hend =>
    exact h.setWorker (.inl hw) (by simp) (by simp) fun _ => hend
  | claims w item hw _ hitem hroom => exact h.claims hw hitem hroom
  | waits w hw hstop hlt hfull =>
    exact h.setWorker (.inl hw) (by simp) (fun _ => ⟨hstop, hlt, hfull⟩) (by simp)
  | works w index item hw => exact h.works hw
  | announces w hw => exact h.announces hw
  | stirs w hw => exact h.setWorker (.inr hw) (by simp) (by simp) (by simp)
  | ends index hm hend =>
    rw [hm] at hplace
    refine h.setMerger ?_ (by simp) (by rw [hm]; exact id)
    show E.serial acc₀ = (s.acc, .ok ())
    -- nothing is left for the serial run either
    rw [hplace.2.2, List.drop_eq_nil_of_le hend]
    rfl
  | takes index item outcome hm hitem hready => exact h.takes hm hitem hready
  | rests index hm hlt hnone =>
    rw [hm] at hplace
    refine h.setMerger ⟨hlt, hplace⟩ ?_ (by rw [hm]; exact id)
    rintro i heq
    obtain rfl := Merger.asleep.inj heq
    exact hnone
  | opens index item outcome hm =>
    rw [hm] at hplace
    exact h.wakeWorkers hplace (by simp)
  | merges index item value acc hm hmerge =>
    rw [hm] at hplace
    obtain ⟨⟨hitem, hwork⟩, hat, hstop, hserial⟩ := hplace
    refine h.setMerger ⟨hat, hstop, ?_⟩ (by simp) (by rw [hm]; exact id)
    -- the serial run merges the same item next
    rw [hserial, drop_eq_cons hitem]
    simp only [Extraction.serialFrom, hwork, hmerge]
  | fails index item outcome acc times result hm _ hresult =>
    rw [hm] at hplace
    obtain ⟨⟨hitem, hwork⟩, -, -, hserial⟩ := hplace
    refine h.setMerger ?_ (by simp) (by rw [hm]; exact id)
    show E.serial acc₀ = (acc, result)
    -- the serial run fails at the same item
    rw [hserial, drop_eq_cons hitem, hresult hwork]
  | stops times result hm =>
    rw [hm] at hplace
    exact ⟨h.counts, h.working, h.ready, h.claimed, ⟨rfl, hplace⟩,
      fun _ hne => absurd hne (by simp), fun _ _ => .inr trivial, fun _ _ => .inl rfl⟩
  | releases times result merger hm hnext =>
    rw [hm] at hplace
    rcases hnext with ⟨-, rfl⟩ | rfl
    · exact h.wakeWorkers hplace.2 (by simp)
    · exact h.wakeWorkers hplace (by simp)
  | joins result hm _ =>
    rw [hm] at hplace
    exact h.setMerger hplace (by simp) (by rw [hm]; exact id)
  | wakes => exact h.wakes

end

end Steps

theorem inv_steps {acc₀ : μ} {tr : List (Machine.Event (State P τ ε π μ) (Op P) (Option ℕ))}
    (h : (E.machine P acc₀).Steps (.initial P acc₀) tr s) : Inv E acc₀ s :=
  h.invariant (fun _ _ _ _ hinv hen hst => hinv.step (step_cases hen hst)) (inv_initial E P acc₀)

/-! ### Progress -/

theorem enabled_worker (hawake : s.workers w ≠ .asleep) (hthere : s.workers w ≠ .returned) :
    ∃ op : Op P, op.spontaneous = false ∧ Extraction.Enabled s op :=
  ⟨.worker w, rfl, hawake, hthere⟩

/-- **Progress.**  Until the call has returned, some thread can go on without a spontaneous
wake-up. -/
theorem progress {acc₀ : μ} (h : Inv E acc₀ s) : (∃ result, s.merger = .finished result)
    ∨ ∃ op : Op P, op.spontaneous = false ∧ Extraction.Enabled s op := by
  have hplace := h.place
  cases hm : s.merger with
  | finished result => exact .inl ⟨result, rfl⟩
  | taking | notifying | merging | stopping | releasing =>
    exact .inr ⟨.merger, rfl, by simp only [Extraction.Enabled, hm]⟩
  | joining result =>
    rw [hm] at hplace
    by_cases hall : ∀ w, s.workers w = .returned
    · exact .inr ⟨.merger, rfl, by simpa only [Extraction.Enabled, hm] using hall⟩
    · -- a worker that is still there is awake, for it was woken after the stop
      obtain ⟨w, hw⟩ := not_forall.mp hall
      refine .inr (enabled_worker (w := w) (fun hasleep => ?_) hw)
      rcases h.asleep w hasleep with ⟨hstop, -⟩ | hopening
      · rw [hplace.1] at hstop
        exact absurd hstop (by simp)
      · rw [hm] at hopening
        exact hopening
  | asleep index =>
    rw [hm] at hplace
    obtain ⟨hlt, hat, hstop, -⟩ := hplace
    refine .inr ?_
    rcases h.pending index hm with hnone | ⟨w, hw⟩
    · by_cases hclaimed : index < s.next
      · -- somebody works on the item
        rcases h.claimed index (by omega) hclaimed with ⟨o, ho⟩ | ⟨w, item, hw⟩
        · rw [hnone] at ho
          exact absurd ho (by simp)
        · exact enabled_worker (w := w) (by rw [hw]; simp) (by rw [hw]; simp)
      · -- nobody is ahead, so no worker sleeps or has returned
        refine enabled_worker (w := ⟨0, P.threads_pos⟩) (fun hasleep => ?_) (fun hreturned => ?_)
        · rcases h.asleep _ hasleep with ⟨-, -, hfull⟩ | hopening
          · have := P.window_pos
            omega
          · rw [hm] at hopening
            exact hopening
        · rcases h.returned _ hreturned with hstopped | hend
          · rw [hstop] at hstopped
            exact absurd hstopped (by simp)
          · omega
    · exact enabled_worker (w := w) (by rw [hw]; simp) (by rw [hw]; simp)

end SourceWalk

/-
Runs of a state machine.

A `Machine` takes one input at a time, in any order its guard allows, and
reports an output for each.  `Steps` is a run with its history: the list of
events, each with the state before and after it.  Safety results are proved by

* `Steps.invariant` — what holds initially and is kept by each step holds in
  every state of the run;
* `Steps.relation` — a reflexive and transitive relation that each step
  respects relates any state of a run to every later one;
* `Steps.around`, `Steps.split` — an event of a run is a step between two parts of
  the run.

`exec` and `trace` run a machine on a list of inputs.
-/
import Mathlib

/-- A guarded, deterministic machine with inputs `ι` and outputs `ο`. -/
structure Machine (σ ι ο : Type) where
  init : σ → Prop
  enabled : σ → ι → Prop
  step : σ → ι → σ × ο

namespace Machine

/-- One step of a run, with the states around it. -/
structure Event (σ ι ο : Type) where
  pre : σ
  op : ι
  out : ο
  post : σ

variable {σ ι ο : Type} (M : Machine σ ι ο)

/-- `M.Steps s tr s'`: the machine goes from `s` to `s'` through the events `tr`. -/
inductive Steps (s : σ) : List (Event σ ι ο) → σ → Prop
  | refl : Steps s [] s
  | snoc {tr : List (Event σ ι ο)} {s₁ s₂ : σ} {i : ι} {o : ο} :
      Steps s tr s₁ → M.enabled s₁ i → M.step s₁ i = (s₂, o) →
      Steps s (tr ++ [⟨s₁, i, o, s₂⟩]) s₂

/-- A state some run from an initial state ends in. -/
def Reachable (s : σ) : Prop := ∃ s₀ tr, M.init s₀ ∧ M.Steps s₀ tr s

variable {M}

variable {s s' : σ} {tr : List (Event σ ι ο)} {P : σ → Prop} {e : Event σ ι ο} {is : List ι}

theorem Steps.trans {s1 s2 : σ} {tr' : List (Event σ ι ο)} (h : M.Steps s tr s1)
    (h' : M.Steps s1 tr' s2) : M.Steps s (tr ++ tr') s2 := by
  induction h' with
  | refl => simpa using h
  | snoc _ hen hst ih =>
    rw [← List.append_assoc]
    exact ih.snoc hen hst

theorem Reachable.steps (h : M.Reachable s) (h' : M.Steps s tr s') : M.Reachable s' := by
  obtain ⟨s0, tr0, h0, hs⟩ := h
  exact ⟨s0, tr0 ++ tr, h0, hs.trans h'⟩

theorem Reachable.initial (h : M.init s) : M.Reachable s := ⟨s, [], h, .refl⟩

/-- **Invariant rule** along a run that starts anywhere. -/
theorem Steps.invariant (hstep : ∀ s i s' o, P s → M.enabled s i → M.step s i = (s', o) → P s')
    (h : M.Steps s tr s') (h0 : P s) : P s' := by
  induction h with
  | refl => exact h0
  | snoc _ hen hst ih => exact hstep _ _ _ _ ih hen hst

/-- **Invariant rule** for the reachable states. -/
theorem Reachable.invariant (hinit : ∀ s, M.init s → P s)
    (hstep : ∀ s i s' o, P s → M.enabled s i → M.step s i = (s', o) → P s') (h : M.Reachable s) :
    P s := by
  obtain ⟨s0, tr, h0, hs⟩ := h
  exact hs.invariant hstep (hinit s0 h0)

/-- **Relation rule**: what each step does to a reachable state, any number of
steps do. -/
theorem Steps.relation {R : σ → σ → Prop} (hrefl : ∀ s, R s s)
    (htrans : ∀ a b c, R a b → R b c → R a c)
    (hinv : ∀ s i s' o, P s → M.enabled s i → M.step s i = (s', o) → P s' ∧ R s s')
    (h : M.Steps s tr s') (h0 : P s) : P s' ∧ R s s' := by
  induction h with
  | refl => exact ⟨h0, hrefl _⟩
  | snoc _ hen hst ih =>
    obtain ⟨hP, hR⟩ := ih
    obtain ⟨hP', hR'⟩ := hinv _ _ _ _ hP hen hst
    exact ⟨hP', htrans _ _ _ hR hR'⟩

theorem Steps.around {tr1 tr2 : List (Event σ ι ο)} (h : M.Steps s tr s')
    (htr : tr = tr1 ++ e :: tr2) :
    M.Steps s tr1 e.pre ∧ M.enabled e.pre e.op ∧ M.step e.pre e.op = (e.post, e.out)
      ∧ M.Steps e.post tr2 s' := by
  induction h generalizing tr2 with
  | refl => simp at htr
  | @snoc tr s1 s2 i o hs hen hst ih =>
    rcases List.eq_nil_or_concat tr2 with rfl | ⟨tr3, x, rfl⟩
    · obtain ⟨rfl, hlast⟩ := List.append_inj' htr rfl
      obtain ⟨rfl, -⟩ := List.cons.inj hlast
      exact ⟨hs, hen, hst, .refl⟩
    · rw [List.concat_eq_append, ← List.cons_append, ← List.append_assoc] at htr
      obtain ⟨rfl, hlast⟩ := List.append_inj' htr rfl
      obtain ⟨rfl, -⟩ := List.cons.inj hlast
      obtain ⟨h1, h2, h3, h4⟩ := ih rfl
      rw [List.concat_eq_append]
      exact ⟨h1, h2, h3, h4.snoc hen hst⟩

theorem Steps.split (h : M.Steps s tr s') (he : e ∈ tr) :
    ∃ tr1 tr2, tr = tr1 ++ e :: tr2 ∧ M.Steps s tr1 e.pre ∧ M.enabled e.pre e.op
      ∧ M.step e.pre e.op = (e.post, e.out) ∧ M.Steps e.post tr2 s' := by
  obtain ⟨tr1, tr2, rfl⟩ := List.append_of_mem he
  exact ⟨tr1, tr2, rfl, h.around rfl⟩

/-! ### Given inputs -/

/-- The state a list of inputs leads to. -/
def exec (M : Machine σ ι ο) (s : σ) : List ι → σ
  | [] => s
  | i :: is => exec M (M.step s i).1 is

/-- The events on the way. -/
def trace (M : Machine σ ι ο) (s : σ) : List ι → List (Event σ ι ο)
  | [] => []
  | i :: is => ⟨s, i, (M.step s i).2, (M.step s i).1⟩ :: trace M (M.step s i).1 is

theorem exec_append (s : σ) (is js : List ι) :
    M.exec s (is ++ js) = M.exec (M.exec s is) js := by
  induction is generalizing s with
  | nil => rfl
  | cons i is ih => exact ih _

theorem trace_append (s : σ) (is js : List ι) :
    M.trace s (is ++ js) = M.trace s is ++ M.trace (M.exec s is) js := by
  induction is generalizing s with
  | nil => rfl
  | cons i is ih => simp only [List.cons_append, trace, exec, ih]

/-- The event of an input after others. -/
def eventAfter (M : Machine σ ι ο) (s : σ) (is : List ι) (i : ι) : Event σ ι ο :=
  ⟨M.exec s is, i, (M.step (M.exec s is) i).2, (M.step (M.exec s is) i).1⟩

theorem trace_eventAfter (s : σ) (is : List ι) (i : ι) (js : List ι) :
    M.trace s (is ++ i :: js)
      = M.trace s is ++ M.eventAfter s is i :: M.trace (M.eventAfter s is i).post js := by
  rw [trace_append]
  rfl

theorem steps_trace (hen : ∀ e ∈ M.trace s is, M.enabled e.pre e.op) :
    M.Steps s (M.trace s is) (M.exec s is) := by
  induction is generalizing s with
  | nil => exact .refl
  | cons i is ih =>
    obtain ⟨hfirst, hrest⟩ := List.forall_mem_cons.mp hen
    have hstep : M.Steps s [⟨s, i, (M.step s i).2, (M.step s i).1⟩] (M.step s i).1 :=
      Steps.refl.snoc hfirst rfl
    exact hstep.trans (ih hrest)

theorem op_of_mem_trace (he : e ∈ M.trace s is) :
    e.op ∈ is := by
  induction is generalizing s with
  | nil => exact absurd he (by simp [trace])
  | cons i is ih =>
    rcases List.mem_cons.mp he with rfl | he
    · exact List.mem_cons_self
    · exact List.mem_cons_of_mem _ (ih he)

theorem steps_exec (hen : ∀ s, ∀ i ∈ is, M.enabled s i) :
    M.Steps s (M.trace s is) (M.exec s is) :=
  steps_trace fun e he => hen e.pre e.op (op_of_mem_trace he)

end Machine

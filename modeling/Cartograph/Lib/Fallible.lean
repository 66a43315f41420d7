/-
Code that returns or fails, and that leaves a changed state either way.

A computation of `Interference` need not be a function; this code is one, and can be run.

* `leaving` — what is done on every way out, as by a destructor;
* `Ends P x Q E` — from a state with `P`, a result satisfies `Q` and a failure `E`, with the rules of
  `Interference` for it;
* `Looks` — code that leaves some view of the state as it is.
-/
import Cartograph.Lib.Interference

/-- Code over states `σ` that fails with `ε` or returns `α`. -/
def Fallible (σ ε α : Type) : Type := σ → Except ε α × σ

namespace Fallible

open Comp

variable {σ ε α β γ : Type}

/-! ### Constructs -/

def done (a : α) : Fallible σ ε α := fun s => (.ok a, s)

def fail (e : ε) : Fallible σ ε α := fun s => (.error e, s)

/-- The first failure ends a sequence. -/
def andThen (x : Fallible σ ε α) (f : α → Fallible σ ε β) : Fallible σ ε β := fun s =>
  match x s with
  | (.ok a, t) => f a t
  | (.error e, t) => (.error e, t)

instance : Monad (Fallible σ ε) where
  pure := done
  bind := andThen

def check (p : Prop) [Decidable p] (e : ε) : Fallible σ ε Unit := if p then done () else fail e

def state : Fallible σ ε σ := fun s => (.ok s, s)

def change (f : σ → σ) : Fallible σ ε Unit := fun s => (.ok (), f s)

/-- The result of code as a value, a failure included. -/
def result (x : Fallible σ ε α) : Fallible σ ε (Except ε α) := fun s => (.ok (x s).1, (x s).2)

/-- What is done on every way out. -/
def leaving (x : Fallible σ ε α) (f : σ → σ) : Fallible σ ε α := fun s => ((x s).1, f (x s).2)

/-- The code as a relation. -/
def comp (x : Fallible σ ε α) : Comp σ ε α := fun s r s' => x s = (r, s')

theorem comp_done (a : α) : (done a : Fallible σ ε α).comp = Comp.done a := by
  funext s r s'
  rw [comp, done, Prod.mk.injEq, Comp.done]
  exact propext (and_congr eq_comm eq_comm)

theorem comp_fail (e : ε) : (fail e : Fallible σ ε α).comp = Comp.fail e := by
  funext s r s'
  rw [comp, fail, Prod.mk.injEq, Comp.fail]
  exact propext (and_congr eq_comm eq_comm)

theorem comp_bind (x : Fallible σ ε α) (f : α → Fallible σ ε β) :
    (x >>= f).comp = x.comp >>= fun a => (f a).comp := by
  funext s r s'
  refine propext ?_
  show andThen x f s = (r, s') ↔ Comp.andThen x.comp (fun a => (f a).comp) s r s'
  rw [andThen, Comp.andThen]
  simp only [comp]
  cases hx : x s with
  | mk r0 t =>
    cases r0 with
    | ok a => simp
    | error e => simp [eq_comm, and_comm]

/-! ### Triples -/

/-- From a state with `P`, a result satisfies `Q` and a failure `E`. -/
def Ends (P : σ → Prop) (x : Fallible σ ε α) (Q : α → σ → Prop) (E : ε → σ → Prop) : Prop :=
  Meets P x.comp Q E

variable {e : ε} {f : α → Fallible σ ε β} {p : Prop}

section Rules

variable {P P' : σ → Prop} {Q Q' : α → σ → Prop} {E E' : ε → σ → Prop} {x : Fallible σ ε α}

theorem ends_pure {a : α} (h : ∀ s, P s → Q a s) : Ends P (pure a : Fallible σ ε α) Q E := by
  show Meets P (comp (done a)) Q E
  rw [comp_done]
  exact meets_pure h

theorem ends_fail (h : ∀ s, P s → E e s) : Ends P (fail e : Fallible σ ε α) Q E := by
  rw [Ends, comp_fail]
  exact meets_fail h

/-- **Sequence rule.** -/
theorem ends_bind {Q' : β → σ → Prop} (hx : Ends P x Q E) (hf : ∀ a, Ends (Q a) (f a) Q' E) :
    Ends P (x >>= f) Q' E := by
  rw [Ends, comp_bind]
  exact meets_bind hx hf

theorem ends_check [Decidable p] {Q : Unit → σ → Prop} (hok : p → ∀ s, P s → Q () s)
    (herror : ¬p → ∀ s, P s → E e s) :
    Ends P (check p e) Q E := by
  rw [check]
  split_ifs with hp
  · exact ends_pure (hok hp)
  · exact ends_fail (herror hp)

theorem ends_of (hok : ∀ s a s', P s → x s = (.ok a, s') → Q a s')
    (herror : ∀ s e s', P s → x s = (.error e, s') → E e s') : Ends P x Q E := ⟨hok, herror⟩

theorem Ends.mono (h : Ends P x Q E) (hP : ∀ s, P' s → P s) (hQ : ∀ a s, Q a s → Q' a s)
    (hE : ∀ e s, E e s → E' e s) : Ends P' x Q' E' := Meets.mono h hP hQ hE

theorem ends_assume (hp : ∀ s, P s → p) (h : p → Ends P x Q E) : Ends P x Q E :=
  meets_assume hp h

theorem ends_change {f : σ → σ} {Q : Unit → σ → Prop} (h : ∀ s, P s → Q () (f s)) :
    Ends P (change f : Fallible σ ε Unit) Q E := by
  refine ends_of (fun s a s' hs heq => ?_) fun s e s' hs heq => ?_
  · obtain ⟨-, rfl⟩ := Prod.mk.inj heq
    exact h s hs
  · cases heq

theorem ends_state : Ends P (state : Fallible σ ε σ) (fun a s => P s ∧ a = s) E := by
  refine ends_of (fun s a s' hs heq => ?_) fun s e s' hs heq => ?_
  · obtain ⟨ha, rfl⟩ := Prod.mk.inj heq
    exact ⟨hs, (Except.ok.inj ha).symm⟩
  · cases heq

theorem ends_result {Q : Except ε α → σ → Prop} {E' : ε → σ → Prop}
    (h : Ends P x (fun a s => Q (.ok a) s) fun e s => Q (.error e) s) : Ends P x.result Q E' := by
  refine ends_of (fun s r s' hs heq => ?_) fun s e s' hs heq => ?_
  · obtain ⟨hr, rfl⟩ := Prod.mk.inj heq
    obtain rfl := Except.ok.inj hr
    cases hx : x s with
    | mk r t =>
      cases r with
      | ok a => exact h.ok s a t hs hx
      | error e => exact h.error s e t hs hx
  · cases heq

/-- **Rule of destructors**: what is done on the way out. -/
theorem ends_leaving {f : σ → σ} (h : Ends P x (fun a s => Q a (f s)) fun e s => E e (f s)) :
    Ends P (x.leaving f) Q E := by
  refine ends_of (fun s a s' hs heq => ?_) fun s e s' hs heq => ?_
  · obtain ⟨hr, rfl⟩ := Prod.mk.inj heq
    exact h.ok s a _ hs (Prod.ext hr rfl)
  · obtain ⟨hr, rfl⟩ := Prod.mk.inj heq
    exact h.error s e _ hs (Prod.ext hr rfl)

end Rules

/-! ### Code that only looks -/

section

variable {v : σ → γ} {x : Fallible σ ε α}

/-- The view `v` of the state is the same after the code. -/
def Looks (v : σ → γ) (x : Fallible σ ε α) : Prop := ∀ s, v (x s).2 = v s

theorem looks_pure (a : α) : Looks v (pure a : Fallible σ ε α) := fun _ => rfl

theorem looks_fail (e : ε) : Looks v (fail e : Fallible σ ε α) := fun _ => rfl

theorem looks_check (p : Prop) [Decidable p] (e : ε) : Looks v (check p e) := by
  rw [check]
  split_ifs
  · exact looks_pure ()
  · exact looks_fail e

theorem looks_state : Looks v (state : Fallible σ ε σ) := fun _ => rfl

theorem looks_result (h : Looks v x) : Looks v x.result := h

theorem looks_bind (hx : Looks v x) (hf : ∀ a, Looks v (f a)) :
    Looks v (x >>= f) := by
  intro s
  show v (andThen x f s).2 = v s
  have hs := hx s
  rw [andThen]
  cases heq : x s with
  | mk r t =>
    rw [heq] at hs
    cases r with
    | ok a => exact (hf a t).trans hs
    | error e => exact hs

theorem Looks.ends {P : γ → Prop} (h : Looks v x) :
    Ends (fun s => P (v s)) x (fun _ s => P (v s)) fun _ s => P (v s) := by
  refine ends_of (fun s a s' hs heq => ?_) fun s e s' hs heq => ?_
  · have hv := h s
    rw [heq] at hv
    rwa [hv]
  · have hv := h s
    rw [heq] at hv
    rwa [hv]

end

end Fallible

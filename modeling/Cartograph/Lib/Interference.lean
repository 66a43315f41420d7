/-
Sequential code over a state that others change.

A computation relates the state it starts in, its result and the state it ends in.  It
may fail, and what it takes from outside may be anything, so the relation need not be a
function.  Between two of its atomic actions the others take any number of steps of a
relation `R`; `atomic R f` is one atomic action after them.

* `Meets P c Q E` — from a state with `P`, every result of `c` satisfies `Q` and every
  failure `E`;
* one rule for each construct: `meets_bind`, `meets_atomic`, `meets_check` and so on;
* `meets_iterate` — a loop keeps its invariant;
* `meets_attempts` — attempts that each use up what made the last one fail are enough.
-/
import Mathlib

/-- A computation over states `σ` that fails with `ε` or returns `α`. -/
def Comp (σ ε α : Type) : Type := σ → Except ε α → σ → Prop

namespace Comp

variable {σ ε ε' α β : Type}

/-! ### Constructs -/

def done (a : α) : Comp σ ε α := fun s r s' => r = .ok a ∧ s' = s

def fail (e : ε) : Comp σ ε α := fun s r s' => r = .error e ∧ s' = s

/-- The first failure ends a sequence. -/
def andThen (c : Comp σ ε α) (f : α → Comp σ ε β) : Comp σ ε β := fun s r s' =>
  (∃ a t, c s (.ok a) t ∧ f a t r s') ∨ ∃ e, c s (.error e) s' ∧ r = .error e

instance : Monad (Comp σ ε) where
  pure := done
  bind := andThen

/-- Go on when `p` holds, fail with `e` otherwise. -/
def check (p : Prop) [Decidable p] (e : ε) : Comp σ ε Unit := if p then done () else fail e

/-- A result from outside, one of those `p` allows. -/
def outside (p : Except ε α → Prop) : Comp σ ε α := fun s r s' => p r ∧ s' = s

/-- Any value at all. -/
def any : Comp σ ε α := outside fun r => ∃ a, r = .ok a

/-- One atomic action, after steps of the others. -/
def atomic (R : σ → σ → Prop) (f : σ → σ × Except ε α) : Comp σ ε α := fun s r s' =>
  ∃ t, Relation.ReflTransGen R s t ∧ f t = (s', r)

/-- The same computation, its failures under other names. -/
def mapError (f : ε → ε') (c : Comp σ ε α) : Comp σ ε' α := fun s r s' =>
  ∃ r₀, c s r₀ s' ∧ r = r₀.mapError f

/-- The result of a computation as a value, a failure included. -/
def result (c : Comp σ ε α) : Comp σ ε' (Except ε α) := fun s r s' =>
  ∃ r₀, c s r₀ s' ∧ r = .ok r₀

/-- A computation whose failures `handle` takes over. -/
def onError (c : Comp σ ε α) (handle : ε → Comp σ ε' α) : Comp σ ε' α :=
  c.result.andThen fun r => match r with
    | .ok a => done a
    | .error e => handle e

/-- Repeat a body that hands a value from round to round, until it has a result. -/
inductive Iterates (body : α → Comp σ ε (α ⊕ β)) : α → Comp σ ε β
  | again {a a' : α} {s t s' : σ} {r : Except ε β} :
      body a s (.ok (.inl a')) t → Iterates body a' t r s' → Iterates body a s r s'
  | result {a : α} {b : β} {s s' : σ} :
      body a s (.ok (.inr b)) s' → Iterates body a s (.ok b) s'
  | failed {a : α} {e : ε} {s s' : σ} :
      body a s (.error e) s' → Iterates body a s (.error e) s'

def iterate (body : α → Comp σ ε (α ⊕ β)) (a : α) : Comp σ ε β := Iterates body a

/-- At most `n` attempts; `none` when every one of them asks for another. -/
def attempts (body : Comp σ ε (Option α)) : ℕ → Comp σ ε (Option α)
  | 0 => done none
  | n + 1 => body.andThen fun r => match r with
    | some a => done (some a)
    | none => attempts body n

/-! ### Triples -/

/-- From a state with `P`, every result satisfies `Q` and every failure `E`. -/
structure Meets (P : σ → Prop) (c : Comp σ ε α) (Q : α → σ → Prop) (E : ε → σ → Prop) : Prop where
  ok : ∀ s a s', P s → c s (.ok a) s' → Q a s'
  error : ∀ s e s', P s → c s (.error e) s' → E e s'

/-- The condition on a result that comes as a value. -/
def Either (Q : α → σ → Prop) (E : ε → σ → Prop) : Except ε α → σ → Prop
  | .ok a => Q a
  | .error e => E e

section Rules

variable {P P' : σ → Prop} {Q Q' : α → σ → Prop} {E E' : ε → σ → Prop} {c : Comp σ ε α}

theorem Meets.mono (h : Meets P c Q E) (hP : ∀ s, P' s → P s) (hQ : ∀ a s, Q a s → Q' a s)
    (hE : ∀ e s, E e s → E' e s) : Meets P' c Q' E' where
  ok s a s' hs hc := hQ a s' (h.ok s a s' (hP s hs) hc)
  error s e s' hs hc := hE e s' (h.error s e s' (hP s hs) hc)

theorem meets_assume {p : Prop} (hp : ∀ s, P s → p) (h : p → Meets P c Q E) : Meets P c Q E where
  ok s a s' hs hc := (h (hp s hs)).ok s a s' hs hc
  error s e s' hs hc := (h (hp s hs)).error s e s' hs hc

theorem meets_pure {a : α} (h : ∀ s, P s → Q a s) : Meets P (pure a : Comp σ ε α) Q E where
  ok s b s' hs hc := by
    obtain ⟨heq, rfl⟩ := hc
    obtain rfl := Except.ok.inj heq
    exact h s' hs
  error s e s' _ hc := absurd hc.1 (by simp)

theorem meets_fail {e : ε} (h : ∀ s, P s → E e s) : Meets P (fail e : Comp σ ε α) Q E where
  ok s b s' _ hc := absurd hc.1 (by simp)
  error s e' s' hs hc := by
    obtain ⟨heq, rfl⟩ := hc
    obtain rfl := Except.error.inj heq
    exact h s' hs

/-- **Sequence rule.** -/
theorem meets_bind {f : α → Comp σ ε β} {Q' : β → σ → Prop} (hc : Meets P c Q E)
    (hf : ∀ a, Meets (Q a) (f a) Q' E) : Meets P (c >>= f) Q' E where
  ok s b s' hs h := by
    rcases h with ⟨a, t, hca, hfa⟩ | ⟨e, -, heq⟩
    · exact (hf a).ok t b s' (hc.ok s a t hs hca) hfa
    · exact absurd heq (by simp)
  error s e s' hs h := by
    rcases h with ⟨a, t, hca, hfa⟩ | ⟨e', hce, heq⟩
    · exact (hf a).error t e s' (hc.ok s a t hs hca) hfa
    · obtain rfl := Except.error.inj heq
      exact hc.error s e s' hs hce

theorem meets_check {p : Prop} [Decidable p] {e : ε} {Q : Unit → σ → Prop}
    (hok : p → ∀ s, P s → Q () s) (herror : ¬p → ∀ s, P s → E e s) :
    Meets P (check p e) Q E := by
  unfold check
  split_ifs with hp
  · exact meets_pure (hok hp)
  · exact meets_fail (herror hp)

theorem meets_outside {p : Except ε α → Prop} (hok : ∀ a s, p (.ok a) → P s → Q a s)
    (herror : ∀ e s, p (.error e) → P s → E e s) : Meets P (outside p) Q E where
  ok s a s' hs hc := by
    obtain ⟨hp, rfl⟩ := hc
    exact hok a s' hp hs
  error s e s' hs hc := by
    obtain ⟨hp, rfl⟩ := hc
    exact herror e s' hp hs

theorem meets_any (h : ∀ a s, P s → Q a s) : Meets P (any : Comp σ ε α) Q E := by
  refine meets_outside (fun a s _ hs => h a s hs) ?_
  rintro e s ⟨a, heq⟩ -
  exact absurd heq (by simp)

/-- `P` survives whatever the others do. -/
def Stable (R : σ → σ → Prop) (P : σ → Prop) : Prop := ∀ s s', P s → R s s' → P s'

theorem Stable.steps {R : σ → σ → Prop} (h : Stable R P) {s s' : σ}
    (hsteps : Relation.ReflTransGen R s s') (hs : P s) : P s' := by
  induction hsteps with
  | refl => exact hs
  | tail _ hstep ih => exact h _ _ ih hstep

/-- **Rule of atomic actions**: a stable precondition still holds when the action is taken. -/
theorem meets_atomic {R : σ → σ → Prop} {f : σ → σ × Except ε α} (hstable : Stable R P)
    (hok : ∀ s a s', P s → f s = (s', .ok a) → Q a s')
    (herror : ∀ s e s', P s → f s = (s', .error e) → E e s') : Meets P (atomic R f) Q E where
  ok s a s' hs hc := by
    obtain ⟨t, hsteps, hf⟩ := hc
    exact hok t a s' (hstable.steps hsteps hs) hf
  error s e s' hs hc := by
    obtain ⟨t, hsteps, hf⟩ := hc
    exact herror t e s' (hstable.steps hsteps hs) hf

theorem meets_mapError {f : ε → ε'} {E : ε' → σ → Prop} (h : Meets P c Q fun e s => E (f e) s) :
    Meets P (c.mapError f) Q E where
  ok s a s' hs hc := by
    obtain ⟨r0 | a0, hc, heq⟩ := hc
    · exact absurd heq (by simp [Except.mapError])
    · obtain rfl := Except.ok.inj heq
      exact h.ok s a s' hs hc
  error s e s' hs hc := by
    obtain ⟨e0 | a0, hc, heq⟩ := hc
    · obtain rfl := Except.error.inj heq
      exact h.error s e0 s' hs hc
    · exact absurd heq (by simp [Except.mapError])

theorem meets_result {Q : Except ε α → σ → Prop} {E : ε' → σ → Prop}
    (h : Meets P c (fun a s => Q (.ok a) s) fun e s => Q (.error e) s) :
    Meets P (c.result : Comp σ ε' (Except ε α)) Q E where
  ok s r s' hs hc := by
    obtain ⟨e | a, hc, heq⟩ := hc
    · obtain rfl := Except.ok.inj heq
      exact h.error s e s' hs hc
    · obtain rfl := Except.ok.inj heq
      exact h.ok s a s' hs hc
  error s e s' _ hc := by
    obtain ⟨_, -, heq⟩ := hc
    exact absurd heq (by simp)

/-- **Rule of handlers**: the handler starts from what the failure leaves. -/
theorem meets_onError {handle : ε → Comp σ ε' α} {E' : ε' → σ → Prop} (hc : Meets P c Q E)
    (hhandle : ∀ e, Meets (E e) (handle e) Q E') : Meets P (c.onError handle) Q E' := by
  refine meets_bind (Q := Either Q E) (meets_result hc) ?_
  rintro (e | a)
  · exact hhandle e
  · exact meets_pure fun s hs => hs

/-- **Rule of loops**: a body that keeps the invariant from round to round. -/
theorem meets_iterate {I : α → σ → Prop} {body : α → Comp σ ε (α ⊕ β)} {Q : β → σ → Prop}
    (hbody : ∀ a, Meets (I a) (body a) (fun r s => Sum.elim (I · s) (Q · s) r) E) (a : α) :
    Meets (I a) (iterate body a) Q E := by
  have hrun : ∀ s r s', iterate body a s r s' → I a s →
      (∀ b, r = .ok b → Q b s') ∧ ∀ e, r = .error e → E e s' := by
    intro s r s' h
    induction h with
    | again hround _ ih =>
      intro hI
      exact ih ((hbody _).ok _ _ _ hI hround)
    | result hround =>
      intro hI
      refine ⟨fun b heq => ?_, fun e heq => absurd heq (by simp)⟩
      obtain rfl := Except.ok.inj heq
      exact (hbody _).ok _ _ _ hI hround
    | failed hround =>
      intro hI
      refine ⟨fun b heq => absurd heq (by simp), fun e heq => ?_⟩
      obtain rfl := Except.error.inj heq
      exact (hbody _).error _ _ _ hI hround
  exact ⟨fun s b s' hI h => (hrun s _ s' h hI).1 b rfl,
    fun s e s' hI h => (hrun s _ s' h hI).2 e rfl⟩

/-- **Rule of attempts**: when an attempt that asks for another one lowers the measure, and
no state has measure zero, some attempt is the last. -/
theorem meets_attempts {I : ℕ → σ → Prop} {m : Comp σ ε (Option α)}
    (hzero : ∀ s, ¬ I 0 s)
    (hbody : ∀ n, Meets (I (n + 1)) m (fun r s => r.elim (I n s) (Q · s)) E) (n : ℕ) :
    Meets (I n) (attempts m n) (fun r s => r.elim False (Q · s)) E := by
  induction n with
  | zero => exact ⟨fun s a s' hs => absurd hs (hzero s), fun s e s' hs => absurd hs (hzero s)⟩
  | succ n ih =>
    refine meets_bind (hbody n) ?_
    rintro (- | a)
    · exact ih
    · exact meets_pure fun s hs => hs

end Rules

end Comp

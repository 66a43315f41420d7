/-
Sequential code with early exits.

A fallible routine is a chain of checks and calls in `Except`.  `ensure` is one
check; the lemmas below turn "the chain returned `ok`" into the conjunction of
its checks and intermediate results, and "the chain returned `error`" into the
position it failed at, so that no proof has to unfold the monad.
-/
import Mathlib

namespace Checked

variable {ε α β : Type}

/-- Go on when `c` holds, fail with `e` otherwise. -/
def ensure (c : Prop) [Decidable c] (e : ε) : Except ε Unit :=
  if c then .ok () else .error e

variable {c : Prop} {e : ε} {x : Except ε α} {f : α → Except ε β} {a : α} {σ : Type} {l : List α}
  {l' : List β} {s : σ}

theorem ensure_eq_ok [Decidable c] {u : Unit} :
    ensure c e = .ok u ↔ c := by
  unfold ensure
  by_cases h : c
  · simp [h]
  · simp [h]

variable {e' : ε} {o : Option α} {body : σ → Except ε (α × σ)} {s' : σ}

theorem ensure_eq_error [Decidable c] :
    ensure c e = .error e' ↔ ¬c ∧ e = e' := by
  unfold ensure
  by_cases h : c
  · simp [h]
  · simp [h]

theorem ensure_of [Decidable c] (h : c) (e : ε) : ensure c e = .ok () := if_pos h

theorem ok_bind (a : α) (f : α → Except ε β) : ((.ok a : Except ε α) >>= f) = f a := rfl

theorem bind_eq_ok {b : β} :
    (x >>= f) = .ok b ↔ ∃ a, x = .ok a ∧ f a = .ok b := by
  cases x with
  | error e | ok a => simp [bind, Except.bind]

theorem bind_eq_error :
    (x >>= f) = .error e ↔ x = .error e ∨ ∃ a, x = .ok a ∧ f a = .error e := by
  cases x with
  | error e' | ok a => simp [bind, Except.bind]

theorem pure_eq_ok {b : α} : (pure a : Except ε α) = .ok b ↔ a = b := by
  simp [pure, Except.pure]

theorem pure_ne_error : (pure a : Except ε α) ≠ .error e := by
  simp [pure, Except.pure]

theorem mapError_eq_ok {ε' : Type} {f : ε → ε'} :
    x.mapError f = .ok a ↔ x = .ok a := by
  cases x <;> simp [Except.mapError]

/-- The value of an option, or the error `e`. -/
def orFail (o : Option α) (e : ε) : Except ε α :=
  match o with
  | some a => .ok a
  | none => .error e

theorem orFail_eq_ok :
    orFail o e = .ok a ↔ o = some a := by
  cases o <;> simp [orFail]

theorem orFail_eq_error :
    orFail o e = .error e' ↔ o = none ∧ e = e' := by
  cases o <;> simp [orFail]

theorem toOption_eq_some {r : Except ε α} : r.toOption = some a ↔ r = .ok a := by
  cases r <;> simp [Except.toOption]

theorem eq_ok_of_toOption {x : σ × Except ε α} (h : x.2.toOption = some a) :
    x = (x.1, .ok a) := by
  obtain ⟨s, r⟩ := x
  exact congrArg (Prod.mk s) (toOption_eq_some.mp h)

theorem mapM_ok (h : ∀ a ∈ l, ∃ b, f a = .ok b) :
    ∃ l', l.mapM f = .ok l' := by
  induction l with
  | nil => exact ⟨[], rfl⟩
  | cons a rest ih =>
    obtain ⟨b, hb⟩ := h a (List.mem_cons_self ..)
    obtain ⟨l', hl'⟩ := ih fun x hx => h x (List.mem_cons_of_mem _ hx)
    refine ⟨b :: l', ?_⟩
    rw [List.mapM_cons, hb]
    show (List.mapM f rest >>= fun l => pure (b :: l)) = _
    rw [hl']
    rfl

theorem mapM_eq_ok (h : l.mapM f = .ok l') :
    List.Forall₂ (fun a b => f a = .ok b) l l' := by
  induction l generalizing l' with
  | nil =>
    obtain rfl := Except.ok.inj h
    exact .nil
  | cons a rest ih =>
    rw [List.mapM_cons, bind_eq_ok] at h
    obtain ⟨b, hb, h⟩ := h
    obtain ⟨bs, hbs, h⟩ := bind_eq_ok.mp h
    obtain rfl := pure_eq_ok.mp h
    exact .cons hb (ih hbs)

theorem mem_mapM_ok (h : l.mapM f = .ok l') (b : β) : b ∈ l' ↔ ∃ a ∈ l, f a = .ok b := by
  have hitems := mapM_eq_ok h
  clear h
  induction hitems with
  | nil => simp
  | @cons a b' l l' ha _ ih =>
    constructor
    · intro hmem
      rcases List.mem_cons.mp hmem with rfl | hmem
      · exact ⟨a, List.mem_cons_self, ha⟩
      · obtain ⟨x, hx, hb⟩ := ih.mp hmem
        exact ⟨x, List.mem_cons_of_mem _ hx, hb⟩
    · rintro ⟨x, hx, hb⟩
      rcases List.mem_cons.mp hx with rfl | hx
      · rw [Except.ok.inj (hb.symm.trans ha)]
        exact List.mem_cons_self
      · exact List.mem_cons_of_mem _ (ih.mpr ⟨x, hx, hb⟩)

theorem ok_of_mapM_ok (h : l.mapM f = .ok l') (ha : a ∈ l) : ∃ b, f a = .ok b := by
  have hitems := mapM_eq_ok h
  clear h
  induction hitems with
  | nil => exact absurd ha (by simp)
  | @cons x b l l' hx _ ih =>
    rcases List.mem_cons.mp ha with rfl | ha
    · exact ⟨b, hx⟩
    · exact ih ha

theorem map_mapM_ok {γ : Type} {key : α → γ} {key' : β → γ}
    (hkey : ∀ a b, f a = .ok b → key' b = key a) (h : l.mapM f = .ok l') :
    l'.map key' = l.map key := by
  have hitems := mapM_eq_ok h
  clear h
  induction hitems with
  | nil => rfl
  | @cons a b l l' ha _ ih => rw [List.map_cons, List.map_cons, ih, hkey a b ha]

theorem mapM_eq_error (h : l.mapM f = .error e) :
    ∃ a ∈ l, f a = .error e := by
  induction l with
  | nil => exact absurd h pure_ne_error
  | cons a rest ih =>
    rw [List.mapM_cons] at h
    rcases bind_eq_error.mp h with hfirst | ⟨b, -, h⟩
    · exact ⟨a, List.mem_cons_self, hfirst⟩
    rcases bind_eq_error.mp h with hrest | ⟨bs, -, h⟩
    · obtain ⟨x, hx, herror⟩ := ih hrest
      exact ⟨x, List.mem_cons_of_mem _ hx, herror⟩
    · exact absurd h pure_ne_error

theorem foldlM_eq_error {f : σ → α → Except ε σ} (h : l.foldlM f s = .error e) :
    ∃ s, ∃ a ∈ l, f s a = .error e := by
  induction l generalizing s with
  | nil => exact absurd h pure_ne_error
  | cons a rest ih =>
    rw [List.foldlM_cons] at h
    rcases bind_eq_error.mp h with hfirst | ⟨s', -, h⟩
    · exact ⟨s, a, List.mem_cons_self, hfirst⟩
    · obtain ⟨t, x, hx, herror⟩ := ih h
      exact ⟨t, x, List.mem_cons_of_mem _ hx, herror⟩

theorem forM_eq_error {f : α → Except ε Unit} (h : l.forM f = .error e) : ∃ a ∈ l, f a = .error e := by
  induction l with
  | nil => exact absurd h pure_ne_error
  | cons a rest ih =>
    rcases bind_eq_error.mp h with hfirst | ⟨⟨⟩, -, h⟩
    · exact ⟨a, List.mem_cons_self, hfirst⟩
    · obtain ⟨x, hx, herror⟩ := ih h
      exact ⟨x, List.mem_cons_of_mem _ hx, herror⟩

theorem forM_eq_ok {f : α → Except ε Unit} :
    l.forM f = .ok () ↔ ∀ a ∈ l, f a = .ok () := by
  induction l with
  | nil => exact iff_of_true rfl fun a ha => absurd ha List.not_mem_nil
  | cons a rest ih =>
    rw [show (a :: rest).forM f = (f a >>= fun _ => rest.forM f) from rfl, bind_eq_ok,
      List.forall_mem_cons, ← ih]
    constructor
    · rintro ⟨⟨⟩, hfirst, hrest⟩
      exact ⟨hfirst, hrest⟩
    · rintro ⟨hfirst, hrest⟩
      exact ⟨(), hfirst, hrest⟩

/-- Pay for a list of costs out of a remaining budget, in order. -/
def spend (e : ε) : ℕ → List ℕ → Except ε ℕ
  | remaining, [] => .ok remaining
  | remaining, cost :: rest =>
    if cost ≤ remaining then spend e (remaining - cost) rest else .error e

theorem spend_eq_ok {e : ε} : ∀ {l : List ℕ} {r r' : ℕ},
    spend e r l = .ok r' ↔ r = r' + l.sum
  | [], r, r' => by simp [spend]
  | cost :: rest, r, r' => by
    rw [spend, List.sum_cons]
    by_cases h : cost ≤ r
    · rw [if_pos h, spend_eq_ok]
      omega
    · rw [if_neg h]
      constructor
      · intro h'
        exact absurd h' (by simp)
      · intro h'
        omega

/-- A transaction: a failed body leaves the state as it was. -/
def transact {σ : Type} (body : σ → Except ε (α × σ)) (s : σ) : σ × Except ε α :=
  match body s with
  | .ok (a, s') => (s', .ok a)
  | .error e => (s, .error e)

theorem transact_ok :
    transact body s = (s', .ok a) ↔ body s = .ok (a, s') := by
  unfold transact
  cases h : body s with
  | error e => simp
  | ok p =>
    obtain ⟨a', s''⟩ := p
    simp [and_comm]

/-- **Rollback**: an error is reported with the state unchanged. -/
theorem transact_error :
    transact body s = (s', .error e) ↔ body s = .error e ∧ s' = s := by
  unfold transact
  cases h : body s with
  | error e' => simp [eq_comm, and_comm]
  | ok p => simp

end Checked

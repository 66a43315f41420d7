/-
Relations, element by element.

* `Both R` — two optional values that are both missing, or related;
* `Both.map_eq`, `Both.bind_eq` — functions that do not tell related values apart;
* `forall₂_trans` — lists.
-/
import Mathlib

/-- Both missing, or related. -/
def Both {α : Type} (R : α → α → Prop) : Option α → Option α → Prop
  | none, none => True
  | some a, some a' => R a a'
  | _, _ => False

namespace Both

variable {α β : Type} {R : α → α → Prop} {S : β → β → Prop}

variable {x y : Option α} {f : α → Option β}

theorem trans {z : Option α} (h : Both R x y) (h' : Both R y z)
    (hR : ∀ a b c, R a b → R b c → R a c) : Both R x z := by
  cases x <;> cases y <;> cases z <;> first | trivial | exact hR _ _ _ h h'

theorem map_eq {f : α → β} (h : Both R x y) (hR : ∀ a b, R a b → f a = f b) :
    x.map f = y.map f := by
  cases x <;> cases y <;> first | rfl | cases h | exact congrArg some (hR _ _ h)

theorem bind_eq (h : Both R x y) (hR : ∀ a b, R a b → f a = f b) : x.bind f = y.bind f := by
  cases x <;> cases y <;> first | rfl | cases h | exact hR _ _ h

theorem bind (h : Both R x y) (hR : ∀ a b, R a b → Both S (f a) (f b)) :
    Both S (x.bind f) (y.bind f) := by
  cases x <;> cases y <;> first | trivial | cases h | exact hR _ _ h

end Both

theorem forall₂_trans {α : Type} {R : α → α → Prop} {l l1 l2 : List α}
    (h : List.Forall₂ R l l1) (h' : List.Forall₂ R l1 l2)
    (hR : ∀ a b c, R a b → R b c → R a c) : List.Forall₂ R l l2 := by
  induction h generalizing l2 with
  | nil => exact h'
  | cons ha _ ih =>
    obtain ⟨b, rest, hb, hrest, rfl⟩ := List.forall₂_cons_left_iff.mp h'
    exact .cons (hR _ _ _ ha hb) (ih hrest)

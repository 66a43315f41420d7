/-
What the bounded artifacts account for (`crates/spec`).

* `bounded_artifacts_account` — in the matrix, the register and the inventory alike.
-/
import Cartograph.Spec.Register
import Cartograph.Spec.RuleEvidence

namespace Spec

open GraphStore Investigation FlowTracer

/-- A bounded artifact with the ids that its index lists, the excerpt its prose details, and how
many groups, items and detailed assertions there are. -/
structure Accounted {κ α : Type} (a : Artifact) (indexed : List String) (x : Excerpt κ α)
    (groups items detailed : ℕ) : Prop where
  indexed : ∀ id, indexed.count id = (a.assertions.map SpecAssertion.id).count id
  addsUp : AddsUp x groups items
  detailed : detailed ≤ a.assertions.length

end Spec

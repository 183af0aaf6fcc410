import Mathlib.Logic.Relation

namespace Linux011.Library

open Relation

variable {α : Type*} {r r' : α → α → Prop}

/-- Losing the edges out of one point costs a path nothing but the part before its last visit there. -/
theorem reach_cut {p a q : α} (kept : ∀ x y, x ≠ p → r x y → r' x y) (elsewhere : q ≠ p)
    (path : ReflTransGen r a q) :
    ReflTransGen r' a q ∨ ∃ b, r p b ∧ ReflTransGen r' b q := by
  induction path using ReflTransGen.head_induction_on with
  | refl => exact .inl .refl
  | @head x y edge _ ih =>
    rcases ih with rest | found
    · by_cases same : x = p
      · subst same
        exact .inr ⟨y, edge, rest⟩
      · exact .inl (.head (kept x y same edge) rest)
    · exact .inr found

end Linux011.Library

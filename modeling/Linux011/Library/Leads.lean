import Mathlib.Logic.Function.Iterate
import Mathlib.Data.Nat.Init

namespace Linux011.Library

variable {σ : Type*} {step : σ → σ} {P Q R : σ → Prop}

/-- From every state where the one holds, a run comes to a state where the other does. -/
def Leads (step : σ → σ) (P Q : σ → Prop) : Prop := ∀ s, P s → ∃ n, Q (step^[n] s)

namespace Leads

theorem now (holds : ∀ s, P s → Q s) : Leads step P Q := fun s here => ⟨0, holds s here⟩

theorem next (holds : ∀ s, P s → Q (step s)) : Leads step P Q := fun s here => ⟨1, holds s here⟩

theorem trans (first : Leads step P Q) (second : Leads step Q R) : Leads step P R := by
  intro s here
  rcases first s here with ⟨m, there⟩
  rcases second _ there with ⟨n, reached⟩
  refine ⟨n + m, ?_⟩
  rw [Function.iterate_add_apply]
  exact reached

/-- A loop whose rounds go down until it is left. -/
theorem descend {P : Nat → σ → Prop} (round : ∀ k, Leads step (P k) fun s => Q s ∨ ∃ j < k, P j s) (k : Nat) :
    Leads step (P k) Q := by
  induction k using Nat.strongRecOn with
  | ind k ih =>
    apply (round k).trans
    rintro s (left | ⟨j, below, again⟩)
    · exact ⟨0, left⟩
    · exact ih j below s again

/-- An attempt that is made again until it succeeds, as some attempt does. -/
theorem retry (succeeds : Nat → Prop) (count : σ → Nat) (often : ∀ c, ∃ d, succeeds (c + d))
    (attempt : ∀ s, P s → (∃ n, Q (step^[n] s)) ∨
      ¬ succeeds (count s) ∧ ∃ n, P (step^[n] s) ∧ count (step^[n] s) = count s + 1) : Leads step P Q := by
  have within (d : Nat) : Leads step (fun s => P s ∧ succeeds (count s + d)) Q := by
    induction d with
    | zero =>
      rintro s ⟨here, ok⟩
      rcases attempt s here with left | ⟨fails, -⟩
      · exact left
      · exact absurd ok fails
    | succ d ih =>
      rintro s ⟨here, ok⟩
      rcases attempt s here with left | ⟨-, n, again, counted⟩
      · exact left
      · rcases ih _ ⟨again, by rw [counted, Nat.add_right_comm]; exact ok⟩ with ⟨m, left⟩
        refine ⟨m + n, ?_⟩
        rw [Function.iterate_add_apply]
        exact left
  intro s here
  rcases often (count s) with ⟨d, ok⟩
  exact within d s ⟨here, ok⟩

end Leads

end Linux011.Library

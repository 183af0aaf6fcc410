import Mathlib.Data.Fintype.Pigeonhole
import Mathlib.Logic.Function.Iterate

namespace Linux011.Library

variable {α ι : Type*}

/-- The first value behind `a` that is not taken, looked for in a number of rounds. -/
def firstFree (next : α → α) (taken : α → Bool) : Nat → α → Option α
  | 0, _ => none
  | rounds + 1, a => if taken (next a) then firstFree next taken rounds (next a) else some (next a)

section FirstFree

variable {next : α → α} {taken : α → Bool} {rounds : Nat} {a b : α}

theorem firstFree_free (found : firstFree next taken rounds a = some b) : taken b = false := by
  induction rounds generalizing a with
  | zero => cases found
  | succ rounds ih =>
    rw [firstFree] at found
    split at found
    · exact ih found
    · next free =>
      cases found
      exact Bool.eq_false_of_not_eq_true free

/-- What every step establishes from what it keeps holds of the value found. -/
theorem firstFree_kept {keeps : α → Prop} (step : ∀ a, keeps a → keeps (next a)) (start : keeps a)
    (found : firstFree next taken rounds a = some b) : ∃ c, keeps c ∧ b = next c := by
  induction rounds generalizing a with
  | zero => cases found
  | succ rounds ih =>
    rw [firstFree] at found
    split at found
    · exact ih (step a start) found
    · cases found
      exact ⟨a, start, rfl⟩

theorem firstFree_none (failed : firstFree next taken rounds a = none) : ∀ i < rounds, taken (next^[i + 1] a) = true := by
  induction rounds generalizing a with
  | zero => exact nofun
  | succ rounds ih =>
    rw [firstFree] at failed
    split at failed
    · next busy =>
      intro i below
      cases i with
      | zero => exact busy
      | succ i => exact ih failed i (by omega)
    · cases failed

/-- More rounds find the same. -/
theorem firstFree_more {more : Nat} (enough : rounds ≤ more) (found : firstFree next taken rounds a = some b) :
    firstFree next taken more a = some b := by
  induction rounds generalizing a more with
  | zero => cases found
  | succ rounds ih =>
    obtain ⟨more, rfl⟩ : ∃ n, more = n + 1 := ⟨more - 1, by omega⟩
    rw [firstFree] at found ⊢
    split at found
    · next busy =>
      rw [if_pos busy]
      exact ih (by omega) found
    · next free =>
      rw [if_neg free]
      exact found

/-- Where the values taken are those of finitely many holders, and the next values do not repeat too soon, one more
    round than there are holders finds a free value. -/
theorem firstFree_found [Fintype ι] (holds : ι → Option α) (owned : ∀ a, taken a = true → ∃ i, holds i = some a)
    (apart : ∀ i j, i < j → j ≤ Fintype.card ι → next^[i + 1] a ≠ next^[j + 1] a) :
    ∃ b, firstFree next taken (Fintype.card ι + 1) a = some b := by
  apply Option.ne_none_iff_exists'.mp
  intro failed
  have busy := firstFree_none failed
  have held (i : Fin (Fintype.card ι + 1)) : ∃ k, holds k = some (next^[i.val + 1] a) := owned _ (busy i i.isLt)
  choose holder holding using held
  rcases Fintype.exists_ne_map_eq_of_card_lt holder (by simp) with ⟨i, j, other, same⟩
  have equal : next^[i.val + 1] a = next^[j.val + 1] a := by
    have both := (holding i).symm.trans ((congrArg holds same).trans (holding j))
    exact Option.some.inj both
  rcases Nat.lt_or_gt_of_ne fun val => other (Fin.ext val) with before | after
  · exact apart i j before (by omega) equal
  · exact apart j i after (by omega) equal.symm

end FirstFree

section Least

variable [Preorder α] {xs : List α} {p : α → Bool} {b : α}

/-- The first element of a sorted list with a property is the least one. -/
theorem find?_sorted (sorted : xs.Pairwise (· < ·)) :
    xs.find? p = some b ↔ b ∈ xs ∧ p b = true ∧ ∀ a ∈ xs, a < b → p a = false := by
  rw [List.find?_eq_some_iff_append]
  constructor
  · rintro ⟨here, before, after, rfl, none⟩
    refine ⟨by simp, here, ?_⟩
    intro a member less
    rcases List.mem_append.mp member with early | late
    · simpa using none a early
    · have ordered := (List.pairwise_append.mp sorted).2.1
      rcases List.mem_cons.mp late with same | behind
      · exact absurd (same ▸ less) (lt_irrefl b)
      · exact absurd less (lt_asymm (List.rel_of_pairwise_cons ordered behind))
  · rintro ⟨member, here, none⟩
    rcases List.append_of_mem member with ⟨before, after, rfl⟩
    refine ⟨here, before, after, rfl, ?_⟩
    intro a early
    have less : a < b := (List.pairwise_append.mp sorted).2.2 a early b (List.mem_cons_self ..)
    simpa using none a (List.mem_append_left _ early) less

end Least

end Linux011.Library

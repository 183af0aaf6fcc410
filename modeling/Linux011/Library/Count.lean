import Mathlib.Algebra.BigOperators.Group.Finset.Basic
import Mathlib.Algebra.BigOperators.Group.Finset.Piecewise
import Mathlib.Algebra.Order.BigOperators.Group.Finset
import Mathlib.Data.Fintype.BigOperators

namespace Linux011.Library

variable {ι α : Type*}

/-- How much the cells of a family weigh in total. -/
def total [Fintype ι] (weight : α → Nat) (cells : ι → α) : Nat := ∑ i, weight (cells i)

section Total

variable [Fintype ι] [DecidableEq ι] (weight : α → Nat) (cells : ι → α)

/-- Rewriting one cell trades its old weight for the new one. -/
theorem total_update (i : ι) (a : α) :
    total weight (Function.update cells i a) + weight (cells i) = total weight cells + weight a := by
  have split (f : ι → α) : total weight f = weight (f i) + ∑ j ∈ Finset.univ.erase i, weight (f j) :=
    (Finset.add_sum_erase _ _ (Finset.mem_univ i)).symm
  have rest : ∑ j ∈ Finset.univ.erase i, weight (Function.update cells i a j) =
      ∑ j ∈ Finset.univ.erase i, weight (cells j) := by
    apply Finset.sum_congr rfl
    intro j member
    rw [Function.update_of_ne (Finset.ne_of_mem_erase member)]
  rw [split (Function.update cells i a), split cells, rest, Function.update_self]
  omega

omit [DecidableEq ι] in
theorem weight_le_total (i : ι) : weight (cells i) ≤ total weight cells :=
  Finset.single_le_sum (f := fun j => weight (cells j)) (fun _ _ => Nat.zero_le _) (Finset.mem_univ i)

omit [DecidableEq ι] in
theorem total_eq_zero_iff : total weight cells = 0 ↔ ∀ i, weight (cells i) = 0 := by
  simp [total, Finset.sum_eq_zero_iff]

omit [DecidableEq ι] in
theorem total_pos_iff : 0 < total weight cells ↔ ∃ i, 0 < weight (cells i) := by
  rw [Nat.pos_iff_ne_zero, ne_eq, total_eq_zero_iff]
  simp [Nat.pos_iff_ne_zero]

omit [DecidableEq ι] in
theorem total_le_total {light heavy : α → Nat} (less : ∀ a, light a ≤ heavy a) :
    total light cells ≤ total heavy cells :=
  Finset.sum_le_sum fun i _ => less (cells i)

omit [DecidableEq ι] in
theorem total_mono {cells cells' : ι → α} (less : ∀ i, weight (cells i) ≤ weight (cells' i)) :
    total weight cells ≤ total weight cells' :=
  Finset.sum_le_sum fun i _ => less i

omit [DecidableEq ι] in
theorem total_congr {cells cells' : ι → α} (same : ∀ i, weight (cells i) = weight (cells' i)) :
    total weight cells = total weight cells' :=
  Finset.sum_congr rfl fun i _ => same i

omit [DecidableEq ι] in
/-- Some of the cells weigh no more than all of them. -/
theorem total_comp_le {κ : Type*} [Fintype κ] (pick : κ → ι) (apart : Function.Injective pick) :
    total weight (fun x => cells (pick x)) ≤ total weight cells := by
  have image := Finset.sum_map Finset.univ ⟨pick, apart⟩ fun i => weight (cells i)
  exact image.symm.le.trans (Finset.sum_le_sum_of_subset (Finset.subset_univ _))

/-- Two cells together weigh no more than the whole family. -/
theorem two_le_total {i j : ι} (apart : i ≠ j) :
    weight (cells i) + weight (cells j) ≤ total weight cells := by
  rw [total, ← Finset.add_sum_erase _ _ (Finset.mem_univ i)]
  apply Nat.add_le_add_left
  apply Finset.single_le_sum (f := fun j => weight (cells j)) (fun _ _ => Nat.zero_le _)
  exact Finset.mem_erase.mpr ⟨apart.symm, Finset.mem_univ j⟩

omit [DecidableEq ι] in
theorem total_ones (ones : ∀ i, weight (cells i) = 1) : total weight cells = Fintype.card ι := by
  simp [total, ones]

omit [DecidableEq ι] in
theorem total_lt_card (light : ∀ i, weight (cells i) ≤ 1) {i : ι} (none : weight (cells i) = 0) :
    total weight cells < Fintype.card ι := by
  rw [← total_ones (fun _ => 1) cells fun _ => rfl]
  apply Finset.sum_lt_sum fun i _ => light i
  exact ⟨i, Finset.mem_univ i, by omega⟩

omit [DecidableEq ι] in
/-- A label that tells the cells with a weight apart bounds how many they are. -/
theorem total_le_card {κ : Type*} [Fintype κ] (label : ι → κ) (light : ∀ i, weight (cells i) ≤ 1)
    (apart : ∀ i j, 0 < weight (cells i) → 0 < weight (cells j) → label i = label j → i = j) :
    total weight cells ≤ Fintype.card κ := by
  have ones : total weight cells = (Finset.univ.filter fun i => 0 < weight (cells i)).card := by
    rw [Finset.card_filter]
    apply Finset.sum_congr rfl
    intro i _
    have bound := light i
    split <;> omega
  rw [ones]
  apply Finset.card_le_card_of_injOn label
  · exact fun _ _ => Finset.mem_univ _
  · intro i there j there' same
    simp only [Finset.coe_filter, Finset.mem_univ, true_and, Set.mem_ofPred_eq] at there there'
    exact apart i j there there' same

end Total

end Linux011.Library

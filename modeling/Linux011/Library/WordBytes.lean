import Mathlib.Data.BitVec

namespace Linux011.Library

/-- The bytes of a word, the low one first. -/
def byte (w : BitVec 32) (i : Nat) : BitVec 8 := w.extractLsb' (8 * i) 8

def withByte (w : BitVec 32) (i : Nat) (c : BitVec 8) : BitVec 32 :=
  (w &&& ~~~((0xff : BitVec 32) <<< (8 * i))) ||| (c.setWidth 32 <<< (8 * i))

section Bytes

variable {w : BitVec 32} {c : BitVec 8} {i j : Nat}

theorem low_ones (n : Nat) : (0xff : BitVec 32).getLsbD n = decide (n < 8) := by
  by_cases low : n < 32
  · have table : ∀ n < 32, (0xff : BitVec 32).getLsbD n = decide (n < 8) := by decide
    exact table n low
  · rw [BitVec.getLsbD_of_ge _ n (by omega), decide_eq_false (by omega)]

theorem withByte_bit {n : Nat} (low : n < 32) : (withByte w i c).getLsbD n =
    if 8 * i ≤ n ∧ n < 8 * i + 8 then c.getLsbD (n - 8 * i) else w.getLsbD n := by
  rw [withByte, BitVec.getLsbD_or, BitVec.getLsbD_and, BitVec.getLsbD_not, BitVec.getLsbD_shiftLeft,
    BitVec.getLsbD_shiftLeft, BitVec.getLsbD_setWidth, low_ones]
  by_cases before : n < 8 * i
  · simp [before, low]
  · by_cases behind : n < 8 * i + 8
    · have near : n - 8 * i < 8 := by omega
      have near' : n - 8 * i < 32 := by omega
      simp [before, low, near, near', behind]
    · have far : ¬ n - 8 * i < 8 := by omega
      have none : c.getLsbD (n - 8 * i) = false := BitVec.getLsbD_of_ge c _ (by omega)
      simp [before, low, far, none, behind]

theorem byte_withByte (inside : i < 4) : byte (withByte w i c) i = c := by
  apply BitVec.eq_of_getLsbD_eq
  intro n low
  rw [byte, BitVec.getLsbD_extractLsb', withByte_bit (by omega), if_pos (by omega),
    show 8 * i + n - 8 * i = n by omega, decide_eq_true low, Bool.true_and]

theorem byte_withByte_other (inside : j < 4) (apart : j ≠ i) : byte (withByte w i c) j = byte w j := by
  apply BitVec.eq_of_getLsbD_eq
  intro n low
  rw [byte, byte, BitVec.getLsbD_extractLsb', BitVec.getLsbD_extractLsb', withByte_bit (by omega), if_neg (by omega)]

end Bytes

end Linux011.Library

import Mathlib.Algebra.GroupWithZero.Nat

namespace Linux011.Library

-- The numerals of `Fin n` rest on a proof of `n ≠ 0`, which has a name here so that it is one in all modules.

instance nonzero_sixtyFour : NeZero 64 := ⟨by decide⟩

instance nonzero_twentyFour : NeZero 24 := ⟨by decide⟩

theorem one_positive : (0 : BitVec 32) < 1 := by decide

theorem two_positive : (0 : BitVec 32) < 2 := by decide

theorem ten_positive : (0 : BitVec 32) < 10 := by decide

theorem sector_positive : (0 : BitVec 32) < 512 := by decide

end Linux011.Library

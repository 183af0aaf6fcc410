import Linux011.Library.Numerals
import Linux011.Mm.Shm
import Mathlib.Data.List.OfFn
import Mathlib.Data.List.TakeWhile

namespace Linux011.Who

open Linux011.Mm

/-- `nameInKernel`: `sys_iam` stores strings that end in it only. -/
structure NameInKernel where
  bytes : Fin 24 → BitVec 8
  ended : bytes 23 = 0

def unnamed : NameInKernel := ⟨fun _ => 0, rfl⟩

/-- The loop of `sys_iam`, over the bytes of the user's string: how many it has read, and `tmpNameInKernel`. -/
def readName (name : Nat → BitVec 8) : Nat → Nat → (Fin 24 → BitVec 8) → Nat × (Fin 24 → BitVec 8)
  | 0, i, tmp => (i, tmp)
  | n + 1, i, tmp =>
    if name i = 0 then (i, tmp)
    else readName name n (i + 1) fun j => if j = i then name i else tmp j

/-- What is behind the string in `tmpNameInKernel` is 0, as `strncpy` leaves it. -/
def sysIam (stored : NameInKernel) (name : Nat → BitVec 8) : NameInKernel × Int :=
  let (i, tmp) := readName name 24 0 fun _ => 0
  if ended : tmp 23 = 0 then (⟨tmp, ended⟩, i) else (stored, -EINVAL)

namespace NameInKernel

variable (stored : NameInKernel)

def strlen : Nat := ((List.ofFn stored.bytes).takeWhile (· ≠ 0)).length

def needLength : Nat := stored.strlen + 1

/-- The bytes `sys_whoami` stores. -/
def stores : List (BitVec 8) := (List.ofFn stored.bytes).take stored.needLength

theorem strlen_lt : stored.strlen < 24 := by
  have within := List.takeWhile_prefix (l := List.ofFn stored.bytes) fun c => decide (c ≠ 0)
  have short := within.length_le
  rw [List.length_ofFn] at short
  apply lt_of_le_of_ne short
  intro long
  have whole := List.takeWhile_eq_self_iff.mp (within.eq_of_length (long.trans (List.length_ofFn ..).symm))
  have nonzero := whole (stored.bytes 23) (List.mem_ofFn.mpr ⟨23, rfl⟩)
  rw [stored.ended] at nonzero
  cases nonzero

theorem length_stores : stored.stores.length = stored.needLength := by
  have short := stored.strlen_lt
  rw [stores, List.length_take, List.length_ofFn, needLength]
  omega

end NameInKernel

end Linux011.Who

import Mathlib.Data.BitVec

namespace Linux011.Mm

/-- Bit 0 of a page-directory or page-table entry: `1 & entry`. -/
def present (e : BitVec 32) : Bool := (1 &&& e) != 0

/-- Bit 1: user programs may write through the entry. -/
def writable (e : BitVec 32) : Bool := (2 &&& e) != 0

/-- Bit 6, set by the CPU when it writes through the entry. -/
def dirty (e : BitVec 32) : Bool := (0x40 &&& e) != 0

/-- The number of the page frame at the address `0xfffff000 & entry`. -/
def frame (e : BitVec 32) : Nat := ((0xfffff000 &&& e) >>> 12).toNat

/-- `entry & ~2` -/
def protect (e : BitVec 32) : BitVec 32 := e &&& ~~~2

/-- `page | 7` for the page with a frame number: present, writable, user. -/
def entry (page : Nat) : BitVec 32 := BitVec.ofNat 32 (page * 4096) ||| 7

/-- What the CPU makes of an entry it has written through: accessed and dirty. -/
def touched (e : BitVec 32) : BitVec 32 := e ||| 0x60

theorem present_bit (e : BitVec 32) : present e = e.getLsbD 0 := by
  have one : (1 : BitVec 32) = BitVec.twoPow 32 0 := by decide
  rw [present, BitVec.and_comm, one, BitVec.and_twoPow]
  cases e.getLsbD 0 <;> decide

theorem writable_bit (e : BitVec 32) : writable e = e.getLsbD 1 := by
  have two : (2 : BitVec 32) = BitVec.twoPow 32 1 := by decide
  rw [writable, BitVec.and_comm, two, BitVec.and_twoPow]
  cases e.getLsbD 1 <;> decide

theorem dirty_bit (e : BitVec 32) : dirty e = e.getLsbD 6 := by
  have mask : (0x40 : BitVec 32) = BitVec.twoPow 32 6 := by decide
  rw [dirty, BitVec.and_comm, mask, BitVec.and_twoPow]
  cases e.getLsbD 6 <;> decide

theorem frame_shift (e : BitVec 32) : frame e = (e >>> 12).toNat := by
  have mask : ∀ i < 20, (0xfffff000 : BitVec 32).getLsbD (12 + i) = true := by decide
  have masked : ((0xfffff000 : BitVec 32) &&& e) >>> 12 = e >>> 12 := by
    apply BitVec.eq_of_getLsbD_eq
    intro i below
    rw [BitVec.getLsbD_ushiftRight, BitVec.getLsbD_ushiftRight, BitVec.getLsbD_and]
    by_cases inside : i < 20
    · rw [mask i inside, Bool.true_and]
    · rw [BitVec.getLsbD_of_ge e (12 + i) (by omega), Bool.and_false]
  rw [frame, masked]

theorem frame_div (e : BitVec 32) : frame e = e.toNat / 4096 := by
  rw [frame_shift, BitVec.toNat_ushiftRight, Nat.shiftRight_eq_div_pow]

theorem frame_congr {e e' : BitVec 32} (same : ∀ i, 12 ≤ i → e.getLsbD i = e'.getLsbD i) :
    frame e = frame e' := by
  rw [frame_shift, frame_shift]
  congr 1
  apply BitVec.eq_of_getLsbD_eq
  intro i below
  rw [BitVec.getLsbD_ushiftRight, BitVec.getLsbD_ushiftRight]
  exact same _ (Nat.le_add_right _ _)

section Flags

variable (e : BitVec 32)

theorem high_clear {mask : BitVec 32} (small : mask < 4096) {i : Nat} (high : 12 ≤ i) :
    mask.getLsbD i = false := by
  apply Nat.testBit_lt_two_pow
  have below : mask.toNat < 2 ^ 12 := small
  exact below.trans_le (Nat.pow_le_pow_right (by decide) high)

@[simp] theorem frame_or {mask : BitVec 32} (small : mask < 4096) : frame (e ||| mask) = frame e := by
  apply frame_congr
  intro i high
  rw [BitVec.getLsbD_or, high_clear small high, Bool.or_false]

@[simp] theorem frame_protect : frame (protect e) = frame e := by
  apply frame_congr
  intro i high
  have two : (2 : BitVec 32).getLsbD i = false := high_clear (by decide) high
  rw [protect, BitVec.getLsbD_and, BitVec.getLsbD_not, two]
  by_cases inside : i < 32
  · simp [inside]
  · rw [BitVec.getLsbD_of_ge e i (by omega), Bool.false_and]

@[simp] theorem present_protect : present (protect e) = present e := by
  simp [present_bit, protect]

@[simp] theorem writable_protect : writable (protect e) = false := by
  simp [writable_bit, protect]

@[simp] theorem dirty_protect : dirty (protect e) = dirty e := by
  simp [dirty_bit, protect]

@[simp] theorem frame_grant : frame (e ||| 2) = frame e := frame_or e (by decide)

@[simp] theorem present_grant : present (e ||| 2) = present e := by
  simp [present_bit]

@[simp] theorem writable_grant : writable (e ||| 2) = true := by
  simp [writable_bit]

@[simp] theorem dirty_grant : dirty (e ||| 2) = dirty e := by
  simp [dirty_bit]

@[simp] theorem frame_touched : frame (touched e) = frame e := frame_or e (by decide)

@[simp] theorem present_touched : present (touched e) = present e := by
  simp [present_bit, touched]

@[simp] theorem writable_touched : writable (touched e) = writable e := by
  simp [writable_bit, touched]

@[simp] theorem dirty_touched : dirty (touched e) = true := by
  simp [dirty_bit, touched]

end Flags

theorem frame_entry {page : Nat} (physical : page < 2 ^ 20) : frame (entry page) = page := by
  rw [entry, frame_or _ (by decide), frame_div, BitVec.toNat_ofNat]
  omega

@[simp] theorem present_entry (page : Nat) : present (entry page) = true := by
  simp [present_bit, entry]

@[simp] theorem writable_entry (page : Nat) : writable (entry page) = true := by
  simp [writable_bit, entry]

@[simp] theorem dirty_entry (page : Nat) : dirty (entry page) = false := by
  have low : (page * 4096).testBit 6 = false := by
    rw [show 4096 = 2 ^ 12 from rfl, Nat.testBit_mul_two_pow]
    rfl
  have seven : (7 : BitVec 32).getLsbD 6 = false := by decide
  rw [dirty_bit, entry, BitVec.getLsbD_or, seven, BitVec.getLsbD_ofNat, low]
  rfl

theorem clean_bits (e : BitVec 32) : 0x41 &&& e = 1 ↔ present e = true ∧ dirty e = false := by
  have mask : (0x41 : BitVec 32) = BitVec.twoPow 32 0 ||| BitVec.twoPow 32 6 := by decide
  have bits : (0x41 : BitVec 32) &&& e =
      (if e.getLsbD 0 then BitVec.twoPow 32 0 else 0) ||| if e.getLsbD 6 then BitVec.twoPow 32 6 else 0 := by
    rw [mask, BitVec.and_comm, BitVec.and_or_distrib_left, BitVec.and_twoPow, BitVec.and_twoPow]
    rfl
  rw [bits, present_bit, dirty_bit]
  cases e.getLsbD 0 <;> cases e.getLsbD 6 <;> decide

theorem read_only_bits (e : BitVec 32) : 3 &&& e = 1 ↔ present e = true ∧ writable e = false := by
  have mask : (3 : BitVec 32) = BitVec.twoPow 32 0 ||| BitVec.twoPow 32 1 := by decide
  have bits : (3 : BitVec 32) &&& e =
      (if e.getLsbD 0 then BitVec.twoPow 32 0 else 0) ||| if e.getLsbD 1 then BitVec.twoPow 32 1 else 0 := by
    rw [mask, BitVec.and_comm, BitVec.and_or_distrib_left, BitVec.and_twoPow, BitVec.and_twoPow]
    rfl
  rw [bits, present_bit, writable_bit]
  cases e.getLsbD 0 <;> cases e.getLsbD 1 <;> decide

theorem present_read_only {e : BitVec 32} (bits : 3 &&& e = 1) : present e = true := ((read_only_bits e).mp bits).1

@[simp] theorem present_zero : present 0 = false := by decide

end Linux011.Mm

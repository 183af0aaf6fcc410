import Mathlib.Data.BitVec
import Mathlib.Logic.Function.Basic
import Mathlib.Tactic.Ring

namespace Linux011.Library

/-- Bytes by address, with the addresses written so far, the newest first. -/
structure ByteMemory where
  bytes : BitVec 32 → BitVec 8
  written : List (BitVec 32)

namespace ByteMemory

def store (m : ByteMemory) (a : BitVec 32) (b : BitVec 8) : ByteMemory :=
  ⟨Function.update m.bytes a b, a :: m.written⟩

/-- The low byte comes first. -/
def word (m : ByteMemory) (a : BitVec 32) : BitVec 16 := m.bytes (a + 1) ++ m.bytes a

def storeWord (m : ByteMemory) (a : BitVec 32) (w : BitVec 16) : ByteMemory :=
  (m.store a (w.setWidth 8)).store (a + 1) (w.extractLsb' 8 8)

/-- One `movsl`: both halves are read before either is written. -/
def moveLong (m : ByteMemory) (edi esi : BitVec 32) : ByteMemory :=
  (m.storeWord edi (m.word esi)).storeWord (edi + 2) (m.word (esi + 2))

/-- `rep stosw`; the step is 2, or -2 with the direction flag set. -/
def stosw (step : BitVec 32) (ax : BitVec 16) : Nat → BitVec 32 → ByteMemory → ByteMemory
  | 0, _, m => m
  | n + 1, edi, m => stosw step ax n (edi + step) (m.storeWord edi ax)

/-- `rep movsl`; the step is 4, or -4 with the direction flag set. -/
def movsl (step : BitVec 32) : Nat → BitVec 32 → BitVec 32 → ByteMemory → ByteMemory
  | 0, _, _, m => m
  | n + 1, edi, esi, m => movsl step n (edi + step) (esi + step) (m.moveLong edi esi)

section Within

variable {m : ByteMemory} {lo hi : Nat} {edi esi : BitVec 32} {ax : BitVec 16}

/-- Everything written lies between two bounds. -/
def Within (lo hi : Nat) (m : ByteMemory) : Prop := ∀ a ∈ m.written, lo ≤ a.toNat ∧ a.toNat < hi

theorem Within.store {a : BitVec 32} (within : m.Within lo hi) (low : lo ≤ a.toNat) (high : a.toNat < hi)
    (b : BitVec 8) : (m.store a b).Within lo hi := by
  intro c member
  rcases List.mem_cons.mp member with rfl | member
  · exact ⟨low, high⟩
  · exact within c member

variable (small : hi < 2 ^ 32)

include small

theorem Within.storeWord {a : BitVec 32} (within : m.Within lo hi) (low : lo ≤ a.toNat)
    (high : a.toNat + 2 ≤ hi) (w : BitVec 16) : (m.storeWord a w).Within lo hi := by
  have next : (a + 1).toNat = a.toNat + 1 :=
      BitVec.toNat_add_of_lt (show a.toNat + 1 < 2 ^ 32 by omega)
  exact (within.store low (by omega) _).store (by omega) (by omega) _

theorem Within.moveLong (within : m.Within lo hi) (low : lo ≤ edi.toNat) (high : edi.toNat + 4 ≤ hi) :
    (m.moveLong edi esi).Within lo hi := by
  have next : (edi + 2).toNat = edi.toNat + 2 :=
      BitVec.toNat_add_of_lt (show edi.toNat + 2 < 2 ^ 32 by omega)
  exact (within.storeWord small low (by omega) _).storeWord small (by omega) (by omega) _

theorem Within.stosw_up {n : Nat} (within : m.Within lo hi) (low : lo ≤ edi.toNat)
    (high : edi.toNat + 2 * n ≤ hi) : (stosw 2 ax n edi m).Within lo hi := by
  induction n generalizing edi m with
  | zero => exact within
  | succ n ih =>
    have next : (edi + 2).toNat = edi.toNat + 2 :=
      BitVec.toNat_add_of_lt (show edi.toNat + 2 < 2 ^ 32 by omega)
    exact ih (within.storeWord small low (by omega) ax) (by omega) (by omega)

theorem Within.movsl_up {n : Nat} (within : m.Within lo hi) (low : lo ≤ edi.toNat)
    (high : edi.toNat + 4 * n ≤ hi) : (movsl 4 n edi esi m).Within lo hi := by
  induction n generalizing edi esi m with
  | zero => exact within
  | succ n ih =>
    have next : (edi + 4).toNat = edi.toNat + 4 :=
      BitVec.toNat_add_of_lt (show edi.toNat + 4 < 2 ^ 32 by omega)
    exact ih (within.moveLong small low (by omega)) (by omega) (by omega)

theorem Within.stosw_down {n : Nat} (within : m.Within lo hi) (low : lo + 2 * n ≤ edi.toNat + 2)
    (high : edi.toNat + 2 ≤ hi) : (stosw (-2) ax n edi m).Within lo hi := by
  induction n generalizing edi m with
  | zero => exact within
  | succ n ih =>
    have here := within.storeWord small (a := edi) (by omega) high ax
    cases n with
    | zero => exact here
    | succ n =>
      have next : (edi + -2).toNat = edi.toNat - 2 := by
        rw [BitVec.toNat_add, show (-2 : BitVec 32).toNat = 2 ^ 32 - 2 from rfl]
        omega
      exact ih here (by omega) (by omega)

theorem Within.movsl_down {n : Nat} (within : m.Within lo hi) (low : lo + 4 * n ≤ edi.toNat + 4)
    (high : edi.toNat + 4 ≤ hi) : (movsl (-4) n edi esi m).Within lo hi := by
  induction n generalizing edi esi m with
  | zero => exact within
  | succ n ih =>
    have here : (m.moveLong edi esi).Within lo hi := within.moveLong small (by omega) high
    cases n with
    | zero => exact here
    | succ n =>
      have next : (edi + -4).toNat = edi.toNat - 4 := by
        rw [BitVec.toNat_add, show (-4 : BitVec 32).toNat = 2 ^ 32 - 4 from rfl]
        omega
      exact ih here (by omega) (by omega)

end Within

section Alike

variable {m m' : ByteMemory} {edi esi : BitVec 32} {ax : BitVec 16}

def EvenAddress (a : BitVec 32) : Prop := a.toNat % 2 = 0

instance (a : BitVec 32) : Decidable (EvenAddress a) := inferInstanceAs (Decidable (_ = _))

theorem EvenAddress.add {a b : BitVec 32} (even : EvenAddress a) (even' : EvenAddress b) : EvenAddress (a + b) := by
  rw [EvenAddress] at *
  rw [BitVec.toNat_add]
  omega

theorem EvenAddress.sub {a b : BitVec 32} (even : EvenAddress a) (even' : EvenAddress b) : EvenAddress (a - b) := by
  rw [EvenAddress] at *
  rw [BitVec.toNat_sub]
  omega

theorem EvenAddress.mul {a b : BitVec 32} (even : EvenAddress b) : EvenAddress (a * b) := by
  rw [EvenAddress] at *
  rw [BitVec.toNat_mul, Nat.mod_mod_of_dvd _ (by decide), Nat.mul_mod, even, Nat.mul_zero]

theorem even_two : EvenAddress 2 := rfl

theorem even_four : EvenAddress 4 := rfl

theorem even_neg_two : EvenAddress (-2) := rfl

theorem even_neg_four : EvenAddress (-4) := rfl

/-- The same writes, and the same bytes at the odd addresses. -/
structure Alike (m m' : ByteMemory) : Prop where
  odd : ∀ a, ¬ EvenAddress a → m'.bytes a = m.bytes a
  written : m'.written = m.written

theorem Alike.refl (m : ByteMemory) : Alike m m := ⟨fun _ _ => rfl, rfl⟩

theorem storeWord_bytes (m : ByteMemory) (a : BitVec 32) (w : BitVec 16) (b : BitVec 32) :
    (m.storeWord a w).bytes b =
      if b = a + 1 then w.extractLsb' 8 8 else if b = a then w.setWidth 8 else m.bytes b := by
  rw [ByteMemory.storeWord, ByteMemory.store, ByteMemory.store]
  dsimp only
  rw [Function.update_apply, Function.update_apply]

theorem Alike.storeWord {w w' : BitVec 16} (alike : Alike m m') {a : BitVec 32} (even : EvenAddress a)
    (high : w'.extractLsb' 8 8 = w.extractLsb' 8 8) : Alike (m.storeWord a w) (m'.storeWord a w') where
  odd b odd := by
    have apart : b ≠ a := fun same => odd (same ▸ even)
    rw [storeWord_bytes, storeWord_bytes, if_neg apart, if_neg apart, high, alike.odd b odd]
  written := congrArg (fun l => (a + 1) :: a :: l) alike.written

theorem extract_append (high low : BitVec 8) : (high ++ low).extractLsb' 8 8 = high := by
  ext i bound
  rw [BitVec.getElem_extractLsb', BitVec.getLsbD_append, if_neg (by omega), Nat.add_sub_cancel_left,
    BitVec.getLsbD_eq_getElem bound]

theorem Alike.word (alike : Alike m m') {a : BitVec 32} (even : EvenAddress a) :
    (m'.word a).extractLsb' 8 8 = (m.word a).extractLsb' 8 8 := by
  have odd : ¬ EvenAddress (a + 1) := by
    have next : (a + 1).toNat = (a.toNat + 1) % 2 ^ 32 := BitVec.toNat_add ..
    rw [EvenAddress] at *
    omega
  rw [ByteMemory.word, ByteMemory.word, extract_append, extract_append, alike.odd _ odd]

theorem Alike.moveLong (alike : Alike m m') (even : EvenAddress edi) (even' : EvenAddress esi) :
    Alike (m.moveLong edi esi) (m'.moveLong edi esi) :=
  (alike.storeWord even (alike.word even')).storeWord (even.add even_two) (alike.word (even'.add even_two))

theorem Alike.stosw {step : BitVec 32} {n : Nat} (alike : Alike m m') (steps : EvenAddress step) (even : EvenAddress edi) :
    Alike (stosw step ax n edi m) (stosw step ax n edi m') := by
  induction n generalizing edi m m' with
  | zero => exact alike
  | succ n ih => exact ih (alike.storeWord even rfl) (even.add steps)

theorem Alike.movsl {step : BitVec 32} {n : Nat} (alike : Alike m m') (steps : EvenAddress step) (even : EvenAddress edi)
    (even' : EvenAddress esi) : Alike (movsl step n edi esi m) (movsl step n edi esi m') := by
  induction n generalizing edi esi m m' with
  | zero => exact alike
  | succ n ih => exact ih (alike.moveLong even even') (even.add steps) (even'.add steps)

end Alike

section Contents

variable {m : ByteMemory} {p gap : BitVec 32} {ax : BitVec 16}

/-- The byte at some distance into memory filled with a word. -/
def fill (ax : BitVec 16) (k : Nat) : BitVec 8 := if k % 2 = 0 then ax.setWidth 8 else ax.extractLsb' 8 8

theorem fill_add_even (ax : BitVec 16) {k : Nat} (even : k % 2 = 0) (i : Nat) : fill ax (k + i) = fill ax i := by
  rw [fill, fill, show (k + i) % 2 = i % 2 by omega]

theorem storeWord_fill (m : ByteMemory) (p : BitVec 32) (w : BitVec 16) (a : BitVec 32) :
    (m.storeWord p w).bytes a = if (a - p).toNat < 2 then fill w (a - p).toNat else m.bytes a := by
  rw [storeWord_bytes]
  by_cases second : a = p + 1
  · have one : a - p = 1 := by rw [second, add_sub_cancel_left]
    rw [if_pos second, one]
    rfl
  · by_cases first : a = p
    · rw [if_neg second, if_pos first, first, BitVec.sub_self]
      rfl
    · have far : ¬ (a - p).toNat < 2 := by bv_omega
      rw [if_neg second, if_neg first, if_neg far]

theorem stosw_bytes {n : Nat} (room : 2 * n ≤ 2 ^ 32) (a : BitVec 32) :
    (stosw 2 ax n p m).bytes a = if (a - p).toNat < 2 * n then fill ax (a - p).toNat else m.bytes a := by
  induction n generalizing p m with
  | zero => rfl
  | succ n ih =>
    have limit := (a - p).isLt
    have next : (a - (p + 2)).toNat = if (a - p).toNat < 2 then (a - p).toNat + 2 ^ 32 - 2 else (a - p).toNat - 2 := by
      split <;> bv_omega
    rw [stosw, ih (by omega), storeWord_fill, next]
    by_cases first : (a - p).toNat < 2
    · rw [if_pos first, if_neg (by omega), if_pos first, if_pos (by omega)]
    · rw [if_neg first, if_neg first]
      by_cases inside : (a - p).toNat < 2 * (n + 1)
      · have whole : (a - p).toNat = 2 + ((a - p).toNat - 2) := by omega
        rw [if_pos inside, if_pos (by omega), whole, fill_add_even ax rfl, Nat.add_sub_cancel_left]
      · rw [if_neg inside, if_neg (by omega)]

theorem word_fill (m : ByteMemory) (a : BitVec 32) {k : Nat} (two : k < 2) :
    fill (m.word a) k = m.bytes (a + BitVec.ofNat 32 k) := by
  rcases (by omega : k = 0 ∨ k = 1) with rfl | rfl
  · rw [fill, if_pos rfl, BitVec.add_zero]
    exact BitVec.setWidth_append_eq_right
  · exact extract_append _ _

theorem moveLong_bytes (m : ByteMemory) (p gap a : BitVec 32) :
    (m.moveLong p (p + gap)).bytes a = if (a - p).toNat < 4 then m.bytes (a + gap) else m.bytes a := by
  have limit := (a - p).isLt
  rw [moveLong, storeWord_fill, storeWord_fill]
  have there : ∀ b k : BitVec 32, a - b = k → b + gap + k = a + gap := by
    rintro b _ rfl
    ring
  by_cases upper : (a - (p + 2)).toNat < 2
  · have far : (a - p).toNat < 4 := by bv_omega
    have same := there (p + 2) _ rfl
    rw [if_pos upper, if_pos far, word_fill _ _ upper, BitVec.ofNat_toNat, BitVec.setWidth_eq, ← same]
    congr 1
    ring
  · rw [if_neg upper]
    by_cases lower : (a - p).toNat < 2
    · rw [if_pos lower, if_pos (by omega), word_fill _ _ lower, BitVec.ofNat_toNat, BitVec.setWidth_eq,
        there p _ rfl]
    · have far : ¬ (a - p).toNat < 4 := by bv_omega
      rw [if_neg lower, if_neg far]

/-- A copy downwards, or onto itself: no byte is overwritten before it is read. -/
theorem movsl_bytes {n : Nat} (room : 4 * n + gap.toNat ≤ 2 ^ 32) (a : BitVec 32) :
    (movsl 4 n p (p + gap) m).bytes a = if (a - p).toNat < 4 * n then m.bytes (a + gap) else m.bytes a := by
  induction n generalizing p m with
  | zero => rfl
  | succ n ih =>
    have limit := (a - p).isLt
    have next : (a - (p + 4)).toNat = if (a - p).toNat < 4 then (a - p).toNat + 2 ^ 32 - 4 else (a - p).toNat - 4 := by
      split <;> bv_omega
    have source : p + gap + 4 = p + 4 + gap := by ring
    rw [movsl, source, ih (by omega), moveLong_bytes, moveLong_bytes, next]
    by_cases first : (a - p).toNat < 4
    · rw [if_pos first, if_neg (by omega), if_pos first, if_pos (by omega)]
    · rw [if_neg first, if_neg first]
      by_cases inside : (a - p).toNat < 4 * (n + 1)
      · have sum : a + gap - p = a - p + gap := by ring
        have unread : ¬ (a + gap - p).toNat < 4 := by
          rw [sum, BitVec.toNat_add_of_lt (by omega)]
          omega
        rw [if_pos inside, if_pos (by omega), if_neg unread]
      · rw [if_neg inside, if_neg (by omega)]

end Contents

section Shows

variable {size : Nat} {m m' : ByteMemory} {o o' : BitVec 32} {ax : BitVec 16}

/-- The same bytes from one address on as from another. -/
def Shows (size : Nat) (m : ByteMemory) (o : BitVec 32) (m' : ByteMemory) (o' : BitVec 32) : Prop :=
  ∀ i : BitVec 32, i.toNat < size → m'.bytes (o' + i) = m.bytes (o + i)

theorem add_left_eq_iff (o a b : BitVec 32) : o + a = o + b ↔ a = b := BitVec.add_right_inj o

theorem Shows.store (shows : Shows size m o m' o') (k : BitVec 32) (b : BitVec 8) :
    Shows size (m.store (o + k) b) o (m'.store (o' + k) b) o' := by
  intro i inside
  rw [ByteMemory.store, ByteMemory.store]
  dsimp only
  rw [Function.update_apply, Function.update_apply, shows i inside]
  simp only [add_left_eq_iff]

theorem Shows.storeWord (shows : Shows size m o m' o') (k : BitVec 32) (w : BitVec 16) :
    Shows size (m.storeWord (o + k) w) o (m'.storeWord (o' + k) w) o' := by
  rw [ByteMemory.storeWord, ByteMemory.storeWord, BitVec.add_assoc, BitVec.add_assoc]
  exact (shows.store k _).store (k + 1) _

theorem Shows.word (shows : Shows size m o m' o') {k : BitVec 32} (inside : k.toNat + 1 < size)
    (small : size ≤ 2 ^ 32) : m'.word (o' + k) = m.word (o + k) := by
  have next : (k + 1).toNat = k.toNat + 1 := BitVec.toNat_add_of_lt (show k.toNat + 1 < 2 ^ 32 by omega)
  rw [ByteMemory.word, ByteMemory.word, BitVec.add_assoc, BitVec.add_assoc, shows k (by omega),
    shows (k + 1) (by omega)]

theorem Shows.stosw (shows : Shows size m o m' o') (step : BitVec 32) (ax : BitVec 16) (n : Nat) (k : BitVec 32) :
    Shows size (stosw step ax n (o + k) m) o (stosw step ax n (o' + k) m') o' := by
  induction n generalizing k m m' with
  | zero => exact shows
  | succ n ih =>
    rw [ByteMemory.stosw, ByteMemory.stosw, BitVec.add_assoc, BitVec.add_assoc]
    exact ih (shows.storeWord k ax) (k + step)

theorem Shows.moveLong (shows : Shows size m o m' o') (k : BitVec 32) {j : BitVec 32}
    (inside : j.toNat + 4 ≤ size) (small : size ≤ 2 ^ 32) :
    Shows size (m.moveLong (o + k) (o + j)) o (m'.moveLong (o' + k) (o' + j)) o' := by
  have next : (j + 2).toNat = j.toNat + 2 := BitVec.toNat_add_of_lt (show j.toNat + 2 < 2 ^ 32 by omega)
  rw [ByteMemory.moveLong, ByteMemory.moveLong, BitVec.add_assoc, BitVec.add_assoc, BitVec.add_assoc,
    BitVec.add_assoc, shows.word (k := j) (by omega) small, shows.word (k := j + 2) (by omega) small]
  exact (shows.storeWord k _).storeWord (k + 2) _

theorem Shows.movsl_up {n : Nat} (shows : Shows size m o m' o') (k : BitVec 32) {j : BitVec 32}
    (inside : j.toNat + 4 * n ≤ size) (small : size ≤ 2 ^ 32) :
    Shows size (movsl 4 n (o + k) (o + j) m) o (movsl 4 n (o' + k) (o' + j) m') o' := by
  induction n generalizing k j m m' with
  | zero => exact shows
  | succ n ih =>
    have moved := shows.moveLong k (j := j) (by omega) small
    rw [movsl, movsl, BitVec.add_assoc, BitVec.add_assoc, BitVec.add_assoc, BitVec.add_assoc]
    cases n with
    | zero => exact moved
    | succ n =>
      have next : (j + 4).toNat = j.toNat + 4 := BitVec.toNat_add_of_lt (show j.toNat + 4 < 2 ^ 32 by omega)
      exact ih moved (k + 4) (by omega)

theorem Shows.movsl_down {n : Nat} (shows : Shows size m o m' o') (k : BitVec 32) {j : BitVec 32}
    (inside : j.toNat + 4 ≤ size) (above : 4 * n ≤ j.toNat + 4) (small : size ≤ 2 ^ 32) :
    Shows size (movsl (-4) n (o + k) (o + j) m) o (movsl (-4) n (o' + k) (o' + j) m') o' := by
  induction n generalizing k j m m' with
  | zero => exact shows
  | succ n ih =>
    have moved := shows.moveLong k inside small
    rw [movsl, movsl, BitVec.add_assoc, BitVec.add_assoc, BitVec.add_assoc, BitVec.add_assoc]
    cases n with
    | zero => exact moved
    | succ n =>
      have next : (j + -4).toNat = j.toNat - 4 := by
        rw [BitVec.toNat_add, show (-4 : BitVec 32).toNat = 2 ^ 32 - 4 from rfl]
        omega
      exact ih moved (k + -4) (by omega) (by omega)

theorem Shows.through {m1 m1' : ByteMemory} (shows : Shows size m o m' o') (kept : Shows size m o m1 o)
    (kept' : Shows size m' o' m1' o') : Shows size m1 o m1' o' := by
  intro i inside
  rw [kept i inside, kept' i inside, shows i inside]

theorem storeWord_hidden (m : ByteMemory) (o : BitVec 32) {k : BitVec 32} (away : size ≤ k.toNat)
    (finish : k.toNat + 2 ≤ 2 ^ 32) (w : BitVec 16) : Shows size m o (m.storeWord (o + k) w) o := by
  intro i inside
  have apart : ¬ (o + i - (o + k)).toNat < 2 := by
    rw [add_sub_add_left_eq_sub]
    bv_omega
  rw [storeWord_fill, if_neg apart]

theorem stosw_hidden (m : ByteMemory) (o : BitVec 32) {k : BitVec 32} {n : Nat} (away : size ≤ k.toNat)
    (finish : k.toNat + 2 * n ≤ 2 ^ 32) : Shows size m o (ByteMemory.stosw 2 ax n (o + k) m) o := by
  intro i inside
  have apart : ¬ (o + i - (o + k)).toNat < 2 * n := by
    rw [add_sub_add_left_eq_sub]
    bv_omega
  rw [stosw_bytes (by omega), if_neg apart]

/-- Two stretches that begin at different places and cover the same of what is shown. -/
theorem Shows.fill {n n' : Nat} {k k' : BitVec 32} (shows : Shows size m o m' o') (room : 2 * n ≤ 2 ^ 32)
    (room' : 2 * n' ≤ 2 ^ 32) (even : k.toNat % 2 = 0) (even' : k'.toNat % 2 = 0)
    (same : ∀ i : BitVec 32, i.toNat < size → ((i - k).toNat < 2 * n ↔ (i - k').toNat < 2 * n')) :
    Shows size (ByteMemory.stosw 2 ax n (o + k) m) o (ByteMemory.stosw 2 ax n' (o' + k') m') o' := by
  intro i inside
  have parity : (i - k).toNat % 2 = (i - k').toNat % 2 := by bv_omega
  rw [stosw_bytes room, stosw_bytes room', add_sub_add_left_eq_sub, add_sub_add_left_eq_sub, shows i inside,
    ByteMemory.fill, ByteMemory.fill, parity]
  simp only [same i inside]

end Shows

end ByteMemory

end Linux011.Library

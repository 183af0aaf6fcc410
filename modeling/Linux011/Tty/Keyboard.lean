import Mathlib.Data.BitVec
import Mathlib.Data.List.Range
import Mathlib.Tactic.FinCases

namespace Linux011.Tty

structure Registers where
  eax : BitVec 32
  ebx : BitVec 32
  ecx : BitVec 32
  edx : BitVec 32
  deriving DecidableEq

namespace Registers

variable (r : Registers)

def al : BitVec 8 := r.eax.extractLsb' 0 8

def setAl (al : BitVec 8) : Registers := { r with eax := r.eax.extractLsb' 8 24 ++ al }

end Registers

/-- What a call of a C function leaves in the registers it need not save. -/
structure Clobbers where
  eax : BitVec 32
  ecx : BitVec 32
  edx : BitVec 32

def Clobbers.apply (c : Clobbers) (r : Registers) : Registers := { r with eax := c.eax, ecx := c.ecx, edx := c.edx }

/-- A `tty_queue`; `andl $size-1` keeps its indices to 10 bits. -/
structure TtyQueue where
  head : BitVec 10
  tail : BitVec 10
  procList : Option Nat
  buf : BitVec 10 → BitVec 8

namespace TtyQueue

variable (q : TtyQueue)

/-- One turn of the loop in `put_queue` before its tests, with `%ecx` as the head. -/
def push (b : BitVec 8) : TtyQueue := { q with buf := Function.update q.buf q.head b, head := q.head + 1 }

def contents : List (BitVec 8) :=
  (List.range (q.head - q.tail).toNat).map fun i => q.buf (q.tail + BitVec.ofNat 10 i)

def room : Nat := (q.tail - q.head - 1).toNat

/-- The loop of `put_queue` on the bytes of `%ebx:%eax`, and whether it ends at `2:`. -/
def put (eax ebx : BitVec 32) (q : TtyQueue) : Nat → TtyQueue × Bool
  | 0 => (q, false)
  | bytes + 1 =>
    let q := q.push (eax.extractLsb' 0 8)
    if q.head = q.tail then (q, false)
    else
      let eax := eax >>> 8 ||| ebx <<< 24
      if eax = 0 then (q, true) else put eax (ebx >>> 8) q bytes

end TtyQueue

/-- The variables of the keyboard, the console's read queue and the states of the tasks that may wait for it. -/
structure Keyboard where
  readQ : TtyQueue
  e0 : BitVec 8
  f12Flag : BitVec 32
  taskState : Nat → BitVec 32

namespace Keyboard

variable (kb : Keyboard)

/-- `%ebx:%eax` has at most 8 bytes. -/
def putQueue (eax ebx : BitVec 32) : Keyboard :=
  let (q, all) := TtyQueue.put eax ebx kb.readQ 8
  if all then
    { kb with
      readQ := q
      taskState := match q.procList with
        | none => kb.taskState
        | some p => Function.update kb.taskState p 0 }
  else { kb with readQ := { q with head := kb.readQ.head } }

def f12Trigger : Keyboard := { kb with f12Flag := kb.f12Flag ^^^ 1 }

end Keyboard

/-- The C functions that `func` calls, as the compiler made them, and the memory from `func_table` on. -/
structure Image where
  showStat : Clobbers
  f12Trigger : Clobbers
  memory : BitVec 32 → BitVec 32

def funcTable : List (BitVec 32) :=
  [0x415b5b1b, 0x425b5b1b, 0x435b5b1b, 0x445b5b1b,
   0x455b5b1b, 0x465b5b1b, 0x475b5b1b, 0x485b5b1b,
   0x495b5b1b, 0x4a5b5b1b, 0x4b5b5b1b, 0x4c5b5b1b]

/-- `func_table(,%eax,4)`: the scaled index loses its upper two bits. -/
def Image.entry (image : Image) (eax : BitVec 32) : BitVec 32 :=
  funcTable.getD (eax.setWidth 30).toNat (image.memory (eax <<< 2))

namespace Keyboard

variable (image : Image) (r : Registers) (kb : Keyboard)

/-- `func` from the scan code in `%al` to `ok_func`, where it gets there. -/
def funcKey : Option (Registers × Keyboard) :=
  if r.al < 0x3B then none
  else
    let r := r.setAl (r.al - 0x3B)
    if r.al ≤ 9 then some (r, kb)
    else
      let r := r.setAl (r.al - 18)
      if r.al < 10 then none
      else if 11 < r.al then none
      else if r.al < 11 then some (r, kb)
      else some (image.f12Trigger.apply r, kb.f12Trigger)

/-- `func`, and the index with which it reads `func_table`. -/
def func : Keyboard × Option (BitVec 32) :=
  let called := image.showStat.apply r
  let r := { called with edx := r.edx, ecx := r.ecx, eax := r.eax }
  match funcKey image r kb with
  | none => (kb, none)
  | some (r, kb) => if r.ecx.slt 4 then (kb, none) else (kb.putQueue (image.entry r.eax) 0, some r.eax)

end Keyboard

inductive Handler
  | none | doSelf | ctrl | alt | unctrl | unalt | lshift | unlshift | rshift | unrshift | caps | uncaps | scroll | num
  | minus | cursor | func
  deriving DecidableEq

def keyTable : List Handler :=
  ([.none, .doSelf, .doSelf, .doSelf, .doSelf, .doSelf, .doSelf, .doSelf,
   .doSelf, .doSelf, .doSelf, .doSelf, .doSelf, .doSelf, .doSelf, .doSelf,
   .doSelf, .doSelf, .doSelf, .doSelf, .doSelf, .doSelf, .doSelf, .doSelf,
   .doSelf, .doSelf, .doSelf, .doSelf, .doSelf, .ctrl, .doSelf, .doSelf,
   .doSelf, .doSelf, .doSelf, .doSelf, .doSelf, .doSelf, .doSelf, .doSelf,
   .doSelf, .doSelf, .lshift, .doSelf, .doSelf, .doSelf, .doSelf, .doSelf,
   .doSelf, .doSelf, .doSelf, .doSelf, .doSelf, .minus, .rshift, .doSelf,
   .alt, .doSelf, .caps, .func, .func, .func, .func, .func,
   .func, .func, .func, .func, .func, .num, .scroll, .cursor,
   .cursor, .cursor, .doSelf, .cursor, .cursor, .cursor, .doSelf, .cursor,
   .cursor, .cursor, .cursor, .cursor, .none, .none, .doSelf, .func,
   .func, .none, .none, .none] : List Handler) ++
  List.replicate 65 .none ++ [.unctrl] ++ List.replicate 12 .none ++ [.unlshift] ++ List.replicate 11 .none ++
  [.unrshift, .none, .unalt, .none, .uncaps] ++ List.replicate 69 .none

namespace Keyboard

/-- `keyboard_interrupt` up to the call of `do_tty_interrupt`, with the other keys' handlers given, and the index into
    `func_table` where it reads that. -/
def interrupt (image : Image) (others : Handler → Registers → Keyboard → Keyboard) (r : Registers) (scan : BitVec 8)
    (kb : Keyboard) : Keyboard × Option (BitVec 32) :=
  if scan = 0xe0 then ({ kb with e0 := 1 }, none)
  else if scan = 0xe1 then ({ kb with e0 := 2 }, none)
  else
    let r := { r with eax := scan.setWidth 32 }
    let (kb, index) := match keyTable.getD scan.toNat .none with
      | .func => func image r kb
      | handler => (others handler r kb, none)
    ({ kb with e0 := 0 }, index)

/-- The scan codes of F1 to F12. -/
def scanCode (k : Fin 12) : BitVec 8 := if k < 10 then 0x3B + BitVec.ofNat 8 k else 0x4D + BitVec.ofNat 8 k

end Keyboard

def bytes (v : BitVec 32) : List (BitVec 8) :=
  [v.extractLsb' 0 8, v.extractLsb' 8 8, v.extractLsb' 16 8, v.extractLsb' 24 8]

namespace TtyQueue

variable {q : TtyQueue} {v : BitVec 32}

theorem room_head (room : 0 < q.room) : q.head + 1 ≠ q.tail := by
  intro full
  unfold TtyQueue.room at room
  rw [← full] at room
  have none : q.head + 1 - q.head - 1 = 0 := by
    rw [BitVec.add_comm, BitVec.add_sub_cancel]
    rfl
  rw [none] at room
  exact absurd room (by decide)

theorem room_push (b : BitVec 8) (room : 0 < q.room) : (q.push b).room + 1 = q.room := by
  unfold TtyQueue.room at *
  unfold push
  dsimp only
  bv_omega

theorem push_contents (b : BitVec 8) (room : 0 < q.room) : (q.push b).contents = q.contents ++ [b] := by
  have other := room_head room
  have longer : (q.head + 1 - q.tail).toNat = (q.head - q.tail).toNat + 1 := by
    bv_omega
  unfold contents push
  dsimp only
  rw [longer, List.range_succ, List.map_append]
  congr 1
  · apply List.map_congr_left
    intro i member
    apply Function.update_of_ne
    have below := List.mem_range.mp member
    bv_omega
  · have last : q.tail + BitVec.ofNat 10 (q.head - q.tail).toNat = q.head := by
      rw [BitVec.ofNat_toNat, BitVec.setWidth_eq, BitVec.add_comm, BitVec.sub_add_cancel]
    rw [List.map_singleton, last, Function.update_self]

theorem put_more {n : Nat} (room : 0 < q.room) (more : v >>> 8 ≠ 0) :
    put v 0 q (n + 1) = put (v >>> 8) 0 (q.push (v.extractLsb' 0 8)) n := by
  have next : v >>> 8 ||| (0 : BitVec 32) <<< 24 = v >>> 8 := by simp
  rw [put]
  dsimp only
  rw [if_neg, next, if_neg more]
  · rfl
  · exact room_head room

theorem put_last {n : Nat} (room : 0 < q.room) (last : v >>> 8 = 0) :
    put v 0 q (n + 1) = (q.push (v.extractLsb' 0 8), true) := by
  rw [put]
  dsimp only
  rw [if_neg, last]
  · rfl
  · exact room_head room

theorem put_bytes (room : 4 ≤ q.room) (high : v >>> 24 ≠ 0) :
    (put v 0 q 8).2 = true ∧ (put v 0 q 8).1.contents = q.contents ++ bytes v ∧
      (put v 0 q 8).1.tail = q.tail ∧ (put v 0 q 8).1.procList = q.procList := by
  have first := room_push (q := q) (v.extractLsb' 0 8) (by omega)
  have second := room_push (q := q.push (v.extractLsb' 0 8)) ((v >>> 8).extractLsb' 0 8) (by omega)
  have third := room_push (q := (q.push (v.extractLsb' 0 8)).push ((v >>> 8).extractLsb' 0 8))
    ((v >>> 8 >>> 8).extractLsb' 0 8) (by omega)
  have shift : v >>> 8 >>> 8 >>> 8 = v >>> 24 := by rw [← BitVec.shiftRight_add, ← BitVec.shiftRight_add]
  have more : v >>> 8 >>> 8 ≠ 0 := by
    intro zero
    rw [zero] at shift
    exact high (shift.symm.trans (by decide))
  have some : v >>> 8 ≠ 0 := by
    intro zero
    rw [zero] at more
    exact more (by decide)
  have none : v >>> 8 >>> 8 >>> 8 >>> 8 = 0 := by
    rw [← BitVec.shiftRight_add, ← BitVec.shiftRight_add, ← BitVec.shiftRight_add]
    exact BitVec.ushiftRight_eq_zero (by decide)
  have all : put v 0 q 8 = ((((q.push (v.extractLsb' 0 8)).push ((v >>> 8).extractLsb' 0 8)).push
      ((v >>> 8 >>> 8).extractLsb' 0 8)).push ((v >>> 8 >>> 8 >>> 8).extractLsb' 0 8), true) := by
    rw [put_more (by omega) some, put_more (by omega) more, put_more (by omega) (shift ▸ high),
      put_last (by omega) none]
  have split : bytes v = [v.extractLsb' 0 8, (v >>> 8).extractLsb' 0 8, (v >>> 8 >>> 8).extractLsb' 0 8,
      (v >>> 8 >>> 8 >>> 8).extractLsb' 0 8] := by
    simp only [← BitVec.shiftRight_add, ← BitVec.setWidth_ushiftRight_eq_extractLsb, bytes]
  rw [all]
  refine ⟨rfl, ?_, rfl, rfl⟩
  rw [split]
  dsimp only
  rw [push_contents _ (by omega), push_contents _ (by omega), push_contents _ (by omega), push_contents _ (by omega)]
  simp

end TtyQueue

namespace Keyboard

variable {image : Image} {r : Registers} {kb : Keyboard} {k : Fin 12}

theorem putQueue_bytes {v : BitVec 32} (room : 4 ≤ kb.readQ.room) (high : v >>> 24 ≠ 0) :
    (kb.putQueue v 0).readQ.contents = kb.readQ.contents ++ bytes v ∧ (kb.putQueue v 0).readQ.tail = kb.readQ.tail ∧
      (kb.putQueue v 0).f12Flag = kb.f12Flag := by
  obtain ⟨all, contents, tail, _⟩ := TtyQueue.put_bytes room high
  unfold putQueue
  dsimp only
  rw [if_pos all]
  exact ⟨contents, tail, rfl⟩

theorem funcTable_high (k : Fin 12) : funcTable.getD k 0 >>> 24 ≠ 0 := by
  revert k
  decide

theorem funcTable_bytes (i k : Fin 12) (same : bytes (funcTable.getD i 0) = bytes (funcTable.getD k 0)) : i = k := by
  revert i k
  decide

theorem entry_below {i : BitVec 32} (below : i.toNat < 12) : image.entry i = funcTable.getD i.toNat 0 := by
  have small : (i.setWidth 30).toNat = i.toNat := by
    rw [BitVec.toNat_setWidth]
    exact Nat.mod_eq_of_lt (by omega)
  unfold Image.entry
  rw [small, List.getD_eq_getElem?_getD, List.getD_eq_getElem?_getD, List.getElem?_eq_getElem below]
  rfl

/-- The key's number is in `%eax` at `ok_func`, but that F12 has called `F12_trigger` in between. -/
theorem funcKey_key (image : Image) (r : Registers) (kb : Keyboard) (k : Fin 12) : funcKey image { r with eax := (scanCode k).setWidth 32 } kb =
    if k = 11 then
      some (image.f12Trigger.apply { r with eax := 11 }, kb.f12Trigger)
    else some ({ r with eax := BitVec.ofNat 32 k }, kb) := by
  fin_cases k <;> simp [funcKey, scanCode, Registers.al, Registers.setAl]

theorem interrupt_key (others : Handler → Registers → Keyboard → Keyboard) (k : Fin 12) :
    interrupt image others r (scanCode k) kb =
      ({ (func image { r with eax := (scanCode k).setWidth 32 } kb).1 with e0 := 0 },
        (func image { r with eax := (scanCode k).setWidth 32 } kb).2) := by
  fin_cases k <;> rfl

/-- What F1 to F12 should do. -/
def Sends (kb : Keyboard) (k : Fin 12) (done : Keyboard × Option (BitVec 32)) : Prop :=
  done.1.readQ.contents = kb.readQ.contents ++ bytes (funcTable.getD k 0) ∧ done.1.readQ.tail = kb.readQ.tail ∧
    (∀ i ∈ done.2, i.toNat < 12) ∧ done.1.f12Flag = if k = 11 then kb.f12Flag ^^^ 1 else kb.f12Flag

/-- `%ecx` passes for enough room, and `F12_trigger` has left the key's number in `%eax`. -/
def Passes (image : Image) (r : Registers) (k : Fin 12) : Prop :=
  if k = 11 then image.f12Trigger.eax = 11 ∧ image.f12Trigger.ecx.slt 4 = false else r.ecx.slt 4 = false

instance : Decidable (Passes image r k) := inferInstanceAs (Decidable (ite _ _ _))

theorem func_other (other : k ≠ 11) : func image { r with eax := (scanCode k).setWidth 32 } kb =
    if r.ecx.slt 4 then (kb, none)
    else (kb.putQueue (image.entry (BitVec.ofNat 32 k)) 0, some (BitVec.ofNat 32 k)) := by
  have key := funcKey_key image r kb k
  rw [if_neg other] at key
  unfold func
  dsimp only [Clobbers.apply]
  rw [key]

theorem func_f12 : func image { r with eax := (scanCode 11).setWidth 32 } kb =
    if image.f12Trigger.ecx.slt 4 then (kb.f12Trigger, none)
    else (kb.f12Trigger.putQueue (image.entry image.f12Trigger.eax) 0, some image.f12Trigger.eax) := by
  have key := funcKey_key image r kb 11
  rw [if_pos rfl] at key
  unfold func
  dsimp only [Clobbers.apply]
  rw [key]
  rfl

theorem not_sends {done : Keyboard × Option (BitVec 32)} (idle : done.1.readQ = kb.readQ) : ¬ Sends kb k done := by
  rintro ⟨sent, _⟩
  rw [idle] at sent
  exact absurd (List.append_right_eq_self.mp sent.symm) (List.cons_ne_nil _ _)

/-- A function key sends its own bytes exactly where the registers pass. -/
theorem func_key_iff (others : Handler → Registers → Keyboard → Keyboard) (room : 4 ≤ kb.readQ.room) :
    Sends kb k (interrupt image others r (scanCode k) kb) ↔ Passes image r k := by
  have sent {i : BitVec 32} (below : i.toNat < 12) (kb₁ : Keyboard) (same : kb₁.readQ = kb.readQ) :
      (kb₁.putQueue (image.entry i) 0).readQ.contents = kb.readQ.contents ++ bytes (funcTable.getD i.toNat 0) ∧
        (kb₁.putQueue (image.entry i) 0).readQ.tail = kb.readQ.tail ∧
        (kb₁.putQueue (image.entry i) 0).f12Flag = kb₁.f12Flag := by
    rw [entry_below below, ← same]
    exact putQueue_bytes (same ▸ room) (funcTable_high ⟨i.toNat, below⟩)
  rw [interrupt_key]
  unfold Passes
  by_cases last : k = 11
  · subst last
    rw [if_pos rfl, func_f12]
    split
    · rename_i less
      constructor
      · exact fun sends => absurd sends (not_sends rfl)
      · exact fun passes => absurd (less.symm.trans passes.2) (by decide)
    · rename_i enough
      constructor
      · rintro ⟨contents, _, below, _⟩
        have below : image.f12Trigger.eax.toNat < 12 := below _ rfl
        have own := (sent below kb.f12Trigger rfl).1
        have same : bytes (funcTable.getD image.f12Trigger.eax.toNat 0) = bytes (funcTable.getD (11 : Fin 12) 0) :=
          List.append_cancel_left (own.symm.trans contents)
        have index := funcTable_bytes ⟨_, below⟩ 11 same
        have number : image.f12Trigger.eax.toNat = 11 := congrArg Fin.val index
        exact ⟨BitVec.eq_of_toNat_eq number, Bool.eq_false_iff.mpr enough⟩
      · rintro ⟨index, _⟩
        rw [index]
        obtain ⟨contents, tail, flag⟩ := sent (i := 11) (by decide) kb.f12Trigger rfl
        refine ⟨contents, tail, ?_, flag⟩
        rintro _ ⟨⟩
        decide
  · rw [if_neg last, func_other last]
    have small : (BitVec.ofNat 32 k).toNat = k := by
      rw [BitVec.toNat_ofNat]
      exact Nat.mod_eq_of_lt (by omega)
    split
    · rename_i less
      constructor
      · exact fun sends => absurd sends (not_sends rfl)
      · exact fun passes => absurd (less.symm.trans passes) (by decide)
    · rename_i enough
      refine ⟨fun _ => Bool.eq_false_iff.mpr enough, fun _ => ?_⟩
      obtain ⟨contents, tail, flag⟩ := sent (i := BitVec.ofNat 32 k) (by omega) kb rfl
      rw [small] at contents
      refine ⟨contents, tail, ?_, ?_⟩
      · rintro _ ⟨⟩
        rw [small]
        exact k.isLt
      · rw [if_neg last]
        exact flag

def empty : Keyboard := ⟨⟨0, 0, none, fun _ => 0⟩, 0, 0, fun _ => 0⟩

/-- C functions that return 0 and leave the other registers as they are while these are 0. -/
def zeroes : Image := ⟨⟨0, 0, 0⟩, ⟨0, 0, 0⟩, fun _ => 0⟩

/-- F1 in a program that has 4 in `%ecx`. -/
theorem func_key_f1 : 4 ≤ empty.readQ.room ∧
    (Sends empty 0 (interrupt zeroes (fun _ _ kb => kb) ⟨0, 0, 4, 0⟩ (scanCode 0) empty) ↔ Passes zeroes ⟨0, 0, 4, 0⟩ 0) ∧
    Passes zeroes ⟨0, 0, 4, 0⟩ 0 :=
  ⟨by decide, func_key_iff _ (by decide), by decide⟩

/-- F1 in a program that has 0 in `%ecx`. -/
theorem func_key_lost : 4 ≤ empty.readQ.room ∧
    ¬ Sends empty 0 (interrupt zeroes (fun _ _ kb => kb) ⟨0, 0, 0, 0⟩ (scanCode 0) empty) := by
  refine ⟨by decide, fun sends => ?_⟩
  have same : (interrupt zeroes (fun _ _ kb => kb) ⟨0, 0, 0, 0⟩ (scanCode 0) empty).1.readQ.contents = [] := by decide
  exact absurd (same.symm.trans sends.1) (by decide)

end Keyboard

end Linux011.Tty

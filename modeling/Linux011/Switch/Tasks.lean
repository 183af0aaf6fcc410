import Linux011.Library.Machine
import Linux011.Switch.SwitchTo

namespace Linux011.Switch

open Linux011.Library

variable {F : Type}

/-- The addresses of the page with a task structure and its kernel stack. -/
def Within (t a : Word) : Prop := t.toNat ≤ a.toNat ∧ a.toNat < t.toNat + 4096

def Apart (t u : Word) : Prop := t.toNat + 4096 ≤ u.toNat ∨ u.toNat + 4096 ≤ t.toNat

/-- A stack pointer with room below it for what `switch_to` pushes. -/
def OnStack (t esp : Word) : Prop := t.toNat + 20 ≤ esp.toNat ∧ esp.toNat ≤ t.toNat + 4096

/-- The kernel with its tasks: for a task that has called `switch_to` and is not back the processor as it was
    at the call, and for every task the coprocessor as it last left it. -/
structure State (F : Type) where
  kernel : Kernel F
  live : Word → Prop
  suspended : Word → Option Cpu
  left : Word → F

inductive Event (F : Type)
  | work
  | switch (next ldt : Word)
  | use (found new : F)
  | fork (p : Word) (f : Frame) (done : Bool)
  | exit
  | release (p : Word)

/-- What the running task may do: compute on its own stack, call `switch_to`, use the coprocessor, fork (where
    the page tables may not be had), exit, and release a task. -/
inductive Step (initial : F) (firstReturnFromKernel : Word) (s : State F) : Event F → State F → Prop
  | work (cpu : Cpu) (stack : Word → Word) (ts : cpu.ts = s.kernel.cpu.ts) (ldtr : cpu.ldtr = s.kernel.cpu.ldtr)
      (own : ∀ a, ¬ Within s.kernel.current a → stack a = s.kernel.stack a) :
      Step initial firstReturnFromKernel s .work { s with kernel.cpu := cpu, kernel.stack := stack }
  | same (ldt : Word) (args : s.kernel.Args s.kernel.current ldt)
      (room : OnStack s.kernel.current s.kernel.cpu.esp) :
      Step initial firstReturnFromKernel s (.switch s.kernel.current ldt) { s with kernel := s.kernel.call.switchTo }
  | switch (next ldt : Word) (args : s.kernel.Args next ldt) (room : OnStack s.kernel.current s.kernel.cpu.esp)
      (other : next ≠ s.kernel.current) (live : s.live next) :
      Step initial firstReturnFromKernel s (.switch next ldt)
        { s with
          kernel := s.kernel.call.switchTo
          suspended := Function.update (Function.update s.suspended s.kernel.current (some s.kernel.cpu)) next none }
  | use (new : F) :
      Step initial firstReturnFromKernel s (.use (s.kernel.deviceNotAvailable initial).fpu new)
        { s with
          kernel := { s.kernel.deviceNotAvailable initial with fpu := new }
          left := Function.update s.left s.kernel.current new }
  | fork (p : Word) (f : Frame) (done : Bool) (page : p.toNat + 4096 ≤ 2 ^ 32) (positive : p ≠ 0)
      (free : ¬ s.live p) (apart : ∀ t, s.live t → Apart t p) :
      Step initial firstReturnFromKernel s (.fork p f done)
        { s with
          kernel := s.kernel.copyProcess initial firstReturnFromKernel p f
          live := fun t => s.live t ∨ t = p ∧ done = true
          left := Function.update s.left p (s.left s.kernel.current) }
  | exit : Step initial firstReturnFromKernel s .exit { s with kernel := s.kernel.doExit }
  | release (p : Word) (live : s.live p) (other : p ≠ s.kernel.current) :
      Step initial firstReturnFromKernel s (.release p)
        { s with live := fun t => s.live t ∧ t ≠ p, suspended := Function.update s.suspended p none }

/-- The first task alone, before anyone used the coprocessor. -/
structure Booted (initial : F) (s : State F) : Prop where
  live : ∀ t, s.live t ↔ t = s.kernel.current
  current : s.kernel.current ≠ 0
  running : ∀ t, s.suspended t = none
  lastTaskUsedMath : s.kernel.lastTaskUsedMath = 0
  usedMath : s.kernel.usedMath s.kernel.current = false
  left : ∀ t, s.left t = initial

def switching (initial : F) (firstReturnFromKernel : Word) : Machine (State F) (Event F) where
  init := Booted initial
  step := Step initial firstReturnFromKernel

/-- A task that is off the processor has its registers on its stack. -/
structure Frozen (k : Kernel F) (t : Word) (c : Cpu) : Prop where
  room : OnStack t c.esp
  kernelStack : k.kernelStack t = c.esp - 20
  stack : k.stack (c.esp - 20) = c.eax ∧ k.stack (c.esp - 16) = c.ebx ∧ k.stack (c.esp - 12) = c.ecx ∧
    k.stack (c.esp - 8) = c.ebp ∧ k.stack (c.esp - 4) = c.eip

structure Frames (s : State F) : Prop where
  current : s.live s.kernel.current
  apart : ∀ t u, s.live t → s.live u → t ≠ u → Apart t u
  frozen : ∀ t c, s.suspended t = some c → s.live t ∧ t ≠ s.kernel.current ∧ Frozen s.kernel t c

theorem OnStack.within {t esp : Word} (room : OnStack t esp) : Within t (esp - 20) ∧ Within t (esp - 16) ∧
    Within t (esp - 12) ∧ Within t (esp - 8) ∧ Within t (esp - 4) := by
  obtain ⟨low, high⟩ := room
  have value (d : Word) (small : d.toNat ≤ 20) : (esp - d).toNat = esp.toNat - d.toNat :=
    BitVec.toNat_sub_of_le (BitVec.le_def.mpr (by omega))
  unfold Within
  rw [value 20 (by decide), value 16 (by decide), value 12 (by decide), value 8 (by decide), value 4 (by decide)]
  simp only [BitVec.reduceToNat]
  omega

theorem Apart.not_within {t u a : Word} (apart : Apart t u) (here : Within t a) : ¬ Within u a := by
  unfold Apart at apart
  unfold Within at here ⊢
  omega

theorem Apart.symm {t u : Word} (apart : Apart t u) : Apart u t := Or.symm apart

theorem Frozen.kept {k k' : Kernel F} {t u : Word} {c : Cpu} (frozen : Frozen k t c)
    (kernelStack : k'.kernelStack t = k.kernelStack t) (stack : ∀ a, ¬ Within u a → k'.stack a = k.stack a)
    (apart : Apart t u) : Frozen k' t c where
  room := frozen.room
  kernelStack := kernelStack.trans frozen.kernelStack
  stack := by
    obtain ⟨first, second, third, fourth, fifth⟩ := frozen.room.within
    rw [stack _ (apart.not_within first), stack _ (apart.not_within second), stack _ (apart.not_within third),
      stack _ (apart.not_within fourth), stack _ (apart.not_within fifth)]
    exact frozen.stack

namespace Kernel

variable {k : Kernel F}

theorem framed_outside (room : OnStack k.current k.cpu.esp) (a : Word) (outside : ¬ Within k.current a) :
    k.framed a = k.stack a := by
  obtain ⟨first, second, third, fourth, fifth⟩ := room.within
  apply frame_other
  refine ⟨?_, ?_, ?_, ?_, ?_⟩
  · exact fun same => outside (same ▸ fifth)
  · exact fun same => outside (same ▸ fourth)
  · exact fun same => outside (same ▸ third)
  · exact fun same => outside (same ▸ second)
  · exact fun same => outside (same ▸ first)

theorem write_outside {p : Word} (words : List Word) (d : Nat) (page : p.toNat + 4096 ≤ 2 ^ 32)
    (room : d + 4 * words.length ≤ 4096) (a : Word) (outside : ¬ Within p a) :
    k.write (p + BitVec.ofNat 32 d) words a = k.stack a := by
  induction words generalizing d with
  | nil => rfl
  | cons v vs ih =>
    rw [List.length_cons] at room
    have next : p + BitVec.ofNat 32 d + 4 = p + BitVec.ofNat 32 (d + 4) :=
      (BitVec.add_assoc _ _ _).trans (congrArg _ (BitVec.ofNat_add d 4).symm)
    have away : a ≠ p + BitVec.ofNat 32 d := by
      intro same
      apply outside
      rw [same, Within, BitVec.toNat_add, BitVec.toNat_ofNat, Nat.mod_eq_of_lt (a := d) (by omega),
        Nat.mod_eq_of_lt (by omega)]
      omega
    rw [write, Function.update_of_ne away, next]
    exact ih (d + 4) (by omega)

theorem copyProcess_stack {initial : F} {firstReturnFromKernel p : Word} {f : Frame}
    (page : p.toNat + 4096 ≤ 2 ^ 32) (a : Word) (outside : ¬ Within p a) :
    (k.copyProcess initial firstReturnFromKernel p f).stack a = k.stack a := by
  have place : p + 4096 - 4 * 17 = p + BitVec.ofNat 32 4028 := by bv_omega
  have written := write_outside (k := k) (f.words firstReturnFromKernel) 4028 page
    (by simp [Frame.words]) a outside
  unfold copyProcess
  rw [place]
  dsimp only
  split <;> exact written

theorem copyProcess_kernelStack {initial : F} {firstReturnFromKernel p t : Word} {f : Frame} (other : t ≠ p) :
    (k.copyProcess initial firstReturnFromKernel p f).kernelStack t = k.kernelStack t := by
  unfold copyProcess
  dsimp only
  split <;> exact Function.update_of_ne other _ _

theorem copyProcess_current {initial : F} {firstReturnFromKernel p : Word} {f : Frame} :
    (k.copyProcess initial firstReturnFromKernel p f).current = k.current := by
  unfold copyProcess
  dsimp only
  split <;> rfl

theorem mathStateRestore_frame (initial : F) : (k.mathStateRestore initial).stack = k.stack ∧
    (k.mathStateRestore initial).kernelStack = k.kernelStack ∧ (k.mathStateRestore initial).current = k.current ∧
    (k.mathStateRestore initial).cpu = k.cpu := by
  unfold mathStateRestore
  split
  · exact ⟨rfl, rfl, rfl, rfl⟩
  · dsimp only
    split <;> split <;> exact ⟨rfl, rfl, rfl, rfl⟩

theorem deviceNotAvailable_frame (initial : F) : (k.deviceNotAvailable initial).stack = k.stack ∧
    (k.deviceNotAvailable initial).kernelStack = k.kernelStack ∧
    (k.deviceNotAvailable initial).current = k.current := by
  unfold deviceNotAvailable
  split
  · obtain ⟨stack, kernelStack, current, _⟩ := mathStateRestore_frame (k := { k with cpu.ts := false }) initial
    exact ⟨stack, kernelStack, current⟩
  · exact ⟨rfl, rfl, rfl⟩

theorem doExit_frame : k.doExit.stack = k.stack ∧ k.doExit.kernelStack = k.kernelStack ∧
    k.doExit.current = k.current ∧ k.doExit.cpu = k.cpu := by
  unfold doExit
  split <;> exact ⟨rfl, rfl, rfl, rfl⟩

end Kernel

end Linux011.Switch

import Linux011.Switch.Cpu
import Mathlib.Tactic.Common

namespace Linux011.Switch

variable {F : Type}

@[simp] theorem compare_zero (a b : Word) : (compare a b).zero = decide (a = b) := rfl

/-- Five words pushed on a stack, the first one just below an address. -/
def frame (stack : Word → Word) (esp eip ebp ecx ebx eax : Word) : Word → Word :=
  Function.update (Function.update (Function.update (Function.update (Function.update stack
    (esp - 4) eip) (esp - 8) ebp) (esp - 12) ecx) (esp - 16) ebx) (esp - 20) eax

section Frame

variable (stack : Word → Word) (esp eip ebp ecx ebx eax : Word)

theorem frame_at :
    frame stack esp eip ebp ecx ebx eax (esp - 20) = eax ∧ frame stack esp eip ebp ecx ebx eax (esp - 16) = ebx ∧
      frame stack esp eip ebp ecx ebx eax (esp - 12) = ecx ∧ frame stack esp eip ebp ecx ebx eax (esp - 8) = ebp ∧
      frame stack esp eip ebp ecx ebx eax (esp - 4) = eip := by
  have apart : esp - 16 ≠ esp - 20 ∧ esp - 12 ≠ esp - 20 ∧ esp - 12 ≠ esp - 16 ∧ esp - 8 ≠ esp - 20 ∧
      esp - 8 ≠ esp - 16 ∧ esp - 8 ≠ esp - 12 ∧ esp - 4 ≠ esp - 20 ∧ esp - 4 ≠ esp - 16 ∧ esp - 4 ≠ esp - 12 ∧
      esp - 4 ≠ esp - 8 := by bv_omega
  obtain ⟨a, b, c, d, e, f, g, h, i, j⟩ := apart
  unfold frame
  simp only [Function.update_self, Function.update_of_ne, a, b, c, d, e, f, g, h, i, j, ne_eq, not_false_eq_true,
    and_self]

theorem frame_other {a : Word} (outside : a ≠ esp - 4 ∧ a ≠ esp - 8 ∧ a ≠ esp - 12 ∧ a ≠ esp - 16 ∧ a ≠ esp - 20) :
    frame stack esp eip ebp ecx ebx eax a = stack a := by
  obtain ⟨first, second, third, fourth, fifth⟩ := outside
  unfold frame
  rw [Function.update_of_ne fifth, Function.update_of_ne fourth, Function.update_of_ne third,
    Function.update_of_ne second, Function.update_of_ne first]

theorem frame_above : frame stack esp eip ebp ecx ebx eax esp = stack esp ∧
    frame stack esp eip ebp ecx ebx eax (esp + 4) = stack (esp + 4) :=
  ⟨frame_other _ _ _ _ _ _ _ (by bv_omega), frame_other _ _ _ _ _ _ _ (by bv_omega)⟩

end Frame

theorem below (esp : Word) : esp - 4 - 4 = esp - 8 ∧ esp - 8 - 4 = esp - 12 ∧ esp - 12 - 4 = esp - 16 ∧
    esp - 16 - 4 = esp - 20 ∧ esp - 8 + 8 = esp ∧ esp - 8 + 12 = esp + 4 := by bv_omega

theorem above (esp : Word) : esp + 4 + 4 = esp + 8 ∧ esp + 8 + 4 = esp + 12 ∧ esp + 12 + 4 = esp + 16 ∧
    esp + 16 + 4 = esp + 20 := by bv_omega

theorem back (esp : Word) : esp - 20 + 4 = esp - 16 ∧ esp - 20 + 8 = esp - 12 ∧ esp - 20 + 12 = esp - 8 ∧
    esp - 20 + 16 = esp - 4 ∧ esp - 20 + 20 = esp := by bv_omega

namespace Kernel

variable (k : Kernel F)

/-- The stack when `switch_to` looks at the task to switch to. -/
def framed : Word → Word := frame k.stack k.cpu.esp k.cpu.eip k.cpu.ebp k.cpu.ecx k.cpu.ebx k.cpu.eax

theorem enter_eq : k.call.enter =
    { k with stack := k.framed, cpu.ebp := k.cpu.esp - 8, cpu.esp := k.cpu.esp - 20 } := by
  obtain ⟨at8, at12, at16, at20, _⟩ := below k.cpu.esp
  simp only [call, enter, push, framed, frame, at8, at12, at16, at20]

theorem leave_eq : k.leave =
    { k with
      cpu.eax := k.stack k.cpu.esp
      cpu.ebx := k.stack (k.cpu.esp + 4)
      cpu.ecx := k.stack (k.cpu.esp + 8)
      cpu.ebp := k.stack (k.cpu.esp + 12)
      cpu.eip := k.stack (k.cpu.esp + 16)
      cpu.esp := k.cpu.esp + 20 } := by
  obtain ⟨at8, at12, at16, at20⟩ := above k.cpu.esp
  simp only [leave, pop, top, at8, at12, at16, at20]

/-- The arguments of a call of `switch_to`, as the C compiler pushes them. -/
structure Args (next ldt : Word) : Prop where
  next : k.stack k.cpu.esp = next
  ldt : k.stack (k.cpu.esp + 4) = ldt

variable {k} {next ldt : Word}

theorem switchTo_same (args : k.Args k.current ldt) : k.call.switchTo =
    { k with stack := k.framed, cpu.eflags.status := compare k.current k.current } := by
  have next : k.framed k.cpu.esp = k.current := (frame_above _ _ _ _ _ _ _).1.trans args.next
  obtain ⟨eax, ebx, ecx, ebp, eip⟩ := frame_at k.stack k.cpu.esp k.cpu.eip k.cpu.ebp k.cpu.ecx k.cpu.ebx k.cpu.eax
  obtain ⟨_, _, _, _, at8, _⟩ := below k.cpu.esp
  obtain ⟨up4, up8, up12, up16, up20⟩ := back k.cpu.esp
  unfold switchTo
  rw [enter_eq]
  simp only [setStatus, at8, next, compare_zero, decide_true, if_true]
  rw [leave_eq]
  simp only [framed, up4, up8, up12, up16, up20, eax, ebx, ecx, ebp, eip]

theorem switchTo_other (args : k.Args next ldt) (other : next ≠ k.current) : k.call.switchTo =
    { k with
      stack := k.framed
      kernelStack := Function.update k.kernelStack k.current (k.cpu.esp - 20)
      esp0 := Function.update k.esp0 k.initTss (next + 4096)
      current := next
      cpu.eax := k.framed (k.kernelStack next)
      cpu.ebx := k.framed (k.kernelStack next + 4)
      cpu.ecx := k.framed (k.kernelStack next + 8)
      cpu.ebp := k.framed (k.kernelStack next + 12)
      cpu.eip := k.framed (k.kernelStack next + 16)
      cpu.esp := k.kernelStack next + 20
      cpu.eflags.status := compare k.lastTaskUsedMath k.current
      cpu.ldtr := ldt.setWidth 16
      cpu.fs := 0x17
      cpu.ts := if k.lastTaskUsedMath = k.current then false else k.cpu.ts } := by
  have atNext : k.framed k.cpu.esp = next := (frame_above _ _ _ _ _ _ _).1.trans args.next
  have atLdt : k.framed (k.cpu.esp + 4) = ldt := (frame_above _ _ _ _ _ _ _).2.trans args.ldt
  obtain ⟨_, _, _, _, at8, at12⟩ := below k.cpu.esp
  have stays : k.current ≠ next := other.symm
  unfold switchTo
  rw [enter_eq]
  simp only [setStatus, at8, atNext, compare_zero, stays, decide_false, Bool.false_eq_true, if_false]
  rw [leave_eq]
  simp only [swap, setStatus, at8, at12, atNext, atLdt, compare_zero, decide_eq_true_eq, Function.update_of_ne other]
  split
  · rfl
  · rfl

end Kernel

end Linux011.Switch

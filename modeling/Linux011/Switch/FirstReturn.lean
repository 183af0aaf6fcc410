import Linux011.Switch.Slots

namespace Linux011.Switch

open Linux011.Library

variable {F : Type}

namespace Eflags

/-- The flags in a word: bits 0, 2, 4, 6, 7 and 11 are set by arithmetic, and bit 9 is the interrupt flag. -/
def ofWord (w : Word) : Eflags where
  status := ⟨w.getLsbD 0, w.getLsbD 2, w.getLsbD 4, w.getLsbD 6, w.getLsbD 7, w.getLsbD 11⟩
  interrupt := w.getLsbD 9
  others := w &&& 0xfffff52a

def bit (set : Bool) (i : Nat) : Word := if set then BitVec.twoPow 32 i else 0

def toWord (e : Eflags) : Word :=
  e.others ||| bit e.status.carry 0 ||| bit e.status.parity 2 ||| bit e.status.adjust 4 ||| bit e.status.zero 6 |||
    bit e.status.sign 7 ||| bit e.interrupt 9 ||| bit e.status.overflow 11

theorem bit_eq (w : Word) (i : Nat) : bit (w.getLsbD i) i = w &&& BitVec.twoPow 32 i := (BitVec.and_twoPow w i).symm

theorem toWord_ofWord (w : Word) : (ofWord w).toWord = w := by
  have all : (0xfffff52a : Word) ||| BitVec.twoPow 32 0 ||| BitVec.twoPow 32 2 ||| BitVec.twoPow 32 4 |||
      BitVec.twoPow 32 6 ||| BitVec.twoPow 32 7 ||| BitVec.twoPow 32 9 ||| BitVec.twoPow 32 11 = BitVec.allOnes 32 := by
    decide
  simp only [toWord, ofWord, bit_eq]
  simp only [← BitVec.and_or_distrib_left]
  rw [all, BitVec.and_allOnes]

end Eflags

namespace Kernel

variable (k : Kernel F)

/-- `first_return_from_kernel` before its `iret`. -/
def firstReturn : Kernel F :=
  let k := { k.pop with cpu.edx := k.top }
  let k := { k.pop with cpu.edi := k.top }
  let k := { k.pop with cpu.esi := k.top }
  let k := { k.pop with cpu.gs := k.top.setWidth 16 }
  let k := { k.pop with cpu.fs := k.top.setWidth 16 }
  let k := { k.pop with cpu.es := k.top.setWidth 16 }
  { k.pop with cpu.ds := k.top.setWidth 16 }

/-- The first three words of an `iret`. -/
def popReturn : Kernel F :=
  let k := { k.pop with cpu.eip := k.top }
  let k := { k.pop with cpu.cs := k.top.setWidth 16 }
  { k.pop with cpu.eflags := .ofWord k.top }

/-- The other two of an `iret` to a user program: its stack pointer, and the kernel with `esp` still behind the
    words. -/
def popStack : Word × Kernel F :=
  let esp := k.top
  let k := k.pop
  (esp, { k.pop with cpu.ss := k.top.setWidth 16 })

/-- The lower two bits of `cs` are the privilege level. -/
def iret : Kernel F :=
  let k := k.popReturn
  if k.cpu.cs &&& 3 = 0 then k
  else
    let (esp, k) := k.popStack
    { k with cpu.esp := esp }

end Kernel

/-- The registers of a child that starts where its parent forked. -/
structure StartsAs (c : Cpu) (f : Frame) : Prop where
  eax : c.eax = 0
  ebx : c.ebx = f.ebx
  ecx : c.ecx = f.ecx
  edx : c.edx = f.edx
  esi : c.esi = f.esi
  edi : c.edi = f.edi
  ebp : c.ebp = f.ebp
  esp : c.esp = f.esp
  eip : c.eip = f.eip
  eflags : c.eflags.toWord = f.eflags
  cs : c.cs = f.cs.setWidth 16
  ss : c.ss = f.ss.setWidth 16
  ds : c.ds = f.ds.setWidth 16
  es : c.es = f.es.setWidth 16
  fs : c.fs = f.fs.setWidth 16
  gs : c.gs = f.gs.setWidth 16

/-- A forked task that has not run yet: its stack is as `copy_process` built it. -/
structure Waiting (firstReturnFromKernel : Word) (s : State F) (p : Word) (f : Frame) : Prop where
  live : s.live p
  other : p ≠ s.kernel.current
  page : p.toNat + 4096 ≤ 2 ^ 32
  kernelStack : s.kernel.kernelStack p = p + 4028
  words : ∀ i (few : i < 17), s.kernel.stack (p + 4028 + BitVec.ofNat 32 (4 * i)) =
    (f.words firstReturnFromKernel).get ⟨i, few⟩

/-- The child is not chosen, nor released. -/
def Event.Passes (p : Word) : Event F → Prop
  | .switch next _ => next ≠ p
  | .release q => q ≠ p
  | _ => True

variable {initial : F} {firstReturnFromKernel : Word} {s t : State F} {p : Word} {f : Frame}

section Stack

theorem within_child (page : p.toNat + 4096 ≤ 2 ^ 32) {i : Nat} (few : i < 17) :
    Within p (p + 4028 + BitVec.ofNat 32 (4 * i)) := by
  have value : (p + 4028 + BitVec.ofNat 32 (4 * i)).toNat = p.toNat + 4028 + 4 * i := by
    rw [BitVec.toNat_add, BitVec.toNat_add, BitVec.toNat_ofNat]
    change ((p.toNat + 4028) % 2 ^ 32 + 4 * i % 2 ^ 32) % 2 ^ 32 = _
    omega
  rw [Within, value]
  omega

theorem Waiting.of_fork (frames : Frames s) (step : Step initial firstReturnFromKernel s (.fork p f true) t) :
    Waiting firstReturnFromKernel t p f := by
  cases step with
  | fork _ _ _ page _ free apart =>
    have place : p + 4096 - 4 * 17 = p + 4028 := by bv_omega
    constructor
    · exact .inr ⟨rfl, rfl⟩
    · intro same
      have current : (s.kernel.copyProcess initial firstReturnFromKernel p f).current = s.kernel.current :=
        Kernel.copyProcess_current
      exact free ((same.trans current).symm ▸ frames.current)
    · exact page
    · change (s.kernel.copyProcess initial firstReturnFromKernel p f).kernelStack p = _
      unfold Kernel.copyProcess
      rw [place]
      dsimp only
      split <;> exact Function.update_self ..
    · intro i few
      have written := write_at (k := s.kernel) (f.words firstReturnFromKernel) (p + 4028) few (show 4 * 17 < 2 ^ 32 by decide)
      change (s.kernel.copyProcess initial firstReturnFromKernel p f).stack _ = _
      unfold Kernel.copyProcess
      rw [place]
      dsimp only
      split <;> exact written

theorem Waiting.kept (waiting : Waiting firstReturnFromKernel s p f) (live : t.live p) (other : p ≠ t.kernel.current)
    (kernelStack : t.kernel.kernelStack p = s.kernel.kernelStack p)
    (stack : ∀ a, Within p a → t.kernel.stack a = s.kernel.stack a) : Waiting firstReturnFromKernel t p f where
  live := live
  other := other
  page := waiting.page
  kernelStack := kernelStack.trans waiting.kernelStack
  words i few := (stack _ (within_child waiting.page few)).trans (waiting.words i few)

theorem Waiting.step {e : Event F} (waiting : Waiting firstReturnFromKernel s p f) (frames : Frames s)
    (passes : e.Passes p) (step : Step initial firstReturnFromKernel s e t) : Waiting firstReturnFromKernel t p f := by
  have away {a : Word} (inside : Within p a) : ¬ Within s.kernel.current a :=
    (frames.apart p _ waiting.live frames.current waiting.other).not_within inside
  cases step with
  | work cpu stack _ _ own =>
    exact waiting.kept waiting.live waiting.other rfl fun a inside => own a (away inside)
  | same ldt args room =>
    have after := Kernel.switchTo_same args
    refine waiting.kept waiting.live ?_ ?_ ?_ <;> dsimp only <;> rw [after]
    · exact waiting.other
    · exact fun a inside => Kernel.framed_outside room a (away inside)
  | switch next ldt args room other live =>
    have after := Kernel.switchTo_other args other
    refine waiting.kept waiting.live ?_ ?_ ?_ <;> dsimp only <;> rw [after]
    · exact fun same => passes same.symm
    · exact Function.update_of_ne waiting.other _ _
    · exact fun a inside => Kernel.framed_outside room a (away inside)
  | use new =>
    obtain ⟨stack, kernelStack, current⟩ := Kernel.deviceNotAvailable_frame (k := s.kernel) initial
    refine waiting.kept waiting.live ?_ ?_ ?_
    · exact fun same => waiting.other (same.trans current)
    · exact congrFun kernelStack p
    · exact fun a _ => congrFun stack a
  | fork q g done page positive free apart =>
    have another : p ≠ q := fun same => free (same ▸ waiting.live)
    have current : (s.kernel.copyProcess initial firstReturnFromKernel q g).current = s.kernel.current :=
      Kernel.copyProcess_current
    refine waiting.kept (.inl waiting.live) ?_ ?_ ?_
    · exact fun same => waiting.other (same.trans current)
    · exact Kernel.copyProcess_kernelStack another
    · exact fun a inside => Kernel.copyProcess_stack page a ((apart p waiting.live).not_within inside)
  | exit =>
    obtain ⟨stack, kernelStack, current, _⟩ := Kernel.doExit_frame (k := s.kernel)
    refine waiting.kept waiting.live ?_ ?_ ?_
    · exact fun same => waiting.other (same.trans current)
    · exact congrFun kernelStack p
    · exact fun a _ => congrFun stack a
  | release q live other =>
    exact waiting.kept ⟨waiting.live, fun same => passes same.symm⟩ waiting.other rfl fun _ _ => rfl

end Stack

section Start

theorem setWidth_masked (w : Word) : (w &&& 0xffff).setWidth 16 = w.setWidth 16 := by
  rw [BitVec.setWidth_and]
  have mask : (0xffff : Word).setWidth 16 = BitVec.allOnes 16 := by decide
  rw [mask, BitVec.and_allOnes]

theorem word_above (a : Word) (i : Nat) : a + BitVec.ofNat 32 (4 * i) + 4 = a + BitVec.ofNat 32 (4 * (i + 1)) := by
  rw [Nat.mul_succ, BitVec.ofNat_add, ← BitVec.add_assoc]
  rfl

theorem starts_of_words {k : Kernel F} {a : Word} (esp : k.cpu.esp = a + BitVec.ofNat 32 (4 * 5))
    (words : ∀ i (few : i < 17), k.stack (a + BitVec.ofNat 32 (4 * i)) = (f.words firstReturnFromKernel).get ⟨i, few⟩)
    (user : f.cs &&& 3 = 3) (eax : k.cpu.eax = 0) (ebx : k.cpu.ebx = f.ebx) (ecx : k.cpu.ecx = f.ecx)
    (ebp : k.cpu.ebp = f.ebp) :
    StartsAs k.firstReturn.iret.cpu f ∧ k.firstReturn.popReturn.popStack.2.cpu.esp = a + BitVec.ofNat 32 (4 * 17) := by
  have level : (k.stack (a + BitVec.ofNat 32 (4 * 13))).setWidth 16 &&& (3 : BitVec 16) ≠ 0 := by
    have cs : k.stack (a + BitVec.ofNat 32 (4 * 13)) = f.cs &&& 0xffff := words 13 (by decide)
    have three : (3 : Word).setWidth 16 = 3 := by decide
    rw [cs, setWidth_masked, ← three, ← BitVec.setWidth_and, user]
    decide
  have popped : k.firstReturn.popReturn.popStack =
      (k.stack (a + BitVec.ofNat 32 (4 * 15)),
        { k with
          cpu.edx := k.stack (a + BitVec.ofNat 32 (4 * 5))
          cpu.edi := k.stack (a + BitVec.ofNat 32 (4 * 6))
          cpu.esi := k.stack (a + BitVec.ofNat 32 (4 * 7))
          cpu.gs := (k.stack (a + BitVec.ofNat 32 (4 * 8))).setWidth 16
          cpu.fs := (k.stack (a + BitVec.ofNat 32 (4 * 9))).setWidth 16
          cpu.es := (k.stack (a + BitVec.ofNat 32 (4 * 10))).setWidth 16
          cpu.ds := (k.stack (a + BitVec.ofNat 32 (4 * 11))).setWidth 16
          cpu.eip := k.stack (a + BitVec.ofNat 32 (4 * 12))
          cpu.cs := (k.stack (a + BitVec.ofNat 32 (4 * 13))).setWidth 16
          cpu.eflags := .ofWord (k.stack (a + BitVec.ofNat 32 (4 * 14)))
          cpu.ss := (k.stack (a + BitVec.ofNat 32 (4 * 16))).setWidth 16
          cpu.esp := a + BitVec.ofNat 32 (4 * 17) }) := by
    simp only [Kernel.firstReturn, Kernel.popReturn, Kernel.popStack, Kernel.pop, Kernel.top, esp, word_above]
  have cs : k.firstReturn.popReturn.cpu.cs = (k.stack (a + BitVec.ofNat 32 (4 * 13))).setWidth 16 := by
    simp only [Kernel.firstReturn, Kernel.popReturn, Kernel.pop, Kernel.top, esp, word_above]
  refine ⟨?_, by rw [popped]⟩
  rw [Kernel.iret]
  dsimp only
  rw [cs, if_neg level, popped]
  constructor <;> dsimp only
  · exact eax
  · exact ebx
  · exact ecx
  · exact words 5 (by decide)
  · exact words 7 (by decide)
  · exact words 6 (by decide)
  · exact ebp
  · exact words 15 (by decide)
  · exact words 12 (by decide)
  · rw [Eflags.toWord_ofWord]
    exact words 14 (by decide)
  · exact (congrArg _ (words 13 (by decide))).trans (setWidth_masked _)
  · exact (congrArg _ (words 16 (by decide))).trans (setWidth_masked _)
  · exact (congrArg _ (words 11 (by decide))).trans (setWidth_masked _)
  · exact (congrArg _ (words 10 (by decide))).trans (setWidth_masked _)
  · exact (congrArg _ (words 9 (by decide))).trans (setWidth_masked _)
  · exact (congrArg _ (words 8 (by decide))).trans (setWidth_masked _)

/-- The tail of `switch_to` pops the rest, and goes to `first_return_from_kernel`. -/
theorem Waiting.starts {ldt : Word} (waiting : Waiting firstReturnFromKernel s p f) (frames : Frames s)
    (user : f.cs &&& 3 = 3) (step : Step initial firstReturnFromKernel s (.switch p ldt) t) :
    t.kernel.cpu.eip = firstReturnFromKernel ∧ StartsAs t.kernel.firstReturn.iret.cpu f ∧
      t.kernel.firstReturn.popReturn.popStack.2.cpu.esp = p + 4096 := by
  cases step with
  | same _ args room => exact absurd rfl waiting.other
  | switch _ _ args room other live =>
    have apart := frames.apart p _ waiting.live frames.current waiting.other
    have kept (i : Nat) (few : i < 17) : s.kernel.framed (p + 4028 + BitVec.ofNat 32 (4 * i)) =
        (f.words firstReturnFromKernel).get ⟨i, few⟩ := by
      rw [Kernel.framed_outside room _ (apart.not_within (within_child waiting.page few))]
      exact waiting.words i few
    have base : p + 4028 = p + 4028 + BitVec.ofNat 32 (4 * 0) := (BitVec.add_zero _).symm
    have eax : s.kernel.framed (p + 4028) = 0 := by
      rw [base]
      exact kept 0 (by decide)
    have top : p + 4028 + BitVec.ofNat 32 (4 * 17) = p + 4096 := by
      rw [BitVec.add_assoc]
      rfl
    have ebx : s.kernel.framed (p + 4028 + 4) = f.ebx := kept 1 (by decide)
    have ecx : s.kernel.framed (p + 4028 + 8) = f.ecx := kept 2 (by decide)
    have ebp : s.kernel.framed (p + 4028 + 12) = f.ebp := kept 3 (by decide)
    have eip : s.kernel.framed (p + 4028 + 16) = firstReturnFromKernel := kept 4 (by decide)
    rw [Kernel.switchTo_other args other, waiting.kernelStack, ← top]
    dsimp only
    refine ⟨eip, ?_⟩
    apply starts_of_words (a := p + 4028) <;> try dsimp only
    · rfl
    · exact kept
    · exact user
    · exact eax
    · exact ebx
    · exact ecx
    · exact ebp

/-- A forked child starts where its parent was, whatever other tasks do until it is chosen. -/
theorem child_starts_as_parent {s₀ s₁ s₂ s₃ : State F} {es : List (Event F)} {ldt : Word}
    (reached : (switching initial firstReturnFromKernel).Reaches s₀)
    (forked : (switching initial firstReturnFromKernel).step s₀ (.fork p f true) s₁) (user : f.cs &&& 3 = 3)
    (between : ((switching initial firstReturnFromKernel).restrict fun _ e => e.Passes p).Run s₁ es s₂)
    (chosen : (switching initial firstReturnFromKernel).step s₂ (.switch p ldt) s₃) :
    s₃.kernel.cpu.eip = firstReturnFromKernel ∧ StartsAs s₃.kernel.firstReturn.iret.cpu f ∧
      s₃.kernel.firstReturn.popReturn.popStack.2.cpu.esp = p + 4096 := by
  have before := reached_frames reached
  have start : Frames s₁ ∧ Waiting firstReturnFromKernel s₁ p f := ⟨before.step forked, .of_fork before forked⟩
  have waiting : Frames s₂ ∧ Waiting firstReturnFromKernel s₂ p f := by
    apply between.invariant (I := fun s => Frames s ∧ Waiting firstReturnFromKernel s p f) _ start
    intro s e t both step
    exact ⟨both.1.step step.2, both.2.step both.1 step.1 step.2⟩
  exact waiting.2.starts waiting.1 user chosen

/-- The child of the first task is chosen at once. -/
theorem child_of_first_starts : away.kernel.cpu.eip = 0 ∧ StartsAs away.kernel.firstReturn.iret.cpu userFrame ∧
    away.kernel.firstReturn.popReturn.popStack.2.cpu.esp = 0x3000 + 4096 := by
  have reached : (switching 0 0).Reaches first := ⟨first, [], first_booted, .nil _⟩
  rcases Machine.Run.of_snoc [Event.fork 0x3000 userFrame true] (.switch 0x3000 0) away_run with ⟨s, run, chosen⟩
  rcases Machine.Run.of_snoc [] (Event.fork 0x3000 userFrame true) run with ⟨s', none, fork⟩
  cases none.of_nil
  exact child_starts_as_parent reached fork (by decide) (.nil _) chosen

end Start

end Linux011.Switch

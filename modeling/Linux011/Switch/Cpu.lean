import Mathlib.Data.BitVec
import Mathlib.Logic.Function.Basic

namespace Linux011.Switch

abbrev Word := BitVec 32

/-- The flags an arithmetic instruction sets. -/
structure Status where
  carry : Bool
  parity : Bool
  adjust : Bool
  zero : Bool
  sign : Bool
  overflow : Bool
  deriving DecidableEq

/-- The rest of `eflags` is kept apart: the interrupt flag, and what no instruction here touches. -/
structure Eflags where
  status : Status
  interrupt : Bool
  others : Word
  deriving DecidableEq

def evenParity (v : Word) : Bool := ((List.range 8).countP fun i => v.getLsbD i) % 2 == 0

/-- The flags of `a - b`. -/
def compare (a b : Word) : Status where
  carry := decide (a < b)
  parity := evenParity (a - b)
  adjust := decide (a.toNat % 16 < b.toNat % 16)
  zero := a == b
  sign := (a - b).msb
  overflow := a.msb != b.msb && (a - b).msb != a.msb

/-- The flags of `a + b`. -/
def sum (a b : Word) : Status where
  carry := decide (2 ^ 32 ≤ a.toNat + b.toNat)
  parity := evenParity (a + b)
  adjust := decide (16 ≤ a.toNat % 16 + b.toNat % 16)
  zero := a + b == 0
  sign := (a + b).msb
  overflow := a.msb == b.msb && (a + b).msb != a.msb

structure Cpu where
  eax : Word
  ebx : Word
  ecx : Word
  edx : Word
  esi : Word
  edi : Word
  ebp : Word
  esp : Word
  eip : Word
  eflags : Eflags
  cs : BitVec 16
  ds : BitVec 16
  es : BitVec 16
  fs : BitVec 16
  gs : BitVec 16
  ss : BitVec 16
  ldtr : BitVec 16
  /-- `CR0.TS` -/
  ts : Bool
  deriving DecidableEq

/-- What the switch, the coprocessor trap and fork share: the processor, the kernel stacks word by word, the
    fields `kernelstack`, `used_math` and `tss.i387` of the tasks, a task standing for the address of its
    page, `init_tss->esp0`, and the variables of the scheduler. -/
structure Kernel (F : Type) where
  cpu : Cpu
  stack : Word → Word
  kernelStack : Word → Word
  usedMath : Word → Bool
  i387 : Word → F
  fpu : F
  initTss : Word
  esp0 : Word → Word
  current : Word
  lastTaskUsedMath : Word

namespace Kernel

variable {F : Type} (k : Kernel F)

def push (v : Word) : Kernel F :=
  { k with stack := Function.update k.stack (k.cpu.esp - 4) v, cpu.esp := k.cpu.esp - 4 }

def top : Word := k.stack k.cpu.esp

def pop : Kernel F := { k with cpu.esp := k.cpu.esp + 4 }

def setStatus (status : Status) : Kernel F := { k with cpu.eflags.status := status }

/-- `call`, where `eip` is the address behind the instruction. -/
def call : Kernel F := k.push k.cpu.eip

/-- `pushl %ebp; movl %esp,%ebp; pushl %ecx; pushl %ebx; pushl %eax` -/
def enter : Kernel F :=
  let k := k.push k.cpu.ebp
  let k := { k with cpu.ebp := k.cpu.esp }
  let k := k.push k.cpu.ecx
  let k := k.push k.cpu.ebx
  k.push k.cpu.eax

/-- `1: popl %eax; popl %ebx; popl %ecx; popl %ebp; ret` -/
def leave : Kernel F :=
  let k := { k.pop with cpu.eax := k.top }
  let k := { k.pop with cpu.ebx := k.top }
  let k := { k.pop with cpu.ecx := k.top }
  let k := { k.pop with cpu.ebp := k.top }
  { k.pop with cpu.eip := k.top }

/-- From `movl %ebx,%eax` to the label, with the task to switch to in `ebx`. -/
def swap : Kernel F :=
  -- movl %ebx,%eax; xchgl %eax,current
  let k := { k with cpu.eax := k.current, current := k.cpu.ebx }
  -- movl init_tss,%ecx; addl $4096,%ebx; movl %ebx,ESP0(%ecx)
  let k := { k with cpu.ecx := k.initTss }
  let k := { k.setStatus (sum k.cpu.ebx 4096) with cpu.ebx := k.cpu.ebx + 4096 }
  let k := { k with esp0 := Function.update k.esp0 k.cpu.ecx k.cpu.ebx }
  -- movl %esp,KERNEL_STACK(%eax); movl 8(%ebp),%ebx; movl KERNEL_STACK(%ebx),%esp
  let k := { k with kernelStack := Function.update k.kernelStack k.cpu.eax k.cpu.esp }
  let k := { k with cpu.ebx := k.stack (k.cpu.ebp + 8) }
  let k := { k with cpu.esp := k.kernelStack k.cpu.ebx }
  -- movl 12(%ebp),%ecx; lldt %cx; movl $0x17,%ecx; mov %cx,%fs
  let k := { k with cpu.ecx := k.stack (k.cpu.ebp + 12) }
  let k := { k with cpu.ldtr := k.cpu.ecx.setWidth 16 }
  let k := { k with cpu.ecx := 0x17 }
  let k := { k with cpu.fs := k.cpu.ecx.setWidth 16 }
  -- cmpl %eax,last_task_used_math; jne 1f; clts
  let k := k.setStatus (compare k.lastTaskUsedMath k.cpu.eax)
  if k.cpu.eflags.status.zero then { k with cpu.ts := false } else k

def switchTo : Kernel F :=
  let k := k.enter
  let k := { k with cpu.ebx := k.stack (k.cpu.ebp + 8) }
  -- cmpl %ebx,current; je 1f
  let k := k.setStatus (compare k.current k.cpu.ebx)
  if k.cpu.eflags.status.zero then k.leave else k.swap.leave

/-- `math_state_restore`, for a coprocessor that `fninit` and `fnsave` leave in a given state. -/
def mathStateRestore (initial : F) : Kernel F :=
  if k.lastTaskUsedMath = k.current then k
  else
    let k :=
      if k.lastTaskUsedMath = 0 then k
      else { k with i387 := Function.update k.i387 k.lastTaskUsedMath k.fpu, fpu := initial }
    let k := { k with lastTaskUsedMath := k.current }
    if k.usedMath k.current then { k with fpu := k.i387 k.current }
    else { k with fpu := initial, usedMath := Function.update k.usedMath k.current true }

/-- The trap of an instruction for the coprocessor: `clts`, then `math_state_restore`. -/
def deviceNotAvailable (initial : F) : Kernel F :=
  if k.cpu.ts then mathStateRestore { k with cpu.ts := false } initial else k

end Kernel

/-- The registers `copy_process` is called with, as the system call found them. -/
structure Frame where
  ebp : Word
  edi : Word
  esi : Word
  gs : Word
  ebx : Word
  ecx : Word
  edx : Word
  fs : Word
  es : Word
  ds : Word
  eip : Word
  cs : Word
  eflags : Word
  esp : Word
  ss : Word

/-- The words `copy_process` puts on the child's stack, the last one pushed first. -/
def Frame.words (f : Frame) (firstReturnFromKernel : Word) : List Word :=
  [0, f.ebx, f.ecx, f.ebp, firstReturnFromKernel, f.edx, f.edi, f.esi, f.gs &&& 0xffff, f.fs &&& 0xffff,
    f.es &&& 0xffff, f.ds &&& 0xffff, f.eip, f.cs &&& 0xffff, f.eflags, f.esp, f.ss &&& 0xffff]

namespace Kernel

variable {F : Type} (k : Kernel F)

def write (a : Word) : List Word → (Word → Word)
  | [] => k.stack
  | v :: vs => Function.update (write (a + 4) vs) a v

/-- `copy_process` as far as the stacks and the coprocessor go, once the page for the child is had. -/
def copyProcess (initial : F) (firstReturnFromKernel : Word) (p : Word) (f : Frame) : Kernel F :=
  let krnstack := p + 4096 - 4 * 17
  let k :=
    { k with
      usedMath := Function.update k.usedMath p (k.usedMath k.current)
      i387 := Function.update k.i387 p (k.i387 k.current)
      stack := k.write krnstack (f.words firstReturnFromKernel)
      kernelStack := Function.update k.kernelStack p krnstack }
  if k.lastTaskUsedMath = k.current then
    { k with cpu.ts := false, i387 := Function.update k.i387 p k.fpu, fpu := initial }
  else k

/-- `do_exit` as far as the coprocessor goes. -/
def doExit : Kernel F :=
  if k.lastTaskUsedMath = k.current then { k with lastTaskUsedMath := 0 } else k

end Kernel

end Linux011.Switch

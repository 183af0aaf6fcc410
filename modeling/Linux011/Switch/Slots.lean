import Linux011.Sched.Numbers
import Linux011.Switch.Registers

namespace Linux011.Switch

open Linux011.Library

variable {F : Type}

/-- `_LDT(n)` -/
def ldtSelector (n : Fin 64) : Word := BitVec.ofNat 32 n <<< 4 + 40

/-- The tasks by slot, as the scheduler sees them and with the addresses in `task[]`, and the processor. The
    frame `copy_process` was called with is kept for each task. -/
structure Slots (F : Type) where
  sched : Sched.Kernel
  task : Fin 64 → Word
  machine : State F
  forked : Word → Option Frame

/-- A call of `switch_to` from C: both arguments are on the own kernel stack, and below them there is room. -/
structure CallsFrom (t esp : Word) : Prop where
  room : t.toNat + 20 ≤ esp.toNat
  arguments : esp.toNat + 8 ≤ t.toNat + 4096

/-- A return of `switch_to` in the task it was called for. -/
def State.switched (s : State F) (next : Word) : State F :=
  { s with
    kernel := s.kernel.call.switchTo
    suspended :=
      if next = s.kernel.current then s.suspended
      else Function.update (Function.update s.suspended s.kernel.current (some s.kernel.cpu)) next none }

inductive SlotEvent (F : Type)
  | run (e : Event F)
  | tick
  | elsewhere (i : Fin 64) (state : Sched.TaskState) (signal blocked alarm : BitVec 32)
  | schedule (next : Fin 64)
  | fork (nr : Fin 64) (p : Word) (f : Frame) (done : Bool)

/-- What the running task does by itself: compute, use the coprocessor, exit. -/
def Event.Own : Event F → Prop
  | .work | .use _ _ | .exit => True
  | _ => False

inductive SlotStep (initial : F) (firstReturnFromKernel : Word) (s : Slots F) : SlotEvent F → Slots F → Prop
  | run (e : Event F) (m : State F) (own : e.Own) (step : Step initial firstReturnFromKernel s.machine e m) :
      SlotStep initial firstReturnFromKernel s (.run e) { s with machine := m }
  | tick :
      SlotStep initial firstReturnFromKernel s .tick
        { s with
          sched := { s.sched.change s.sched.current Sched.TaskStruct.tick with jiffies := s.sched.jiffies + 1 } }
  | elsewhere (i : Fin 64) (state : Sched.TaskState) (signal blocked alarm : BitVec 32) :
      SlotStep initial firstReturnFromKernel s (.elsewhere i state signal blocked alarm)
        { s with
          sched := s.sched.change i fun p =>
            { p with state := state, signal := signal, blocked := blocked, alarm := alarm } }
  /-- `switch_to(pnext,_LDT(next))` -/
  | schedule (rounds : Nat) (r : Sched.Kernel × Sched.Choice)
      (selected : s.sched.checkSignals.select rounds 0 = some r)
      (args : s.machine.kernel.Args (s.task r.2.pnext) (ldtSelector r.2.next))
      (calls : CallsFrom s.machine.kernel.current s.machine.kernel.cpu.esp) :
      SlotStep initial firstReturnFromKernel s (.schedule r.2.next)
        { s with
          sched := { r.1 with current := r.2.pnext }
          machine := s.machine.switched (s.task r.2.pnext) }
  | fork (nr : Fin 64) (p : Word) (f : Frame) (done : Bool) (m : State F)
      (found : s.sched.findEmptyProcess = some nr)
      (step : Step initial firstReturnFromKernel s.machine (.fork p f done) m) :
      SlotStep initial firstReturnFromKernel s (.fork nr p f done)
        { sched := if done then s.sched.fork else s.sched
          task := if done then Function.update s.task nr p else s.task
          machine := m
          forked := Function.update s.forked p (some f) }

/-- After `sched_init`: task 0 alone, with its local descriptor table and its stack in the TSS. -/
structure Started (initial : F) (s : Slots F) : Prop where
  sched : s.sched = Sched.started
  booted : Booted initial s.machine
  task : s.task 0 = s.machine.kernel.current
  page : s.machine.kernel.current.toNat + 4096 ≤ 2 ^ 32
  esp0 : s.machine.kernel.esp0 s.machine.kernel.initTss = s.machine.kernel.current + 4096
  ldtr : s.machine.kernel.cpu.ldtr = (ldtSelector 0).setWidth 16

def slots (initial : F) (firstReturnFromKernel : Word) : Machine (Slots F) (SlotEvent F) where
  init := Started initial
  step := SlotStep initial firstReturnFromKernel

/-- A frame to return through: in the page of its task, with four registers and a return address. -/
structure Saved (k : Kernel F) (t eax ebx ecx ebp eip : Word) : Prop where
  low : t.toNat ≤ (k.kernelStack t).toNat
  high : (k.kernelStack t).toNat + 20 < t.toNat + 4096
  eax : k.stack (k.kernelStack t) = eax
  ebx : k.stack (k.kernelStack t + 4) = ebx
  ecx : k.stack (k.kernelStack t + 8) = ecx
  ebp : k.stack (k.kernelStack t + 12) = ebp
  eip : k.stack (k.kernelStack t + 16) = eip

/-- The frame is what `switch_to` pushed when the task called it, or for a task that has not run yet what
    `copy_process` wrote. -/
def Slots.Framed (firstReturnFromKernel : Word) (s : Slots F) (t : Word) : Prop :=
  match s.machine.suspended t with
  | some c => Saved s.machine.kernel t c.eax c.ebx c.ecx c.ebp c.eip
  | none => ∃ f, s.forked t = some f ∧
      Saved s.machine.kernel t 0 f.ebx f.ecx f.ebp firstReturnFromKernel

/-- What holds of the tasks in every state. -/
structure Slotted (firstReturnFromKernel : Word) (s : Slots F) : Prop where
  sane : s.sched.Sane
  live : ∀ t, s.machine.live t ↔ ∃ i, (s.sched.task i).isSome ∧ s.task i = t
  page : ∀ t, s.machine.live t → t.toNat + 4096 ≤ 2 ^ 32
  distinct : ∀ i j, (s.sched.task i).isSome → (s.sched.task j).isSome → s.task i = s.task j → i = j
  current : s.machine.kernel.current = s.task s.sched.current
  frames : Frames s.machine
  esp0 : s.machine.kernel.esp0 s.machine.kernel.initTss = s.machine.kernel.current + 4096
  ldtr : s.machine.kernel.cpu.ldtr = (ldtSelector s.sched.current).setWidth 16
  framed : ∀ t, s.machine.live t → t ≠ s.machine.kernel.current → s.Framed firstReturnFromKernel t

variable {initial : F} {firstReturnFromKernel : Word}

section Frames

theorem Saved.within {k : Kernel F} {t eax ebx ecx ebp eip : Word} (saved : Saved k t eax ebx ecx ebp eip)
    (page : t.toNat + 4096 ≤ 2 ^ 32) : Within t (k.kernelStack t) ∧ Within t (k.kernelStack t + 4) ∧
      Within t (k.kernelStack t + 8) ∧ Within t (k.kernelStack t + 12) ∧ Within t (k.kernelStack t + 16) := by
  have low := saved.low
  have high := saved.high
  have value (d : Word) (small : d.toNat ≤ 20) : (k.kernelStack t + d).toNat = (k.kernelStack t).toNat + d.toNat :=
    BitVec.toNat_add_of_lt (by omega)
  unfold Within
  rw [value 4 (by decide), value 8 (by decide), value 12 (by decide), value 16 (by decide)]
  simp only [BitVec.reduceToNat]
  omega

theorem Saved.kept {k k' : Kernel F} {t eax ebx ecx ebp eip : Word} (saved : Saved k t eax ebx ecx ebp eip)
    (page : t.toNat + 4096 ≤ 2 ^ 32) (kernelStack : k'.kernelStack t = k.kernelStack t)
    (stack : ∀ a, Within t a → k'.stack a = k.stack a) : Saved k' t eax ebx ecx ebp eip := by
  obtain ⟨first, second, third, fourth, fifth⟩ := saved.within page
  constructor
  · rw [kernelStack]
    exact saved.low
  · rw [kernelStack]
    exact saved.high
  · rw [kernelStack, stack _ first]
    exact saved.eax
  · rw [kernelStack, stack _ second]
    exact saved.ebx
  · rw [kernelStack, stack _ third]
    exact saved.ecx
  · rw [kernelStack, stack _ fourth]
    exact saved.ebp
  · rw [kernelStack, stack _ fifth]
    exact saved.eip

theorem Slots.Framed.kept {s s' : Slots F} {t : Word} (framed : s.Framed firstReturnFromKernel t)
    (page : t.toNat + 4096 ≤ 2 ^ 32) (suspended : s'.machine.suspended t = s.machine.suspended t)
    (forked : s'.forked t = s.forked t)
    (kernelStack : s'.machine.kernel.kernelStack t = s.machine.kernel.kernelStack t)
    (stack : ∀ a, Within t a → s'.machine.kernel.stack a = s.machine.kernel.stack a) :
    s'.Framed firstReturnFromKernel t := by
  unfold Slots.Framed at *
  rw [suspended, forked]
  split
  · next c off =>
    rw [off] at framed
    exact framed.kept page kernelStack stack
  · next on =>
    rw [on] at framed
    rcases framed with ⟨f, made, saved⟩
    exact ⟨f, made, saved.kept page kernelStack stack⟩

theorem Saved.of_call {k : Kernel F} {next ldt : Word} (args : k.Args next ldt) (other : next ≠ k.current)
    (calls : CallsFrom k.current k.cpu.esp) :
    Saved k.call.switchTo k.current k.cpu.eax k.cpu.ebx k.cpu.ecx k.cpu.ebp k.cpu.eip := by
  have room := calls.room
  have arguments := calls.arguments
  have place : (k.cpu.esp - 20).toNat = k.cpu.esp.toNat - 20 :=
    BitVec.toNat_sub_of_le (show (20 : Word).toNat ≤ k.cpu.esp.toNat by simp only [BitVec.reduceToNat]; omega)
  obtain ⟨eax, ebx, ecx, ebp, eip⟩ := frame_at k.stack k.cpu.esp k.cpu.eip k.cpu.ebp k.cpu.ecx k.cpu.ebx k.cpu.eax
  obtain ⟨up4, up8, up12, up16, -⟩ := back k.cpu.esp
  rw [Kernel.switchTo_other args other]
  constructor <;> dsimp only <;> rw [Function.update_self]
  · omega
  · omega
  · exact eax
  · rw [up4]
    exact ebx
  · rw [up8]
    exact ecx
  · rw [up12]
    exact ebp
  · rw [up16]
    exact eip

theorem write_at {k : Kernel F} (words : List Word) (a : Word) {i : Nat} (inside : i < words.length)
    (short : 4 * words.length < 2 ^ 32) : k.write a words (a + BitVec.ofNat 32 (4 * i)) = words[i] := by
  induction words generalizing a i with
  | nil => cases inside
  | cons v vs ih =>
    rw [List.length_cons] at short inside
    cases i with
    | zero =>
      rw [Nat.mul_zero, show a + BitVec.ofNat 32 0 = a by bv_omega, Kernel.write, Function.update_self]
      rfl
    | succ i =>
      have apart : a + BitVec.ofNat 32 (4 * (i + 1)) ≠ a := by
        intro same
        have value := congrArg BitVec.toNat same
        rw [BitVec.toNat_add, BitVec.toNat_ofNat] at value
        have bound := a.isLt
        omega
      have next : a + BitVec.ofNat 32 (4 * (i + 1)) = a + 4 + BitVec.ofNat 32 (4 * i) := by bv_omega
      rw [Kernel.write, Function.update_of_ne apart, next, ih (a + 4) (by omega) (by omega)]
      rfl

theorem Saved.of_fork {k : Kernel F} {p : Word} {f : Frame} (page : p.toNat + 4096 ≤ 2 ^ 32) :
    Saved (k.copyProcess initial firstReturnFromKernel p f) p 0 f.ebx f.ecx f.ebp firstReturnFromKernel := by
  have place : p + 4096 - 4 * 17 = p + 4028 := by bv_omega
  have kernelStack : (k.copyProcess initial firstReturnFromKernel p f).kernelStack p = p + 4028 := by
    unfold Kernel.copyProcess
    rw [place]
    dsimp only
    split <;> exact Function.update_self ..
  have stack (i : Nat) (few : i < 17) : (k.copyProcess initial firstReturnFromKernel p f).stack
      (p + 4028 + BitVec.ofNat 32 (4 * i)) = (f.words firstReturnFromKernel).get ⟨i, few⟩ := by
    have written := write_at (k := k) (f.words firstReturnFromKernel) (p + 4028) few (show 4 * 17 < 2 ^ 32 by decide)
    unfold Kernel.copyProcess
    rw [place]
    dsimp only
    split <;> exact written
  have value : (p + 4028).toNat = p.toNat + 4028 :=
    BitVec.toNat_add_of_lt (show p.toNat + 4028 < 2 ^ 32 by omega)
  constructor <;> rw [kernelStack]
  · omega
  · omega
  · rw [← show p + 4028 + BitVec.ofNat 32 (4 * 0) = p + 4028 by bv_omega]
    exact stack 0 (by decide)
  · exact stack 1 (by decide)
  · exact stack 2 (by decide)
  · exact stack 3 (by decide)
  · exact stack 4 (by decide)

end Frames

end Linux011.Switch

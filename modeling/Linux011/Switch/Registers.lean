import Linux011.Switch.Tasks

namespace Linux011.Switch

open Linux011.Library

variable {F : Type} {initial : F} {firstReturnFromKernel : Word}

namespace Frames

variable {s : State F}

theorem kept {s' : State F} (frames : Frames s) (live : ∀ t, s'.live t → s.live t)
    (current : s'.kernel.current = s.kernel.current ∧ s'.live s.kernel.current)
    (suspended : ∀ t c, s'.suspended t = some c → s'.live t ∧ s.suspended t = some c)
    (kernelStack : ∀ t, s.live t → s'.kernel.kernelStack t = s.kernel.kernelStack t)
    (stack : ∀ t a, s.live t → t ≠ s.kernel.current → Within t a → s'.kernel.stack a = s.kernel.stack a) :
    Frames s' where
  current := current.1.symm ▸ current.2
  apart t u here here' := frames.apart t u (live t here) (live u here')
  frozen := by
    intro t c off
    obtain ⟨here, off⟩ := suspended t c off
    obtain ⟨liveBefore, other, frozen⟩ := frames.frozen t c off
    obtain ⟨first, second, third, fourth, fifth⟩ := frozen.room.within
    refine ⟨here, current.1.symm ▸ other, frozen.room, (kernelStack t liveBefore).trans frozen.kernelStack, ?_⟩
    rw [stack t _ liveBefore other first, stack t _ liveBefore other second, stack t _ liveBefore other third,
      stack t _ liveBefore other fourth, stack t _ liveBefore other fifth]
    exact frozen.stack

theorem step {e : Event F} {t : State F} (frames : Frames s) (step : Step initial firstReturnFromKernel s e t) :
    Frames t := by
  have away {u a : Word} (here : s.live u) (other : u ≠ s.kernel.current) (inside : Within u a) :
      ¬ Within s.kernel.current a :=
    (frames.apart u _ here frames.current other).not_within inside
  cases step with
  | work cpu stack _ _ own =>
    refine frames.kept (fun _ here => here) ⟨rfl, frames.current⟩ ?_ ?_ ?_
    · exact fun u c off => ⟨(frames.frozen u c off).1, off⟩
    · exact fun _ _ => rfl
    · exact fun u a here other inside => own a (away here other inside)
  | same ldt args room =>
    have after := Kernel.switchTo_same args
    refine frames.kept (fun _ here => here) ?_ ?_ ?_ ?_
    · rw [after]
      exact ⟨rfl, frames.current⟩
    · exact fun u c off => ⟨(frames.frozen u c off).1, off⟩
    · rw [after]
      exact fun _ _ => rfl
    · rw [after]
      exact fun u a here other inside => Kernel.framed_outside room a (away here other inside)
  | switch next ldt args room other live =>
    have after := Kernel.switchTo_other args other
    have own : Frozen s.kernel.call.switchTo s.kernel.current s.kernel.cpu := by
      rw [after]
      exact ⟨room, Function.update_self _ _ _, frame_at _ _ _ _ _ _ _⟩
    refine ⟨?_, frames.apart, ?_⟩
    · rw [after]
      exact live
    · intro u c off
      replace off : Function.update (Function.update s.suspended s.kernel.current (some s.kernel.cpu)) next none u =
        some c := off
      have current : s.kernel.call.switchTo.current = next := by rw [after]
      have notNext : u ≠ next := by
        rintro rfl
        rw [Function.update_self] at off
        cases off
      rw [Function.update_of_ne notNext] at off
      refine ⟨?_, current.symm ▸ notNext, ?_⟩
      · by_cases mine : u = s.kernel.current
        · exact mine ▸ frames.current
        · rw [Function.update_of_ne mine] at off
          exact (frames.frozen u c off).1
      · by_cases mine : u = s.kernel.current
        · subst mine
          rw [Function.update_self] at off
          exact Option.some.inj off ▸ own
        · rw [Function.update_of_ne mine] at off
          obtain ⟨here, _, frozen⟩ := frames.frozen u c off
          rw [after]
          apply frozen.kept (Function.update_of_ne mine _ _) (Kernel.framed_outside room)
          exact frames.apart u _ here frames.current mine
  | use new =>
    obtain ⟨stack, kernelStack, current⟩ := Kernel.deviceNotAvailable_frame (k := s.kernel) initial
    refine frames.kept (fun _ here => here) ⟨current, frames.current⟩ ?_ ?_ ?_
    · exact fun u c off => ⟨(frames.frozen u c off).1, off⟩
    · exact fun u _ => congrFun kernelStack u
    · exact fun _ a _ _ _ => congrFun stack a
  | fork p f done page positive free apart =>
    have current : (s.kernel.copyProcess initial firstReturnFromKernel p f).current = s.kernel.current :=
      Kernel.copyProcess_current
    refine ⟨?_, ?_, ?_⟩
    · rw [current]
      exact .inl frames.current
    · intro u v here here' other
      rcases here with here | ⟨rfl, _⟩
      · rcases here' with here' | ⟨rfl, _⟩
        · exact frames.apart u v here here' other
        · exact apart u here
      · rcases here' with here' | ⟨rfl, _⟩
        · exact (apart v here').symm
        · exact absurd rfl other
    · intro u c off
      obtain ⟨here, other, frozen⟩ := frames.frozen u c off
      refine ⟨.inl here, current.symm ▸ other, ?_⟩
      apply frozen.kept _ (fun a outside => Kernel.copyProcess_stack page a outside) (apart u here)
      exact Kernel.copyProcess_kernelStack fun same => free (same ▸ here)
  | exit =>
    obtain ⟨stack, kernelStack, current, _⟩ := Kernel.doExit_frame (k := s.kernel)
    refine frames.kept (fun _ here => here) ⟨current, frames.current⟩ ?_ ?_ ?_
    · exact fun u c off => ⟨(frames.frozen u c off).1, off⟩
    · exact fun u _ => congrFun kernelStack u
    · exact fun _ a _ _ _ => congrFun stack a
  | release p live other =>
    refine frames.kept (fun _ here => here.1) ⟨rfl, frames.current, other.symm⟩ ?_ ?_ ?_
    · intro u c off
      replace off : Function.update s.suspended p none u = some c := off
      have another : u ≠ p := by
        rintro rfl
        rw [Function.update_self] at off
        cases off
      rw [Function.update_of_ne another] at off
      exact ⟨⟨(frames.frozen u c off).1, another⟩, off⟩
    · exact fun _ _ => rfl
    · exact fun _ _ _ _ _ => rfl

end Frames

theorem Booted.frames {s : State F} (booted : Booted initial s) : Frames s where
  current := (booted.live _).mpr rfl
  apart t u here here' other := absurd (((booted.live t).mp here).trans ((booted.live u).mp here').symm) other
  frozen t c off := by
    rw [booted.running] at off
    cases off

theorem reached_frames {s : State F} (reached : (switching initial firstReturnFromKernel).Reaches s) : Frames s :=
  reached.invariant (I := Frames) (fun _ (booted : Booted initial _) => booted.frames)
    fun _ _ _ frames step => frames.step step

/-- The registers a C function finds again after a call, with the flags. -/
structure Preserved (before after : Cpu) : Prop where
  ebx : after.ebx = before.ebx
  ebp : after.ebp = before.ebp
  esi : after.esi = before.esi
  edi : after.edi = before.edi
  esp : after.esp = before.esp
  eflags : after.eflags = before.eflags

/-- The same but for the flags of arithmetic, which the `cmpl` behind the `ljmp` set in the old `switch_to` too. -/
structure PreservedInC (before after : Cpu) : Prop where
  ebx : after.ebx = before.ebx
  ebp : after.ebp = before.ebp
  esi : after.esi = before.esi
  edi : after.edi = before.edi
  esp : after.esp = before.esp
  interrupt : after.eflags.interrupt = before.eflags.interrupt
  others : after.eflags.others = before.eflags.others

/-- The processor as a task left it when it called `switch_to`. -/
def State.atCall (s : State F) (t : Word) : Option Cpu :=
  if t = s.kernel.current then some s.kernel.cpu else s.suspended t

/-- The flags the last comparison of `switch_to` leaves. -/
def State.lastStatus (s : State F) (next : Word) : Status :=
  if next = s.kernel.current then compare s.kernel.current s.kernel.current
  else compare s.kernel.lastTaskUsedMath s.kernel.current

/-- What a task finds when its `switch_to` returns. -/
structure Returned (s : State F) (next : Word) (c after : Cpu) : Prop where
  ebx : after.ebx = c.ebx
  ebp : after.ebp = c.ebp
  esp : after.esp = c.esp
  eip : after.eip = c.eip
  esi : after.esi = s.kernel.cpu.esi
  edi : after.edi = s.kernel.cpu.edi
  eflags : after.eflags = { s.kernel.cpu.eflags with status := s.lastStatus next }

theorem Frames.returned {s t : State F} {next ldt : Word} {c : Cpu} (frames : Frames s)
    (step : Step initial firstReturnFromKernel s (.switch next ldt) t) (called : s.atCall next = some c) :
    Returned s next c t.kernel.cpu := by
  cases step with
  | same _ args room =>
    rw [State.atCall, if_pos rfl, Option.some.injEq] at called
    subst called
    rw [Kernel.switchTo_same args]
    exact ⟨rfl, rfl, rfl, rfl, rfl, rfl, by rw [State.lastStatus, if_pos rfl]⟩
  | switch _ _ args room other live =>
    rw [State.atCall, if_neg other] at called
    obtain ⟨here, _, frozen⟩ := frames.frozen next c called
    obtain ⟨first, second, third, fourth, fifth⟩ := frozen.room.within
    have apart := frames.apart next _ here frames.current other
    obtain ⟨up4, up8, up12, up16, up20⟩ := back c.esp
    obtain ⟨_, ebx, _, ebp, eip⟩ := frozen.stack
    rw [Kernel.switchTo_other args other]
    simp only [frozen.kernelStack, up4, up12, up16, up20]
    refine ⟨?_, ?_, rfl, ?_, rfl, rfl, by rw [State.lastStatus, if_neg other]⟩
    · exact (Kernel.framed_outside room _ (apart.not_within second)).trans ebx
    · exact (Kernel.framed_outside room _ (apart.not_within fourth)).trans ebp
    · exact (Kernel.framed_outside room _ (apart.not_within fifth)).trans eip

/-- A task gets back the registers it called `switch_to` with exactly when the task that switches to it has
    `esi`, `edi` and the flags as they were. -/
theorem preserved_iff {s t : State F} (reached : (switching initial firstReturnFromKernel).Reaches s)
    {next ldt : Word} {c : Cpu} (called : s.atCall next = some c)
    (step : (switching initial firstReturnFromKernel).step s (.switch next ldt) t) :
    (Preserved c t.kernel.cpu ↔ s.kernel.cpu.esi = c.esi ∧ s.kernel.cpu.edi = c.edi ∧
      ({ s.kernel.cpu.eflags with status := s.lastStatus next } : Eflags) = c.eflags) ∧
    (PreservedInC c t.kernel.cpu ↔ s.kernel.cpu.esi = c.esi ∧ s.kernel.cpu.edi = c.edi ∧
      s.kernel.cpu.eflags.interrupt = c.eflags.interrupt ∧ s.kernel.cpu.eflags.others = c.eflags.others) := by
  have returned := (reached_frames reached).returned step called
  refine ⟨⟨fun kept => ?_, fun same => ?_⟩, ⟨fun kept => ?_, fun same => ?_⟩⟩
  · exact ⟨returned.esi ▸ kept.esi, returned.edi ▸ kept.edi, returned.eflags ▸ kept.eflags⟩
  · exact ⟨returned.ebx, returned.ebp, returned.esi.trans same.1, returned.edi.trans same.2.1, returned.esp,
      returned.eflags.trans same.2.2⟩
  · have interrupt := kept.interrupt
    have others := kept.others
    rw [returned.eflags] at interrupt others
    exact ⟨returned.esi ▸ kept.esi, returned.edi ▸ kept.edi, interrupt, others⟩
  · refine ⟨returned.ebx, returned.ebp, returned.esi.trans same.1, returned.edi.trans same.2.1, returned.esp, ?_, ?_⟩
    · rw [returned.eflags]
      exact same.2.2.1
    · rw [returned.eflags]
      exact same.2.2.2

section TwoTasks

/-- The first task, about to call `switch_to` for the page at `0x3000`. -/
def first : State Nat where
  kernel :=
    { cpu := ⟨0, 0, 0, 0, 0, 0, 0, 0x1f00, 0, ⟨⟨false, false, false, false, false, false⟩, true, 0⟩, 8, 0x10, 0x10,
        0x17, 0x17, 0x10, 0x28, true⟩
      stack := fun a => if a = 0x1f00 then 0x3000 else 0
      kernelStack := fun _ => 0
      usedMath := fun _ => false
      i387 := fun _ => 0
      fpu := 0
      initTss := 0x900
      esp0 := fun _ => 0
      current := 0x1000
      lastTaskUsedMath := 0 }
  live t := t = 0x1000
  suspended _ := none
  left _ := 0

theorem first_booted : Booted 0 first :=
  ⟨fun _ => Iff.rfl, by decide, fun _ => rfl, rfl, rfl, fun _ => rfl⟩

def userFrame : Frame := ⟨0x11, 0x22, 0x33, 0x17, 0x44, 0x55, 0x66, 0x17, 0x17, 0x17, 0x1000, 0xf, 0x200, 0x3fff000, 0x17⟩

def forked : State Nat :=
  { first with
    kernel := first.kernel.copyProcess 0 0 0x3000 userFrame
    live := fun t => first.live t ∨ t = 0x3000 ∧ true = true
    left := Function.update first.left 0x3000 (first.left first.kernel.current) }

def away : State Nat :=
  { forked with
    kernel := forked.kernel.call.switchTo
    suspended := Function.update (Function.update forked.suspended 0x1000 (some forked.kernel.cpu)) 0x3000 none }

/-- It has put something in `esi`, and is about to switch back. -/
def busy : State Nat :=
  { away with
    kernel.cpu := { away.kernel.cpu with esi := 7, esp := 0x3f00 }
    kernel.stack := fun a => if a = 0x3f00 then 0x1000 else away.kernel.stack a }

def resumed : State Nat :=
  { busy with
    kernel := busy.kernel.call.switchTo
    suspended := Function.update (Function.update busy.suspended 0x3000 (some busy.kernel.cpu)) 0x1000 none }

theorem forked_run : (switching 0 0).Run first [.fork 0x3000 userFrame true] forked := by
  apply Machine.Run.one
  apply Step.fork
  · decide
  · decide
  · change ¬ (0x3000 : Word) = 0x1000
    decide
  · rintro t rfl
    exact .inl (by decide)

theorem away_run : (switching 0 0).Run first [.fork 0x3000 userFrame true, .switch 0x3000 0] away := by
  apply forked_run.snoc
  apply Step.switch
  · exact ⟨by decide +kernel, by decide +kernel⟩
  · exact ⟨by decide +kernel, by decide +kernel⟩
  · decide +kernel
  · exact .inr ⟨rfl, rfl⟩

theorem away_current : away.kernel.current = 0x3000 := by decide +kernel

theorem busy_reached : (switching 0 0).Reaches busy := by
  refine ⟨first, _, first_booted, away_run.snoc (e := .work) ?_⟩
  apply Step.work
  · rfl
  · rfl
  · intro a outside
    apply if_neg
    rintro rfl
    apply outside
    rw [away_current]
    exact ⟨by decide, by decide⟩

theorem back_step : (switching 0 0).step busy (.switch 0x1000 0) resumed := by
  have current : busy.kernel.current = 0x3000 := away_current
  have step : (switching 0 0).step busy (.switch 0x1000 0)
      { busy with
        kernel := busy.kernel.call.switchTo
        suspended := Function.update (Function.update busy.suspended busy.kernel.current (some busy.kernel.cpu))
          0x1000 none } := by
    apply Step.switch
    · exact ⟨by decide +kernel, by decide +kernel⟩
    · rw [current]
      exact ⟨by decide, by decide⟩
    · rw [current]
      decide
    · exact .inl rfl
  rwa [current] at step

theorem back_reached :
    (Preserved first.kernel.cpu resumed.kernel.cpu ↔ busy.kernel.cpu.esi = first.kernel.cpu.esi ∧
      busy.kernel.cpu.edi = first.kernel.cpu.edi ∧
      ({ busy.kernel.cpu.eflags with status := busy.lastStatus 0x1000 } : Eflags) = first.kernel.cpu.eflags) ∧
    (PreservedInC first.kernel.cpu resumed.kernel.cpu ↔ busy.kernel.cpu.esi = first.kernel.cpu.esi ∧
      busy.kernel.cpu.edi = first.kernel.cpu.edi ∧
      busy.kernel.cpu.eflags.interrupt = first.kernel.cpu.eflags.interrupt ∧
      busy.kernel.cpu.eflags.others = first.kernel.cpu.eflags.others) :=
  preserved_iff busy_reached (by decide +kernel) back_step

/-- The first task finds the `esi` of its child. -/
theorem esi_of_the_child : (switching 0 0).Reaches busy ∧ busy.atCall 0x1000 = some first.kernel.cpu ∧
    (switching 0 0).step busy (.switch 0x1000 0) resumed ∧ ¬ Preserved first.kernel.cpu resumed.kernel.cpu := by
  refine ⟨busy_reached, by decide +kernel, back_step, fun kept => ?_⟩
  have esi : resumed.kernel.cpu.esi ≠ first.kernel.cpu.esi := by decide +kernel
  exact esi kept.esi

end TwoTasks

end Linux011.Switch

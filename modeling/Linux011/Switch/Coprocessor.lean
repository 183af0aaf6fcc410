import Linux011.Switch.Registers

namespace Linux011.Switch

open Linux011.Library

variable {F : Type} {initial : F} {firstReturnFromKernel : Word}

/-- The task whose numbers are in the coprocessor is neither switched away from nor forks nor exits. -/
def Stays (s : State F) : Event F → Prop
  | .switch next _ => next = s.kernel.current ∨ s.kernel.lastTaskUsedMath ≠ s.kernel.current
  | .fork _ _ _ | .exit => s.kernel.lastTaskUsedMath ≠ s.kernel.current
  | .work | .use _ _ | .release _ => True

/-- A task that has used the coprocessor has its numbers saved; any other one has none. -/
def Kept (initial : F) (used : Bool) (saved left : F) : Prop := if used then saved = left else left = initial

structure Numbers (initial : F) (s : State F) : Prop where
  trap : s.kernel.cpu.ts = false → s.kernel.lastTaskUsedMath = s.kernel.current
  last : s.kernel.lastTaskUsedMath = 0 ∨ s.kernel.lastTaskUsedMath = s.kernel.current
  loaded : s.kernel.lastTaskUsedMath = s.kernel.current → s.kernel.fpu = s.left s.kernel.current
  saved : ∀ t, s.live t → t ≠ s.kernel.lastTaskUsedMath →
    Kept initial (s.kernel.usedMath t) (s.kernel.i387 t) (s.left t)
  current : s.live s.kernel.current
  positive : ∀ t, s.live t → t ≠ 0

namespace Numbers

variable {s : State F}

theorem trapped (numbers : Numbers initial s) :
    (s.kernel.deviceNotAvailable initial).fpu = s.left s.kernel.current ∧
      (s.kernel.deviceNotAvailable initial).lastTaskUsedMath = s.kernel.current ∧
      ∀ t, t ≠ s.kernel.current → (s.kernel.deviceNotAvailable initial).usedMath t = s.kernel.usedMath t ∧
        (t ≠ s.kernel.lastTaskUsedMath → (s.kernel.deviceNotAvailable initial).i387 t = s.kernel.i387 t) := by
  unfold Kernel.deviceNotAvailable
  split
  · unfold Kernel.mathStateRestore
    dsimp only
    split
    · rename_i _ mine
      exact ⟨numbers.loaded mine, mine, fun _ _ => ⟨rfl, fun _ => rfl⟩⟩
    · rename_i _ other
      have unowned : s.kernel.lastTaskUsedMath = 0 := numbers.last.resolve_right other
      have saved := numbers.saved _ numbers.current (Ne.symm other)
      rw [if_pos unowned]
      dsimp only
      split
      · rename_i used
        rw [used] at saved
        exact ⟨saved, rfl, fun _ _ => ⟨rfl, fun _ => rfl⟩⟩
      · rename_i used
        rw [Bool.eq_false_of_not_eq_true used] at saved
        exact ⟨saved.symm, rfl, fun t apart => ⟨Function.update_of_ne apart _ _, fun _ => rfl⟩⟩
  · rename_i clear
    have mine := numbers.trap (Bool.eq_false_of_not_eq_true clear)
    exact ⟨numbers.loaded mine, mine, fun _ _ => ⟨rfl, fun _ => rfl⟩⟩

theorem step {e : Event F} {t : State F} (numbers : Numbers initial s) (stays : Stays s e)
    (step : Step initial firstReturnFromKernel s e t) : Numbers initial t := by
  cases step with
  | work cpu stack ts _ _ =>
    exact ⟨fun clear => numbers.trap (ts.symm.trans clear), numbers.last, numbers.loaded, numbers.saved,
      numbers.current, numbers.positive⟩
  | same ldt args room =>
    rw [Kernel.switchTo_same args]
    exact ⟨numbers.trap, numbers.last, numbers.loaded, numbers.saved, numbers.current, numbers.positive⟩
  | switch next ldt args room other live =>
    have notMine : s.kernel.lastTaskUsedMath ≠ s.kernel.current := stays.resolve_left other
    have unowned : s.kernel.lastTaskUsedMath = 0 := numbers.last.resolve_right notMine
    have notNext : s.kernel.lastTaskUsedMath ≠ next := unowned ▸ (numbers.positive next live).symm
    rw [Kernel.switchTo_other args other]
    refine ⟨?_, .inl unowned, fun mine => absurd mine notNext, numbers.saved, live, numbers.positive⟩
    intro clear
    dsimp only at clear
    rw [if_neg notMine] at clear
    exact absurd (numbers.trap clear) notMine
  | use new =>
    obtain ⟨_, mine, others⟩ := numbers.trapped
    obtain ⟨_, _, current⟩ := Kernel.deviceNotAvailable_frame (k := s.kernel) initial
    have owner : (s.kernel.deviceNotAvailable initial).lastTaskUsedMath =
        (s.kernel.deviceNotAvailable initial).current := mine.trans current.symm
    refine ⟨fun _ => owner, .inr owner, ?_, ?_, current.symm ▸ numbers.current, numbers.positive⟩
    · intro _
      dsimp only
      rw [current, Function.update_self]
    · intro t live apart
      dsimp only at apart ⊢
      rw [mine] at apart
      have notLast : t ≠ s.kernel.lastTaskUsedMath := by
        rcases numbers.last with zero | mine
        · exact zero ▸ numbers.positive t live
        · exact mine ▸ apart
      rw [(others t apart).1, (others t apart).2 notLast, Function.update_of_ne apart]
      exact numbers.saved t live notLast
  | fork p f done page positive free apart =>
    have notMine : s.kernel.lastTaskUsedMath ≠ s.kernel.current := stays
    have unowned : s.kernel.lastTaskUsedMath = 0 := numbers.last.resolve_right notMine
    have parent := numbers.saved _ numbers.current (Ne.symm notMine)
    unfold Kernel.copyProcess
    dsimp only
    rw [if_neg notMine]
    refine ⟨numbers.trap, numbers.last, fun mine => absurd mine notMine, ?_, .inl numbers.current, ?_⟩
    · intro t here notLast
      dsimp only at here ⊢
      by_cases child : t = p
      · subst child
        rw [Function.update_self, Function.update_self, Function.update_self]
        exact parent
      · rw [Function.update_of_ne child, Function.update_of_ne child, Function.update_of_ne child]
        exact numbers.saved t (here.resolve_right fun same => child same.1) notLast
    · intro t here
      rcases here with here | ⟨rfl, _⟩
      · exact numbers.positive t here
      · exact positive
  | exit =>
    have notMine : s.kernel.lastTaskUsedMath ≠ s.kernel.current := stays
    unfold Kernel.doExit
    rw [if_neg notMine]
    exact ⟨numbers.trap, numbers.last, numbers.loaded, numbers.saved, numbers.current, numbers.positive⟩
  | release p live other =>
    exact ⟨numbers.trap, numbers.last, numbers.loaded, fun t here => numbers.saved t here.1,
      ⟨numbers.current, other.symm⟩, fun t here => numbers.positive t here.1⟩

end Numbers

theorem Booted.numbers {s : State F} (booted : Booted initial s) (trap : s.kernel.cpu.ts = true) :
    Numbers initial s where
  trap clear := by
    rw [trap] at clear
    cases clear
  last := .inl booted.lastTaskUsedMath
  loaded mine := absurd (mine.symm.trans booted.lastTaskUsedMath) booted.current
  saved := by
    intro t here _
    rw [(booted.live t).mp here, booted.usedMath]
    exact booted.left _
  current := (booted.live _).mpr rfl
  positive t here := (booted.live t).mp here ▸ booted.current

/-- As long as the task with its numbers in the coprocessor keeps running, they are its own. -/
theorem own_numbers_found {s₀ s : State F} {es : List (Event F)} (booted : Booted initial s₀)
    (trap : s₀.kernel.cpu.ts = true)
    (run : ((switching initial firstReturnFromKernel).restrict Stays).Run s₀ es s) :
    (s.kernel.cpu.ts = false → s.kernel.current = s.kernel.lastTaskUsedMath) ∧
      ∀ found new t, (switching initial firstReturnFromKernel).step s (.use found new) t →
        found = s.left s.kernel.current := by
  have numbers : Numbers initial s := by
    apply run.invariant (I := Numbers initial)
    · intro s e t numbers step
      exact numbers.step step.1 step.2
    · exact booted.numbers trap
  refine ⟨fun clear => (numbers.trap clear).symm, fun found new t step => ?_⟩
  cases step
  exact numbers.trapped.1

section TwoTasks

/-- The first task has used the coprocessor. -/
def computing : State Nat :=
  { first with
    kernel := { first.kernel.deviceNotAvailable 0 with fpu := 5 }
    left := Function.update first.left 0x1000 5 }

theorem computing_found : (computing.kernel.cpu.ts = false →
      computing.kernel.current = computing.kernel.lastTaskUsedMath) ∧
    ∀ found new t, (switching 0 0).step computing (.use found new) t →
      found = computing.left computing.kernel.current := by
  have use : ((switching 0 0).restrict Stays).step first (.use 0 5) computing := ⟨trivial, Step.use 5⟩
  exact own_numbers_found first_booted rfl (Machine.Run.one use)

/-- The child of a task that has not used the coprocessor runs, uses it and switches back. -/
def childUsing : State Nat :=
  { away with
    kernel := { away.kernel.deviceNotAvailable 0 with fpu := 5 }
    left := Function.update away.left away.kernel.current 5 }

def childSwitching : State Nat :=
  { childUsing with
    kernel.cpu := { childUsing.kernel.cpu with esp := 0x3f00 }
    kernel.stack := fun a => if a = 0x3f00 then 0x1000 else childUsing.kernel.stack a }

def parentBack : State Nat :=
  { childSwitching with
    kernel := childSwitching.kernel.call.switchTo
    suspended := Function.update (Function.update childSwitching.suspended childSwitching.kernel.current
      (some childSwitching.kernel.cpu)) 0x1000 none }

def parentUsing : State Nat :=
  { parentBack with
    kernel := { parentBack.kernel.deviceNotAvailable 0 with fpu := 6 }
    left := Function.update parentBack.left parentBack.kernel.current 6 }

theorem parentBack_run : (switching 0 0).Run first
    [.fork 0x3000 userFrame true, .switch 0x3000 0, .use 0 5, .work, .switch 0x1000 0] parentBack := by
  have use : (switching 0 0).step away (.use 0 5) childUsing := Step.use 5
  have current : childUsing.kernel.current = 0x3000 := by decide +kernel
  have work : (switching 0 0).step childUsing .work childSwitching := by
    apply Step.work
    · rfl
    · rfl
    · intro a outside
      apply if_neg
      rintro rfl
      apply outside
      rw [current]
      exact ⟨by decide, by decide⟩
  apply ((away_run.snoc use).snoc work).snoc
  apply Step.switch
  · exact ⟨by decide +kernel, by decide +kernel⟩
  · exact ⟨by decide +kernel, by decide +kernel⟩
  · decide +kernel
  · exact .inl rfl

/-- The parent finds the numbers of its child. -/
theorem numbers_of_the_child : Booted 0 first ∧ first.kernel.cpu.ts = true ∧
    (switching 0 0).Run first
      [.fork 0x3000 userFrame true, .switch 0x3000 0, .use 0 5, .work, .switch 0x1000 0] parentBack ∧
    parentBack.kernel.cpu.ts = false ∧ parentBack.kernel.current ≠ parentBack.kernel.lastTaskUsedMath ∧
    (switching 0 0).step parentBack (.use 5 6) parentUsing ∧ parentBack.left parentBack.kernel.current = 0 := by
  refine ⟨first_booted, rfl, parentBack_run, by decide +kernel, by decide +kernel, Step.use 6, by decide +kernel⟩

end TwoTasks

end Linux011.Switch

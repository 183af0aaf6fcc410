import Linux011.Switch.Slots

namespace Linux011.Switch

open Linux011.Library

variable {F : Type} {initial : F} {firstReturnFromKernel : Word}

section Occupied

variable {k : Sched.Kernel} (j : Fin 64)

theorem change_isSome (i : Fin 64) (f : Sched.TaskStruct → Sched.TaskStruct) :
    ((k.change i f).task j).isSome = (k.task j).isSome := by
  rw [Sched.Kernel.change]
  by_cases here : j = i
  · rw [here]
    dsimp only
    rw [Function.update_self, Option.isSome_map]
  · dsimp only
    rw [Function.update_of_ne here]

theorem select_isSome {rounds : Nat} {pnext : Fin 64} {r : Sched.Kernel × Sched.Choice}
    (selected : k.select rounds pnext = some r) : (r.1.task j).isSome = (k.task j).isSome := by
  induction rounds generalizing k pnext with
  | zero => cases selected
  | succ n ih =>
    by_cases zero : (k.choose pnext).c = 0
    · rw [Sched.Kernel.select_later rfl zero] at selected
      exact (ih selected).trans (Sched.Kernel.changeOthers_isSome _ j)
    · rw [Sched.Kernel.select_now rfl zero] at selected
      cases selected
      rfl

theorem found_empty {nr : Fin 64} (found : k.findEmptyProcess = some nr) : (k.task nr).isSome = false := by
  have none := List.find?_some found
  rwa [Option.isNone_iff_eq_none, ← Option.not_isSome_iff_eq_none, Bool.not_eq_true] at none

theorem fork_isSome {nr : Fin 64} (found : k.findEmptyProcess = some nr) (current : (k.task k.current).isSome) :
    (k.fork.task j).isSome = true ↔ j = nr ∨ (k.task j).isSome = true := by
  rw [Sched.Kernel.fork, found]
  dsimp only
  by_cases here : j = nr
  · rw [here, Function.update_self, Option.isSome_map, current]
    simp
  · rw [Function.update_of_ne here]
    simp [here]

theorem fork_current : k.fork.current = k.current := by
  rw [Sched.Kernel.fork]
  split <;> rfl

end Occupied

section Own

/-- What a task does by itself leaves the others as they are. -/
structure KeepsOthers (s m : State F) : Prop where
  live : m.live = s.live
  suspended : m.suspended = s.suspended
  current : m.kernel.current = s.kernel.current
  kernelStack : m.kernel.kernelStack = s.kernel.kernelStack
  esp0 : m.kernel.esp0 m.kernel.initTss = s.kernel.esp0 s.kernel.initTss
  ldtr : m.kernel.cpu.ldtr = s.kernel.cpu.ldtr
  stack : ∀ a, ¬ Within s.kernel.current a → m.kernel.stack a = s.kernel.stack a

theorem deviceNotAvailable_tss (k : Kernel F) (initial : F) :
    (k.deviceNotAvailable initial).esp0 = k.esp0 ∧ (k.deviceNotAvailable initial).initTss = k.initTss ∧
      (k.deviceNotAvailable initial).cpu.ldtr = k.cpu.ldtr := by
  unfold Kernel.deviceNotAvailable Kernel.mathStateRestore
  split
  · split
    · exact ⟨rfl, rfl, rfl⟩
    · dsimp only
      split <;> split <;> exact ⟨rfl, rfl, rfl⟩
  · exact ⟨rfl, rfl, rfl⟩

theorem Step.own {s m : State F} {e : Event F} (step : Step initial firstReturnFromKernel s e m) (own : e.Own) :
    KeepsOthers s m := by
  cases step with
  | work cpu stack ts ldtr outside => exact ⟨rfl, rfl, rfl, rfl, rfl, ldtr, outside⟩
  | use new =>
    obtain ⟨stack, kernelStack, current⟩ := Kernel.deviceNotAvailable_frame (k := s.kernel) initial
    obtain ⟨esp0, initTss, ldtr⟩ := deviceNotAvailable_tss s.kernel initial
    refine ⟨rfl, rfl, current, kernelStack, ?_, ldtr, fun a _ => congrFun stack a⟩
    dsimp only
    rw [esp0, initTss]
  | exit =>
    unfold Kernel.doExit
    split <;> exact ⟨rfl, rfl, rfl, rfl, rfl, rfl, fun _ _ => rfl⟩
  | same => exact own.elim
  | switch => exact own.elim
  | fork => exact own.elim
  | release => exact own.elim

end Own

section Switch

variable {m : State F} {next ldt : Word}

theorem switched_same (same : next = m.kernel.current) :
    m.switched next = { m with kernel := m.kernel.call.switchTo } := by
  rw [State.switched, if_pos same]

theorem switched_other (other : next ≠ m.kernel.current) :
    m.switched next =
      { m with
        kernel := m.kernel.call.switchTo
        suspended := Function.update (Function.update m.suspended m.kernel.current (some m.kernel.cpu)) next none } := by
  rw [State.switched, if_neg other]

theorem switched_step (args : m.kernel.Args next ldt) (calls : CallsFrom m.kernel.current m.kernel.cpu.esp)
    (live : m.live next) : Step initial firstReturnFromKernel m (.switch next ldt) (m.switched next) := by
  have room : OnStack m.kernel.current m.kernel.cpu.esp :=
    ⟨calls.room, (Nat.le_add_right _ 8).trans calls.arguments⟩
  by_cases same : next = m.kernel.current
  · rw [switched_same same]
    subst same
    exact .same ldt args room
  · rw [switched_other same]
    exact .switch next ldt args room same live

theorem switched_current (args : m.kernel.Args next ldt) : (m.switched next).kernel.current = next := by
  by_cases same : next = m.kernel.current
  · subst same
    rw [State.switched, Kernel.switchTo_same args]
  · rw [switched_other same, Kernel.switchTo_other args same]

theorem switched_esp0 (args : m.kernel.Args next ldt)
    (esp0 : m.kernel.esp0 m.kernel.initTss = m.kernel.current + 4096) :
    (m.switched next).kernel.esp0 (m.switched next).kernel.initTss = next + 4096 := by
  by_cases same : next = m.kernel.current
  · subst same
    rw [State.switched, Kernel.switchTo_same args]
    exact esp0
  · rw [switched_other same, Kernel.switchTo_other args same]
    exact Function.update_self ..

end Switch

namespace Slotted

variable {s t : Slots F}

theorem resched (slotted : Slotted firstReturnFromKernel s) {k : Sched.Kernel} (sane : k.Sane)
    (same : ∀ j, (k.task j).isSome = (s.sched.task j).isSome) (current : k.current = s.sched.current) :
    Slotted firstReturnFromKernel { s with sched := k } :=
  { slotted with
    sane := sane
    live := fun t => by
      rw [slotted.live]
      simp only [same]
    distinct := fun i j here here' => by
      rw [same] at here here'
      exact slotted.distinct i j here here'
    current := by
      dsimp only
      rw [current]
      exact slotted.current
    ldtr := by
      dsimp only
      rw [current]
      exact slotted.ldtr }

theorem apart (slotted : Slotted firstReturnFromKernel s) {u a : Word} (here : s.machine.live u)
    (other : u ≠ s.machine.kernel.current) (inside : Within u a) : ¬ Within s.machine.kernel.current a :=
  (slotted.frames.apart u _ here slotted.frames.current other).not_within inside

theorem run (slotted : Slotted firstReturnFromKernel s) {e : Event F} {m : State F} (own : e.Own)
    (step : Step initial firstReturnFromKernel s.machine e m) :
    Slotted firstReturnFromKernel { s with machine := m } := by
  have keeps := step.own own
  constructor
  · exact slotted.sane
  · intro t
    dsimp only
    rw [keeps.live]
    exact slotted.live t
  · intro t here
    dsimp only at here
    rw [keeps.live] at here
    exact slotted.page t here
  · exact slotted.distinct
  · exact keeps.current.trans slotted.current
  · exact slotted.frames.step step
  · dsimp only
    rw [keeps.esp0, keeps.current]
    exact slotted.esp0
  · exact keeps.ldtr.trans slotted.ldtr
  · intro u here other
    dsimp only at here other
    rw [keeps.live] at here
    rw [keeps.current] at other
    apply (slotted.framed u here other).kept (slotted.page u here)
    · exact congrFun keeps.suspended u
    · rfl
    · exact congrFun keeps.kernelStack u
    · intro a inside
      exact keeps.stack a (slotted.apart here other inside)

theorem chosen (slotted : Slotted firstReturnFromKernel s) {rounds : Nat} {r : Sched.Kernel × Sched.Choice}
    (selected : s.sched.checkSignals.select rounds 0 = some r) :
    r.1.Sane ∧ r.2.next = r.2.pnext ∧ (r.1.task r.2.pnext).isSome ∧
      (∀ j, (r.1.task j).isSome = (s.sched.task j).isSome) ∧ s.machine.live (s.task r.2.pnext) := by
  obtain ⟨sane, agree, there⟩ := slotted.sane.checkSignals.select_agrees selected
  have same (j : Fin 64) : (r.1.task j).isSome = (s.sched.task j).isSome :=
    (select_isSome j selected).trans (Sched.Kernel.changeOthers_isSome _ j)
  refine ⟨sane, agree, there, same, (slotted.live _).mpr ⟨_, ?_, rfl⟩⟩
  rw [← same]
  exact there

theorem schedule (slotted : Slotted firstReturnFromKernel s) {rounds : Nat} {r : Sched.Kernel × Sched.Choice}
    (selected : s.sched.checkSignals.select rounds 0 = some r)
    (args : s.machine.kernel.Args (s.task r.2.pnext) (ldtSelector r.2.next))
    (calls : CallsFrom s.machine.kernel.current s.machine.kernel.cpu.esp) :
    Slotted firstReturnFromKernel
      { s with
        sched := { r.1 with current := r.2.pnext }
        machine := s.machine.switched (s.task r.2.pnext) } := by
  obtain ⟨sane, agree, there, same, live⟩ := slotted.chosen selected
  have step : Step s.machine.kernel.fpu firstReturnFromKernel s.machine _ _ := switched_step args calls live
  have current := switched_current args
  constructor
  · exact ⟨sane.tasks, sane.first, there⟩
  · intro t
    simp only [same]
    exact slotted.live t
  · exact slotted.page
  · intro i j here here'
    dsimp only at here here'
    rw [same] at here here'
    exact slotted.distinct i j here here'
  · exact current
  · exact slotted.frames.step step
  · dsimp only
    rw [current]
    exact switched_esp0 args slotted.esp0
  · by_cases stays : s.task r.2.pnext = s.machine.kernel.current
    · have slot : r.2.pnext = s.sched.current :=
        slotted.distinct _ _ (same _ ▸ there) slotted.sane.current (stays.trans slotted.current)
      dsimp only
      rw [switched_same stays, Kernel.switchTo_same (stays ▸ args), slot]
      exact slotted.ldtr
    · dsimp only
      rw [switched_other stays, Kernel.switchTo_other args stays, agree]
  · intro u here other
    dsimp only at here other
    rw [current] at other
    have page := slotted.page u here
    by_cases mine : u = s.machine.kernel.current
    · have away : s.task r.2.pnext ≠ s.machine.kernel.current := fun same => other (mine.trans same.symm)
      have saved := Saved.of_call args away calls
      unfold Slots.Framed
      dsimp only
      rw [switched_other away]
      dsimp only
      rw [Function.update_of_ne other, mine, Function.update_self]
      exact saved
    · have room : OnStack s.machine.kernel.current s.machine.kernel.cpu.esp :=
        ⟨calls.room, (Nat.le_add_right _ 8).trans calls.arguments⟩
      by_cases stays : s.task r.2.pnext = s.machine.kernel.current
      · apply (slotted.framed u here mine).kept page
        · dsimp only
          rw [switched_same stays]
        · rfl
        · dsimp only
          rw [switched_same stays, Kernel.switchTo_same (stays ▸ args)]
        · intro a inside
          dsimp only
          rw [switched_same stays, Kernel.switchTo_same (stays ▸ args)]
          exact Kernel.framed_outside room a (slotted.apart here mine inside)
      · apply (slotted.framed u here mine).kept page
        · dsimp only
          rw [switched_other stays]
          dsimp only
          rw [Function.update_of_ne other, Function.update_of_ne mine]
        · rfl
        · dsimp only
          rw [switched_other stays, Kernel.switchTo_other args stays]
          exact Function.update_of_ne mine ..
        · intro a inside
          dsimp only
          rw [switched_other stays, Kernel.switchTo_other args stays]
          exact Kernel.framed_outside room a (slotted.apart here mine inside)

theorem fork (slotted : Slotted firstReturnFromKernel s) {nr : Fin 64} {p : Word} {f : Frame} {done : Bool}
    {m : State F} (found : s.sched.findEmptyProcess = some nr)
    (step : Step initial firstReturnFromKernel s.machine (.fork p f done) m) :
    Slotted firstReturnFromKernel
      { sched := if done then s.sched.fork else s.sched
        task := if done then Function.update s.task nr p else s.task
        machine := m
        forked := Function.update s.forked p (some f) } := by
  have frames := slotted.frames.step step
  have empty := found_empty found
  cases step with
  | fork _ _ _ page positive free away =>
    have current : (s.machine.kernel.copyProcess initial firstReturnFromKernel p f).current =
        s.machine.kernel.current := Kernel.copyProcess_current
    have tss : (s.machine.kernel.copyProcess initial firstReturnFromKernel p f).esp0 = s.machine.kernel.esp0 ∧
        (s.machine.kernel.copyProcess initial firstReturnFromKernel p f).initTss = s.machine.kernel.initTss ∧
        (s.machine.kernel.copyProcess initial firstReturnFromKernel p f).cpu.ldtr = s.machine.kernel.cpu.ldtr := by
      unfold Kernel.copyProcess
      dsimp only
      split <;> exact ⟨rfl, rfl, rfl⟩
    have running : (s.machine.kernel.copyProcess initial firstReturnFromKernel p f).esp0
        (s.machine.kernel.copyProcess initial firstReturnFromKernel p f).initTss =
        (s.machine.kernel.copyProcess initial firstReturnFromKernel p f).current + 4096 := by
      rw [tss.1, tss.2.1, current]
      exact slotted.esp0
    have slot : s.sched.current ≠ nr := by
      intro same
      have there := slotted.sane.current
      rw [same, empty] at there
      cases there
    -- a frame of a task there was before is still what it was
    have others : ∀ k task, ∀ u, s.machine.live u → u ≠ s.machine.kernel.current →
        Slots.Framed firstReturnFromKernel
          { sched := k
            task := task
            machine :=
              { s.machine with
                kernel := s.machine.kernel.copyProcess initial firstReturnFromKernel p f
                live := fun t => s.machine.live t ∨ t = p ∧ done = true
                left := Function.update s.machine.left p (s.machine.left s.machine.kernel.current) }
            forked := Function.update s.forked p (some f) } u := by
      intro k task u here other
      have notNew : u ≠ p := fun same => free (same ▸ here)
      apply (slotted.framed u here other).kept (slotted.page u here)
      · rfl
      · exact Function.update_of_ne notNew ..
      · exact Kernel.copyProcess_kernelStack notNew
      · intro a inside
        exact Kernel.copyProcess_stack page a ((away u here).not_within inside)
    cases done with
    | false =>
      refine ⟨slotted.sane, ?_, ?_, slotted.distinct, current.trans slotted.current, frames, running,
        tss.2.2.trans slotted.ldtr, ?_⟩
      · intro t
        have same : (s.machine.live t ∨ t = p ∧ false = true) ↔ s.machine.live t := by simp
        exact same.trans (slotted.live t)
      · rintro t (here | ⟨-, impossible⟩)
        · exact slotted.page t here
        · cases impossible
      · rintro u (here | ⟨-, impossible⟩) other
        · exact others _ _ u here (current ▸ other)
        · cases impossible
    | true =>
      have occupied (j : Fin 64) : (s.sched.fork.task j).isSome = true ↔ j = nr ∨ (s.sched.task j).isSome = true :=
        fork_isSome j found slotted.sane.current
      have elsewhere {j : Fin 64} (there : (s.sched.task j).isSome = true) : j ≠ nr := by
        rintro rfl
        rw [empty] at there
        cases there
      have old {j : Fin 64} (there : (s.sched.task j).isSome = true) : s.machine.live (s.task j) :=
        (slotted.live _).mpr ⟨j, there, rfl⟩
      refine ⟨slotted.sane.fork, ?_, ?_, ?_, ?_, frames, running, ?_, ?_⟩
      · intro t
        constructor
        · rintro (here | ⟨rfl, -⟩)
          · obtain ⟨i, there, rfl⟩ := (slotted.live t).mp here
            exact ⟨i, (occupied i).mpr (.inr there), Function.update_of_ne (elsewhere there) ..⟩
          · exact ⟨nr, (occupied nr).mpr (.inl rfl), Function.update_self ..⟩
        · rintro ⟨i, there, rfl⟩
          rcases (occupied i).mp there with rfl | there
          · exact .inr ⟨Function.update_self .., rfl⟩
          · left
            dsimp only
            rw [if_pos rfl, Function.update_of_ne (elsewhere there)]
            exact old there
      · rintro t (here | ⟨rfl, -⟩)
        · exact slotted.page t here
        · exact page
      · intro i j here here' same
        replace same : Function.update s.task nr p i = Function.update s.task nr p j := same
        rcases (occupied i).mp here with rfl | there <;> rcases (occupied j).mp here' with rfl | there'
        · rfl
        · rw [Function.update_self, Function.update_of_ne (elsewhere there')] at same
          exact absurd (old there') (same ▸ free)
        · rw [Function.update_self, Function.update_of_ne (elsewhere there)] at same
          exact absurd (old there) (same ▸ free)
        · rw [Function.update_of_ne (elsewhere there), Function.update_of_ne (elsewhere there')] at same
          exact slotted.distinct i j there there' same
      · refine current.trans ?_
        dsimp only
        rw [if_pos rfl, if_pos rfl, fork_current, Function.update_of_ne slot]
        exact slotted.current
      · refine tss.2.2.trans ?_
        dsimp only
        rw [if_pos rfl, fork_current]
        exact slotted.ldtr
      · rintro u (here | ⟨rfl, -⟩) other
        · exact others _ _ u here (current ▸ other)
        · have off : s.machine.suspended u = none := by
            by_contra on
            obtain ⟨c, on⟩ := Option.ne_none_iff_exists'.mp on
            exact free (slotted.frames.frozen u c on).1
          unfold Slots.Framed
          dsimp only
          rw [off]
          exact ⟨f, Function.update_self .., Saved.of_fork page⟩

theorem step {e : SlotEvent F} (slotted : Slotted firstReturnFromKernel s)
    (step : SlotStep initial firstReturnFromKernel s e t) : Slotted firstReturnFromKernel t := by
  cases step with
  | run e m own step => exact slotted.run own step
  | tick =>
    apply slotted.resched
    · have ticked : (s.sched.change s.sched.current Sched.TaskStruct.tick).Sane :=
        slotted.sane.change fun p there => (slotted.sane.tasks _ p there).tick
      exact ⟨ticked.tasks, ticked.first, ticked.current⟩
    · exact fun j => change_isSome j _ _
    · rfl
  | elsewhere i state signal blocked alarm =>
    apply slotted.resched
    · apply slotted.sane.change
      intro p there
      have numbers := slotted.sane.tasks i p there
      exact ⟨numbers.priority, numbers.bounded, numbers.counter⟩
    · exact fun j => change_isSome j _ _
    · rfl
  | schedule rounds r selected args calls => exact slotted.schedule selected args calls
  | fork nr p f done m found step => exact slotted.fork found step

end Slotted

theorem Started.slotted {s : Slots F} (started : Started initial s) : Slotted firstReturnFromKernel s := by
  have none : ∀ i, i ≠ 0 → s.sched.task i = none := by
    intro i other
    rw [started.sched]
    change Function.update (fun _ => Option.none) 0 (some Sched.initTask) i = Option.none
    exact Function.update_of_ne other ..
  have first : s.sched.task 0 = some Sched.initTask := by
    rw [started.sched]
    change Function.update (fun _ => Option.none) 0 (some Sched.initTask) 0 = some Sched.initTask
    exact Function.update_self ..
  have slot : s.sched.current = 0 := by
    rw [started.sched]
    rfl
  have only {i : Fin 64} (there : (s.sched.task i).isSome = true) : i = 0 := by
    by_contra other
    rw [none i other] at there
    cases there
  constructor
  · constructor
    · intro i p there
      cases only (Option.isSome_iff_exists.mpr ⟨p, there⟩)
      cases first.symm.trans there
      exact ⟨by decide, by decide, by decide⟩
    · rw [first]
      rfl
    · rw [slot, first]
      rfl
  · intro t
    rw [started.booted.live]
    constructor
    · rintro rfl
      exact ⟨0, by rw [first]; rfl, started.task⟩
    · rintro ⟨i, there, rfl⟩
      rw [only there]
      exact started.task
  · intro t here
    rw [(started.booted.live t).mp here]
    exact started.page
  · intro i j here here' _
    rw [only here, only here']
  · rw [slot]
    exact started.task.symm
  · exact started.booted.frames
  · exact started.esp0
  · rw [slot]
    exact started.ldtr
  · intro t here other
    exact absurd ((started.booted.live t).mp here) other

theorem slotted_of_reaches {s : Slots F} (reached : (slots initial firstReturnFromKernel).Reaches s) :
    Slotted firstReturnFromKernel s :=
  reached.invariant (I := Slotted firstReturnFromKernel)
    (fun _ (started : Started initial _) => started.slotted) fun _ _ _ slotted step => slotted.step step

/-- When `switch_to` returns, the task in the chosen slot runs with its own stack and descriptor table, and
    all others have a frame to return through. -/
theorem returns_in_chosen {s t : Slots F} (reached : (slots initial firstReturnFromKernel).Reaches s)
    {n : Fin 64} (step : (slots initial firstReturnFromKernel).step s (.schedule n) t) :
    (t.sched.current = n ∧ (t.sched.task n).isSome = true ∧ t.machine.kernel.current = t.task n ∧
      ∀ i, (t.sched.task i).isSome = true → t.task i = t.machine.kernel.current → i = n) ∧
    t.machine.kernel.esp0 t.machine.kernel.initTss = t.machine.kernel.current + 4096 ∧
    t.machine.kernel.cpu.ldtr = (ldtSelector n).setWidth 16 ∧
    Within t.machine.kernel.current t.machine.kernel.cpu.esp ∧
    ∀ u, t.machine.live u → u ≠ t.machine.kernel.current → t.Framed firstReturnFromKernel u := by
  have before := slotted_of_reaches reached
  have after := before.step step
  cases step with
  | schedule rounds r selected args calls =>
    obtain ⟨-, agree, there, -, live⟩ := before.chosen selected
    have current := switched_current args
    refine ⟨⟨agree.symm, agree ▸ there, agree ▸ current, ?_⟩, after.esp0, agree ▸ after.ldtr, ?_, after.framed⟩
    · intro i here same
      rw [agree]
      exact after.distinct _ _ here there (same.trans current)
    · have room := calls.room
      have arguments := calls.arguments
      dsimp only
      rw [current]
      by_cases stays : s.task r.2.pnext = s.machine.kernel.current
      · rw [switched_same stays, Kernel.switchTo_same (stays ▸ args), stays]
        exact ⟨by dsimp only; omega, by dsimp only; omega⟩
      · rw [switched_other stays, Kernel.switchTo_other args stays]
        have framed := before.framed _ live stays
        have page := before.page _ live
        obtain ⟨low, high⟩ : (s.task r.2.pnext).toNat ≤ (s.machine.kernel.kernelStack (s.task r.2.pnext)).toNat ∧
            (s.machine.kernel.kernelStack (s.task r.2.pnext)).toNat + 20 <
              (s.task r.2.pnext).toNat + 4096 := by
          unfold Slots.Framed at framed
          split at framed
          · exact ⟨framed.low, framed.high⟩
          · rcases framed with ⟨f, -, saved⟩
            exact ⟨saved.low, saved.high⟩
        have up : (s.machine.kernel.kernelStack (s.task r.2.pnext) + 20).toNat =
            (s.machine.kernel.kernelStack (s.task r.2.pnext)).toNat + 20 :=
          BitVec.toNat_add_of_lt
            (show (s.machine.kernel.kernelStack (s.task r.2.pnext)).toNat + 20 < 2 ^ 32 by omega)
        exact ⟨by dsimp only; omega, by dsimp only; omega⟩

section FirstSwitch

/-- Task 0 at `0x1000`, about to call `switch_to` for a child at `0x3000`. -/
def booting : Slots Nat where
  sched := Sched.started
  task _ := 0x1000
  machine :=
    { first with
      kernel.esp0 := fun _ => 0x2000
      kernel.stack := fun a => if a = 0x1f00 then 0x3000 else if a = 0x1f04 then 56 else 0 }
  forked _ := none

theorem booting_started : Started 0 booting :=
  ⟨rfl, ⟨fun _ => Iff.rfl, by decide, fun _ => rfl, rfl, rfl, fun _ => rfl⟩, rfl, by decide, rfl, by decide⟩

def withChild : Slots Nat where
  sched := booting.sched.fork
  task := Function.update booting.task 1 0x3000
  machine :=
    { booting.machine with
      kernel := booting.machine.kernel.copyProcess 0 0 0x3000 userFrame
      live := fun t => booting.machine.live t ∨ t = 0x3000 ∧ true = true
      left := Function.update booting.machine.left 0x3000 (booting.machine.left booting.machine.kernel.current) }
  forked := Function.update booting.forked 0x3000 (some userFrame)

theorem withChild_reached : (slots 0 0).Reaches withChild := by
  have found : booting.sched.findEmptyProcess = some 1 := by decide +kernel
  have page : Step 0 0 booting.machine (.fork 0x3000 userFrame true) withChild.machine := by
    apply Step.fork
    · decide
    · decide
    · change ¬ (0x3000 : Word) = 0x1000
      decide
    · rintro t rfl
      exact .inl (by decide)
  exact Machine.Reaches.step ⟨booting, [], booting_started, .nil _⟩
    (SlotStep.fork 1 0x3000 userFrame true _ found page)

theorem child_chosen : ∃ r, withChild.sched.checkSignals.select 2 0 = some r ∧ r.2.pnext = 1 ∧ r.2.next = 1 := by
  have check : (withChild.sched.checkSignals.select 2 0).any (fun r => r.2.pnext = 1 ∧ r.2.next = 1) = true := by
    decide +kernel
  obtain ⟨r, selected, same⟩ := (Option.any_eq_true _ _).mp check
  exact ⟨r, selected, of_decide_eq_true same⟩

theorem returns_in_child : ∃ s t : Slots Nat, (slots 0 0).Reaches s ∧ (slots 0 0).step s (.schedule 1) t ∧
    ((t.sched.current = 1 ∧ (t.sched.task 1).isSome = true ∧ t.machine.kernel.current = t.task 1 ∧
        ∀ i, (t.sched.task i).isSome = true → t.task i = t.machine.kernel.current → i = 1) ∧
      t.machine.kernel.esp0 t.machine.kernel.initTss = t.machine.kernel.current + 4096 ∧
      t.machine.kernel.cpu.ldtr = (ldtSelector 1).setWidth 16 ∧
      Within t.machine.kernel.current t.machine.kernel.cpu.esp ∧
      ∀ u, t.machine.live u → u ≠ t.machine.kernel.current → t.Framed 0 u) := by
  obtain ⟨r, selected, chosen, next⟩ := child_chosen
  have args : withChild.machine.kernel.Args (withChild.task r.2.pnext) (ldtSelector r.2.next) := by
    rw [chosen, next]
    exact ⟨by decide +kernel, by decide +kernel⟩
  have step : (slots 0 0).step withChild (.schedule r.2.next) _ :=
    SlotStep.schedule 2 r selected args ⟨by decide +kernel, by decide +kernel⟩
  rw [next] at step
  exact ⟨withChild, _, withChild_reached, step, returns_in_chosen withChild_reached step⟩

end FirstSwitch

end Linux011.Switch

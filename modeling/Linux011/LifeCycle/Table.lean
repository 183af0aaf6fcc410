import Linux011.LifeCycle.Steps

namespace Linux011.LifeCycle

open Linux011.Library
open Linux011.Sched (TaskState)

variable {Queue : Type}

namespace Kernel

/-- What one step does to the task table and to the saved pointers, and who runs after it. -/
structure Turn (k k' : Kernel Queue) : Prop where
  task : ∀ i, k'.task i = k.task i ∨
    i ≠ 0 ∧ k'.task i = none ∧ (∃ t, k.task i = some t ∧ (k'.info t).state = .zombie) ∨
    i ≠ 0 ∧ k.task i = none ∧ k'.task i = some k.fresh ∧ k.fresh < k'.fresh ∧ ∀ j, j ≠ i → k'.task j = k.task j
  points : ∀ t, k'.Points t → k.Points t ∨ t = k.current ∧ k.calling = false
  active : k'.calling = false → k'.current = initTask ∨ (k'.info k'.current).state = .running ∨
    k.calling = false ∧ k'.current = k.current ∧ (k'.info k.current).state = (k.info k.current).state

section Cases

variable {k k' k₁ : Kernel Queue} {t : Task}

theorem points_of (head : ∀ p t, k'.head p = some t → k.Points t ∨ t = k.current ∧ k.calling = false)
    (frame : ∀ u t, (k'.frame u).tmp = some t → k.Points t) (points : k'.Points t) :
    k.Points t ∨ t = k.current ∧ k.calling = false := by
  rcases points with ⟨p, is⟩ | ⟨u, is⟩
  · exact head p t is
  · exact .inl (frame u t is)

theorem head_points (p : Queue) (t : Task) (is : k.head p = some t) : k.Points t := .inl ⟨p, is⟩

theorem frame_points {frame : Task → Frame Queue} (kept : ∀ u, u ≠ k.current → frame u = k.frame u)
    (mine : ∀ t, (frame k.current).tmp = some t → k.Points t) (u t : Task) (is : (frame u).tmp = some t) :
    k.Points t := by
  by_cases same : u = k.current
  · subst same
    exact mine t is
  · rw [kept u same] at is
    exact .inr ⟨u, is⟩

theorem user_points (u t : Task) (is : (Function.update k.frame k.current Frame.user u).tmp = some t) :
    k.Points t := by
  apply frame_points _ _ u t is
  · exact fun u other => Function.update_of_ne other _ _
  · intro t is
    rw [Function.update_self] at is
    cases is

theorem Turn.alike (alike : Alike k k') : Turn k k' where
  task i := .inl (congrFun alike.task i)
  points t points := by
    unfold Points at points
    rw [alike.head, alike.frame] at points
    exact .inl points
  active back := .inr (.inr ⟨alike.calling ▸ back, alike.current, alike.state _⟩)

/-- `current` goes to sleep, woken by somebody the new frame or head may name. -/
theorem Turn.sleep (k₁ : Kernel Queue) (state : TaskState) (frame : Frame Queue) (head : Queue → Option Task) (task : k₁.task = k.task)
    (current : k₁.current = k.current) (frames : ∀ u, u ≠ k.current → k₁.frame u = k.frame u)
    (heads : ∀ p t, head p = some t → k.Points t ∨ t = k.current ∧ k.calling = false)
    (mine : ∀ t, frame.tmp = some t → k.Points t) : Turn k { k₁.sleep state frame with head := head } where
  task i := .inl (congrFun task i)
  points _ := by
    apply points_of heads
    unfold Kernel.sleep
    dsimp only
    rw [current]
    apply frame_points
    · intro u other
      rw [Function.update_of_ne other, frames u other]
    · rwa [Function.update_self]
  active back := nomatch back

theorem Turn.leave {head : Queue → Option Task} (heads : ∀ p t, head p = some t → k.Points t) (tmp : Option Task) :
    Turn k ({ k with head := head }.leave tmp) := by
  have heads (p : Queue) (t : Task) (is : head p = some t) : k.Points t ∨ t = k.current ∧ k.calling = false :=
    .inl (heads p t is)
  unfold Kernel.leave
  cases tmp with
  | none => exact ⟨fun i => .inl rfl, fun _ => points_of heads (user_points (k := k)), fun back => .inr (.inr ⟨back, rfl, rfl⟩)⟩
  | some t =>
    refine ⟨fun i => .inl rfl, fun _ => points_of heads (user_points (k := k)), fun back => ?_⟩
    by_cases same : k.current = t
    · subst same
      exact .inr (.inl (by simp [wake, setState, change, fprintk]))
    · exact .inr (.inr ⟨back, rfl, by simp [wake, setState, change, fprintk, same]⟩)

theorem Turn.sysWaitpid (alike : Alike k k₁) (pid : BitVec 32) (nohang untraced : Bool) :
    Turn k (k₁.sysWaitpid pid nohang untraced) := by
  have frames (u t : Task) (is : (Function.update k₁.frame k₁.current Frame.user u).tmp = some t) : k.Points t := by
    rw [alike.frame, alike.current] at is
    exact user_points u t is
  have heads (p : Queue) (t : Task) (is : k₁.head p = some t) : k.Points t ∨ t = k.current ∧ k.calling = false := by
    rw [alike.head] at is
    exact .inl (head_points p t is)
  rcases sysWaitpid_cases (k := k₁) pid nohang untraced with same | ⟨t, dead, same⟩ | same
  · rw [same]
    refine ⟨fun i => .inl (congrFun alike.task i), fun _ => points_of heads frames, fun back => ?_⟩
    exact .inr (.inr ⟨alike.calling ▸ back, alike.current, alike.state _⟩)
  · rw [same]
    refine ⟨fun i => ?_, fun _ => points_of heads frames, nofun⟩
    unfold release clear
    dsimp only
    rw [alike.task]
    split
    · rename_i there
      exact .inr (.inl ⟨there.1, rfl, t, there.2, dead⟩)
    · exact .inl rfl
  · rw [same]
    have apart (u : Task) (other : u ≠ k.current) : Function.update k₁.frame k₁.current Frame.user u = k.frame u := by
      rw [alike.current, Function.update_of_ne other, alike.frame]
    exact Turn.sleep { k₁ with frame := Function.update k₁.frame k₁.current .user } .interruptible
      (.waitpid pid nohang untraced) k₁.head alike.task alike.current apart heads nofun

theorem Turn.resume [DecidableEq Queue] : Turn k k.resume := by
  unfold Kernel.resume
  cases is : k.frame k.current with
  | user => exact .alike .refl
  | sleepOn tmp => exact Turn.leave head_points tmp
  | interruptibleSleepOn p tmp =>
    dsimp only
    have saved (t : Task) (same : tmp = some t) : k.Points t := by
      refine .inr ⟨k.current, ?_⟩
      rw [is]
      exact same
    rcases interruptibleResume_cases (k := k) p tmp with ⟨t, other, head, same⟩ | ⟨own, same⟩
    · rw [same]
      exact Turn.sleep (k.wake t) .interruptible _ k.head rfl rfl (fun _ _ => rfl) (fun p t is => .inl (head_points p t is)) saved
    · rw [same]
      apply Turn.leave
      intro q t is
      rw [Function.update_apply] at is
      split at is
      · cases is
      · exact head_points q t is
  | waitpid pid nohang untraced =>
    have cleared : Alike k (k.change k.current fun p => { p with signal := p.signal &&& ~~~ bit SIGCHLD }) :=
      .change rfl rfl
    dsimp only
    unfold waitpidResume
    dsimp only
    split
    · exact .sysWaitpid cleared pid nohang untraced
    · exact {
        task := fun i => .inl rfl
        points := fun _ => points_of (fun p t is => .inl (head_points p t is)) user_points
        active := fun back => .inr (.inr ⟨back, rfl, cleared.state _⟩) }

theorem Turn.schedule (shape : k.Shape) {rounds : Nat} [DecidableEq Queue] (found : k.schedule rounds = some k') :
    Turn k k' := by
  obtain ⟨k₁, i, t, selected, there, rfl⟩ := schedule_cases found
  have scanned := (shape.scan rounds).1
  obtain ⟨alike, chosen⟩ := select_alike selected
  have task : k₁.task = k.task := alike.task.trans scanned.task
  have same : (k₁.dispatch t).task = k₁.task ∧ (k₁.dispatch t).frame = k₁.frame ∧ (k₁.dispatch t).head = k₁.head ∧
      (k₁.dispatch t).info = k₁.info ∧ (k₁.dispatch t).current = t := by
    unfold dispatch
    split
    · exact ⟨rfl, rfl, rfl, rfl, Eq.symm ‹_›⟩
    · split <;> exact ⟨rfl, rfl, rfl, rfl, rfl⟩
  obtain ⟨same, frame, head, info, current⟩ := same
  refine ⟨fun i => .inl (congrFun (same.trans task) i), fun u points => .inl ?_, fun _ => ?_⟩
  · unfold Points at points ⊢
    rwa [frame, head, alike.frame, alike.head, scanned.frame, scanned.head] at points
  · rw [current, info]
    rcases chosen with rfl | ⟨u, mine, running⟩
    · rw [task, shape.idle] at there
      exact .inl (Option.some.inj there).symm
    · cases there.symm.trans mine
      exact .inr (.inl running)

theorem Turn.fork (shape : k.Shape) {rounds : Nat} {memory : Bool} (found : k.sysFork rounds memory = some k') :
    Turn k k' := by
  obtain ⟨pid, rfl | ⟨nr, other, free, _, _, rfl⟩⟩ := sysFork_cases found
  · exact ⟨fun i => .inl rfl, fun _ points => .inl points, fun back => .inr (.inr ⟨back, rfl, rfl⟩)⟩
  · refine ⟨fun i => ?_, fun t points => ?_, fun back => .inr (.inr ⟨back, rfl, ?_⟩)⟩
    · by_cases same : i = nr
      · subst same
        refine .inr (.inr ⟨other, free, Function.update_self _ _ _, Nat.lt_succ_self _, fun j apart => ?_⟩)
        exact Function.update_of_ne apart _ _
      · exact .inl (Function.update_of_ne same _ _)
    · rcases points with ⟨p, is⟩ | ⟨u, is⟩
      · exact .inl (.inl ⟨p, is⟩)
      · by_cases same : u = k.fresh
        · subst same
          have born : (Function.update k.frame k.fresh Frame.user k.fresh).tmp = some t := is
          rw [Function.update_self] at born
          cases born
        · have kept : (Function.update k.frame k.fresh Frame.user u).tmp = some t := is
          rw [Function.update_of_ne same] at kept
          exact .inl (.inr ⟨u, kept⟩)
    · have apart : k.current ≠ k.fresh := Nat.ne_of_lt shape.here
      exact congrArg TaskStruct.state (Function.update_of_ne apart _ _)

theorem tellFather_beside (pid : BitVec 32) :
    (k.tellFather pid).frame = k.frame ∧ (k.tellFather pid).head = k.head := by
  unfold tellFather
  split
  · split
    · exact ⟨sendChild_alike.frame, sendChild_alike.head⟩
    · exact ⟨rfl, rfl⟩
  · exact ⟨rfl, rfl⟩

theorem exit_points (points : k.doExit.Points t) : k.Points t := by
  obtain ⟨k₁, alike, same⟩ := exited_alike (k := k)
  unfold Points at points ⊢
  rw [same, (tellFather_beside _).1, (tellFather_beside _).2] at points
  rw [← alike.frame, ← alike.head]
  exact points

theorem tellFather_task (dead : (k.info k.current).state = .zombie) (pid : BitVec 32) (i : Fin 64) :
    (k.tellFather pid).task i = k.task i ∨
      i ≠ 0 ∧ (k.tellFather pid).task i = none ∧
        ∃ t, k.task i = some t ∧ ((k.tellFather pid).info t).state = .zombie := by
  have released : (k.release k.current).task i = k.task i ∨
      i ≠ 0 ∧ (k.release k.current).task i = none ∧
        ∃ t, k.task i = some t ∧ ((k.release k.current).info t).state = .zombie := by
    unfold release clear
    dsimp only
    split
    · rename_i there
      exact .inr ⟨there.1, rfl, _, there.2, dead⟩
    · exact .inl rfl
  unfold tellFather
  split
  · split
    · exact .inl (congrFun sendChild_alike.task i)
    · exact released
  · exact released

theorem tellFather_calling (pid : BitVec 32) : (k.tellFather pid).calling = true := by
  unfold tellFather
  split
  · split <;> rfl
  · rfl

theorem Turn.exit : Turn k k.doExit := by
  refine ⟨fun i => ?_, fun t points => .inl (exit_points points), fun back => ?_⟩
  · obtain ⟨k₁, alike, same⟩ := exited_alike (k := k)
    rw [same, ← alike.task]
    rcases tellFather_task (k := (k₁.setState k₁.current .zombie).fprintk (k₁.info k₁.current).pid .exit)
      (setState_state _ _) (k₁.info k₁.current).father i with kept | released
    · exact .inl kept
    · exact .inr (.inl released)
  · obtain ⟨k₁, alike, same⟩ := exited_alike (k := k)
    rw [same, tellFather_calling] at back
    cases back

theorem Turn.of_step [DecidableEq Queue] {e : Event Queue} (shape : k.Shape) (step : Step k e k') : Turn k k' := by
  have kept (p : Queue) (t : Task) (is : k.head p = some t) : k.Points t ∨ t = k.current ∧ k.calling = false :=
    .inl (head_points p t is)
  have entered (p : Queue) (back : k.calling = false) (q : Queue) (t : Task)
      (is : Function.update k.head p (some k.current) q = some t) : k.Points t ∨ t = k.current ∧ k.calling = false := by
    rw [Function.update_apply] at is
    split at is
    · exact .inr ⟨(Option.some.inj is).symm, back⟩
    · exact kept q t is
  cases step with
  | pause ready =>
    unfold sysPause
    split
    · exact .sleep k .interruptible .user k.head rfl rfl (fun _ _ => rfl) kept nofun
    · exact ⟨fun i => .inl rfl, fun _ points => .inl points, nofun⟩
  | sleepOn p ready => exact .sleep k .uninterruptible _ _ rfl rfl (fun _ _ => rfl) (entered p ready.1) (head_points p)
  | interruptibleSleepOn p ready other =>
    exact .sleep k .interruptible _ _ rfl rfl (fun _ _ => rfl) (entered p ready.1) (head_points p)
  | wakeUp p =>
    unfold Kernel.wakeUp
    cases is : k.head p with
    | none => exact .alike .refl
    | some t =>
      refine ⟨fun i => .inl rfl, fun u => points_of ?_ (fun u t is => .inr ⟨u, is⟩), fun back => ?_⟩
      · intro q u is
        have was : Function.update k.head p none q = some u := is
        rw [Function.update_apply] at was
        split at was
        · cases was
        · exact kept q u was
      · by_cases same : k.current = t
        · subst same
          exact .inr (.inl (by simp [wake, setState, change, fprintk]))
        · exact .inr (.inr ⟨back, rfl, by simp [wake, setState, change, fprintk, same]⟩)
  | resume back => exact .resume
  | schedule rounds _ calling found => exact .schedule shape found
  | fork rounds memory _ ready found => exact .fork shape found
  | exit ready other => exact .exit
  | waitpid pid nohang untraced ready => exact .sysWaitpid .refl pid nohang untraced
  | timer user mode =>
    unfold doTimer
    dsimp only
    split
    · exact ⟨fun i => .inl rfl, fun _ points => .inl points, fun back => .inr (.inr ⟨back, rfl, by simp [change]⟩)⟩
    · refine ⟨fun i => .inl rfl, fun _ points => .inl points, fun back => .inr (.inr ⟨?_, rfl, by simp [change]⟩)⟩
      exact (Bool.or_eq_false_iff.mp back).1
  | sendSig t sig i there valid => exact .alike (.change rfl rfl)
  | alarm seconds ready => exact .alike (.change rfl rfl)
  | nice increment ready => exact .alike (.change rfl rfl)
  | elsewhere t signal blocked pgrp session leader i there => exact .alike (.change rfl rfl)

/-- The idle task keeps its pid and does not die, and `current` is a task there is. -/
structure Lively (s : Lives) : Prop where
  here : s.current < s.fresh
  alive : s.state initTask ≠ .zombie
  pid : s.pid initTask = 0

theorem Lively.move [DecidableEq Queue] {e : Event Queue} {s : Lives} {m : Move} (lively : Lively s)
    (made : Made k e s m) : Lively (s.apply m) := by
  have set (t : Task) (state : TaskState) (other : state ≠ .zombie) :
      Function.update s.state t state initTask ≠ .zombie := by
    rw [Function.update_apply]
    split
    · exact other
    · exact lively.alive
  have born : initTask ≠ s.fresh := Nat.ne_of_lt (Nat.lt_of_le_of_lt (Nat.zero_le _) lively.here)
  cases made with
  | called => exact ⟨lively.here, set _ _ TaskState.noConfusion, lively.pid⟩
  | slept asleep =>
    refine ⟨lively.here, set _ _ ?_, lively.pid⟩
    rcases asleep with rfl | rfl <;> exact TaskState.noConfusion
  | again => exact ⟨lively.here, set _ _ TaskState.noConfusion, lively.pid⟩
  | dozed => exact ⟨lively.here, set _ _ TaskState.noConfusion, lively.pid⟩
  | signalled => exact ⟨lively.here, set _ _ TaskState.noConfusion, lively.pid⟩
  | switched fresh jiffies current other born => exact ⟨fresh ▸ born, lively.alive, lively.pid⟩
  | forked next =>
    refine ⟨Nat.lt_succ_of_lt lively.here, set _ _ TaskState.noConfusion, ?_⟩
    exact (Function.update_of_ne born _ _).trans lively.pid
  | exited back other =>
    refine ⟨lively.here, ?_, lively.pid⟩
    exact fun dead => lively.alive ((Function.update_of_ne (Ne.symm other) _ _).symm.trans dead)
  | ticked => exact ⟨lively.here, lively.alive, lively.pid⟩

theorem fresh_le [DecidableEq Queue] {e : Event Queue} {s : Lives} {m : Move} (made : Made k e s m) :
    s.fresh ≤ (s.apply m).fresh := by
  cases made with
  | forked next => exact Nat.le_succ _
  | _ => exact Nat.le_refl _

theorem Walks.lively [DecidableEq Queue] {e : Event Queue} {s s' : Lives} (walks : Walks k e s s')
    (lively : Lively s) : Lively s' ∧ s.fresh ≤ s'.fresh := by
  obtain ⟨ms, run⟩ := walks
  apply run.invariant (I := fun t => Lively t ∧ s.fresh ≤ t.fresh)
  · rintro t m _ ⟨lively, older⟩ ⟨made, rfl⟩
    exact ⟨lively.move made, Nat.le_trans older (fresh_le made)⟩
  · exact ⟨lively, Nat.le_refl _⟩

theorem target_points [DecidableEq Queue] {e : Event Queue} (target : k.target e = some t) : k.Points t := by
  unfold Kernel.target at target
  split at target
  · exact head_points _ t target
  · split at target
    · rename_i tmp is
      refine .inr ⟨k.current, ?_⟩
      rw [is]
      exact target
    · rename_i p tmp is
      have saved (same : tmp = some t) : k.Points t := by
        refine .inr ⟨k.current, ?_⟩
        rw [is]
        exact same
      split at target
      · exact saved target
      · rename_i head
        split at target
        · exact head_points p t (head.trans target)
        · exact saved target
    · cases target
  · cases target

theorem Shape.step [DecidableEq Queue] {e : Event Queue} (shape : k.Shape) (step : Step k e k') : k'.Shape := by
  have turn := Turn.of_step shape step
  obtain ⟨lively, older⟩ := (step.walks shape).lively ⟨shape.here, shape.alive, shape.pid⟩
  have fresh (i : Fin 64) : k.task i ≠ some k.fresh := fun there => Nat.lt_irrefl _ (shape.born i _ there)
  have apart (i j : Fin 64) (t : Task) (first : k'.task i = some t) (second : k'.task j = some t)
      (old : k'.task i = k.task i) : i = j := by
    rw [old] at first
    rcases turn.task j with same | ⟨_, gone, _⟩ | ⟨_, _, born, _, _⟩
    · exact shape.apart i j t first (same ▸ second)
    · cases gone.symm.trans second
    · exact absurd (first.trans (second.symm.trans born)) (fresh i)
  refine ⟨?_, fun i t there => ?_, fun i j t first second => ?_, fun t points => ?_, lively.here, fun back => ?_,
    lively.alive, lively.pid⟩
  · rcases turn.task 0 with same | ⟨other, _⟩ | ⟨other, _⟩
    · exact same.trans shape.idle
    · exact absurd rfl other
    · exact absurd rfl other
  · rcases turn.task i with same | ⟨_, gone, _⟩ | ⟨_, _, born, grown, _⟩
    · exact Nat.lt_of_lt_of_le (shape.born i t (same ▸ there)) older
    · cases gone.symm.trans there
    · cases born.symm.trans there
      exact grown
  · rcases turn.task i with same | ⟨_, gone, _⟩ | ⟨_, _, born, _, others⟩
    · exact apart i j t first second same
    · cases gone.symm.trans first
    · by_cases same : j = i
      · exact same.symm
      · exact (apart j i t second first (others j same)).symm
  · rcases turn.points t points with before | ⟨rfl, _⟩
    · exact Nat.lt_of_lt_of_le (shape.points t before) older
    · exact Nat.lt_of_lt_of_le shape.here older
  · rcases turn.active back with idle | running | ⟨before, same, kept⟩
    · exact .inl idle
    · exact .inr running
    · rw [same, kept]
      exact shape.active before

theorem Started.shape (started : k.Started) : k.Shape where
  idle := by simp [started.task]
  born i t there := by
    rw [started.task] at there
    rw [started.fresh]
    split at there <;> cases there
    exact Nat.zero_lt_one
  apart i j t first second := by
    rw [started.task] at first second
    split at first <;> cases first
    split at second <;> cases second
    exact Eq.trans ‹_› (Eq.symm ‹_›)
  points t points := by
    rcases points with ⟨p, is⟩ | ⟨u, is⟩
    · cases (started.head p).symm.trans is
    · rw [started.frame] at is
      cases is
  here := by
    rw [started.current, started.fresh]
    exact Nat.zero_lt_one
  active _ := .inl started.current
  alive := by
    rw [started.idle.2]
    exact TaskState.noConfusion
  pid := started.idle.1

end Cases

end Kernel

end Linux011.LifeCycle

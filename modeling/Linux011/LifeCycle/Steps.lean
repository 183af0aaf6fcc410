import Linux011.LifeCycle.Lives

namespace Linux011.LifeCycle

open Linux011.Library
open Linux011.Sched (TaskState)

variable {Queue : Type}

/-- The task a sleeper will wake when it returns. -/
def Frame.tmp : Frame Queue → Option Task
  | .sleepOn tmp => tmp
  | .interruptibleSleepOn _ tmp => tmp
  | _ => none

namespace Kernel

/-- The scan at the start of `schedule` would make this task runnable. -/
def Due (k : Kernel Queue) (t : Task) : Prop :=
  ((k.info t).checkAlarm k.jiffies).Signalled ∧ (k.info t).state = .interruptible

/-- The process 0 is switched from while it is running, or switched to. -/
def TurnsIdle (k : Kernel Queue) (rounds : Nat) : Prop :=
  ∃ k' i, (others.foldl checkSignals k).select rounds = some (k', i) ∧
    (k.current = initTask ∧ (k.info initTask).state = .running ∧ i ≠ 0 ∨ k.current ≠ initTask ∧ i = 0)

/-- A wait queue or a sleeper's `tmp` holds the task. -/
def Points (k : Kernel Queue) (t : Task) : Prop := (∃ p, k.head p = some t) ∨ ∃ u, (k.frame u).tmp = some t

def target [DecidableEq Queue] (k : Kernel Queue) : Event Queue → Option Task
  | .wakeUp p => k.head p
  | .resume =>
    match k.frame k.current with
    | .sleepOn tmp => tmp
    | .interruptibleSleepOn p tmp =>
      match k.head p with
      | none => tmp
      | some t => if t ≠ k.current then some t else tmp
    | _ => none
  | _ => none

def Waits (k : Kernel Queue) : Event Queue → Prop
  | .sleepOn _ | .waitpid _ _ _ => True
  | .resume => k.frame k.current ≠ .user ∧ ∀ tmp, k.frame k.current ≠ .sleepOn tmp
  | _ => False

/-- Everything that a step does to the lives of the tasks, and when. -/
inductive Made [DecidableEq Queue] (k : Kernel Queue) : Event Queue → Lives → Move → Prop
  | called {e : Event Queue} {t : Task} (target : k.target e = some t) : Made k e k.lives (.wake t)
  | slept {e : Event Queue} {state : TaskState} (asleep : state = .interruptible ∨ state = .uninterruptible)
      (back : k.calling = false) (waits : k.current = initTask → k.Waits e) : Made k e k.lives (.sleep state)
  | again {t : Task} (back : k.calling = false) (other : t ≠ k.current) (waits : k.Waits .resume) :
      Made k .resume (k.lives.apply (.wake t)) (.sleep .interruptible)
  | dozed (back : k.calling = false) (idle : (k.info k.current).pid = 0) : Made k .pause k.lives .doze
  | signalled {rounds : Nat} {s : Lives} {t : Task} (fresh : s.fresh = k.fresh) (current : s.current = k.current)
      (asleep : s.state t = .interruptible) (other : t ≠ initTask) (born : t < k.fresh)
      (due : t = k.current → k.Due t) : Made k (.schedule rounds) s (.wake t)
  | switched {rounds : Nat} {s : Lives} {t : Task} (fresh : s.fresh = k.fresh) (jiffies : s.jiffies = k.jiffies)
      (current : s.current = k.current) (other : t ≠ s.current) (born : t < k.fresh) (running : t ≠ initTask → s.state t = .running)
      (idle : t = initTask ∨ s.current = initTask ∧ s.state initTask = .running → k.TurnsIdle rounds) :
      Made k (.schedule rounds) s (.switch t)
  | forked {rounds : Nat} {pid : BitVec 32} {nr : Fin 64} (found : k.findEmptyProcess rounds = some (pid, some nr)) :
      Made k (.fork rounds true) k.lives (.born pid)
  | exited (back : k.calling = false) (other : k.current ≠ initTask) : Made k .exit k.lives .die
  | ticked {user : Bool} : Made k (.timer user) k.lives .tick

/-- The task table is in order, and `current` runs until it calls `schedule`. -/
structure Shape (k : Kernel Queue) : Prop where
  idle : k.task 0 = some initTask
  born : ∀ i t, k.task i = some t → t < k.fresh
  apart : ∀ i j t, k.task i = some t → k.task j = some t → i = j
  points : ∀ t, k.Points t → t < k.fresh
  here : k.current < k.fresh
  active : k.calling = false → k.current = initTask ∨ (k.info k.current).state = .running
  alive : (k.info initTask).state ≠ .zombie
  pid : (k.info initTask).pid = 0

section Scan

variable {k k' : Kernel Queue} {i : Fin 64} {t : Task}

theorem checkAlarm_twice (p : TaskStruct) (jiffies : Nat) :
    (p.checkAlarm jiffies).checkAlarm jiffies = p.checkAlarm jiffies := by
  unfold TaskStruct.checkAlarm
  by_cases rings : p.alarm ≠ 0 ∧ p.alarm < jiffies
  · simp [rings]
  · simp [rings]

theorem checkAlarm_state (p : TaskStruct) (jiffies : Nat) : (p.checkAlarm jiffies).state = p.state := by
  unfold TaskStruct.checkAlarm
  split <;> rfl

theorem checkAlarm_pid (p : TaskStruct) (jiffies : Nat) : (p.checkAlarm jiffies).pid = p.pid := by
  unfold TaskStruct.checkAlarm
  split <;> rfl

theorem checked_alike : Alike k (k.change t fun p => p.checkAlarm k.jiffies) :=
  .change (checkAlarm_state _ _) (checkAlarm_pid _ _)

theorem checked_due {x : Task} :
    Due (k.change t fun p => p.checkAlarm k.jiffies) x ↔ k.Due x := by
  unfold Due
  rw [checked_alike.state]
  by_cases same : x = t
  · subst same
    simp only [change, Function.update_self]
    rw [checkAlarm_twice]
  · simp only [change, Function.update_of_ne same]

theorem checkSignals_cases (there : k.task i = some t) :
    k.Due t ∧ k.checkSignals i = (k.change t fun p => p.checkAlarm k.jiffies).wake t ∨
      ¬ k.Due t ∧ k.checkSignals i = k.change t fun p => p.checkAlarm k.jiffies := by
  have own : ((k.change t fun p => p.checkAlarm k.jiffies).info t) = (k.info t).checkAlarm k.jiffies :=
    Function.update_self _ _ _
  unfold checkSignals Due
  rw [there]
  dsimp only
  rw [own, checkAlarm_state]
  split
  · exact .inl ⟨‹_›, rfl⟩
  · exact .inr ⟨‹_›, rfl⟩

structure Scanned (k k' : Kernel Queue) : Prop where
  task : k'.task = k.task
  frame : k'.frame = k.frame
  head : k'.head = k.head
  current : k'.current = k.current
  fresh : k'.fresh = k.fresh
  jiffies : k'.jiffies = k.jiffies
  idle : k'.info initTask = k.info initTask
  due : k'.Due k.current → k.Due k.current

theorem Shape.not_idle (shape : k.Shape) (other : i ≠ 0) (there : k.task i = some t) : t ≠ initTask := by
  rintro rfl
  exact other (shape.apart _ _ _ there shape.idle)

theorem others_ne : ∀ i ∈ others, i ≠ 0 := by decide

end Scan

section Cases

variable {k k' : Kernel Queue} {t : Task}

theorem Scanned.refl : Scanned k k := ⟨rfl, rfl, rfl, rfl, rfl, rfl, rfl, id⟩

theorem schedule_cases {rounds : Nat} (found : k.schedule rounds = some k') :
    ∃ k₁ i t, (others.foldl checkSignals k).select rounds = some (k₁, i) ∧ k₁.task i = some t ∧ k' = k₁.dispatch t := by
  unfold schedule at found
  simp only [Option.bind_eq_bind, Option.bind_eq_some_iff, Option.pure_def, Option.some.injEq] at found
  obtain ⟨⟨k₁, i⟩, selected, t, there, same⟩ := found
  exact ⟨k₁, i, t, selected, there, same.symm⟩

theorem sysFork_cases {rounds : Nat} {memory : Bool} (found : k.sysFork rounds memory = some k') :
    ∃ pid, k' = { k with lastPid := pid } ∨ ∃ nr ≠ 0, k.task nr = none ∧ memory = true ∧
      k.findEmptyProcess rounds = some (pid, some nr) ∧ k' = { k with lastPid := pid }.copyProcess nr := by
  unfold sysFork at found
  simp only [Option.bind_eq_bind, Option.bind_eq_some_iff, Option.pure_def, Option.some.injEq] at found
  obtain ⟨⟨pid, nr⟩, slot, same⟩ := found
  refine ⟨pid, ?_⟩
  cases nr with
  | none => exact .inl same.symm
  | some nr =>
    cases memory with
    | false => exact .inl same.symm
    | true =>
      refine .inr ⟨nr, ?_, ?_, rfl, slot, same.symm⟩
      all_goals
        unfold findEmptyProcess at slot
        simp only [Option.bind_eq_bind, Option.bind_eq_some_iff, Option.pure_def, Option.some.injEq, Prod.mk.injEq] at slot
        obtain ⟨_, _, _, free⟩ := slot
      · have apart : ∀ i ∈ slots.tail, i ≠ 0 := by decide
        exact apart nr (List.mem_of_find?_eq_some free)
      · have empty : (k.task nr).isNone = true := List.find?_some (p := fun i => (k.task i).isNone) free
        exact Option.isNone_iff_eq_none.mp empty

theorem lives_leave {tmp : Option Task} :
    (k.leave tmp).lives = match tmp with
      | none => k.lives
      | some t => k.lives.apply (.wake t) := by
  unfold leave
  cases tmp with
  | none => rfl
  | some t => exact lives_wake

theorem setState_father (t u : Task) (state : TaskState) :
    ((k.setState t state).info u).father = (k.info u).father := by
  dsimp only [setState, change]
  rw [Function.update_apply]
  split
  · rename_i same
    rw [same]
  · rfl

theorem setState_state (t : Task) (state : TaskState) : ((k.setState t state).info t).state = state := by
  dsimp only [setState, change]
  rw [Function.update_self]

theorem exited_alike : ∃ k₁, Alike k k₁ ∧
    k.doExit = ((k₁.setState k₁.current .zombie).fprintk (k₁.info k₁.current).pid .exit).tellFather
      (k₁.info k₁.current).father := by
  have first : Alike k (slots.foldl orphan k) := .fold (fun _ _ => orphan_alike) slots
  unfold doExit
  generalize slots.foldl orphan k = k₀ at first
  dsimp only
  split
  · exact ⟨_, first.trans killSession_alike, congrArg _ (setState_father _ _ _)⟩
  · exact ⟨_, first, congrArg _ (setState_father _ _ _)⟩

theorem lives_tellFather {pid : BitVec 32} : (k.tellFather pid).lives = k.lives := by
  unfold tellFather
  split
  · split
    · exact sendChild_alike.lives
    · rfl
  · rfl

theorem lives_doExit : k.doExit.lives = k.lives.apply .die := by
  obtain ⟨k₁, alike, same⟩ := exited_alike (k := k)
  rw [same, lives_tellFather, ← alike.lives]
  have set : ((k₁.setState k₁.current .zombie).fprintk (k₁.info k₁.current).pid .exit).lives =
      { (k₁.setState k₁.current .zombie).lives with log := k₁.log ++ [k₁.lives.line k₁.current .exit] } := rfl
  rw [set, lives_setState]
  rfl

theorem children_zombie (pid : BitVec 32) (untraced : Bool) (is : List (Fin 64)) (flag : Child)
    (earlier : ∀ t, flag = .zombie t → (k.info t).state = .zombie) (t : Task) :
    k.children pid untraced flag is = .zombie t → (k.info t).state = .zombie := by
  induction is generalizing flag with
  | nil => exact earlier t
  | cons i is ih =>
    unfold children
    split
    · exact ih flag earlier
    · split
      · split
        · split
          · exact nofun
          · exact ih flag earlier
        · rename_i dead
          intro same
          cases same
          exact dead
        · exact ih .some nofun
      · exact ih flag earlier

theorem sysWaitpid_cases (pid : BitVec 32) (nohang untraced : Bool) :
    let k' : Kernel Queue := { k with frame := Function.update k.frame k.current .user }
    k.sysWaitpid pid nohang untraced = k' ∨
      (∃ t, (k.info t).state = .zombie ∧ k.sysWaitpid pid nohang untraced = k'.release t) ∨
      k.sysWaitpid pid nohang untraced = k'.sleep .interruptible (.waitpid pid nohang untraced) := by
  intro k'
  unfold sysWaitpid
  dsimp only
  split
  · rename_i t child
    exact .inr (.inl ⟨t, children_zombie (k := k') pid untraced others .none nofun t child, rfl⟩)
  · split
    · exact .inl rfl
    · exact .inr (.inr rfl)
  · exact .inl rfl

end Cases

section Made

variable [DecidableEq Queue] {k k' : Kernel Queue} {e : Event Queue} {t : Task}

def Walks (k : Kernel Queue) (e : Event Queue) (s s' : Lives) : Prop :=
  ∃ ms, (lifeCycle.restrict (Made k e)).Run s ms s'

namespace Walks

theorem none (s : Lives) : Walks k e s s := ⟨[], .nil s⟩

theorem one {s : Lives} {m : Move} (made : Made k e s m) : Walks k e s (s.apply m) := ⟨[m], .one ⟨made, rfl⟩⟩

theorem next {s s' : Lives} {m : Move} (walks : Walks k e s s') (made : Made k e s' m) :
    Walks k e s (s'.apply m) := by
  obtain ⟨ms, run⟩ := walks
  exact ⟨ms ++ [m], run.snoc ⟨made, rfl⟩⟩

end Walks

theorem Scanned.next (shape : k.Shape) (scanned : Scanned k k') {rounds : Nat} {i : Fin 64} (other : i ≠ 0)
    (walks : Walks k (.schedule rounds) k.lives k'.lives) :
    Scanned k (k'.checkSignals i) ∧ Walks k (.schedule rounds) k.lives (k'.checkSignals i).lives := by
  cases there : k'.task i with
  | none =>
    have same : k'.checkSignals i = k' := by
      unfold checkSignals
      rw [there]
    rw [same]
    exact ⟨scanned, walks⟩
  | some t =>
    have here : k.task i = some t := scanned.task ▸ there
    have apart : initTask ≠ t := fun same => shape.not_idle other here same.symm
    have checked : Scanned k (k'.change t fun p => p.checkAlarm k'.jiffies) := by
      refine { scanned with idle := ?_, due := fun due => scanned.due (checked_due.mp due) }
      rw [← scanned.idle]
      exact Function.update_of_ne apart _ _
    have alike : Alike k' (k'.change t fun p => p.checkAlarm k'.jiffies) := checked_alike
    rcases checkSignals_cases there with ⟨due, woken⟩ | ⟨_, same⟩
    · rw [woken, lives_wake, alike.lives]
      refine ⟨{ checked with idle := ?_, due := fun due => checked.due ?_ }, walks.next ?_⟩
      · rw [← checked.idle]
        exact Function.update_of_ne apart _ _
      · by_cases same : k.current = t
        · have running : (((k'.change t fun p => p.checkAlarm k'.jiffies).wake t).info k.current).state = .running := by
            rw [same]
            simp [wake, setState, change, fprintk]
          exact absurd (running.symm.trans due.2) TaskState.noConfusion
        · have kept : ((k'.change t fun p => p.checkAlarm k'.jiffies).wake t).info k.current =
              (k'.change t fun p => p.checkAlarm k'.jiffies).info k.current := Function.update_of_ne same _ _
          have still := due
          unfold Due at still
          rw [kept] at still
          exact still
      · refine .signalled scanned.fresh scanned.current due.2 apart.symm (shape.born i t here) ?_
        rintro rfl
        exact scanned.due due
    · rw [same, alike.lives]
      exact ⟨checked, walks⟩

theorem Shape.scan (shape : k.Shape) (rounds : Nat) :
    Scanned k (others.foldl checkSignals k) ∧
      Walks k (.schedule rounds) k.lives (others.foldl checkSignals k).lives := by
  apply List.foldlRecOn (motive := fun k' : Kernel Queue =>
    Scanned k k' ∧ Walks k (.schedule rounds) k.lives k'.lives) others
  · exact ⟨.refl, .none _⟩
  · intro k' before i member
    exact before.1.next shape (others_ne i member) before.2

theorem sysWaitpid_walks {k₁ : Kernel Queue} (alike : k₁.lives = k.lives) (back : k.calling = false) (waits : k.Waits e)
    {pid : BitVec 32} {nohang untraced : Bool} :
    Walks k e k.lives (k₁.sysWaitpid pid nohang untraced).lives := by
  have idle : Walks k e k.lives k₁.lives := alike.symm ▸ .none _
  rcases sysWaitpid_cases (k := k₁) pid nohang untraced with same | ⟨t, _, same⟩ | same
  · rw [same]
    exact idle
  · rw [same]
    exact idle
  · rw [same, lives_sleep]
    have again : ({ k₁ with frame := Function.update k₁.frame k₁.current .user } : Kernel Queue).lives = k.lives := alike
    rw [again]
    exact .one (.slept (.inl rfl) back fun _ => waits)

theorem Shape.schedule (shape : k.Shape) {rounds : Nat} (found : k.schedule rounds = some k') :
    Walks k (.schedule rounds) k.lives k'.lives := by
  obtain ⟨k₁, i, t, selected, there, rfl⟩ := schedule_cases found
  obtain ⟨scanned, walks⟩ := shape.scan rounds
  obtain ⟨alike, chosen⟩ := select_alike selected
  rw [lives_dispatch, alike.lives]
  split
  · exact walks
  · rename_i other
    have here : k.task i = some t := by
      rw [← scanned.task, ← alike.task]
      exact there
    have idle (first : i = 0) : t = initTask := by
      rw [first, shape.idle] at here
      exact (Option.some.inj here).symm
    have current : k₁.current = k.current := alike.current.trans scanned.current
    apply walks.next
    apply Made.switched scanned.fresh scanned.jiffies scanned.current
    · exact fun same => other (same.trans alike.current.symm)
    · exact shape.born i t here
    · intro apart
      rcases chosen with first | ⟨u, mine, running⟩
      · exact absurd (idle first) apart
      · cases there.symm.trans mine
        exact (alike.state t).symm.trans running
    · intro turn
      refine ⟨k₁, i, selected, ?_⟩
      by_cases first : i = 0
      · refine .inr ⟨?_, first⟩
        rw [← current, ← idle first]
        exact fun same => other same.symm
      · rcases turn with same | ⟨same, running⟩
        · exact absurd same (shape.not_idle first here)
        · refine .inl ⟨scanned.current.symm.trans same, ?_, first⟩
          have kept : (others.foldl checkSignals k).lives.state initTask = (k.info initTask).state :=
            congrArg TaskStruct.state scanned.idle
          exact kept.symm.trans running

theorem interruptibleResume_cases (p : Queue) (tmp : Option Task) :
    (∃ t, t ≠ k.current ∧ k.head p = some t ∧
      k.interruptibleResume p tmp = (k.wake t).sleep .interruptible (.interruptibleSleepOn p tmp)) ∨
      (∀ t, k.head p = some t → t = k.current) ∧
        k.interruptibleResume p tmp = { k with head := Function.update k.head p none }.leave tmp := by
  unfold interruptibleResume
  cases is : k.head p with
  | none =>
    right
    have same : Function.update k.head p none = k.head := by
      rw [← is, Function.update_eq_self]
    exact ⟨nofun, by rw [same]⟩
  | some t =>
    dsimp only
    split
    · rename_i other
      exact .inl ⟨t, other, rfl, rfl⟩
    · rename_i same
      refine .inr ⟨?_, rfl⟩
      rintro _ ⟨⟩
      exact not_not.mp same

theorem leave_walks {k₁ : Kernel Queue} (alike : k₁.lives = k.lives) {tmp : Option Task}
    (target : ∀ t, tmp = some t → k.target e = some t) : Walks k e k.lives (k₁.leave tmp).lives := by
  rw [lives_leave, alike]
  cases tmp with
  | none => exact .none _
  | some t => exact .one (.called (target t rfl))

theorem resume_walks (back : k.calling = false) : Walks k .resume k.lives k.resume.lives := by
  unfold resume
  cases is : k.frame k.current with
  | user => exact .none _
  | sleepOn tmp =>
    apply leave_walks rfl
    rintro t rfl
    unfold target
    rw [is]
  | interruptibleSleepOn p tmp =>
    dsimp only
    rcases interruptibleResume_cases (k := k) p tmp with ⟨t, other, head, same⟩ | ⟨own, same⟩
    · rw [same, lives_sleep, lives_wake]
      have named : k.target .resume = some t := by
        unfold target
        rw [is]
        dsimp only
        rw [head]
        exact if_pos other
      exact (Walks.one (.called named)).next (.again back other ⟨by simp [is], by simp [is]⟩)
    · rw [same]
      have here : ({ k with head := Function.update k.head p none } : Kernel Queue).lives = k.lives := rfl
      apply leave_walks here
      rintro t rfl
      unfold target
      rw [is]
      dsimp only
      cases head : k.head p with
      | none => rfl
      | some h => exact if_neg (not_not.mpr (own h head))
  | waitpid pid nohang untraced =>
    have cleared : Alike k (k.change k.current fun p => { p with signal := p.signal &&& ~~~ bit SIGCHLD }) :=
      .change rfl rfl
    dsimp only
    unfold waitpidResume
    dsimp only
    split
    · have waits : k.Waits .resume := ⟨by simp [is], by simp [is]⟩
      exact sysWaitpid_walks cleared.lives back waits
    · have kept := cleared.lives
      exact kept.symm ▸ .none _

theorem Step.walks (shape : k.Shape) (step : Step k e k') : Walks k e k.lives k'.lives := by
  cases step with
  | pause ready =>
    unfold sysPause
    split
    · rename_i other
      rw [lives_sleep]
      exact .one (.slept (.inl rfl) ready.1 fun idle => absurd (idle ▸ shape.pid) other)
    · rename_i idle
      have set : ({ k.setState k.current .interruptible with calling := true } : Kernel Queue).lives =
          k.lives.apply .doze := lives_setState
      rw [set]
      exact .one (.dozed ready.1 (not_not.mp idle))
  | sleepOn p ready =>
    have set : (k.sleepOn p).lives = k.lives.apply (.sleep .uninterruptible) :=
      lives_sleep _ (.sleepOn (k.head p))
    rw [set]
    exact .one (.slept (.inr rfl) ready.1 fun _ => trivial)
  | interruptibleSleepOn p ready other =>
    have set : (k.interruptibleSleepOn p).lives = k.lives.apply (.sleep .interruptible) :=
      lives_sleep _ (.interruptibleSleepOn p (k.head p))
    rw [set]
    exact .one (.slept (.inl rfl) ready.1 fun idle => absurd idle other)
  | wakeUp p =>
    unfold Kernel.wakeUp
    cases head : k.head p with
    | none => exact .none _
    | some t =>
      have set : ({ k.wake t with head := Function.update k.head p none } : Kernel Queue).lives =
          k.lives.apply (.wake t) := lives_wake
      rw [set]
      exact .one (.called head)
  | resume back => exact resume_walks back
  | schedule rounds _ calling found => exact shape.schedule found
  | fork rounds memory _ ready found =>
    obtain ⟨pid, rfl | ⟨nr, _, _, rfl, slot, rfl⟩⟩ := sysFork_cases found
    · exact .none _
    · rw [lives_copyProcess]
      exact .one (.forked slot)
  | exit ready other =>
    rw [lives_doExit]
    exact .one (.exited ready.1 other)
  | waitpid pid nohang untraced ready =>
    have waits : k.Waits (.waitpid pid nohang untraced) := trivial
    exact sysWaitpid_walks rfl ready.1 waits
  | timer user mode =>
    rw [lives_doTimer]
    exact .one .ticked
  | sendSig t sig i there valid =>
    have alike : Alike k (k.change t fun p => p.send sig) := .change rfl rfl
    exact alike.lives.symm ▸ .none _
  | alarm seconds ready =>
    have alike : Alike k (k.sysAlarm seconds) := .change rfl rfl
    exact alike.lives.symm ▸ .none _
  | nice increment ready =>
    have alike : Alike k (k.sysNice increment) := .change rfl rfl
    exact alike.lives.symm ▸ .none _
  | elsewhere t signal blocked pgrp session leader i there =>
    have alike : Alike k (k.elsewhere t signal blocked pgrp session leader) := .change rfl rfl
    exact alike.lives.symm ▸ .none _

end Made

end Kernel

end Linux011.LifeCycle

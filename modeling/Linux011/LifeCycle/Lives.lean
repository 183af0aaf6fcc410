import Linux011.LifeCycle.Process

namespace Linux011.LifeCycle

open Linux011.Library
open Linux011.Sched (TaskState)

/-- What the log is about: the states of all tasks there have been, and who runs. -/
structure Lives where
  state : Task → TaskState
  pid : Task → BitVec 32
  current : Task
  fresh : Task
  jiffies : Nat
  log : List Line

inductive Move
  | wake (t : Task)
  | sleep (state : TaskState)
  | doze
  | switch (t : Task)
  | born (pid : BitVec 32)
  | die
  | tick

namespace Lives

variable (s : Lives)

def line (t : Task) (m : Mark) : Line := ⟨(s.pid t).toInt, m.letter, s.jiffies⟩

def switching (t : Task) : List Line :=
  (if s.state s.current = .running then [s.line s.current .ready] else []) ++ [s.line t .running]

def apply : Move → Lives
  | .wake t => { s with state := Function.update s.state t .running, log := s.log ++ [s.line t .ready] }
  | .sleep state =>
    { s with state := Function.update s.state s.current state, log := s.log ++ [s.line s.current .waiting] }
  | .doze => { s with state := Function.update s.state s.current .interruptible }
  | .switch t => { s with current := t, log := s.log ++ s.switching t }
  | .born pid =>
    { s with
      state := Function.update s.state s.fresh .running
      pid := Function.update s.pid s.fresh pid
      fresh := s.fresh + 1
      log := s.log ++ [⟨pid.toInt, Mark.new.letter, s.jiffies⟩, ⟨pid.toInt, Mark.ready.letter, s.jiffies⟩] }
  | .die => { s with state := Function.update s.state s.current .zombie, log := s.log ++ [s.line s.current .exit] }
  | .tick => { s with jiffies := s.jiffies + 1 }

end Lives

def lifeCycle : Machine Lives Move where
  init s := s.current = initTask ∧ s.fresh = 1 ∧ s.pid initTask = 0 ∧ s.state initTask = .running ∧ s.log = []
  step s m t := t = s.apply m

variable {Queue : Type}

namespace Kernel

def lives (k : Kernel Queue) : Lives where
  state := TaskStruct.state ∘ k.info
  pid := TaskStruct.pid ∘ k.info
  current := k.current
  fresh := k.fresh
  jiffies := k.jiffies
  log := k.log

variable {k : Kernel Queue} {t : Task}

theorem lives_change {f : TaskStruct → TaskStruct} (state : (f (k.info t)).state = (k.info t).state)
    (pid : (f (k.info t)).pid = (k.info t).pid) : (k.change t f).lives = k.lives := by
  unfold lives change
  simp [Function.comp_update, state, pid]

theorem lives_setState {state : TaskState} :
    (k.setState t state).lives = { k.lives with state := Function.update k.lives.state t state } := by
  unfold lives setState change
  simp [Function.comp_update]

theorem lives_wake : (k.wake t).lives = k.lives.apply (.wake t) := by
  have set : ((k.setState t .running).fprintk (k.info t).pid .ready).lives =
      { (k.setState t .running).lives with log := k.log ++ [k.lives.line t .ready] } := rfl
  rw [wake, set, lives_setState]
  rfl

theorem lives_sleep (state : TaskState) (frame : Frame Queue) :
    (k.sleep state frame).lives = k.lives.apply (.sleep state) := by
  have set : (k.sleep state frame).lives =
      { (k.setState k.current state).lives with log := k.log ++ [k.lives.line k.current .waiting] } := rfl
  rw [set, lives_setState]
  rfl

theorem lives_dispatch : (k.dispatch t).lives = if t = k.current then k.lives else k.lives.apply (.switch t) := by
  unfold dispatch
  split
  · rfl
  · split
    · rename_i running
      have first : k.lives.switching t = [k.lives.line k.current .ready, k.lives.line t .running] := by
        have here : k.lives.state k.lives.current = .running := running
        rw [Lives.switching, if_pos here]
        rfl
      unfold Lives.apply
      simp only [first]
      unfold lives fprintk
      simp [Lives.line]
    · rename_i running
      have first : k.lives.switching t = [k.lives.line t .running] := by
        have here : ¬ k.lives.state k.lives.current = .running := running
        rw [Lives.switching, if_neg here]
        rfl
      unfold Lives.apply
      simp only [first]
      rfl

theorem lives_copyProcess {nr : Fin 64} : (k.copyProcess nr).lives = k.lives.apply (.born k.lastPid) := by
  unfold copyProcess lives fprintk Lives.apply
  simp [Function.comp_update, child]

theorem lives_doTimer {user : Bool} : (k.doTimer user).lives = k.lives.apply .tick := by
  unfold doTimer
  dsimp only
  split
  · exact lives_change (k := { k with jiffies := k.jiffies + 1 }) rfl rfl
  · exact lives_change (k := { k with jiffies := k.jiffies + 1 }) (f := fun p => { p with counter := 0 }) rfl rfl

/-- Nothing has changed but how tasks are related, signalled and timed. -/
structure Alike (k k' : Kernel Queue) : Prop where
  task : k'.task = k.task
  frame : k'.frame = k.frame
  head : k'.head = k.head
  calling : k'.calling = k.calling
  lives : k'.lives = k.lives

namespace Alike

theorem refl : Alike k k := ⟨rfl, rfl, rfl, rfl, rfl⟩

theorem trans {k' k'' : Kernel Queue} (first : Alike k k') (second : Alike k' k'') : Alike k k'' where
  task := second.task.trans first.task
  frame := second.frame.trans first.frame
  head := second.head.trans first.head
  calling := second.calling.trans first.calling
  lives := second.lives.trans first.lives

theorem change {f : TaskStruct → TaskStruct} (state : (f (k.info t)).state = (k.info t).state)
    (pid : (f (k.info t)).pid = (k.info t).pid) : Alike k (k.change t f) :=
  ⟨rfl, rfl, rfl, rfl, lives_change state pid⟩

theorem fold {f : Kernel Queue → Fin 64 → Kernel Queue} (each : ∀ k i, Alike k (f k i)) (is : List (Fin 64)) :
    Alike k (is.foldl f k) := by
  induction is generalizing k with
  | nil => exact refl
  | cons i is ih => exact (each k i).trans ih

theorem current {k' : Kernel Queue} (alike : Alike k k') : k'.current = k.current :=
  congrArg Lives.current alike.lives

theorem fresh {k' : Kernel Queue} (alike : Alike k k') : k'.fresh = k.fresh :=
  congrArg Lives.fresh alike.lives

theorem state {k' : Kernel Queue} (alike : Alike k k') (t : Task) : (k'.info t).state = (k.info t).state :=
  congrFun (congrArg Lives.state alike.lives) t

end Alike

theorem recharge_alike : Alike k k.recharge := by
  apply Alike.fold
  intro k i
  split
  · exact .refl
  · exact .change rfl rfl

theorem sendChild_alike {o : Option Task} : Alike k (k.sendChild o) := by
  unfold sendChild
  split
  · exact .refl
  · exact .change rfl rfl

theorem orphan_alike {i : Fin 64} : Alike k (k.orphan i) := by
  unfold orphan
  split
  · exact .refl
  · split
    · have adopted (t : Task) : Alike k (k.change t fun p => { p with father := 1 }) := .change rfl rfl
      dsimp only
      split
      · exact (adopted _).trans sendChild_alike
      · exact adopted _
    · exact .refl

theorem killSession_alike : Alike k k.killSession := by
  apply Alike.fold
  intro k i
  split
  · exact .refl
  · split
    · exact .change rfl rfl
    · exact .refl

theorem choose_running : k.choose.2 = 0 ∨ ∃ t, k.task k.choose.2 = some t ∧ (k.info t).state = .running := by
  unfold choose
  apply List.foldlRecOn (motive := fun best : BitVec 32 × Fin 64 =>
    best.2 = 0 ∨ ∃ t, k.task best.2 = some t ∧ (k.info t).state = .running) others
  · exact .inl rfl
  · intro best found i _
    split
    · exact found
    · rename_i t there
      split
      · rename_i better
        exact .inr ⟨t, there, better.1⟩
      · exact found

theorem select_alike {rounds : Nat} {k' : Kernel Queue} {i : Fin 64} (selected : k.select rounds = some (k', i)) :
    Alike k k' ∧ (i = 0 ∨ ∃ t, k'.task i = some t ∧ (k'.info t).state = .running) := by
  induction rounds generalizing k with
  | zero => cases selected
  | succ rounds ih =>
    unfold select at selected
    split at selected
    · cases selected
      exact ⟨.refl, choose_running⟩
    · obtain ⟨alike, found⟩ := ih selected
      exact ⟨recharge_alike.trans alike, found⟩

end Kernel

end Linux011.LifeCycle

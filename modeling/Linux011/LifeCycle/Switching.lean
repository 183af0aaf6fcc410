import Linux011.LifeCycle.Table

namespace Linux011.LifeCycle

open Linux011.Library
open Linux011.Sched (TaskState)

variable {Queue : Type}

/-- Which log call `schedule` is in: of a task it has just woken, with the slots still to be scanned, or one of the two
    after its choice. -/
inductive Stage
  | scan (rest : List (Fin 64))
  | expired (next : Fin 64)
  | chosen (next : Fin 64)

def Stage.next : Stage → Option (Fin 64)
  | .scan _ => none
  | .expired next => some next
  | .chosen next => some next

/-- A call of `schedule` inside a log call, and the function it returns to. -/
structure Activation (Queue : Type) where
  frame : Frame Queue
  stage : Stage

/-- The kernel with each task's calls of `schedule` in progress, the innermost first, and what each `switch_to` has
    found in its slot. -/
structure Switching (Queue : Type) where
  kernel : Kernel Queue
  stack : Task → List (Activation Queue)
  switched : List (Fin 64 × Option TaskState)

namespace Kernel

variable (k : Kernel Queue)

instance (t : Task) : Decidable (k.Due t) := inferInstanceAs (Decidable (_ ∧ _))

/-- The scan up to the first task it wakes, and the slots after that. -/
def scanFrom (k : Kernel Queue) : List (Fin 64) → Kernel Queue × Option (List (Fin 64))
  | [] => (k, none)
  | i :: rest =>
    if (k.task i).any fun t => k.Due t then (k.checkSignals i, some rest) else scanFrom (k.checkSignals i) rest

/-- `task[next]->pid`, where a null pointer reads some word. -/
def logNext (next : Fin 64) (stray : BitVec 32) : Kernel Queue :=
  match k.task next with
  | none => k.fprintk stray .running
  | some t => k.fprintk (k.info t).pid .running

def Awaits (pid : BitVec 32) (nohang untraced : Bool) : Prop :=
  ({ k with frame := Function.update k.frame k.current .user } : Kernel Queue).children pid untraced .none others =
    .some ∧ nohang = false

def Sleeps : Event Queue → Prop
  | .pause | .sleepOn _ | .interruptibleSleepOn _ | .exit => True
  | .waitpid pid nohang untraced => k.Awaits pid nohang untraced
  | .resume =>
    match k.frame k.current with
    | .interruptibleSleepOn p _ => ∃ t, k.head p = some t ∧ t ≠ k.current
    | .waitpid pid nohang untraced =>
      let k' := k.change k.current fun p => { p with signal := p.signal &&& ~~~ bit SIGCHLD }
      (k'.info k.current).signal = 0 ∧ k'.Awaits pid nohang untraced
    | _ => False
  | _ => False

def Runs (i : Fin 64) (t : Task) : Prop := k.task i = some t ∧ (k.info t).state = .running

def Born : Prop := ∀ i t, k.task i = some t → t < k.fresh

end Kernel

/-- What may happen while `schedule` logs: `file_write` may wait for a buffer or a disk block, and interrupts come. -/
def Event.inside : Event Queue → Bool
  | .sleepOn _ | .wakeUp _ | .resume | .timer false | .sendSig _ _ => true
  | _ => false

namespace Switching

inductive Event (Queue : Type)
  | schedule (rounds : Nat)
  | logged (rounds : Nat) (stray : BitVec 32)
  | other (e : LifeCycle.Event Queue)

variable (x : Switching Queue)

/-- `current` goes into a log call of `schedule`. -/
def log (k : Kernel Queue) (calls : List (Activation Queue)) (frame : Frame Queue) (stage : Stage) : Switching Queue :=
  { x with
    kernel := { k with frame := Function.update k.frame k.current .user, calling := false }
    stack := Function.update x.stack k.current (⟨frame, stage⟩ :: calls) }

/-- `switch_to(next)`; `schedule` will have returned when `current` runs again. -/
def switchTo (k : Kernel Queue) (calls : List (Activation Queue)) (frame : Frame Queue) (next : Fin 64) :
    Switching Queue where
  kernel := { k with
    frame := Function.update k.frame k.current frame
    calling := false
    current := (k.task next).getD k.current }
  stack := Function.update x.stack k.current calls
  switched := x.switched ++ [(next, (k.task next).map fun t => (k.info t).state)]

/-- `schedule` from the choice on. -/
def proceed (k : Kernel Queue) (calls : List (Activation Queue)) (frame : Frame Queue) (rounds : Nat)
    (stray : BitVec 32) : Option (Switching Queue) := do
  let (k, next) ← k.select rounds
  return if k.task next = some k.current then x.switchTo k calls frame next
    else if (k.info k.current).state = .running then
      x.log (k.fprintk (k.info k.current).pid .ready) calls frame (.expired next)
    else x.log (k.logNext next stray) calls frame (.chosen next)

/-- `schedule` from a slot of the scan on. -/
def scan (k : Kernel Queue) (calls : List (Activation Queue)) (frame : Frame Queue) (rounds : Nat)
    (stray : BitVec 32) (is : List (Fin 64)) : Option (Switching Queue) :=
  match k.scanFrom is with
  | (k, some rest) => some (x.log k calls frame (.scan rest))
  | (k, none) => x.proceed k calls frame rounds stray

/-- `schedule` from its call, or from the return of a log call, to the next log call or to its end. -/
def advance (a : Activation Queue) (calls : List (Activation Queue)) (rounds : Nat) (stray : BitVec 32) :
    Option (Switching Queue) :=
  match a.stage with
  | .scan rest => x.scan x.kernel calls a.frame rounds stray rest
  | .expired next => some (x.log (x.kernel.logNext next stray) calls a.frame (.chosen next))
  | .chosen next => some (x.switchTo x.kernel calls a.frame next)

inductive Step [DecidableEq Queue] (x : Switching Queue) : Event Queue → Switching Queue → Prop
  | schedule (rounds : Nat) (x' : Switching Queue) (calling : x.kernel.calling = true)
      (done : x.scan x.kernel (x.stack x.kernel.current) (x.kernel.frame x.kernel.current) rounds 0 others = some x') :
      Step x (.schedule rounds) x'
  | logged (a : Activation Queue) (calls : List (Activation Queue)) (rounds : Nat) (stray : BitVec 32)
      (x' : Switching Queue) (ready : x.kernel.Ready) (top : x.stack x.kernel.current = a :: calls)
      (done : x.advance a calls rounds stray = some x') : Step x (.logged rounds stray) x'
  | other (e : LifeCycle.Event Queue) (k : Kernel Queue) (step : Kernel.Step x.kernel e k)
      (outside : ∀ rounds, e ≠ .schedule rounds) (calls : x.stack x.kernel.current = [] ∨ e.inside = true) :
      Step x (.other e) { x with kernel := k }

/-- The step an event makes, where it makes one. -/
def perform [DecidableEq Queue] (x : Switching Queue) : Event Queue → Option (Switching Queue)
  | .schedule rounds =>
    if x.kernel.calling = true then
      x.scan x.kernel (x.stack x.kernel.current) (x.kernel.frame x.kernel.current) rounds 0 others
    else none
  | .logged rounds stray =>
    match x.stack x.kernel.current with
    | [] => none
    | a :: calls => if x.kernel.Ready then x.advance a calls rounds stray else none
  | .other (.schedule _) => none
  | .other e =>
    if (x.stack x.kernel.current).isEmpty || e.inside then
      (x.kernel.perform e).map fun k => { x with kernel := k }
    else none

theorem perform_step [DecidableEq Queue] {x x' : Switching Queue} {e : Event Queue} (done : x.perform e = some x') :
    Step x e x' := by
  unfold perform at done
  split at done
  · rename_i rounds
    obtain ⟨calling, done⟩ := Option.ite_none_right_eq_some.mp done
    exact .schedule rounds x' calling done
  · rename_i rounds stray
    split at done
    · cases done
    · rename_i a calls top
      obtain ⟨ready, done⟩ := Option.ite_none_right_eq_some.mp done
      exact .logged a calls rounds stray x' ready top done
  · cases done
  · rename_i e outside
    obtain ⟨calls, done⟩ := Option.ite_none_right_eq_some.mp done
    obtain ⟨k, performed, same⟩ := Option.map_eq_some_iff.mp done
    cases same
    refine .other e k (Kernel.perform_step performed) (fun rounds same => outside rounds (same ▸ rfl)) ?_
    rw [Bool.or_eq_true, List.isEmpty_iff] at calls
    exact calls

def machine (Queue : Type) [DecidableEq Queue] : Machine (Switching Queue) (Event Queue) where
  init x := x.kernel.Started ∧ (∀ t, x.stack t = []) ∧ x.switched = []
  step := Step

/-- Some call of `schedule` has chosen the task and logs. -/
def Chosen (t : Task) : Prop :=
  ∃ u, ∃ a ∈ x.stack u, ∃ i ≠ 0, a.stage.next = some i ∧ x.kernel.task i = some t

/-- No task that has been chosen goes to sleep or dies before the `switch_to`. -/
def Steady : Event Queue → Prop
  | .other e => x.kernel.Sleeps e → ¬ x.Chosen x.kernel.current
  | _ => True

end Switching

namespace Kernel

/-- The tasks that can run stay as they are, but for `current` where it goes to sleep. -/
structure Awake (k k' : Kernel Queue) (asleep : Prop) : Prop where
  born : k.Born → k'.Born
  runs : k.Born → ∀ i t, k.Runs i t → (asleep → t ≠ k.current) → k'.Runs i t

variable {k k' k₁ : Kernel Queue} {asleep : Prop}

namespace Awake

theorem of_states (fresh : k'.fresh = k.fresh)
    (task : ∀ i, k'.task i = k.task i ∨ k'.task i = none ∧ ∃ t, k.task i = some t ∧ (k'.info t).state = .zombie)
    (state : ∀ t, (k'.info t).state = (k.info t).state ∨ (k'.info t).state = .running ∨ t = k.current ∧ asleep) :
    Awake k k' asleep where
  born born i t there := by
    rw [fresh]
    rcases task i with same | ⟨gone, _⟩
    · exact born i t (same ▸ there)
    · cases gone.symm.trans there
  runs _ i t runs awake := by
    have running : (k'.info t).state = .running := by
      rcases state t with same | running | ⟨here, sleeps⟩
      · exact same.trans runs.2
      · exact running
      · exact absurd here (awake sleeps)
    refine ⟨?_, running⟩
    rcases task i with same | ⟨_, u, there, dead⟩
    · exact same.trans runs.1
    · cases there.symm.trans runs.1
      cases dead.symm.trans running

theorem trans (first : Awake k k₁ asleep) (second : Awake k₁ k' asleep) (current : k₁.current = k.current) :
    Awake k k' asleep where
  born born := second.born (first.born born)
  runs born i t runs awake := second.runs (first.born born) i t (first.runs born i t runs awake) (current ▸ awake)

theorem alike (alike : Alike k k') : Awake k k' asleep := by
  apply of_states alike.fresh
  · exact fun i => .inl (congrFun alike.task i)
  · exact fun t => .inl (alike.state t)

theorem wake (t : Task) (head : Queue → Option Task) (frame : Task → Frame Queue) :
    Awake k { k.wake t with head := head, frame := frame } asleep := by
  apply of_states
  · rfl
  · exact fun i => .inl rfl
  · intro u
    have set : ({ k.wake t with head := head, frame := frame } : Kernel Queue).info u =
      Function.update k.info t { k.info t with state := .running } u := rfl
    rw [set, Function.update_apply]
    split
    · exact .inr (.inl rfl)
    · exact .inl rfl

theorem set (state : TaskState) (sleeps : asleep) : Awake k (k.setState k.current state) asleep := by
  apply of_states
  · rfl
  · exact fun i => .inl rfl
  · intro u
    have set : (k.setState k.current state).info u =
      Function.update k.info k.current { k.info k.current with state := state } u := rfl
    rw [set, Function.update_apply]
    split
    · exact .inr (.inr ⟨‹_›, sleeps⟩)
    · exact .inl rfl

theorem beside {k₂ : Kernel Queue} (awake : Awake k k₁ asleep) (task : k₂.task = k₁.task) (info : k₂.info = k₁.info)
    (fresh : k₂.fresh = k₁.fresh) : Awake k k₂ asleep where
  born born i t there := fresh ▸ awake.born born i t (task ▸ there)
  runs born i t runs sleeps := by
    unfold Runs
    rw [task, info]
    exact awake.runs born i t runs sleeps

theorem refl : Awake k k asleep := alike .refl

theorem leave (head : Queue → Option Task) (tmp : Option Task) :
    Awake k ({ k with head := head }.leave tmp) asleep := by
  cases tmp with
  | none => exact refl.beside rfl rfl rfl
  | some t => exact wake t head _

theorem sleep (state : TaskState) (frame : Frame Queue) (sleeps : asleep) : Awake k (k.sleep state frame) asleep :=
  (set state sleeps).beside rfl rfl rfl

theorem release {t : Task} (dead : (k.info t).state = .zombie) : Awake k (k.release t) asleep := by
  apply of_states
  · rfl
  · intro i
    unfold Kernel.release clear
    dsimp only
    split
    · rename_i there
      exact .inr ⟨rfl, t, there.2, dead⟩
    · exact .inl rfl
  · exact fun t => .inl rfl

theorem sysWaitpid (pid : BitVec 32) (nohang untraced : Bool) (sleeps : k.Awaits pid nohang untraced → asleep) :
    Awake k (k.sysWaitpid pid nohang untraced) asleep := by
  have start : Awake k { k with frame := Function.update k.frame k.current .user } asleep := refl.beside rfl rfl rfl
  unfold Kernel.sysWaitpid
  dsimp only
  split
  · rename_i t child
    have dead := children_zombie (k := { k with frame := Function.update k.frame k.current .user }) pid untraced others
      .none nofun t child
    exact start.trans (release dead) rfl
  · rename_i child
    split
    · exact start
    · rename_i hang
      exact start.trans (sleep _ _ (sleeps ⟨child, Bool.eq_false_iff.mpr hang⟩)) rfl
  · exact start

theorem tellFather (dead : (k.info k.current).state = .zombie) (pid : BitVec 32) :
    Awake k (k.tellFather pid) asleep := by
  unfold Kernel.tellFather
  split
  · split
    · exact (alike sendChild_alike).beside rfl rfl rfl
    · exact release dead
  · exact release dead

theorem doExit (sleeps : asleep) : Awake k k.doExit asleep := by
  obtain ⟨k₁, same, exited⟩ := exited_alike (k := k)
  rw [exited]
  have died : Awake k₁ ((k₁.setState k₁.current .zombie).fprintk (k₁.info k₁.current).pid .exit) asleep :=
    (set .zombie sleeps).beside rfl rfl rfl
  have dead : (((k₁.setState k₁.current .zombie).fprintk (k₁.info k₁.current).pid .exit).info k₁.current).state =
      .zombie := setState_state _ _
  exact ((alike same).trans died same.current).trans (tellFather dead _) same.current

theorem sysFork {rounds : Nat} {memory : Bool} (found : k.sysFork rounds memory = some k') : Awake k k' asleep := by
  obtain ⟨pid, rfl | ⟨nr, _, free, _, _, rfl⟩⟩ := sysFork_cases found
  · exact refl.beside rfl rfl rfl
  · constructor
    · intro born i t there
      have there : Function.update k.task nr (some k.fresh) i = some t := there
      rw [Function.update_apply] at there
      split at there
      · cases there
        exact Nat.lt_succ_self _
      · exact Nat.lt_succ_of_lt (born i t there)
    · intro born i t runs _
      have apart : i ≠ nr := by
        rintro rfl
        cases free.symm.trans runs.1
      have old : t ≠ k.fresh := Nat.ne_of_lt (born i t runs.1)
      constructor
      · exact (Function.update_of_ne apart _ _).trans runs.1
      · exact (congrArg TaskStruct.state (Function.update_of_ne old _ _)).trans runs.2

theorem scanned (i : Fin 64) : Awake k (k.checkSignals i) False := by
  cases there : k.task i with
  | none =>
    unfold checkSignals
    rw [there]
    exact refl
  | some t =>
    rcases checkSignals_cases there with ⟨_, same⟩ | ⟨_, same⟩
    · rw [same]
      exact (alike checked_alike).trans (wake t k.head k.frame) rfl
    · rw [same]
      exact alike checked_alike

variable [DecidableEq Queue]

theorem resume : Awake k k.resume (k.Sleeps .resume) := by
  unfold Kernel.resume Sleeps
  cases is : k.frame k.current with
  | user => exact refl
  | sleepOn tmp => exact leave k.head tmp
  | interruptibleSleepOn p tmp =>
    dsimp only
    rcases interruptibleResume_cases (k := k) p tmp with ⟨t, other, head, same⟩ | ⟨own, same⟩
    · rw [same]
      exact (wake t k.head k.frame).trans (sleep _ _ ⟨t, head, other⟩) rfl
    · rw [same]
      exact leave _ tmp
  | waitpid pid nohang untraced =>
    have cleared : Alike k (k.change k.current fun p => { p with signal := p.signal &&& ~~~ bit SIGCHLD }) :=
      .change rfl rfl
    dsimp only
    unfold waitpidResume
    dsimp only
    split
    · rename_i none
      exact (alike cleared).trans (sysWaitpid pid nohang untraced fun awaits => ⟨none, awaits⟩) rfl
    · exact (alike cleared).beside rfl rfl rfl

theorem step {e : Event Queue} (step : Step k e k') (outside : ∀ rounds, e ≠ .schedule rounds) :
    Awake k k' (k.Sleeps e) := by
  cases step with
  | pause ready =>
    unfold sysPause
    split
    · exact sleep _ _ trivial
    · exact (set _ trivial).beside rfl rfl rfl
  | sleepOn p ready =>
    have slept : Awake k (k.sleep .uninterruptible (.sleepOn (k.head p))) True := sleep _ _ trivial
    exact slept.beside rfl rfl rfl
  | interruptibleSleepOn p ready other =>
    have slept : Awake k (k.sleep .interruptible (.interruptibleSleepOn p (k.head p))) True := sleep _ _ trivial
    exact slept.beside rfl rfl rfl
  | wakeUp p =>
    unfold Kernel.wakeUp
    cases k.head p with
    | none => exact refl
    | some t => exact wake t _ k.frame
  | resume back => exact resume
  | schedule rounds _ calling found => exact absurd rfl (outside rounds)
  | fork rounds memory _ ready found => exact sysFork found
  | exit ready other => exact doExit trivial
  | waitpid pid nohang untraced ready => exact sysWaitpid pid nohang untraced id
  | timer user mode =>
    apply of_states
    · exact congrArg Lives.fresh lives_doTimer
    · intro i
      unfold doTimer
      dsimp only
      split <;> exact .inl rfl
    · exact fun t => .inl (congrFun (congrArg Lives.state lives_doTimer) t)
  | sendSig t sig i there valid => exact alike (.change rfl rfl)
  | alarm seconds ready => exact alike (.change rfl rfl)
  | nice increment ready => exact alike (.change rfl rfl)
  | elsewhere t signal blocked pgrp session leader i there => exact alike (.change rfl rfl)

end Awake

theorem scanFrom_awake (is : List (Fin 64)) : Awake k (k.scanFrom is).1 False ∧ (k.scanFrom is).1.current = k.current := by
  induction is generalizing k with
  | nil => exact ⟨.refl, rfl⟩
  | cons i is ih =>
    have current : (k.checkSignals i).current = k.current := by
      cases there : k.task i with
      | none =>
        unfold checkSignals
        rw [there]
      | some t => rcases checkSignals_cases there with ⟨_, same⟩ | ⟨_, same⟩ <;> rw [same] <;> rfl
    unfold scanFrom
    split
    · exact ⟨.scanned i, current⟩
    · exact ⟨(Awake.scanned i).trans ih.1 current, ih.2.trans current⟩

end Kernel

namespace Switching

open Kernel

/-- What has been chosen can run, and so could what has been switched to. -/
structure Sure (x : Switching Queue) : Prop where
  born : x.kernel.Born
  next : ∀ u, ∀ a ∈ x.stack u, ∀ i, a.stage.next = some i → i = 0 ∨ ∃ t, x.kernel.Runs i t
  switched : ∀ s ∈ x.switched, s.1 = 0 ∨ s.2 = some .running

variable {x x' : Switching Queue} {k : Kernel Queue} {calls : List (Activation Queue)} {frame : Frame Queue}

theorem Sure.kernel {asleep : Prop} (sure : Sure x) (awake : Awake x.kernel k asleep)
    (kept : asleep → ¬ x.Chosen x.kernel.current) : Sure { x with kernel := k } where
  born := awake.born sure.born
  next u a member i next := by
    by_cases idle : i = 0
    · exact .inl idle
    · rcases sure.next u a member i next with first | ⟨t, runs⟩
      · exact .inl first
      · refine .inr ⟨t, awake.runs sure.born i t runs fun sleeps same => kept sleeps ?_⟩
        exact ⟨u, a, member, i, idle, next, same ▸ runs.1⟩
  switched := sure.switched

theorem Sure.log (sure : Sure { x with kernel := k }) (outer : ∀ a ∈ calls, ∃ u, a ∈ x.stack u) (stage : Stage)
    (chosen : ∀ i, stage.next = some i → i = 0 ∨ ∃ t, k.Runs i t) : Sure (x.log k calls frame stage) where
  born := sure.born
  next u a member i next := by
    have member : a ∈ Function.update x.stack k.current (⟨frame, stage⟩ :: calls) u := member
    rw [Function.update_apply] at member
    split at member
    · rcases List.mem_cons.mp member with rfl | member
      · exact chosen i next
      · obtain ⟨u, earlier⟩ := outer a member
        exact sure.next u a earlier i next
    · exact sure.next u a member i next
  switched := sure.switched

theorem Sure.switchTo (sure : Sure { x with kernel := k }) (outer : ∀ a ∈ calls, ∃ u, a ∈ x.stack u) {next : Fin 64}
    (chosen : next = 0 ∨ ∃ t, k.Runs next t) : Sure (x.switchTo k calls frame next) where
  born := sure.born
  next u a member i chosen := by
    have member : a ∈ Function.update x.stack k.current calls u := member
    rw [Function.update_apply] at member
    split at member
    · obtain ⟨u, earlier⟩ := outer a member
      exact sure.next u a earlier i chosen
    · exact sure.next u a member i chosen
  switched s member := by
    rcases List.mem_append.mp member with before | last
    · exact sure.switched s before
    · rw [List.mem_singleton.mp last]
      rcases chosen with idle | ⟨t, there, running⟩
      · exact .inl idle
      · right
        show (k.task next).map _ = _
        rw [there]
        exact congrArg some running

theorem logNext_beside (next : Fin 64) (stray : BitVec 32) :
    (k.logNext next stray).task = k.task ∧ (k.logNext next stray).info = k.info ∧
      (k.logNext next stray).fresh = k.fresh := by
  unfold logNext
  split <;> exact ⟨rfl, rfl, rfl⟩

theorem Sure.logNext (sure : Sure { x with kernel := k }) (outer : ∀ a ∈ calls, ∃ u, a ∈ x.stack u) {next : Fin 64}
    (stray : BitVec 32) (chosen : next = 0 ∨ ∃ t, k.Runs next t) :
    Sure (x.log (k.logNext next stray) calls frame (.chosen next)) := by
  obtain ⟨task, info, fresh⟩ := logNext_beside (k := k) next stray
  have beside : Awake k (k.logNext next stray) False := Awake.refl.beside task info fresh
  have kept : Sure { x with kernel := k.logNext next stray } := sure.kernel beside False.elim
  apply kept.log outer
  intro i same
  cases same
  unfold Runs
  rw [task, info]
  exact chosen

theorem Sure.proceed (sure : Sure { x with kernel := k }) (outer : ∀ a ∈ calls, ∃ u, a ∈ x.stack u) {rounds : Nat}
    {stray : BitVec 32} (done : x.proceed k calls frame rounds stray = some x') : Sure x' := by
  obtain ⟨⟨k₁, next⟩, selected, same⟩ := Option.bind_eq_some_iff.mp done
  obtain ⟨alike, chosen⟩ := select_alike selected
  have awake : Awake k k₁ False := .alike alike
  have kept : Sure { x with kernel := k₁ } := sure.kernel awake False.elim
  cases same
  split
  · exact kept.switchTo outer chosen
  · split
    · have kept : Sure { x with kernel := k₁.fprintk (k₁.info k₁.current).pid .ready } := ⟨kept.born, kept.next, kept.switched⟩
      apply kept.log outer
      intro i same
      cases same
      exact chosen
    · exact kept.logNext outer stray chosen

theorem Sure.scan (sure : Sure { x with kernel := k }) (outer : ∀ a ∈ calls, ∃ u, a ∈ x.stack u) {rounds : Nat}
    {stray : BitVec 32} {is : List (Fin 64)} (done : x.scan k calls frame rounds stray is = some x') : Sure x' := by
  have kept : Sure { x with kernel := (k.scanFrom is).1 } := sure.kernel (scanFrom_awake is).1 False.elim
  unfold Switching.scan at done
  split at done
  · rename_i k₁ rest scanned
    rw [scanned] at kept
    cases done
    exact kept.log outer _ nofun
  · rename_i k₁ scanned
    rw [scanned] at kept
    exact kept.proceed outer done

theorem Sure.advance (sure : Sure x) {a : Activation Queue} {rounds : Nat} {stray : BitVec 32}
    (top : x.stack x.kernel.current = a :: calls) (done : x.advance a calls rounds stray = some x') : Sure x' := by
  have outer (b : Activation Queue) (member : b ∈ calls) : ∃ u, b ∈ x.stack u :=
    ⟨x.kernel.current, top ▸ List.mem_cons_of_mem _ member⟩
  have chosen (i : Fin 64) (next : a.stage.next = some i) : i = 0 ∨ ∃ t, x.kernel.Runs i t :=
    sure.next x.kernel.current a (top ▸ List.mem_cons_self) i next
  unfold Switching.advance at done
  cases stage : a.stage with
  | scan rest =>
    rw [stage] at done
    exact Sure.scan sure outer done
  | expired next =>
    rw [stage] at done
    cases done
    exact Sure.logNext sure outer stray (chosen next (congrArg Stage.next stage))
  | chosen next =>
    rw [stage] at done
    cases done
    exact Sure.switchTo sure outer (chosen next (congrArg Stage.next stage))

variable [DecidableEq Queue]

theorem Sure.step {e : Event Queue} (sure : Sure x) (steady : x.Steady e) (step : Step x e x') : Sure x' := by
  cases step with
  | schedule rounds _ calling done => exact Sure.scan sure (fun a member => ⟨_, member⟩) done
  | logged a calls rounds stray _ ready top done => exact sure.advance top done
  | other e k step outside calls => exact sure.kernel (Awake.step step outside) steady

/-- Where no task sleeps or dies between its choice and the `switch_to`, `schedule` switches to tasks that can run. -/
theorem switches_to_running (reached : ((machine Queue).restrict Steady).Reaches x) :
    ∀ s ∈ x.switched, s.1 = 0 ∨ s.2 = some .running := by
  have sure : Sure x := by
    apply reached.invariant
    · rintro x ⟨started, none, nothing⟩
      constructor
      · exact started.shape.born
      · intro u a member
        rw [none] at member
        cases member
      · intro s member
        rw [nothing] at member
        cases member
    · exact fun _ _ _ sure step => sure.step step.1 step.2
  exact sure.switched

def start : Switching (Fin 3) := ⟨opened (Fin 3), fun _ => [], []⟩

theorem start_init : (machine (Fin 3)).init start := ⟨opened_started (Fin 3), fun _ => rfl, rfl⟩

/-- `INIT_TASK` forks task 1 and gives way to it. -/
theorem switches_to_child : ∃ x, ((machine (Fin 3)).restrict Steady).Reaches x ∧ x.switched = [(1, some .running)] ∧
    ∀ s ∈ x.switched, s.1 = 0 ∨ s.2 = some .running := by
  have next {x x' : Switching (Fin 3)} {e : Event (Fin 3)} (reached : ((machine (Fin 3)).restrict Steady).Reaches x)
      (steady : x.Steady e) (done : x.perform e = some x') : ((machine (Fin 3)).restrict Steady).Reaches x' :=
    reached.step ⟨steady, perform_step done⟩
  have started : ((machine (Fin 3)).restrict Steady).Reaches start := ⟨start, [], start_init, .nil _⟩
  have forked := next (e := .other (.fork 1 true)) started nofun rfl
  have paused := next (e := .other .pause) forked (fun _ ⟨_, _, member, _⟩ => nomatch member) rfl
  have chosen := next (e := .schedule 1) paused trivial rfl
  have ends := next (e := .logged 1 0) chosen trivial rfl
  exact ⟨_, ends, by decide +kernel, switches_to_running ends⟩

/-- While task 1 waits for a buffer in the last log call of `schedule`, task 2, which it has chosen, goes to sleep. -/
theorem switches_to_sleeper : ∃ x, (machine (Fin 3)).Reaches x ∧
    ¬ ∀ s ∈ x.switched, s.1 = 0 ∨ s.2 = some .running := by
  have ran : (([.other (.fork 1 true), .other .pause, .schedule 1, .logged 1 0, .other (.fork 1 true),
      .other (.sleepOn 0), .schedule 1, .other (.sleepOn 1), .schedule 1, .logged 1 0, .other (.wakeUp 1),
      .other (.sleepOn 2), .schedule 1, .logged 1 0, .other .resume, .logged 1 0].foldlM perform start).any fun x =>
        x.switched.any fun s => s.1 ≠ 0 ∧ s.2 ≠ some .running) = true := by decide +kernel
  obtain ⟨x, ends, stale⟩ := (Option.any_eq_true _ _).mp ran
  obtain ⟨s, member, other⟩ := List.any_eq_true.mp stale
  obtain ⟨slot, state⟩ := of_decide_eq_true other
  have run := Machine.run_of_foldlM (m := machine (Fin 3)) (fun _ _ _ => perform_step) ends
  exact ⟨x, ⟨start, _, start_init, run⟩, fun runs => (runs s member).elim slot state⟩

end Switching

end Linux011.LifeCycle

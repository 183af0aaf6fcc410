import Linux011.Library.Machine
import Linux011.Library.Numerals
import Linux011.LifeCycle.StatLog
import Linux011.Sched.WaitQueue

namespace Linux011.LifeCycle

open Linux011.Library
open Linux011.Sched (TaskState)

/-- Which task structure; a page freed and taken again is another one. -/
abbrev Task := Nat

/-- The task in the kernel's own `init_task`. -/
def initTask : Task := 0

structure TaskStruct where
  state : TaskState
  counter : BitVec 32
  priority : BitVec 32
  signal : BitVec 32
  blocked : BitVec 32
  alarm : Nat
  pid : BitVec 32
  father : BitVec 32
  pgrp : BitVec 32
  session : BitVec 32
  leader : Bool

def HZ : Nat := 100
def SIGHUP : Nat := 1
def SIGKILL : Nat := 9
def SIGALRM : Nat := 14
def SIGCHLD : Nat := 17
def SIGSTOP : Nat := 19

def bit (sig : Nat) : BitVec 32 := 1#32 <<< (sig - 1)

def blockable : BitVec 32 := ~~~ (bit SIGKILL ||| bit SIGSTOP)

/-- Where a task goes on when `schedule` returns to it: at the end of its system call or of the timer interrupt, or
    inside a function with more to do. -/
inductive Frame (Queue : Type)
  | user
  | sleepOn (tmp : Option Task)
  | interruptibleSleepOn (p : Queue) (tmp : Option Task)
  | waitpid (pid : BitVec 32) (nohang untraced : Bool)
  deriving DecidableEq

/-- `calling` is set while `current` is on its way into `schedule`. -/
structure Kernel (Queue : Type) where
  task : Fin 64 → Option Task
  info : Task → TaskStruct
  frame : Task → Frame Queue
  head : Queue → Option Task
  current : Task
  calling : Bool
  fresh : Task
  lastPid : BitVec 32
  jiffies : Nat
  log : List Line

/-- `FIRST_TASK` to `LAST_TASK`. -/
def slots : List (Fin 64) := List.finRange 64

/-- The loops from `LAST_TASK` down that leave `FIRST_TASK` out. -/
def others : List (Fin 64) := (List.finRange 64).tail.reverse

namespace TaskStruct

variable (p : TaskStruct)

def send (sig : Nat) : TaskStruct := { p with signal := p.signal ||| bit sig }

def checkAlarm (jiffies : Nat) : TaskStruct :=
  if p.alarm ≠ 0 ∧ p.alarm < jiffies then { p.send SIGALRM with alarm := 0 } else p

def Signalled : Prop := p.signal &&& ~~~ (blockable &&& p.blocked) ≠ 0

instance : Decidable p.Signalled := inferInstanceAs (Decidable (_ ≠ _))

def recharge : TaskStruct := { p with counter := p.counter.sshiftRight 1 + p.priority }

end TaskStruct

variable {Queue : Type}

namespace Kernel

variable (k : Kernel Queue)

def change (t : Task) (f : TaskStruct → TaskStruct) : Kernel Queue :=
  { k with info := Function.update k.info t (f (k.info t)) }

def setState (t : Task) (state : TaskState) : Kernel Queue := k.change t fun p => { p with state := state }

/-- `fprintk(3, "%ld\t%c\t%ld\n", pid, m, jiffies)`. -/
def fprintk (pid : BitVec 32) (m : Mark) : Kernel Queue :=
  { k with log := k.log ++ [⟨pid.toInt, m.letter, k.jiffies⟩] }

def wake (t : Task) : Kernel Queue := (k.setState t .running).fprintk (k.info t).pid .ready

/-- `current` goes to sleep, and the next thing it does is to call `schedule`. -/
def sleep (state : TaskState) (frame : Frame Queue) : Kernel Queue :=
  { (k.setState k.current state).fprintk (k.info k.current).pid .waiting with
    frame := Function.update k.frame k.current frame, calling := true }

section Schedule

def checkSignals (i : Fin 64) : Kernel Queue :=
  match k.task i with
  | none => k
  | some t =>
    let k := k.change t fun p => p.checkAlarm k.jiffies
    if (k.info t).Signalled ∧ (k.info t).state = .interruptible then k.wake t else k

/-- The largest counter of a running task, and its slot. -/
def choose : BitVec 32 × Fin 64 :=
  others.foldl (fun best i =>
    match k.task i with
    | none => best
    | some t =>
      if (k.info t).state = .running ∧ best.1.slt (k.info t).counter then ((k.info t).counter, i) else best)
    (-1, 0)

def recharge : Kernel Queue :=
  others.foldl (fun k i =>
    match k.task i with
    | none => k
    | some t => k.change t TaskStruct.recharge) k

/-- `while (1)`, for a number of rounds. -/
def select (k : Kernel Queue) : Nat → Option (Kernel Queue × Fin 64)
  | 0 => none
  | rounds + 1 => if k.choose.1 ≠ 0 then some (k, k.choose.2) else select k.recharge rounds

/-- The last lines of `schedule`, with `switch_to`. -/
def dispatch (next : Task) : Kernel Queue :=
  if next = k.current then { k with calling := false }
  else
    let k' := if (k.info k.current).state = .running then k.fprintk (k.info k.current).pid .ready else k
    { k'.fprintk (k'.info next).pid .running with current := next, calling := false }

def schedule (rounds : Nat) : Option (Kernel Queue) := do
  let (k, next) ← (others.foldl checkSignals k).select rounds
  let t ← k.task next
  return k.dispatch t

end Schedule

def sysPause : Kernel Queue :=
  if (k.info k.current).pid ≠ 0 then k.sleep .interruptible .user
  else { k.setState k.current .interruptible with calling := true }

section Sleep

variable [DecidableEq Queue]

def sleepOn (p : Queue) : Kernel Queue :=
  { k.sleep .uninterruptible (.sleepOn (k.head p)) with head := Function.update k.head p (some k.current) }

def interruptibleSleepOn (p : Queue) : Kernel Queue :=
  { k.sleep .interruptible (.interruptibleSleepOn p (k.head p)) with
    head := Function.update k.head p (some k.current) }

def wakeUp (p : Queue) : Kernel Queue :=
  match k.head p with
  | none => k
  | some t => { k.wake t with head := Function.update k.head p none }

/-- `if (tmp) ...` and the return to the caller. -/
def leave (tmp : Option Task) : Kernel Queue :=
  let k' := match tmp with
    | none => k
    | some t => k.wake t
  { k' with frame := Function.update k.frame k.current .user }

/-- `interruptible_sleep_on` from the return of `schedule` on. -/
def interruptibleResume (p : Queue) (tmp : Option Task) : Kernel Queue :=
  match k.head p with
  | none => k.leave tmp
  | some t =>
    if t ≠ k.current then (k.wake t).sleep .interruptible (.interruptibleSleepOn p tmp)
    else { k with head := Function.update k.head p none }.leave tmp

end Sleep

section Exit

def clear (t : Task) : Fin 64 → Option Task := fun i => if i ≠ 0 ∧ k.task i = some t then none else k.task i

def release (t : Task) : Kernel Queue := { k with task := k.clear t, calling := true }

def sendChild (t : Option Task) : Kernel Queue :=
  match t with
  | none => k
  | some t => k.change t fun p => p.send SIGCHLD

def orphan (i : Fin 64) : Kernel Queue :=
  match k.task i with
  | none => k
  | some t =>
    if (k.info t).father = (k.info k.current).pid then
      let k := k.change t fun p => { p with father := 1 }
      if (k.info t).state = .zombie then k.sendChild (k.task 1) else k
    else k

def killSession : Kernel Queue :=
  others.foldl (fun k i =>
    match k.task i with
    | none => k
    | some t => if (k.info t).session = (k.info k.current).session then k.change t fun p => p.send SIGHUP else k) k

def tellFather (pid : BitVec 32) : Kernel Queue :=
  match slots.find? fun i => (k.task i).any fun t => (k.info t).pid = pid with
  | some i => if pid ≠ 0 then { k.sendChild (k.task i) with calling := true } else k.release k.current
  | none => k.release k.current

def doExit : Kernel Queue :=
  let k := slots.foldl orphan k
  let k := if (k.info k.current).leader then k.killSession else k
  let k := (k.setState k.current .zombie).fprintk (k.info k.current).pid .exit
  k.tellFather (k.info k.current).father

/-- What `sys_waitpid` does about a task, if it does not go on to the next one. -/
inductive Child
  | none
  | stopped
  | zombie (t : Task)
  | some

def matching (pid : BitVec 32) (t : Task) : Prop :=
  t ≠ k.current ∧ (k.info t).father = (k.info k.current).pid ∧
    if pid.slt 0 = false ∧ pid ≠ 0 then (k.info t).pid = pid
    else if pid = 0 then (k.info t).pgrp = (k.info k.current).pgrp
    else pid = -1 ∨ (k.info t).pgrp = -pid

instance (pid : BitVec 32) (t : Task) : Decidable (k.matching pid t) :=
  inferInstanceAs (Decidable (_ ∧ _ ∧ _))

/-- The loop of `sys_waitpid`, with `flag`. -/
def children (pid : BitVec 32) (untraced : Bool) (flag : Child) : List (Fin 64) → Child
  | [] => flag
  | i :: rest =>
    match k.task i with
    | .none => children pid untraced flag rest
    | .some t =>
      if k.matching pid t then
        match (k.info t).state with
        | .stopped => if untraced then .stopped else children pid untraced flag rest
        | .zombie => .zombie t
        | _ => children pid untraced .some rest
      else children pid untraced flag rest

def sysWaitpid (pid : BitVec 32) (nohang untraced : Bool) : Kernel Queue :=
  let k := { k with frame := Function.update k.frame k.current .user }
  match k.children pid untraced .none others with
  | .zombie t => k.release t
  | .some => if nohang then k else k.sleep .interruptible (.waitpid pid nohang untraced)
  | _ => k

/-- `sys_waitpid` from the return of `schedule` on. -/
def waitpidResume (pid : BitVec 32) (nohang untraced : Bool) : Kernel Queue :=
  let k := k.change k.current fun p => { p with signal := p.signal &&& ~~~ bit SIGCHLD }
  if (k.info k.current).signal = 0 then k.sysWaitpid pid nohang untraced
  else { k with frame := Function.update k.frame k.current .user }

end Exit

/-- `current` goes on where it called `schedule`. -/
def resume [DecidableEq Queue] : Kernel Queue :=
  match k.frame k.current with
  | .user => k
  | .sleepOn tmp => k.leave tmp
  | .interruptibleSleepOn p tmp => k.interruptibleResume p tmp
  | .waitpid pid nohang untraced => k.waitpidResume pid nohang untraced

section Fork

/-- The first loop of `find_empty_process`, for a number of rounds. -/
def nextPid (lastPid : BitVec 32) : Nat → Option (BitVec 32)
  | 0 => none
  | rounds + 1 =>
    let pid := if (lastPid + 1).slt 0 then 1 else lastPid + 1
    if slots.any fun i => (k.task i).any fun t => (k.info t).pid = pid then nextPid pid rounds else some pid

def findEmptyProcess (rounds : Nat) : Option (BitVec 32 × Option (Fin 64)) := do
  let pid ← k.nextPid k.lastPid rounds
  return (pid, slots.tail.find? fun i => (k.task i).isNone)

/-- What `copy_process` makes of a copy of `current`. -/
def child : TaskStruct :=
  { k.info k.current with
    state := .running
    pid := k.lastPid
    father := (k.info k.current).pid
    counter := (k.info k.current).priority
    signal := 0
    alarm := 0
    leader := false }

/-- `copy_process`, when it gets its memory; the state in between is seen by nobody. -/
def copyProcess (nr : Fin 64) : Kernel Queue :=
  let k' : Kernel Queue := { k with
    task := Function.update k.task nr (some k.fresh)
    info := Function.update k.info k.fresh k.child
    frame := Function.update k.frame k.fresh .user
    fresh := k.fresh + 1 }
  (k'.fprintk k.lastPid .new).fprintk k.lastPid .ready

def sysFork (rounds : Nat) (memory : Bool) : Option (Kernel Queue) := do
  let (pid, nr) ← k.findEmptyProcess rounds
  let k := { k with lastPid := pid }
  return match nr with
    | some nr => if memory then k.copyProcess nr else k
    | none => k

end Fork

/-- The timer interrupt: `jiffies` and `do_timer`, where `user` is `cpl`. -/
def doTimer (user : Bool) : Kernel Queue :=
  let k := { k with jiffies := k.jiffies + 1 }
  let counter := (k.info k.current).counter - 1
  if (0#32).slt counter then k.change k.current fun p => { p with counter := counter }
  else { k.change k.current fun p => { p with counter := 0 } with calling := k.calling || user }

def sysAlarm (seconds : Nat) : Kernel Queue :=
  k.change k.current fun p => { p with alarm := if seconds > 0 then k.jiffies + HZ * seconds else 0 }

def sysNice (increment : BitVec 32) : Kernel Queue :=
  k.change k.current fun p => { p with
    priority := if (0#32).slt (p.priority - increment) then p.priority - increment else p.priority }

/-- What the kernel's other files may do to a task: handle its signals, or move it to another group or session. -/
def elsewhere (t : Task) (signal blocked pgrp session : BitVec 32) (leader : Bool) : Kernel Queue :=
  k.change t fun p => { p with
    signal := signal, blocked := blocked, pgrp := pgrp, session := session, leader := leader }

end Kernel

inductive Event (Queue : Type)
  | pause
  | sleepOn (p : Queue)
  | interruptibleSleepOn (p : Queue)
  | wakeUp (p : Queue)
  | resume
  | schedule (rounds : Nat)
  | fork (rounds : Nat) (memory : Bool)
  | exit
  | waitpid (pid : BitVec 32) (nohang untraced : Bool)
  | timer (user : Bool)
  | sendSig (t : Task) (sig : Nat)
  | alarm (seconds : Nat)
  | nice (increment : BitVec 32)
  | elsewhere (t : Task) (signal blocked pgrp session : BitVec 32) (leader : Bool)
  deriving DecidableEq

namespace Kernel

/-- `current` runs, and not in the middle of a function that has called `schedule`. -/
def Ready (k : Kernel Queue) : Prop := k.calling = false ∧ k.frame k.current = .user

variable [DecidableEq Queue]

instance (k : Kernel Queue) : Decidable k.Ready := inferInstanceAs (Decidable (_ ∧ _))

/-- Interrupts, with their wake-ups, signals and ticks, come at any time. -/
inductive Step (k : Kernel Queue) : Event Queue → Kernel Queue → Prop
  | pause (ready : k.Ready) : Step k .pause k.sysPause
  | sleepOn (p : Queue) (ready : k.Ready) : Step k (.sleepOn p) (k.sleepOn p)
  | interruptibleSleepOn (p : Queue) (ready : k.Ready) (other : k.current ≠ initTask) :
      Step k (.interruptibleSleepOn p) (k.interruptibleSleepOn p)
  | wakeUp (p : Queue) : Step k (.wakeUp p) (k.wakeUp p)
  | resume (back : k.calling = false) : Step k .resume k.resume
  | schedule (rounds : Nat) (k' : Kernel Queue) (calling : k.calling = true) (found : k.schedule rounds = some k') :
      Step k (.schedule rounds) k'
  | fork (rounds : Nat) (memory : Bool) (k' : Kernel Queue) (ready : k.Ready)
      (found : k.sysFork rounds memory = some k') : Step k (.fork rounds memory) k'
  | exit (ready : k.Ready) (other : k.current ≠ initTask) : Step k .exit k.doExit
  | waitpid (pid : BitVec 32) (nohang untraced : Bool) (ready : k.Ready) :
      Step k (.waitpid pid nohang untraced) (k.sysWaitpid pid nohang untraced)
  | timer (user : Bool) (mode : user = true → k.Ready) : Step k (.timer user) (k.doTimer user)
  | sendSig (t : Task) (sig : Nat) (i : Fin 64) (there : k.task i = some t) (valid : 1 ≤ sig ∧ sig ≤ 32) :
      Step k (.sendSig t sig) (k.change t fun p => p.send sig)
  | alarm (seconds : Nat) (ready : k.Ready) : Step k (.alarm seconds) (k.sysAlarm seconds)
  | nice (increment : BitVec 32) (ready : k.Ready) : Step k (.nice increment) (k.sysNice increment)
  | elsewhere (t : Task) (signal blocked pgrp session : BitVec 32) (leader : Bool) (i : Fin 64)
      (there : k.task i = some t) :
      Step k (.elsewhere t signal blocked pgrp session leader) (k.elsewhere t signal blocked pgrp session leader)

/-- The step an event makes, where it makes one. -/
def perform (k : Kernel Queue) : Event Queue → Option (Kernel Queue)
  | .pause => if k.Ready then some k.sysPause else none
  | .sleepOn p => if k.Ready then some (k.sleepOn p) else none
  | .interruptibleSleepOn p => if k.Ready ∧ k.current ≠ initTask then some (k.interruptibleSleepOn p) else none
  | .wakeUp p => some (k.wakeUp p)
  | .resume => if k.calling = false then some k.resume else none
  | .schedule rounds => if k.calling = true then k.schedule rounds else none
  | .fork rounds memory => if k.Ready then k.sysFork rounds memory else none
  | .exit => if k.Ready ∧ k.current ≠ initTask then some k.doExit else none
  | .waitpid pid nohang untraced => if k.Ready then some (k.sysWaitpid pid nohang untraced) else none
  | .timer user => if user = true → k.Ready then some (k.doTimer user) else none
  | .sendSig t sig =>
    if (slots.any fun i => k.task i = some t) ∧ 1 ≤ sig ∧ sig ≤ 32 then some (k.change t fun p => p.send sig) else none
  | .alarm seconds => if k.Ready then some (k.sysAlarm seconds) else none
  | .nice increment => if k.Ready then some (k.sysNice increment) else none
  | .elsewhere t signal blocked pgrp session leader =>
    if slots.any fun i => k.task i = some t then some (k.elsewhere t signal blocked pgrp session leader) else none

theorem perform_step {k k' : Kernel Queue} {e : Event Queue} (done : k.perform e = some k') : Step k e k' := by
  have present {t : Task} (there : (slots.any fun i => k.task i = some t) = true) : ∃ i, k.task i = some t := by
    obtain ⟨i, _, here⟩ := List.any_eq_true.mp there
    exact ⟨i, of_decide_eq_true here⟩
  cases e <;> simp only [perform, Option.ite_none_right_eq_some, Option.some.injEq] at done
  case pause => exact done.2 ▸ .pause done.1
  case sleepOn p => exact done.2 ▸ .sleepOn p done.1
  case interruptibleSleepOn p => exact done.2 ▸ .interruptibleSleepOn p done.1.1 done.1.2
  case wakeUp p => exact done ▸ .wakeUp p
  case resume => exact done.2 ▸ .resume done.1
  case schedule rounds => exact .schedule rounds k' done.1 done.2
  case fork rounds memory => exact .fork rounds memory k' done.1 done.2
  case exit => exact done.2 ▸ .exit done.1.1 done.1.2
  case waitpid pid nohang untraced => exact done.2 ▸ .waitpid pid nohang untraced done.1
  case timer user => exact done.2 ▸ .timer user done.1
  case sendSig t sig =>
    obtain ⟨i, there⟩ := present done.1.1
    exact done.2 ▸ .sendSig t sig i there done.1.2
  case alarm seconds => exact done.2 ▸ .alarm seconds done.1
  case nice increment => exact done.2 ▸ .nice increment done.1
  case elsewhere t signal blocked pgrp session leader =>
    obtain ⟨i, there⟩ := present done.1
    exact done.2 ▸ .elsewhere t signal blocked pgrp session leader i there

structure Started (k : Kernel Queue) : Prop where
  task : ∀ i, k.task i = if i = 0 then some initTask else none
  current : k.current = initTask
  idle : (k.info initTask).pid = 0 ∧ (k.info initTask).state = .running
  frame : ∀ t, k.frame t = .user
  head : ∀ p, k.head p = none
  calling : k.calling = false
  fresh : k.fresh = 1
  log : k.log = []

end Kernel

def kernel (Queue : Type) [DecidableEq Queue] : Machine (Kernel Queue) (Event Queue) where
  init := Kernel.Started
  step := Kernel.Step

/-- `INIT_TASK` when `main` has opened `/var/process.log`. -/
def opened (Queue : Type) : Kernel Queue where
  task i := if i = 0 then some initTask else none
  info _ := ⟨.running, 15, 15, 0, 0, 0, 0, -1, 0, 0, false⟩
  frame _ := .user
  head _ := none
  current := initTask
  calling := false
  fresh := 1
  lastPid := 0
  jiffies := 48
  log := []

theorem opened_started (Queue : Type) : (opened Queue).Started :=
  ⟨fun _ => rfl, rfl, ⟨rfl, rfl⟩, fun _ => rfl, fun _ => rfl, rfl, rfl, rfl⟩

end Linux011.LifeCycle

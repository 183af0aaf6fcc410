import Linux011.Library.Machine
import Linux011.Library.Numerals
import Linux011.Sched.WaitQueue
import Mathlib.Algebra.Group.Int.Defs
import Mathlib.Data.List.FinRange

namespace Linux011.Sched

open Linux011.Library

/-- What the scheduler reads of a task. -/
structure TaskStruct where
  state : TaskState
  counter : BitVec 32
  priority : BitVec 32
  signal : BitVec 32
  blocked : BitVec 32
  alarm : BitVec 32

/-- A task stands for its slot. -/
structure Kernel where
  task : Fin 64 → Option TaskStruct
  current : Fin 64
  jiffies : BitVec 32

def initTask : TaskStruct := ⟨.running, 15, 15, 0, 0, 0⟩

/-- `FIRST_TASK` is left out, and `LAST_TASK` comes first. -/
def others : List (Fin 64) := (List.finRange 64).tail.reverse

/-- `_BLOCKABLE`: all but `SIGKILL` and `SIGSTOP`. -/
def blockable : BitVec 32 := ~~~ (1#32 <<< 8 ||| 1#32 <<< 18)

namespace TaskStruct

variable (p : TaskStruct)

def checkAlarm (jiffies : BitVec 32) : TaskStruct :=
  if p.alarm ≠ 0 ∧ p.alarm.slt jiffies then { p with signal := p.signal ||| 1#32 <<< 13, alarm := 0 } else p

def checkSignal : TaskStruct :=
  if p.signal &&& ~~~ (blockable &&& p.blocked) ≠ 0 ∧ p.state = .interruptible then { p with state := .running } else p

def recharge : TaskStruct := { p with counter := p.counter.sshiftRight 1 + p.priority }

/-- The new task is like its parent, with a counter of its own. -/
def child : TaskStruct := { p with state := .running, counter := p.priority, signal := 0, alarm := 0 }

def nice (increment : BitVec 32) : TaskStruct :=
  if (0 : BitVec 32).slt (p.priority - increment) then { p with priority := p.priority - increment } else p

/-- `if ((--current->counter)>0) return; current->counter=0;` -/
def tick : TaskStruct :=
  { p with counter := if (0 : BitVec 32).slt (p.counter - 1) then p.counter - 1 else 0 }

end TaskStruct

/-- What the loop over the tasks has found: `c`, `next` and `pnext`. -/
structure Choice where
  c : BitVec 32
  next : Fin 64
  pnext : Fin 64

namespace Kernel

variable (k : Kernel)

def change (i : Fin 64) (f : TaskStruct → TaskStruct) : Kernel :=
  { k with task := Function.update k.task i ((k.task i).map f) }

def changeOthers (f : TaskStruct → TaskStruct) : Kernel :=
  { k with task := fun i => if i = 0 then k.task i else (k.task i).map f }

/-- Alarms, and interruptible tasks that have got a signal. -/
def checkSignals : Kernel := k.changeOthers fun p => (p.checkAlarm k.jiffies).checkSignal

def look (best : Choice) (i : Fin 64) : Choice :=
  match k.task i with
  | none => best
  | some p => if p.state = .running ∧ best.c.slt p.counter then ⟨p.counter, i, i⟩ else best

/-- `pnext` is not reset with `c` and `next`. -/
def choose (pnext : Fin 64) : Choice := others.foldl k.look ⟨-1, 0, pnext⟩

/-- `while (1)`, for a number of rounds. -/
def select : Nat → Kernel → Fin 64 → Option (Kernel × Choice)
  | 0, _, _ => none
  | rounds + 1, k, pnext =>
    let best := k.choose pnext
    if best.c ≠ 0 then some (k, best) else select rounds (k.changeOthers TaskStruct.recharge) best.pnext

def schedule (rounds : Nat) : Option Kernel :=
  (select rounds k.checkSignals 0).map fun r => { r.1 with current := r.2.pnext }

/-- The first empty slot. -/
def findEmptyProcess : Option (Fin 64) := (List.finRange 64).tail.find? fun i => (k.task i).isNone

def fork : Kernel :=
  match k.findEmptyProcess with
  | none => k
  | some nr => { k with task := Function.update k.task nr ((k.task k.current).map TaskStruct.child) }

/-- `timer_interrupt` with `do_timer`, which goes on to `schedule` where a user program ran out of time. -/
def doTimer (cpl : Bool) (rounds : Nat) : Option Kernel :=
  let k := { k.change k.current TaskStruct.tick with jiffies := k.jiffies + 1 }
  match k.task k.current with
  | none => none
  | some p => if p.counter ≠ 0 ∨ cpl = false then some k else k.schedule rounds

def sysNice (increment : BitVec 32) : Kernel := k.change k.current fun p => p.nice increment

end Kernel

inductive Event
  | fork
  | tick (cpl : Bool)
  | schedule
  | nice (increment : BitVec 32)
  | elsewhere (i : Fin 64) (state : TaskState) (signal blocked alarm : BitVec 32)
  | release (i : Fin 64)

/-- The other parts of the kernel set states, signals and alarms, and release tasks. -/
def scheduler : Machine Kernel Event where
  init k := k = ⟨Function.update (fun _ => none) 0 (some initTask), 0, 0⟩
  step k e k' :=
    match e with
    | .fork => k' = k.fork
    | .tick cpl => ∃ rounds, k.doTimer cpl rounds = some k'
    | .schedule => ∃ rounds, k.schedule rounds = some k'
    | .nice increment => k' = k.sysNice increment
    | .elsewhere i state signal blocked alarm =>
      k' = k.change i fun p => { p with state := state, signal := signal, blocked := blocked, alarm := alarm }
    | .release i => i ≠ 0 ∧ i ≠ k.current ∧ k' = { k with task := Function.update k.task i none }

end Linux011.Sched

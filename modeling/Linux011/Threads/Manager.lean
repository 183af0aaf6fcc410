import Linux011.Library.Fifo
import Linux011.Library.Loop
import Linux011.Library.Machine
import Mathlib.Data.BitVec

namespace Linux011.Threads

open Linux011.Library

abbrev Ptr := Nat

inductive Fault where
  | nullPointer
  | dangling
  | doubleFree
  | overflow
  deriving DecidableEq

/-- Where a thread goes on when its state is jumped to: at the call of its procedure, or behind the call it made. -/
inductive Resume where
  | launch
  | relinquish
  | free
  | wait
  deriving DecidableEq

/-- Who runs: the program that starts the manager, a thread at the call of its procedure or where it goes on, or the
    program again after the death of the manager. -/
inductive Control where
  | main
  | call (proc : Nat) (param : BitVec 32)
  | thread (at_ : Resume)
  | dead (error : String)
  | exit
  deriving DecidableEq

/-- A `struct thread`, less its link and its stack. -/
structure Thread where
  proc : Nat
  param : BitVec 32
  state : Resume

structure Semaphore where
  count : Int
  queue : Fifo Ptr

/-- The variables of the manager, the semaphores and the heap. -/
structure Manager (S : Type) where
  next : Ptr → Option Ptr
  thread : Ptr → Thread
  allocated : Ptr → Bool
  readylist : Fifo Ptr
  current : Option Ptr
  memToFree : Option Ptr
  semaphore : S → Semaphore
  control : Control

variable {S : Type} [DecidableEq S]

namespace Manager

variable (m : Manager S)

def deref (p : Option Ptr) : Except Fault Ptr :=
  match p with
  | none => .error .nullPointer
  | some p => if m.allocated p then .ok p else .error .dangling

def setNext (p : Ptr) (next : Option Ptr) : Manager S := { m with next := Function.update m.next p next }

def setThread (p : Ptr) (t : Thread) : Manager S := { m with thread := Function.update m.thread p t }

def setQueue (s : S) (queue : Fifo Ptr) : Manager S :=
  { m with semaphore := Function.update m.semaphore s { m.semaphore s with queue := queue } }

def setCount (s : S) (count : Int) : Manager S :=
  { m with semaphore := Function.update m.semaphore s { m.semaphore s with count := count } }

section Queues

def threadEnqueue (t : Option Ptr) (q : Fifo Ptr) : Except Fault (Manager S × Fifo Ptr) := do
  let p ← m.deref t
  let m := m.setNext p none
  match q.head with
  | none => return (m, ⟨some p, some p⟩)
  | some _ =>
    let tail ← m.deref q.tail
    return (m.setNext tail (some p), { q with tail := some p })

def threadDequeue (q : Fifo Ptr) : Except Fault (Option Ptr × Fifo Ptr) := do
  match q.head with
  | none => return (none, q)
  | some t =>
    let p ← m.deref (some t)
    return (some t, { q with head := m.next p })

/-- `thread_enqueue(t, &readylist)` -/
def makeReady (t : Option Ptr) : Except Fault (Manager S) := do
  let (m, q) ← m.threadEnqueue t m.readylist
  return { m with readylist := q }

/-- `current = thread_dequeue(&readylist)` -/
def nextReady : Except Fault (Manager S) := do
  let (t, q) ← m.threadDequeue m.readylist
  return { m with readylist := q, current := t }

end Queues

section Jumps

def free (p : Option Ptr) : Except Fault (Manager S) :=
  match p with
  | none => .ok m
  | some p => if m.allocated p then .ok { m with allocated := Function.update m.allocated p false } else .error .doubleFree

/-- `_longjmp(current->state, 1)` -/
def jump : Except Fault (Manager S) := do
  let p ← m.deref m.current
  let t := m.thread p
  return { m with control := if t.state = .launch then .call t.proc t.param else .thread t.state }

/-- `_longjmp(go_free_it, 1)`: what is to be freed is freed on the stack of the program. -/
def goFreeIt : Except Fault (Manager S) := do
  let m ← m.free m.memToFree
  { m with memToFree := none }.jump

/-- `_longjmp(thread_death, 1)` -/
def threadDeath (error : String) : Except Fault (Manager S) := do
  let m ← m.free m.memToFree
  return { m with control := .dead error }

/-- `_setjmp(current->state)`, where the thread is not resumed yet. -/
def setjmp (at_ : Resume) : Except Fault (Manager S) := do
  let p ← m.deref m.current
  return m.setThread p { m.thread p with state := at_ }

end Jumps

section Calls

def threadManagerStart : Except Fault (Manager S) := do
  let m ← m.nextReady
  match m.current with
  | none => return { m with control := .exit }
  | some _ => m.goFreeIt

def threadRelinquish : Except Fault (Manager S) := do
  let m ← m.setjmp .relinquish
  let m ← m.makeReady m.current
  let m ← m.nextReady
  m.jump

def threadExit : Except Fault (Manager S) := do
  let m := { m with memToFree := m.current }
  let m ← m.nextReady
  match m.current with
  | none => m.threadDeath "ready list empty"
  | some _ => m.goFreeIt

/-- The block is what `malloc` returns. -/
def threadLaunch (block : Option Ptr) (proc : Nat) (param : BitVec 32) : Except Fault (Manager S) := do
  let m := match block with
    | none => m
    | some p => { m with allocated := Function.update m.allocated p true }
  let p ← m.deref block
  let m := m.setThread p ⟨proc, param, .launch⟩
  m.makeReady block

def threadFree (p : Option Ptr) : Except Fault (Manager S) := do
  let m := { m with memToFree := p }
  let m ← m.setjmp .free
  m.goFreeIt

/-- Whether the stack pointer is below the stack or above it; only where the stack ends stands in the thread. -/
def threadSafetyCheck (below above : Bool) : Except Fault (Manager S) := do
  if below then m.threadDeath "thread stack overflow"
  else
    let _ ← m.deref m.current
    if above then m.threadDeath "thread stack overflow" else return m

def threadSemaphoreInit (s : S) (v : Int) : Manager S :=
  { m with semaphore := Function.update m.semaphore s ⟨v, ⟨none, none⟩⟩ }

def threadWait (s : S) : Except Fault (Manager S) := do
  if 0 < (m.semaphore s).count then return m.setCount s ((m.semaphore s).count - 1)
  else
    let m ← m.setjmp .wait
    let (m, q) ← m.threadEnqueue m.current (m.semaphore s).queue
    let m := m.setQueue s q
    let m ← m.nextReady
    match m.current with
    | none => m.threadDeath "possible deadlock"
    | some _ => m.jump

def threadSignal (s : S) : Except Fault (Manager S) := do
  let (t, q) ← m.threadDequeue (m.semaphore s).queue
  let m := m.setQueue s q
  match t with
  | none =>
    if (m.semaphore s).count = 2 ^ 31 - 1 then throw .overflow
    else return m.setCount s ((m.semaphore s).count + 1)
  | some _ => m.makeReady t

end Calls

end Manager

inductive Call (S : Type) where
  | launch (block : Option Ptr) (proc : Nat) (param : BitVec 32)
  | start
  | relinquish
  | exit
  | malloc (p : Ptr)
  | free (p : Option Ptr)
  | check (below above : Bool)
  | init (s : S) (v : Int)
  | wait (s : S)
  | signal (s : S)

def Control.inThread : Control → Bool
  | .call .. | .thread _ => true
  | _ => false

def Call.Allowed (m : Manager S) : Call S → Prop
  | .launch .. | .init .. | .malloc _ => m.control = .main ∨ m.control.inThread
  | .start => m.control = .main
  | _ => m.control.inThread

def Call.perform (m : Manager S) : Call S → Except Fault (Manager S)
  | .launch block proc param => m.threadLaunch block proc param
  | .start => m.threadManagerStart
  | .relinquish => m.threadRelinquish
  | .exit => m.threadExit
  | .malloc p => .ok { m with allocated := Function.update m.allocated p true }
  | .free p => m.threadFree p
  | .check below above => m.threadSafetyCheck below above
  | .init s v => .ok (m.threadSemaphoreInit s v)
  | .wait s => m.threadWait s
  | .signal s => m.threadSignal s

end Linux011.Threads

import Linux011.Library.Linked
import Linux011.Library.Machine
import Linux011.Library.Numerals
import Mathlib.Data.List.FinRange
import Mathlib.Logic.Function.Basic

namespace Linux011.Timer

open Linux011.Library

variable {Fn : Type}

/-- `struct timer_list` -/
structure TimerList (Fn : Type) where
  jiffies : BitVec 32
  fn : Option Fn
  next : Option (Fin 64)

structure Timers (Fn : Type) where
  timerList : Fin 64 → TimerList Fn
  nextTimer : Option (Fin 64)

namespace Timers

variable (t : Timers Fn)

def put (p : Fin 64) (x : TimerList Fn) : Timers Fn := { t with timerList := Function.update t.timerList p x }

/-- The timer in `p` goes on behind `q`, and its time is counted from there: the fields are exchanged. -/
def exchange (p q : Fin 64) : Timers Fn :=
  let a := t.timerList p
  let b := t.timerList q
  (t.put p { a with jiffies := b.jiffies, fn := b.fn }).put q { b with jiffies := a.jiffies - b.jiffies, fn := a.fn }

/-- The `while` loop of `add_timer`; `none` where it would not end in so many rounds. -/
def bubble : Nat → Timers Fn → Fin 64 → Option (Timers Fn)
  | 0, _, _ => none
  | n + 1, t, p =>
    match (t.timerList p).next with
    | none => some t
    | some q =>
      if (t.timerList q).jiffies.slt (t.timerList p).jiffies then bubble n (t.exchange p q) q else some t

/-- The timers, and the functions called at once; `none` is a panic. -/
def addTimer (jiffies : BitVec 32) (fn : Option Fn) : Option (Timers Fn × List Fn) :=
  match fn with
  | none => some (t, [])
  | some fn =>
    if jiffies.sle 0 then some (t, [fn])
    else
      match (List.finRange 64).find? fun p => (t.timerList p).fn.isNone with
      | none => none
      | some p =>
        (bubble 64 { t.put p ⟨jiffies, some fn, t.nextTimer⟩ with nextTimer := some p } p).map fun t => (t, [])

/-- The `while` loop of `do_timer`, with the functions it calls. -/
def fire : Nat → Timers Fn → Option (Timers Fn × List Fn)
  | 0, _ => none
  | n + 1, t =>
    match t.nextTimer with
    | none => some (t, [])
    | some p =>
      let x := t.timerList p
      if x.jiffies.sle 0 then
        match x.fn with
        | none => none
        | some fn =>
          (fire n { t.put p { x with fn := none } with nextTimer := x.next }).map fun r => (r.1, fn :: r.2)
      else some (t, [])

/-- `do_timer` as far as the timers go. -/
def doTimer : Option (Timers Fn × List Fn) :=
  match t.nextTimer with
  | none => some (t, [])
  | some p => fire 65 (t.put p { t.timerList p with jiffies := (t.timerList p).jiffies - 1 })

/-- The timers along `next_timer`, each with the sum of the `jiffies` up to it. -/
def along : Nat → Option (Fin 64) → Int → List (Int × Option Fn)
  | 0, _, _ => []
  | _, none, _ => []
  | n + 1, some p, before =>
    let due := before + (t.timerList p).jiffies.toInt
    (due, (t.timerList p).fn) :: along n (t.timerList p).next due

def remaining : List (Int × Option Fn) := t.along 64 t.nextTimer 0

def taken : Nat := (List.finRange 64).countP fun p => (t.timerList p).fn.isSome

end Timers

inductive Event (Fn : Type)
  | addTimer (jiffies : BitVec 32) (fn : Fn)
  | doTimer (called : List Fn)
  deriving DecidableEq

def idle : Timers Fn := ⟨fun _ => ⟨0, none, none⟩, none⟩

def timers (Fn : Type) : Machine (Timers Fn) (Event Fn) where
  init t := t = idle
  step t e t' :=
    match e with
    | .addTimer jiffies fn => ∃ called, t.addTimer jiffies (some fn) = some (t', called)
    | .doTimer called => t.doTimer = some (t', called)

def ticks (es : List (Event Fn)) : Nat := es.countP fun e => match e with | .doTimer _ => true | .addTimer _ _ => false

/-- The timers added so far with a tick of theirs still to come, and how many ticks that is. -/
def pending : List (Event Fn) → List (Nat × Fn)
  | [] => []
  | .addTimer jiffies fn :: after =>
    if ticks after < jiffies.toInt.toNat then (jiffies.toInt.toNat - ticks after, fn) :: pending after
    else pending after
  | .doTimer _ :: after => pending after

/-- The same, as the sums along `next_timer` show it. -/
def times (agenda : List (Nat × Fn)) : List (Int × Option Fn) := agenda.map fun x => ((x.1 : Int), some x.2)

def due (es : List (Event Fn)) : List Fn := ((pending es).filter fun x => x.1 = 1).map Prod.snd

def Last (t : Timers Fn) : Event Fn → Prop
  | .addTimer jiffies _ => ∀ x ∈ t.remaining, x.1 < jiffies.toInt
  | .doTimer _ => True

end Linux011.Timer

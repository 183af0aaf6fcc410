import Linux011.Library.Machine
import Linux011.Library.Numerals
import Mathlib.Algebra.Ring.Nat
import Mathlib.Data.BitVec
import Mathlib.Data.Fintype.Basic
import Mathlib.Logic.Function.Basic

namespace Linux011.ProducerConsumer

open Linux011.Library

/-- The three constants of the program, all of type `unsigned`. -/
structure Config where
  childNumber : BitVec 32
  bufferSize : BitVec 32
  maxDataNumber : BitVec 32
  someChild : 0 < childNumber
  someSlot : 0 < bufferSize
  someData : 0 < maxDataNumber

/-- The constants as the program has them. -/
def labConfig : Config where
  childNumber := 4
  bufferSize := 10
  maxDataNumber := 512
  someChild := by decide
  someSlot := ten_positive
  someData := sector_positive

def dataSize : BitVec 32 := 4

def initPos : BitVec 32 := 0

def Config.slot (c : Config) (pos : BitVec 32) : BitVec 32 := pos % c.bufferSize * dataSize

/-- Where the consumers share their position: the place after the last slot. -/
def Config.posSlot (c : Config) : BitVec 32 := c.bufferSize * dataSize

/-- The open file behind `bufferFd`. Every offset used is a multiple of four, so the file is kept by
    four-byte cells. The offset belongs to the open file, which all processes share after `fork`. -/
structure BufferFile where
  cells : BitVec 32 → BitVec 32
  offset : BitVec 32

namespace BufferFile

def lseek (f : BufferFile) (offset : BitVec 32) : BufferFile := { f with offset := offset }

def read (f : BufferFile) : BitVec 32 := f.cells f.offset

/-- Both `read` and `write` leave the offset after the bytes they moved. -/
def advance (f : BufferFile) : BufferFile := { f with offset := f.offset + dataSize }

def write (f : BufferFile) (value : BitVec 32) : BufferFile :=
  { f with cells := Function.update f.cells f.offset value }.advance

end BufferFile

structure Shared where
  bufferMutex : Nat
  empty : Nat
  full : Nat
  bufferFd : BufferFile

def semWait : Nat → Option Nat
  | 0 => none
  | value + 1 => some value

inductive ProducerPc
  | fork | waitEmpty | waitMutex | seek | write | print | postMutex | postFull | waitpid | done
  deriving DecidableEq

structure Producer where
  pc : ProducerPc
  i : BitVec 32
  data : BitVec 32
  producerPos : BitVec 32

inductive ConsumerPc
  | unborn | waitFull | waitMutex | seekPos | readPos | postNoMore | seekData | readData | print
  | seekStore | writeStore | postRest | postMutex | postEmpty | done | reaped
  deriving DecidableEq

structure Consumer where
  pc : ConsumerPc
  i : BitVec 32
  consumerPos : BitVec 32
  data : BitVec 32
  j : BitVec 32

inductive Event
  | silent
  | written
  | produced (data position : BitVec 32)
  | consumed (data position : BitVec 32)
  deriving DecidableEq

def producerStep (c : Config) (m : Shared) (p : Producer) : Option (Producer × Shared × Event) :=
  match p.pc with
  | .waitEmpty =>
    if p.data < c.maxDataNumber then
      (semWait m.empty).map fun empty => ({ p with pc := .waitMutex }, { m with empty := empty }, .silent)
    else some ({ p with pc := .waitpid }, m, .silent)
  | .waitMutex =>
    (semWait m.bufferMutex).map fun value =>
      ({ p with pc := .seek }, { m with bufferMutex := value }, .silent)
  | .seek =>
    some ({ p with pc := .write }, { m with bufferFd := m.bufferFd.lseek (c.slot p.producerPos) }, .silent)
  | .write =>
    some ({ p with pc := .print }, { m with bufferFd := m.bufferFd.write p.data }, .written)
  | .print =>
    some ({ p with pc := .postMutex, producerPos := p.producerPos + 1 }, m,
      .produced p.data p.producerPos)
  | .postMutex => some ({ p with pc := .postFull }, { m with bufferMutex := m.bufferMutex + 1 }, .silent)
  | .postFull =>
    some ({ p with pc := .waitEmpty, data := p.data + 1 }, { m with full := m.full + 1 }, .silent)
  | .fork | .waitpid | .done => none

def consumerStep (c : Config) (m : Shared) (p : Consumer) : Option (Consumer × Shared × Event) :=
  match p.pc with
  | .waitFull =>
    if p.i < c.maxDataNumber then
      (semWait m.full).map fun full => ({ p with pc := .waitMutex }, { m with full := full }, .silent)
    else some ({ p with pc := .done }, m, .silent)
  | .waitMutex =>
    (semWait m.bufferMutex).map fun value =>
      ({ p with pc := .seekPos }, { m with bufferMutex := value }, .silent)
  | .seekPos =>
    some ({ p with pc := .readPos }, { m with bufferFd := m.bufferFd.lseek c.posSlot }, .silent)
  | .readPos =>
    let pos := m.bufferFd.read
    some ({ p with pc := if c.maxDataNumber ≤ pos then .postNoMore else .seekData, consumerPos := pos },
      { m with bufferFd := m.bufferFd.advance }, .silent)
  | .postNoMore => some ({ p with pc := .done }, { m with bufferMutex := m.bufferMutex + 1 }, .silent)
  | .seekData =>
    some ({ p with pc := .readData }, { m with bufferFd := m.bufferFd.lseek (c.slot p.consumerPos) },
      .silent)
  | .readData =>
    some ({ p with pc := .print, data := m.bufferFd.read }, { m with bufferFd := m.bufferFd.advance },
      .silent)
  | .print =>
    some ({ p with pc := .seekStore, consumerPos := p.consumerPos + 1 }, m,
      .consumed p.data p.consumerPos)
  | .seekStore =>
    some ({ p with pc := .writeStore }, { m with bufferFd := m.bufferFd.lseek c.posSlot }, .silent)
  | .writeStore =>
    some ({ p with pc := if c.maxDataNumber ≤ p.consumerPos then .postRest else .postMutex, j := 0 },
      { m with bufferFd := m.bufferFd.write p.consumerPos }, .silent)
  | .postRest =>
    if p.j < c.childNumber - 1 then some ({ p with j := p.j + 1 }, { m with full := m.full + 1 }, .silent)
    else some ({ p with pc := .done }, { m with bufferMutex := m.bufferMutex + 1 }, .silent)
  | .postMutex => some ({ p with pc := .postEmpty }, { m with bufferMutex := m.bufferMutex + 1 }, .silent)
  | .postEmpty =>
    some ({ p with pc := .waitFull, i := p.i + 1 }, { m with empty := m.empty + 1 }, .silent)
  | .unborn | .done | .reaped => none

structure State (c : Config) where
  shared : Shared
  producer : Producer
  consumers : Fin c.childNumber.toNat → Consumer

variable (c : Config)

/-- A child `fork` has just made: it is at the head of the loop in `consumer`. -/
def Consumer.start : Consumer := { pc := .waitFull, i := 0, consumerPos := 0, data := 0, j := 0 }

def Consumer.unborn : Consumer := { Consumer.start with pc := .unborn }

/-- `main` makes its children, produces, and at last waits for them until `ECHILD`. -/
def mainStep (s : State c) : Option (State c × Event) :=
  match s.producer.pc with
  | .fork =>
    if more : s.producer.i < c.childNumber then
      some ({ s with producer := { s.producer with i := s.producer.i + 1 },
                     consumers := Function.update s.consumers ⟨s.producer.i.toNat, more⟩ .start }, .silent)
    else some ({ s with producer := { s.producer with pc := .waitEmpty, data := 0 } }, .silent)
  | .waitpid =>
    if ∀ n, (s.consumers n).pc = .reaped then
      some ({ s with producer := { s.producer with pc := .done } }, .silent)
    else none
  | _ => (producerStep c s.shared s.producer).map fun (p, m, e) => ({ s with shared := m, producer := p }, e)

def childStep (s : State c) (n : Fin c.childNumber.toNat) : Option (State c × Event) :=
  (consumerStep c s.shared (s.consumers n)).map fun (p, m, e) =>
    ({ s with shared := m, consumers := Function.update s.consumers n p }, e)

/-- `waitpid` in `main_cleanup` takes one child that has returned. -/
def reapStep (s : State c) (n : Fin c.childNumber.toNat) : Option (State c × Event) :=
  if s.producer.pc = .waitpid ∧ (s.consumers n).pc = .done then
    some ({ s with consumers := Function.update s.consumers n { s.consumers n with pc := .reaped } }, .silent)
  else none

inductive Act
  | main
  | child (n : Fin c.childNumber.toNat)
  | reap (n : Fin c.childNumber.toNat)

def actStep (s : State c) : Act c → Option (State c × Event)
  | .main => mainStep c s
  | .child n => childStep c s n
  | .reap n => reapStep c s n

/-- The fresh semaphores, and an old or new buffer file with the consumers' position set. -/
def prelude (old : BitVec 32 → BitVec 32) : Shared where
  bufferMutex := 1
  empty := c.bufferSize.toNat
  full := 0
  bufferFd := (BufferFile.lseek ⟨old, 0⟩ c.posSlot).write initPos

def initialState (old : BitVec 32 → BitVec 32) : State c where
  shared := prelude c old
  producer := { pc := .fork, i := 0, data := 0, producerPos := initPos }
  consumers := fun _ => .unborn

def pcMachine : Machine (State c) Event where
  init := fun s => ∃ old, s = initialState c old
  step := fun s e t => ∃ a, actStep c s a = some (t, e)

/-- The events of a schedule, and where it ends. -/
def exec : State c → List (Act c) → Option (State c × List Event)
  | s, [] => some (s, [])
  | s, act :: rest =>
    match actStep c s act with
    | none => none
    | some (t, e) => (exec t rest).map fun (u, es) => (u, e :: es)

variable {c} in
theorem exec_run {s t : State c} {acts : List (Act c)} {es : List Event}
    (ends : exec c s acts = some (t, es)) : (pcMachine c).Run s es t := by
  induction acts generalizing s es with
  | nil =>
    cases ends
    exact .nil _
  | cons act rest ih =>
    simp only [exec] at ends
    split at ends
    · cases ends
    · rename_i next e step
      simp only [Option.map_eq_some_iff, Prod.mk.injEq] at ends
      obtain ⟨⟨u, later⟩, tail, rfl, rfl⟩ := ends
      have first : (pcMachine c).Run s [e] next := .one ⟨act, step⟩
      exact first.append (ih tail)

end Linux011.ProducerConsumer

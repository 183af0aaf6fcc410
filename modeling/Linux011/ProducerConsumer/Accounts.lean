import Linux011.ProducerConsumer.Moves
import Mathlib.Order.Basic

namespace Linux011.ProducerConsumer

variable {c : Config} {m m' : Shared} {e : Event}

/-- The position the consumers share, as it stands in the buffer file. -/
def Shared.pos (c : Config) (m : Shared) : BitVec 32 := m.bufferFd.cells c.posSlot

/-- Whether the last item has been consumed and the position after it stored. -/
def Shared.finished (c : Config) (m : Shared) : Nat := if m.pos c = c.maxDataNumber then 1 else 0

/-- The tokens of `full` for which no item stands: every consumer ends on one. -/
def Shared.spare (c : Config) (m : Shared) : Nat :=
  if m.pos c = c.maxDataNumber then c.childNumber.toNat else 0

def Event.writes : Event → Nat
  | .written => 1
  | _ => 0

def Event.items : Event → Nat
  | .consumed _ _ => 1
  | _ => 0

namespace ProducerPc

def critical : ProducerPc → Nat
  | .seek | .write | .print | .postMutex => 1
  | _ => 0

/-- Has taken a token of `empty` for the item it is at. -/
def started : ProducerPc → Nat
  | .waitMutex | .seek | .write | .print | .postMutex | .postFull => 1
  | _ => 0

def stored : ProducerPc → Nat
  | .print | .postMutex | .postFull => 1
  | _ => 0

end ProducerPc

namespace ConsumerPc

def critical : ConsumerPc → Nat
  | .seekPos | .readPos | .postNoMore | .seekData | .readData | .print | .seekStore | .writeStore
  | .postRest | .postMutex => 1
  | _ => 0

/-- Has printed an item whose place it still has to give back through `empty`. -/
def unreturned : ConsumerPc → Nat
  | .seekStore | .writeStore | .postMutex | .postEmpty => 1
  | _ => 0

/-- Has printed an item, and not stored the position after it. -/
def storing : ConsumerPc → Nat
  | .seekStore | .writeStore => 1
  | _ => 0

theorem storing_le (pc : ConsumerPc) : pc.storing ≤ pc.unreturned := by
  cases pc <;> decide

end ConsumerPc

def Producer.started (p : Producer) : Nat := p.data.toNat + p.pc.started

def Producer.stored (p : Producer) : Nat := p.data.toNat + p.pc.stored

/-- The tokens of `full` a consumer has taken without an item to show for them, and those the last
    consumer has still to post. -/
def Consumer.tokens (c : Config) (p : Consumer) : Nat :=
  match p.pc with
  | .waitMutex | .seekPos | .readPos | .seekData | .readData | .print => 1
  | .postNoMore | .done | .reaped => 1
  | .postRest => c.childNumber.toNat - p.j.toNat
  | _ => 0

/-- What a producer knows at each place of its loop. -/
def Producer.Ready (c : Config) (m : Shared) (p : Producer) : Prop :=
  match p.pc with
  | .fork => p.data = 0 ∧ p.producerPos = 0
  | .waitEmpty => p.producerPos = p.data ∧ p.data ≤ c.maxDataNumber
  | .waitMutex | .seek | .print => p.producerPos = p.data ∧ p.data < c.maxDataNumber
  | .write => m.bufferFd.offset = c.slot p.data ∧ p.producerPos = p.data ∧ p.data < c.maxDataNumber
  | .postMutex | .postFull => p.producerPos = p.data + 1 ∧ p.data < c.maxDataNumber
  | .waitpid | .done => p.data = c.maxDataNumber

/-- What a consumer knows at each place of its loop. -/
def Consumer.Ready (c : Config) (m : Shared) (p : Consumer) : Prop :=
  match p.pc with
  | .unborn => p.i = 0
  | .readPos => m.bufferFd.offset = c.posSlot
  | .seekData => p.consumerPos = m.pos c ∧ p.consumerPos < c.maxDataNumber
  | .readData =>
    m.bufferFd.offset = c.slot p.consumerPos ∧ p.consumerPos = m.pos c ∧ p.consumerPos < c.maxDataNumber
  | .print => p.data = p.consumerPos ∧ p.consumerPos = m.pos c ∧ p.consumerPos < c.maxDataNumber
  | .seekStore => p.consumerPos = m.pos c + 1 ∧ m.pos c < c.maxDataNumber
  | .writeStore =>
    m.bufferFd.offset = c.posSlot ∧ p.consumerPos = m.pos c + 1 ∧ m.pos c < c.maxDataNumber
  | .postRest => m.pos c = c.maxDataNumber ∧ p.j ≤ c.childNumber - 1
  | .postNoMore | .done | .reaped => m.pos c = c.maxDataNumber
  | .waitFull | .waitMutex | .seekPos | .postMutex | .postEmpty => True

theorem succ_toNat {x y : BitVec 32} (below : x < y) : (x + 1).toNat = x.toNat + 1 := by
  have bound := y.isLt
  have less : x.toNat < y.toNat := below
  simp only [BitVec.toNat_add, show (1 : BitVec 32).toNat = 1 from rfl]
  omega

theorem succ_le {x y : BitVec 32} (below : x < y) : x + 1 ≤ y := by
  have less : x.toNat < y.toNat := below
  have next := succ_toNat below
  rw [BitVec.le_def]
  omega

theorem pred_childNumber (c : Config) : (c.childNumber - 1).toNat + 1 = c.childNumber.toNat := by
  have some_child : 0 < c.childNumber.toNat := c.someChild
  have bound := c.childNumber.isLt
  simp only [BitVec.toNat_sub, show (1 : BitVec 32).toNat = 1 from rfl]
  omega

theorem finished_eq (less : m.pos c < c.maxDataNumber) : m.finished c = 0 := by
  rw [Shared.finished, if_neg (BitVec.ne_of_lt less)]

theorem spare_eq (less : m.pos c < c.maxDataNumber) : m.spare c = 0 := by
  rw [Shared.spare, if_neg (BitVec.ne_of_lt less)]

end Linux011.ProducerConsumer

import Linux011.SharedBuffer.Page
import Linux011.SharedBuffer.Semaphores

namespace Linux011.SharedBuffer

open Linux011.Library Linux011.Mm Linux011.Semaphore

section Places

variable {Loop : Type}

def Pc.opened : Pc Loop → SemName → Bool
  | .semOpen .bufferMutex, _ => false
  | .semOpen .empty, n => n = .bufferMutex
  | .semOpen .full, n => n ≠ .full
  | _, _ => true

def Pc.got : Pc Loop → Bool
  | .semOpen _ | .shmget => false
  | _ => true

def Pc.attached : Pc Loop → Bool
  | .semOpen _ | .shmget | .shmat => false
  | _ => true

/-- Whether it counts as a user of the shared page. -/
def Pc.users : Pc Loop → Nat
  | .semOpen _ | .shmget | .done => 0
  | _ => 1

def Process.holds (p : Process Loop) (n : SemName) : Option Loc :=
  if p.pc.opened n then some (p.sems n) else none

/-- What a process remembers of its set-up. -/
structure Process.Bound (p : Process Loop) (page : Nat) : Prop where
  shmid : p.pc.got = true → p.shmid = key
  address : p.pc.attached = true → p.p = some page

end Places

/-- The waits on `empty` the producer has behind it. -/
def Producer.begun (p : Producer) : Nat :=
  match p.pc with
  | .loop .waitMutex | .loop .store | .loop .postMutex | .loop .postFull => p.item.toNat + 1
  | _ => p.item.toNat

def Producer.critical (p : Producer) : Nat :=
  match p.pc with
  | .loop .store | .loop .postMutex => 1
  | _ => 0

/-- The waits on `full` the consumer has behind it. -/
def Consumer.begun (p : Consumer) : Nat :=
  match p.pc with
  | .semOpen _ | .shmget | .shmat | .loop .waitFull => p.item.toNat
  | _ => p.item.toNat + 1

/-- The consumer takes `bufferMutex` along when it leaves its loop. -/
def Consumer.critical (p : Consumer) : Nat :=
  match p.pc with
  | .semOpen _ | .shmget | .shmat | .loop .waitFull | .loop .waitMutex | .loop .postEmpty => 0
  | _ => 1

/-- The semaphores the consumer has unlinked. -/
def goneAt : Pc ConsumerPc → SemName → Bool
  | .loop (.unlink .empty), n => n = .bufferMutex
  | .loop (.unlink .full), n => n ≠ .full
  | .exit, _ | .done, _ => true
  | _, _ => false

/-- The value of a semaphore, by where the processes are. -/
def Balanced (c : Config) (p : Producer) (q : Consumer) : SemName → Nat → Prop
  | .bufferMutex, v => v + p.critical + q.critical = 1
  | .empty, v => v + p.begun = c.bufferSize.toNat + q.item.toNat
  | .full, v => v + q.begun = p.item.toNat

def Producer.Placed (c : Config) (p : Producer) : Prop :=
  match p.pc with
  | .semOpen _ | .shmget | .shmat => p.item = 0 ∧ p.pos = 0
  | .loop .waitEmpty => p.pos = p.item ∧ p.item.toNat ≤ c.maxData.toNat
  | .loop .waitMutex | .loop .store => p.pos = p.item ∧ p.item.toNat < c.maxData.toNat
  | .loop .postMutex | .loop .postFull => p.pos.toNat = p.item.toNat + 1 ∧ p.item.toNat < c.maxData.toNat
  | .exit | .done => p.pos = p.item ∧ p.item = c.maxData

def Consumer.Placed (c : Config) (q : Consumer) : Prop :=
  match q.pc with
  | .semOpen _ | .shmget | .shmat => q.item = 0 ∧ q.pos = 0
  | .loop .waitFull | .loop .waitMutex | .loop .load => q.pos = q.item ∧ q.item.toNat < c.maxData.toNat
  | .loop .postMutex | .loop .postEmpty => q.pos.toNat = q.item.toNat + 1 ∧ q.pos.toNat < c.maxData.toNat
  | .loop (.unlink _) | .exit | .done => q.pos.toNat = q.item.toNat + 1 ∧ q.pos = c.maxData

/-- The lines of the first items, each at its position. -/
def lines (n : Nat) : List (BitVec 32 × BitVec 32) :=
  (List.range n).map fun k => (BitVec.ofNat 32 k, BitVec.ofNat 32 k)

structure Unused (m : Memory) : Prop where
  count : (m.sharedPages 8).count = 0
  physical : ∀ i, m.memMap i = 0 → i + lowMem < m.highMemory
  inUse : ∀ k, (m.sharedPages k).count ≠ 0 → m.memMap (mapNr (m.sharedPages k).physicalAddress) ≠ 0

structure PageOk (memory : Memory) (p : Pc ProducerPc) (q : Pc ConsumerPc) (page : Nat) : Prop where
  unused : p.got = false → q.got = false → Unused memory
  lent : p.users + q.users ≠ 0 → Lent memory (p.users + q.users) page

/-- What holds in every state, for the registry and the shared page there. -/
structure Invariant (c : Config) (m : Registry) (page : Nat) (s : State) : Prop where
  represents : Represents s.kernel.heap m
  sems : SemsOk m s.producer.holds s.consumer.holds (goneAt s.consumer.pc) (Balanced c s.producer s.consumer)
  producerBound : s.producer.Bound page
  consumerBound : s.consumer.Bound page
  producer : s.producer.Placed c
  consumer : s.consumer.Placed c
  behind : s.consumer.begun ≤ s.producer.item.toNat
  ahead : s.producer.begun ≤ c.bufferSize.toNat + s.consumer.item.toNat
  memory : PageOk s.kernel.memory s.producer.pc s.consumer.pc page
  stayed : s.producer.pc = .done → s.consumer.pc.got = true
  ring : ∀ k : BitVec 32, s.consumer.pos.toNat ≤ k.toNat → k.toNat < s.producer.pos.toNat →
    s.kernel.memory.words (c.slot page k) = k
  printed : s.consumer.printed = lines s.consumer.pos.toNat

/-- `malloc` gives every semaphore that is made a block with a NUL behind the place of its name, and
    `shmget` finds a page. -/
structure Provided {Loop : Type} (k : Kernel) (p : Process Loop) (malloc : Malloc) : Prop where
  block : ∀ n, p.pc = .semOpen n → malloc ≠ none ∧ CleanBlock k.heap n.literal malloc
  page : p.pc = .shmget → (k.memory.sharedPages 8).count = 0 → k.memory.getFreePage ≠ none

/-- The producer does not exit before the consumer has called `shmget`: it cannot when there are more
    items than slots. -/
def Orderly (c : Config) (s : State) : Event → Prop
  | .producer malloc => Provided s.kernel s.producer malloc ∧
      (s.producer.pc = .exit → c.bufferSize < c.maxData ∨ s.consumer.pc.got = true)
  | .consumer malloc => Provided s.kernel s.consumer malloc

section Steps

variable {Loop : Type} {c : Config} {m : Registry} {k k' : Kernel} {p p' : Process Loop} {n : SemName}

theorem semOpenStep_opened {malloc : Malloc} (represents : Represents k.heap m)
    (block : Heap.CanGive k.heap malloc) (given : malloc ≠ none) (clean : CleanBlock k.heap n.literal malloc)
    (step : semOpenStep c k p n malloc = some (k', p')) :
    ∃ a v, (m n.bytes = none ∧ v = n.value c ∨ m n.bytes = some (a, v)) ∧
      Represents k'.heap (Function.update m n.bytes (some (a, v))) ∧ k'.memory = k.memory ∧
      p' = { p with pc := n.opened, sems := Function.update p.sems n (.block a) } := by
  have ok : MallocOk k.heap malloc := fun a stale is => block (a, stale) is
  cases entry : m n.bytes with
  | none =>
    obtain ⟨⟨a, stale⟩, rfl⟩ := Option.ne_none_iff_exists'.mp given
    obtain ⟨h, made, represents'⟩ := semOpen_made represents entry (n.value c) ok clean
    rw [semOpenStep, made] at step
    cases step
    exact ⟨a, n.value c, .inl ⟨rfl, rfl⟩, represents', rfl, rfl⟩
  | some e =>
    obtain ⟨a, v⟩ := e
    obtain ⟨h, found, represents'⟩ := semOpen_found represents entry (n.value c) ok clean
    rw [semOpenStep, found] at step
    cases step
    have same : Function.update m n.bytes (some (a, v)) = m := by rw [← entry, Function.update_eq_self]
    exact ⟨a, v, .inr rfl, by rw [same]; exact represents', rfl, rfl⟩

theorem waitStep_took {place : Loop} {a : Nat} {v : BitVec 32} (represents : Represents k.heap m)
    (holds : p.sems n = .block a) (entry : m n.bytes = some (a, v)) (step : waitStep k p n place = some (k', p')) :
    v ≠ 0 ∧ Represents k'.heap (Function.update m n.bytes (some (a, v - 1))) ∧ k'.memory = k.memory ∧
      p' = { p with pc := .loop place } := by
  obtain ⟨h, took, same⟩ := Option.map_eq_some_iff.mp step
  obtain ⟨rfl, rfl⟩ := Prod.mk.inj same
  rw [holds] at took
  obtain ⟨token, represents'⟩ := semWait_represents represents entry took
  exact ⟨token, represents', rfl, rfl⟩

theorem small_size : ¬ (4096 : BitVec 32) < longSize * c.bufferSize := by
  have room := c.room
  rw [BitVec.lt_def, BitVec.toNat_mul]
  simp only [longSize, show (4 : BitVec 32).toNat = 4 from rfl, show (4096 : BitVec 32).toNat = 4096 from rfl]
  omega

theorem shmgetStep_got {memory : Memory} (granted : k.memory.sysShmget key (longSize * c.bufferSize) = (memory, 8)) :
    shmgetStep c k p = (⟨k.heap, memory⟩, { p with pc := .shmat, shmid := key }) := by
  rw [shmgetStep, granted]
  rfl

theorem shmatStep_attached {page : Nat} {start : Loop} (attached : attachedPage k.memory p.shmid = some page) :
    shmatStep k p start = (k, { p with pc := .loop start, p := some page }) := by
  rw [shmatStep, attached]

theorem exitStep_freed {page : Nat} {memory : Memory} (address : p.p = some page)
    (freed : k.memory.freePage page = .ok memory) :
    exitStep k p = some (⟨k.heap, memory⟩, { p with pc := .done }) := by
  simp only [exitStep, address, freed]

theorem Pc.attached_got {pc : Pc Loop} (early : pc.got = false) : pc.attached = false := by
  cases pc <;> first | rfl | cases early

end Steps

end Linux011.SharedBuffer

import Linux011.Library.Machine
import Linux011.Mm.Shm
import Linux011.Semaphore.Refinement

namespace Linux011.SharedBuffer

open Linux011.Library Linux011.Mm Linux011.Semaphore

/-- The constants of `producer.c` and `consumer.c`, and how many longs behind the beginning of the
    shared page both attach it: the `BUFFERSIZE` longs at `p` lie inside the page. -/
structure Config where
  bufferSize : BitVec 32
  maxData : BitVec 32
  offset : Nat
  someSlot : 0 < bufferSize
  someData : 0 < maxData
  room : offset + bufferSize.toNat ≤ 1024

def key : BitVec 32 := 8

/-- `sizeof(long)` -/
def longSize : BitVec 32 := 4

inductive SemName
  | bufferMutex
  | empty
  | full
  deriving DecidableEq

namespace SemName

def bytes : SemName → List UInt8
  | bufferMutex => [98, 117, 102, 102, 101, 114, 77, 117, 116, 101, 120]
  | empty => [101, 109, 112, 116, 121]
  | full => [102, 117, 108, 108]

def literal (n : SemName) : Nat → UInt8 := fun i => n.bytes.getD i 0

/-- The value both programs open it with. -/
def value (c : Config) : SemName → BitVec 32
  | bufferMutex => 1
  | empty => c.bufferSize
  | full => 0

end SemName

structure Kernel where
  heap : Heap
  memory : Memory

/-- Where `main` is: the set-up is the same text in both programs, the loop is not. -/
inductive Pc (Loop : Type)
  | semOpen (name : SemName)
  | shmget
  | shmat
  | loop (place : Loop)
  | exit
  | done
  deriving DecidableEq

/-- The variables of `main`: its semaphores, `shmid`, the page at `p` (none: NULL), `item`, the position,
    and the lines it has printed, each an item and a position. -/
structure Process (Loop : Type) where
  pc : Pc Loop
  sems : SemName → Loc
  shmid : BitVec 32
  p : Option Nat
  item : BitVec 32
  pos : BitVec 32
  printed : List (BitVec 32 × BitVec 32)

/-- The head of `main`; the semaphore pointers hold anything. -/
def Process.start {Loop : Type} (sems : SemName → Loc) : Process Loop where
  pc := .semOpen .bufferMutex
  sems := sems
  shmid := -1
  p := none
  item := 0
  pos := 0
  printed := []

/-- What `malloc` gives when it is called: NULL, or a block and the bytes in its `m_name`. -/
abbrev Malloc := Option (Nat × List UInt8)

section Calls

def setValue (h : Heap) (sem : Loc) (value : BitVec 32) : Heap :=
  h.write sem { h.node sem with mValue := value }

/-- `sys_sem_wait` as one step: it comes back when there is a token to take. -/
def semWait (h : Heap) (sem : Loc) : Option Heap :=
  if (h.node sem).mValue = 0 then none else some (setValue h sem ((h.node sem).mValue - 1))

def semPost (h : Heap) (sem : Loc) : Heap := setValue h sem ((h.node sem).mValue + 1)

/-- The page `sys_shmat` hands to `put_page`, which puts it at the break of the process. -/
def attachedPage (m : Memory) (shmid : BitVec 32) : Option Nat :=
  match Memory.keyOf shmid with
  | none => none
  | some k =>
    if (m.sharedPages k).count = 0 ∨ (m.sharedPages k).physicalAddress = 0 then none
    else some (m.sharedPages k).physicalAddress

end Calls

section Setup

variable {Loop : Type} (c : Config) (k : Kernel) (p : Process Loop)

/-- What comes behind opening a semaphore. -/
def SemName.opened : SemName → Pc Loop
  | bufferMutex => .semOpen empty
  | empty => .semOpen full
  | full => .shmget

def semOpenStep (name : SemName) (malloc : Malloc) : Option (Kernel × Process Loop) :=
  (sysSemOpen k.heap name.literal (name.value c) malloc).map fun (heap, result) =>
    match result with
    | .ok sem => ({ k with heap := heap }, { p with pc := name.opened, sems := Function.update p.sems name sem })
    | .error _ => ({ k with heap := heap }, { p with pc := .exit })

def shmgetStep : Kernel × Process Loop :=
  let (memory, result) := k.memory.sysShmget key (longSize * c.bufferSize)
  if result < 0 then ({ k with memory := memory }, { p with pc := .exit })
  else ({ k with memory := memory }, { p with pc := .shmat, shmid := BitVec.ofInt 32 result })

def shmatStep (start : Loop) : Kernel × Process Loop :=
  match attachedPage k.memory p.shmid with
  | some page => (k, { p with pc := .loop start, p := some page })
  | none => (k, { p with pc := .exit })

/-- A return from `main`: of the memory that `do_exit` frees, the page at `p`. A panic is `none`. -/
def exitStep : Option (Kernel × Process Loop) :=
  match p.p with
  | none => some (k, { p with pc := .done })
  | some page =>
    match k.memory.freePage page with
    | .ok memory => some ({ k with memory := memory }, { p with pc := .done })
    | .error _ => none

def waitStep (name : SemName) (next : Loop) : Option (Kernel × Process Loop) :=
  (semWait k.heap (p.sems name)).map fun heap => ({ k with heap := heap }, { p with pc := .loop next })

end Setup

def Config.slot (c : Config) (page : Nat) (pos : BitVec 32) : Nat :=
  page * 1024 + (c.offset + (pos % c.bufferSize).toNat)

inductive ProducerPc
  | waitEmpty | waitMutex | store | postMutex | postFull
  deriving DecidableEq

inductive ConsumerPc
  | waitFull | waitMutex | load | postMutex | postEmpty | unlink (name : SemName)
  deriving DecidableEq

abbrev Producer := Process ProducerPc

abbrev Consumer := Process ConsumerPc

/-- A NULL `p` is `none`: the process would fault. -/
def producerStep (c : Config) (k : Kernel) (p : Producer) (malloc : Malloc) : Option (Kernel × Producer) :=
  match p.pc with
  | .semOpen name => semOpenStep c k p name malloc
  | .shmget => some (shmgetStep c k p)
  | .shmat => some (shmatStep k p .waitEmpty)
  | .loop .waitEmpty =>
    if p.item < c.maxData then waitStep k p .empty .waitMutex else some (k, { p with pc := .exit })
  | .loop .waitMutex => waitStep k p .bufferMutex .store
  | .loop .store =>
    p.p.map fun page =>
      ({ k with memory := k.memory.set (c.slot page p.pos) p.item },
        { p with pc := .loop .postMutex, pos := p.pos + 1, printed := p.printed ++ [(p.item, p.pos)] })
  | .loop .postMutex =>
    some ({ k with heap := semPost k.heap (p.sems .bufferMutex) }, { p with pc := .loop .postFull })
  | .loop .postFull =>
    some ({ k with heap := semPost k.heap (p.sems .full) }, { p with pc := .loop .waitEmpty, item := p.item + 1 })
  | .exit => exitStep k p
  | .done => none

/-- What comes behind unlinking a semaphore. -/
def SemName.unlinked : SemName → Pc ConsumerPc
  | bufferMutex => .loop (.unlink empty)
  | empty => .loop (.unlink full)
  | full => .exit

/-- The consumer leaves its loop with the last item and keeps `bufferMutex`. -/
def consumerStep (c : Config) (k : Kernel) (p : Consumer) (malloc : Malloc) : Option (Kernel × Consumer) :=
  match p.pc with
  | .semOpen name => semOpenStep c k p name malloc
  | .shmget => some (shmgetStep c k p)
  | .shmat => some (shmatStep k p .waitFull)
  | .loop .waitFull =>
    if p.item < c.maxData then waitStep k p .full .waitMutex
    else some (k, { p with pc := .loop (.unlink .bufferMutex) })
  | .loop .waitMutex => waitStep k p .bufferMutex .load
  | .loop .load =>
    p.p.map fun page =>
      let data := k.memory.words (c.slot page p.pos)
      let pos := p.pos + 1
      (k, { p with pc := .loop (if c.maxData ≤ pos then .unlink .bufferMutex else .postMutex), pos := pos,
                   printed := p.printed ++ [(data, p.pos)] })
  | .loop .postMutex =>
    some ({ k with heap := semPost k.heap (p.sems .bufferMutex) }, { p with pc := .loop .postEmpty })
  | .loop .postEmpty =>
    some ({ k with heap := semPost k.heap (p.sems .empty) }, { p with pc := .loop .waitFull, item := p.item + 1 })
  | .loop (.unlink name) =>
    (sysSemUnlink k.heap name.literal).map fun (heap, _) => ({ k with heap := heap }, { p with pc := name.unlinked })
  | .exit => exitStep k p
  | .done => none

structure State where
  kernel : Kernel
  producer : Producer
  consumer : Consumer

inductive Event
  | producer (malloc : Malloc)
  | consumer (malloc : Malloc)

def Event.malloc : Event → Malloc
  | producer malloc | consumer malloc => malloc

/-- The block is not in use and holds a whole `m_name`. -/
def Heap.CanGive (h : Heap) (malloc : Malloc) : Prop :=
  ∀ block ∈ malloc, block.1 ∉ h.blocks ∧ block.2.length = MAXSEMNAME + 1

instance (h : Heap) (malloc : Malloc) : Decidable (Heap.CanGive h malloc) :=
  inferInstanceAs (Decidable (∀ block ∈ malloc, _))

def perform (c : Config) (s : State) (e : Event) : Option State :=
  if Heap.CanGive s.kernel.heap e.malloc then
    match e with
    | .producer malloc => (producerStep c s.kernel s.producer malloc).map fun (k, p) => { s with kernel := k, producer := p }
    | .consumer malloc => (consumerStep c s.kernel s.consumer malloc).map fun (k, p) => { s with kernel := k, consumer := p }
  else none

/-- The three names are on no list and nobody uses `key`. As everywhere in the kernel, a free page is
    below `HIGH_MEMORY` and no key in use has a free page. -/
structure Fresh (s : State) : Prop where
  names : ∃ m, Represents s.kernel.heap m ∧ ∀ n : SemName, m n.bytes = none
  unused : (s.kernel.memory.sharedPages 8).count = 0
  physical : ∀ i, s.kernel.memory.memMap i = 0 → i + lowMem < s.kernel.memory.highMemory
  inUse : ∀ k, (s.kernel.memory.sharedPages k).count ≠ 0 →
    s.kernel.memory.memMap (mapNr (s.kernel.memory.sharedPages k).physicalAddress) ≠ 0
  producer : ∃ sems, s.producer = .start sems
  consumer : ∃ sems, s.consumer = .start sems

def pair (c : Config) : Machine State Event where
  init := Fresh
  step := fun s e t => perform c s e = some t

end Linux011.SharedBuffer

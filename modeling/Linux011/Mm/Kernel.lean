import Linux011.Mm.Ledger
import Linux011.Mm.Shm

namespace Linux011.Mm

open Linux011.Library

/-- What the memory functions read of a task. Its segments start at `base` of its slot, where `copy_mem`
    puts them, and a task structure stands for the page it is in. -/
structure Task where
  page : Nat
  zombie : Bool
  executable : Option Nat
  endData : Nat
  brk : BitVec 32
  codeLimit : Nat
  dataLimit : Nat

structure Kernel where
  memory : Memory
  task : Fin 64 → Option Task

/-- What a call comes back with. -/
inductive Outcome
  | done
  | returned (value : Int)
  | loaded (value : BitVec 32)
  | killed
  deriving DecidableEq

/-- An executable file: the words of its blocks, and `end_data` from its header. -/
structure File where
  blocks : Nat → Nat → BitVec 32
  endData : Nat

/-- A page read from its four blocks, behind the header's, and cleared from `end_data` on. -/
def breadPage (file : File) (tmp endData : Nat) : Nat → BitVec 32 :=
  fun i =>
    let word := file.blocks (1 + tmp / 1024 + i / 256) (i % 256)
    BitVec.ofNat 32 (word.toNat % 2 ^ (8 * (endData - tmp - 4 * i)))

namespace Memory

variable (m : Memory)

/-- The page-table entry a linear address translates through. -/
def pteOf (address : Nat) : BitVec 32 := m.pte (address / 0x400000) (pageIndex address)

/-- The word of memory a user program reads at a present linear address. -/
def wordOf (address : Nat) : Nat := tableWord (frame (m.pteOf address)) (address / 4 % 1024)

/-- A write of the CPU, which marks the entry. -/
def storeAt (address : Nat) (value : BitVec 32) : Memory :=
  (m.set (m.wordOf address) value).set (m.entryWord address) (touched (m.pteOf address))

def copyMem (s nr : Fin 64) (t : Task) : Except Panic (Memory × Int) :=
  if t.dataLimit < t.codeLimit then .error .badDataLimit
  else
    match m.copyPageTables (base s) (base nr) t.dataLimit with
    | .ok m => .ok (m, 0)
    | .error (.panic why) => .error why
    | .error (.noMemory m) => (m.freePageTables (base nr) t.dataLimit).map fun m => (m, -ENOMEM)

end Memory

namespace Kernel

variable (k : Kernel)

/-- The first empty slot but the first. -/
def findEmptyProcess : Option (Fin 64) := (List.finRange 64).tail.find? fun i => (k.task i).isNone

def copyProcess (nr s : Fin 64) (t : Task) : Except Panic (Kernel × Outcome) :=
  match k.memory.getFreePage with
  | none => .ok (k, .returned (-EAGAIN))
  | some (p, m) => do
    let (m, failed) ← m.copyMem s nr t
    if failed ≠ 0 then
      let m ← m.freePage p
      return (⟨m, k.task⟩, .returned (-EAGAIN))
    else return (⟨m, Function.update k.task nr (some { t with page := p })⟩, .returned nr)

/-- The child's slot stands for its pid in the result. -/
def sysFork (s : Fin 64) (t : Task) : Except Panic (Kernel × Outcome) :=
  match k.findEmptyProcess with
  | none => .ok (k, .returned (-EAGAIN))
  | some nr => k.copyProcess nr s t

/-- `do_exit` as far as memory goes: the task is a zombie until it is released. -/
def doExit (s : Fin 64) (t : Task) : Except Panic Kernel := do
  let m ← k.memory.freePageTables (Memory.base s) t.codeLimit
  let m ← m.freePageTables (Memory.base s) t.dataLimit
  return ⟨m, Function.update k.task s (some { t with zombie := true, executable := none })⟩

def release (s : Fin 64) (t : Task) : Except Panic Kernel :=
  if s = 0 then .error .nonexistentTask
  else (k.memory.freePage t.page).map fun m => ⟨m, Function.update k.task s none⟩

def image (files : Nat → File) (t : Task) (inode : Nat) (brk : BitVec 32) (codeLimit dataLimit : Nat) : Task :=
  ⟨t.page, false, some inode, (files inode).endData, brk, codeLimit, dataLimit⟩

/-- `do_execve` without the pages of the arguments: the old image is freed and the new one demand-loaded. -/
def doExecve (files : Nat → File) (s : Fin 64) (t : Task) (inode : Nat) (brk : BitVec 32)
    (codeLimit dataLimit : Nat) : Except Panic Kernel := do
  let m ← k.memory.freePageTables (Memory.base s) t.codeLimit
  let m ← m.freePageTables (Memory.base s) t.dataLimit
  return ⟨m, Function.update k.task s (some (image files t inode brk codeLimit dataLimit))⟩

/-- A fault that got no memory kills the task: `oom`. -/
def settle (s : Fin 64) (t : Task) (answer : Memory → Outcome) : Except Stop Memory → Except Panic (Kernel × Outcome)
  | .ok m => .ok (⟨m, k.task⟩, answer m)
  | .error (.panic why) => .error why
  | .error (.noMemory m) => (doExit ⟨m, k.task⟩ s t).map fun k => (k, .killed)

/-- The loop of `share_page` over the tasks. -/
def shareFrom (s : Fin 64) (executable : Nat) (tmp : Nat) : List (Fin 64) → Except Stop (Option Memory)
  | [] => .ok none
  | p :: rest =>
    match k.task p with
    | none => shareFrom s executable tmp rest
    | some q =>
      if p = s ∨ q.executable ≠ some executable then shareFrom s executable tmp rest
      else
        match k.memory.tryToShare s p tmp with
        | .error stop => .error stop
        | .ok (some m) => .ok (some m)
        | .ok none => shareFrom s executable tmp rest

/-- `i_count` of the executable is given. -/
def sharePage (s : Fin 64) (executable tmp iCount : Nat) : Except Stop (Option Memory) :=
  if iCount < 2 then .ok none else k.shareFrom s executable tmp (List.finRange 64).tail.reverse

/-- `do_no_page`, for an address relative to the segments of the task. -/
def doNoPage (files : Nat → File) (s : Fin 64) (t : Task) (address iCount : Nat) : Except Stop Memory :=
  let tmp := address / 4096 * 4096
  match t.executable with
  | none => k.memory.getEmptyPage (Memory.base s + tmp)
  | some inode =>
    if t.endData ≤ tmp then k.memory.getEmptyPage (Memory.base s + tmp)
    else do
      match ← k.sharePage s inode tmp iCount with
      | some m => return m
      | none =>
        k.memory.newPage (fun m page => m.fill page (breadPage (files inode) tmp t.endData)) (Memory.base s + tmp)

/-- A user program touches an address: the fault for a missing page, if it is missing. -/
def touch (files : Nat → File) (s : Fin 64) (t : Task) (address iCount : Nat) : Except Stop Memory :=
  if present (k.memory.pteOf (Memory.base s + address)) then .ok k.memory
  else k.doNoPage files s t address iCount

def userRead (files : Nat → File) (s : Fin 64) (t : Task) (address iCount : Nat) :
    Except Panic (Kernel × Outcome) :=
  k.settle s t (fun m => .loaded (m.words (m.wordOf (Memory.base s + address)))) (k.touch files s t address iCount)

/-- The same for a write, with the fault for a read-only page after it. -/
def writeWord (files : Nat → File) (s : Fin 64) (t : Task) (address iCount : Nat) (value : BitVec 32) :
    Except Stop Memory := do
  let m ← k.touch files s t address iCount
  let m ← if writable (m.pteOf (Memory.base s + address)) then .ok m else m.doWpPage (Memory.base s + address)
  return m.storeAt (Memory.base s + address) value

def userWrite (files : Nat → File) (s : Fin 64) (t : Task) (address iCount : Nat) (value : BitVec 32) :
    Except Panic (Kernel × Outcome) :=
  k.settle s t (fun _ => .done) (k.writeWord files s t address iCount value)

def sysShmget (key size : BitVec 32) : Kernel × Outcome :=
  let (m, result) := k.memory.sysShmget key size
  (⟨m, k.task⟩, .returned result)

def sysShmat (s : Fin 64) (t : Task) (shmid : BitVec 32) : Kernel × Outcome :=
  match k.memory.sysShmat shmid (BitVec.ofNat 32 (Memory.base s) + t.brk).toNat with
  | none => (k, .returned (-EINVAL))
  | some m => (⟨m, Function.update k.task s (some { t with brk := t.brk + 4096 })⟩, .returned t.brk.toInt)

end Kernel

inductive Call
  | fork
  | exit
  | release
  | exec (inode : Nat) (brk : BitVec 32) (codeLimit dataLimit : Nat)
  | noPage (address iCount : Nat)
  | wpPage (address : Nat)
  | writeVerify (address : Nat)
  | read (address iCount : Nat)
  | write (address iCount : Nat) (value : BitVec 32)
  | shmget (key size : BitVec 32)
  | shmat (shmid : BitVec 32)

def Task.Fits (t : Task) : Prop := t.codeLimit ≤ t.dataLimit ∧ t.dataLimit ≤ 0x4000000

/-- When a task makes a call: faults happen where the CPU finds the entry missing or read-only, and user
    programs do not write to the memory of the kernel. -/
def Call.Ready (call : Call) (k : Kernel) (s : Fin 64) (t : Task) : Prop :=
  t.zombie = (match call with | release => true | _ => false) ∧
  match call with
  | exec _ _ codeLimit dataLimit => codeLimit ≤ dataLimit ∧ dataLimit ≤ 0x4000000
  | noPage address _ => address < t.dataLimit ∧ present (k.memory.pteOf (Memory.base s + address)) = false
  | wpPage address => address < t.dataLimit ∧ present (k.memory.pteOf (Memory.base s + address)) = true ∧
      writable (k.memory.pteOf (Memory.base s + address)) = false
  | writeVerify address => address < 2 ^ 32
  | read address _ => address < t.dataLimit
  | write address _ _ => address < t.dataLimit ∧ (present (k.memory.pteOf (Memory.base s + address)) = true →
      writable (k.memory.pteOf (Memory.base s + address)) = true →
      lowMem ≤ frame (k.memory.pteOf (Memory.base s + address)))
  | fork | exit | release | shmget _ _ | shmat _ => True

def Call.perform (files : Nat → File) (call : Call) (k : Kernel) (s : Fin 64) (t : Task) :
    Except Panic (Kernel × Outcome) :=
  match call with
  | fork => k.sysFork s t
  | exit => (k.doExit s t).map fun k => (k, .done)
  | release => (k.release s t).map fun k => (k, .done)
  | exec inode brk codeLimit dataLimit =>
    (k.doExecve files s t inode brk codeLimit dataLimit).map fun k => (k, .done)
  | noPage address iCount => k.settle s t (fun _ => .done) (k.doNoPage files s t address iCount)
  | wpPage address => k.settle s t (fun _ => .done) (k.memory.doWpPage (Memory.base s + address))
  | writeVerify address => k.settle s t (fun _ => .done) (k.memory.writeVerify address)
  | read address iCount => k.userRead files s t address iCount
  | write address iCount value => k.userWrite files s t address iCount value
  | shmget key size => .ok (k.sysShmget key size)
  | shmat shmid => .ok (k.sysShmat s t shmid)

structure Event where
  caller : Fin 64
  call : Call
  outcome : Outcome

/-- After `mem_init`: one task, which maps pages below `LOW_MEM` only. -/
structure Booted (L : Layout) (k : Kernel) : Prop where
  memory : ∃ m : Memory, k.memory = { m.memInit L.startMem L.endMem with sharedPages := fun _ => ⟨0, 0⟩ }
  others : ∀ d < 1024, 16 ≤ d → present (k.memory.words d) = false
  tables : ∀ d < 16, present (k.memory.words d) = true → 0 < frame (k.memory.words d) ∧
    frame (k.memory.words d) < lowMem
  apart : ∀ d < 16, ∀ d' < 16, present (k.memory.words d) = true → present (k.memory.words d') = true →
    frame (k.memory.words d) = frame (k.memory.words d') → d = d'
  low : ∀ d < 16, ∀ i < 1024, present (k.memory.pte d i) = true → frame (k.memory.pte d i) < lowMem
  first : ∃ t, k.task 0 = some t ∧ t.zombie = false ∧ t.page < lowMem ∧ t.executable = none ∧ t.Fits
  alone : ∀ s, s ≠ 0 → k.task s = none

/-- The memory side of the kernel, run by its tasks; a panic is the end of a run. -/
def kernel (files : Nat → File) (L : Layout) : Machine Kernel Event where
  init := Booted L
  step k e k' := ∃ t, k.task e.caller = some t ∧ e.call.Ready k e.caller t ∧
    e.call.perform files k e.caller t = .ok (k', e.outcome)

instance Call.decidableReady : (call : Call) → (k : Kernel) → (s : Fin 64) → (t : Task) → Decidable (call.Ready k s t)
  | .exec _ _ _ _, _, _, _ | .noPage _ _, _, _, _ | .wpPage _, _, _, _ | .writeVerify _, _, _, _ | .read _ _, _, _, _
  | .write _ _ _, _, _, _ | .fork, _, _, _ | .exit, _, _, _ | .release, _, _, _ | .shmget _ _, _, _, _
  | .shmat _, _, _, _ => inferInstanceAs (Decidable (_ ∧ _))

/-- The kernel after an event, where it can happen so. -/
def Kernel.next (files : Nat → File) (k : Kernel) (e : Event) : Option Kernel :=
  match k.task e.caller with
  | none => none
  | some t =>
    if e.call.Ready k e.caller t then
      match e.call.perform files k e.caller t with
      | .ok (k, outcome) => if outcome = e.outcome then some k else none
      | .error _ => none
    else none

theorem Kernel.next_step {files : Nat → File} {L : Layout} {k k' : Kernel} {e : Event}
    (next : k.next files e = some k') : (kernel files L).step k e k' := by
  unfold Kernel.next at next
  split at next
  · cases next
  · rename_i t here
    split at next
    · rename_i ready
      split at next
      · rename_i k₁ outcome performed
        split at next
        · rename_i same
          cases next
          exact ⟨t, here, ready, same ▸ performed⟩
        · cases next
      · cases next
    · cases next

end Linux011.Mm

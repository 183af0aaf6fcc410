import Linux011.Semaphore.Names
import Mathlib.Data.Finset.Card
import Mathlib.Logic.Function.Basic

namespace Linux011.Semaphore

/-- Where a `sem_t` lives: `_semHead` is static, every other one is a block from `malloc`. -/
inductive Loc
  | semHead
  | block (address : Nat)
  deriving DecidableEq, Repr

structure SemT where
  mName : List UInt8
  mValue : BitVec 32
  mPrev : Option Loc
  mNext : Option Loc
  mWait : Option Nat

/-- The semaphores in memory, and the blocks `malloc` has handed out for them. -/
structure Heap where
  blocks : Finset Nat
  node : Loc → SemT

inductive Errno
  | EINVAL
  | ENOSPC
  deriving DecidableEq, Repr

/-- The bytes of the literal `"_semHead"`, without its NUL. -/
def semHeadName : List UInt8 := [95, 115, 101, 109, 72, 101, 97, 100]

def semHead : SemT where
  mName := semHeadName ++ List.replicate (MAXSEMNAME + 1 - semHeadName.length) 0
  mValue := 0
  mPrev := none
  mNext := none
  mWait := none

/-- The list before the first call; the contents of free memory do not matter. -/
def initialHeap : Heap where
  blocks := ∅
  node := fun _ => semHead

def Heap.write (h : Heap) (p : Loc) (sem : SemT) : Heap :=
  { h with node := Function.update h.node p sem }

/-- The `while` loop of `find_sem`; `none` when `fuel` rounds do not end it. -/
def findLoop (h : Heap) (name : List UInt8) : Nat → Loc → Option Loc
  | 0, _ => none
  | fuel + 1, tmpSemP =>
    match (h.node tmpSemP).mNext with
    | none => some tmpSemP
    | some next => do
      if (← strCmp (h.node tmpSemP).mName name) = 0 then some tmpSemP
      else findLoop h name fuel next

/-- A list without a cycle is no longer than the number of blocks. -/
def findSem (h : Heap) (name : List UInt8) : Option Loc :=
  findLoop h name (h.blocks.card + 1) .semHead

/-- The new block gets its fields, and the last node its `m_next`. -/
def linkNode (h : Heap) (last : Loc) (address : Nat) (newSem : SemT) : Heap :=
  let h := { h.write (.block address) newSem with blocks := insert address h.blocks }
  h.write last { h.node last with mNext := some (.block address) }

/-- The neighbours of the block behind `prev` are made to point at each other, and it is freed. -/
def unlinkNode (h : Heap) (prev : Loc) (address : Nat) : Heap :=
  let h := h.write prev { h.node prev with mNext := (h.node (.block address)).mNext }
  let h := match (h.node (.block address)).mNext with
    | some next => h.write next { h.node next with mPrev := (h.node (.block address)).mPrev }
    | none => h
  { h with blocks := h.blocks.erase address }

/-- The end of `sys_sem_unlink`; a `free_s` of `_semHead` is `none`, a panic. -/
def unlinkFound (h : Heap) (prev : Loc) : Loc → Option (Heap × Except Errno Unit)
  | .block freed => some (unlinkNode h prev freed, .ok ())
  | .semHead => none

/-- `malloc` returns NULL (`none`) or a block with the bytes it finds at `m_name`. -/
def sysSemOpen (h : Heap) (name : Nat → UInt8) (value : BitVec 32) (malloc : Option (Nat × List UInt8)) :
    Option (Heap × Except Errno Loc) := do
  let (tmpName, c) := getName name
  if c ≠ 0 then
    return (h, .error .EINVAL)
  if (← strCmp (semHeadName ++ [0]) tmpName) = 0 then
    return (h, .error .EINVAL)
  let tmpSemP ← findSem h tmpName
  if (← strCmp (h.node tmpSemP).mName tmpName) = 0 then
    return (h, .ok tmpSemP)
  match malloc with
  | none => return (h, .error .ENOSPC)
  | some (newSemP, stale) =>
    let newSem : SemT :=
      { mName := strncpy stale tmpName (strlen tmpName)
        mValue := value
        mPrev := some tmpSemP
        mNext := none
        mWait := none }
    return (linkNode h tmpSemP newSemP newSem, .ok (.block newSemP))

/-- A NULL `m_prev` is `none`: the kernel would fault. -/
def sysSemUnlink (h : Heap) (name : Nat → UInt8) : Option (Heap × Except Errno Unit) := do
  let (tmpName, c) := getName name
  if c ≠ 0 then
    return (h, .error .EINVAL)
  if (← strCmp (semHeadName ++ [0]) tmpName) = 0 then
    return (h, .error .EINVAL)
  let tmpSemP ← findSem h tmpName
  if (← strCmp (h.node tmpSemP).mName tmpName) ≠ 0 then
    return (h, .error .EINVAL)
  let prev ← (h.node tmpSemP).mPrev
  unlinkFound h prev tmpSemP

end Linux011.Semaphore

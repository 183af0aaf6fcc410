import Linux011.Mm.Paging

namespace Linux011.Mm

def EAGAIN : Int := 11

def ENOMEM : Int := 12

def EINVAL : Int := 22

namespace Memory

variable (m : Memory)

/-- `sharedPages[key]`, for a key below `MAX_SHARED_PAGES_NUM`. -/
def keyOf (key : BitVec 32) : Option (Fin 64) := if below : key.toNat < 64 then some ⟨key.toNat, below⟩ else none

def sysShmget (key size : BitVec 32) : Memory × Int :=
  if (4096 : BitVec 32) < size then (m, -EINVAL)
  else
    match keyOf key with
    | none => (m, -ENOMEM)
    | some k =>
      if (m.sharedPages k).physicalAddress ≠ 0 ∧ (m.sharedPages k).count ≠ 0 then
        (m.setShared k (m.sharedPages k).more, k)
      else
        match m.getFreePage with
        | none => (m, -ENOMEM)
        | some (page, m) => (m.setShared k ⟨(m.sharedPages k).count + 1, page⟩, k)

/-- The shared page put at a linear address, where `sys_shmat` returns one. -/
def sysShmat (shmid : BitVec 32) (linearAddress : Nat) : Option Memory :=
  match keyOf shmid with
  | none => none
  | some k =>
    if (m.sharedPages k).count = 0 ∨ (m.sharedPages k).physicalAddress = 0 then none
    else m.putPage (m.sharedPages k).physicalAddress linearAddress

/-- 16 MB of cleared memory with every page of `mem_map` free. -/
def cleared : Memory where
  words := fun _ => 0
  memMap := fun i => if i < pagingPages then 0 else used
  highMemory := lowMem + pagingPages
  sharedPages := fun _ => ⟨0, 0⟩

end Memory

end Linux011.Mm

import Linux011.Library.Effect
import Linux011.Library.Numerals
import Mathlib.Data.BitVec
import Mathlib.Logic.Function.Basic

namespace Linux011.Fs

abbrev nameLen : Nat := 14

abbrev dirEntriesPerBlock : Nat := 64

def dirEntrySize : Nat := 16

def rootIno : Nat := 1

/-- The bytes of a name, or of a path up to its null byte. -/
abbrev Name := List (BitVec 8)

def dot : Name := [0x2e]

def dotDot : Name := [0x2e, 0x2e]

@[ext]
structure DirEntry where
  inode : Nat
  name : Fin nameLen → BitVec 8
  deriving DecidableEq

abbrev Block := Fin dirEntriesPerBlock → DirEntry

structure Ino where
  dev : Nat
  num : Nat
  deriving DecidableEq

/-- `zone` is `i_zone` and, past its direct blocks, what the indirect blocks list, with 0 for no block;
    `indirect` are these indirect blocks. -/
structure MInode where
  mode : BitVec 16
  uid : Nat
  gid : Nat
  size : Nat
  nlinks : BitVec 8
  zone : Nat → Nat
  indirect : List Nat
  count : Nat

/-- The inodes, on disk and in core, the two bitmaps and the blocks of the devices. `searched` are the
    directories that `find_entry` has looked through, the last one first; `rest` is what only the other parts
    of the kernel see. -/
structure FileSystem (σ : Type) where
  inode : Ino → MInode
  inodeMap : Ino → Bool
  zoneMap : Nat → Nat → Bool
  block : Nat → Nat → Block
  searched : List Ino
  rest : σ

/-- A computation of the kernel, which may panic. -/
abbrev FsM (σ : Type) := EStateM String (FileSystem σ)

/-- `current`, with `suser()`. -/
structure Process where
  euid : Nat
  egid : Nat
  umask : BitVec 16
  suser : Bool
  root : Option Ino
  pwd : Option Ino

/-- The parts of the kernel that are called here. `bread` says whether the block could be read; `imount` is
    `get_super(dev)->s_imount`; a block number 0 is none. -/
structure Kernel (σ : Type) where
  bread : Nat → Nat → FsM σ Bool
  bmap : Ino → Nat → FsM σ Nat
  createBlock : Ino → Nat → FsM σ Nat
  iget : Nat → Nat → FsM σ (Option Ino)
  iput : Ino → FsM σ Unit
  imount : Nat → FsM σ (Option Ino)
  newInode : Nat → FsM σ (Option Ino)
  newBlock : Nat → FsM σ Nat
  freeBlock : Nat → Nat → FsM σ Unit
  truncate : Ino → FsM σ Unit

variable {σ : Type}

namespace FileSystem

variable (fs : FileSystem σ)

def setInode (ino : Ino) (inode : MInode) : FileSystem σ := { fs with inode := Function.update fs.inode ino inode }

def modifyInode (ino : Ino) (f : MInode → MInode) : FileSystem σ := fs.setInode ino (f (fs.inode ino))

end FileSystem

def inodeOf (ino : Ino) : FsM σ MInode := do return (← get).inode ino

def changeInode (ino : Ino) (f : MInode → MInode) : FsM σ Unit := modify fun fs => fs.modifyInode ino f

/-- `inode->i_count++` -/
def hold (ino : Ino) : FsM σ Unit := changeInode ino fun inode => { inode with count := inode.count + 1 }

section Modes

def sIfmt : BitVec 16 := 0o170000

def sIsDir (mode : BitVec 16) : Bool := mode &&& sIfmt = 0o040000

def sIsReg (mode : BitVec 16) : Bool := mode &&& sIfmt = 0o100000

def sIsBlk (mode : BitVec 16) : Bool := mode &&& sIfmt = 0o060000

def sIsChr (mode : BitVec 16) : Bool := mode &&& sIfmt = 0o020000

def sIsProc (mode : BitVec 16) : Bool := mode &&& sIfmt = 0o030000

def sIsvtx : BitVec 16 := 0o001000

def mayExec : BitVec 32 := 1

def mayWrite : BitVec 32 := 2

def iRegular : BitVec 16 := 0o100000

def iDirectory : BitVec 16 := 0o040000

def permission (current : Process) (ino : Ino) (inode : MInode) (mask : BitVec 32) : Bool :=
  if ino.dev ≠ 0 ∧ inode.nlinks = 0 then false
  else
    let mode := inode.mode.setWidth 32
    let mode :=
      if current.euid = inode.uid then mode >>> 6
      else if current.egid = inode.gid then mode >>> 3
      else mode
    mode &&& mask &&& 0o0007 = mask || current.suser

end Modes

section Entries

/-- `match` -/
def entryMatches (name : Name) (de : DirEntry) : Bool :=
  if de.inode = 0 ∨ nameLen < name.length then false
  else if ∃ i : Fin nameLen, i.val = name.length ∧ de.name i ≠ 0 then false
  else decide (∀ i : Fin nameLen, i.val < name.length → name[i.val]? = some (de.name i))

theorem entryMatches_iff {name : Name} {de : DirEntry} :
    entryMatches name de = true ↔ de.inode ≠ 0 ∧ name.length ≤ nameLen ∧
      (∀ i : Fin nameLen, i.val = name.length → de.name i = 0) ∧
      ∀ i : Fin nameLen, i.val < name.length → name[i.val]? = some (de.name i) := by
  rw [entryMatches]
  split
  · next bad =>
    constructor
    · nofun
    · rintro ⟨live, short, -⟩
      rcases bad with bad | bad
      · exact absurd bad live
      · omega
  · next good =>
    rw [not_or, Nat.not_lt] at good
    split
    · next longer =>
      rcases longer with ⟨i, last, more⟩
      constructor
      · nofun
      · exact fun all => absurd (all.2.2.1 i last) more
    · next ends =>
      rw [decide_eq_true_iff]
      constructor
      · intro bytes
        refine ⟨good.1, good.2, fun i last => ?_, bytes⟩
        by_contra more
        exact ends ⟨i, last, more⟩
      · exact fun all => all.2.2.2

theorem entryMatches_unique {name name' : Name} {de : DirEntry} (plain : 0 ∉ name) (plain' : 0 ∉ name')
    (named : entryMatches name de = true) (named' : entryMatches name' de = true) : name = name' := by
  rw [entryMatches_iff] at named named'
  have noLonger : ∀ {a b : Name}, 0 ∉ b → (∀ i : Fin nameLen, i.val = a.length → de.name i = 0) →
      (∀ i : Fin nameLen, i.val < b.length → b[i.val]? = some (de.name i)) → b.length ≤ nameLen →
      ¬ a.length < b.length := by
    intro a b plain ends bytes short longer
    have zero := ends ⟨a.length, by omega⟩ rfl
    have there := bytes ⟨a.length, by omega⟩ longer
    rw [zero] at there
    exact plain (List.mem_of_getElem? there)
  have same : name.length = name'.length := by
    have first := noLonger plain' named.2.2.1 named'.2.2.2 named'.2.1
    have second := noLonger plain named'.2.2.1 named.2.2.2 named.2.1
    omega
  apply List.ext_getElem?
  intro i
  by_cases inside : i < name.length
  · have bound : i < nameLen := inside.trans_le named.2.1
    exact (named.2.2.2 ⟨i, bound⟩ inside).trans (named'.2.2.2 ⟨i, bound⟩ (same ▸ inside)).symm
  · rw [List.getElem?_eq_none (by omega), List.getElem?_eq_none (by omega)]

/-- The name that `add_entry` writes: the bytes of the name, and null bytes. -/
def padded (name : Name) (i : Fin nameLen) : BitVec 8 := name.getD i 0

def DirEntry.strcpy (de : DirEntry) (name : Name) : DirEntry :=
  { de with name := fun i => if i.val < name.length then name.getD i 0 else if i.val = name.length then 0 else de.name i }

structure Slot where
  dev : Nat
  block : Nat
  index : Fin dirEntriesPerBlock
  deriving DecidableEq

def FileSystem.setBlock (fs : FileSystem σ) (dev block : Nat) (contents : Block) : FileSystem σ :=
  { fs with block := Function.update fs.block dev (Function.update (fs.block dev) block contents) }

def FileSystem.entry (fs : FileSystem σ) (slot : Slot) : DirEntry := fs.block slot.dev slot.block slot.index

def FileSystem.setEntry (fs : FileSystem σ) (slot : Slot) (de : DirEntry) : FileSystem σ :=
  fs.setBlock slot.dev slot.block (Function.update (fs.block slot.dev slot.block) slot.index de)

def entryInode (slot : Slot) : FsM σ Nat := do return ((← get).entry slot).inode

def changeEntry (slot : Slot) (f : DirEntry → DirEntry) : FsM σ Unit :=
  modify fun fs => fs.setEntry slot (f (fs.entry slot))

end Entries

end Linux011.Fs

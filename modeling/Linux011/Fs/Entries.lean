import Linux011.Fs.FileSystem
import Mathlib.Data.List.FinRange

namespace Linux011.Fs

variable {σ : Type} (k : Kernel σ) (current : Process)

section Finding

/-- The first entry of a block, among the first `limit`, that has the name. -/
def lookIn (name : Name) (limit : Nat) (block : Block) : Option (Fin dirEntriesPerBlock) :=
  (List.finRange dirEntriesPerBlock).find? fun i => i.val < limit && entryMatches name (block i)

/-- The loop of `find_entry` from the second block on, `left` blocks before the end; `n` is
    `i/DIR_ENTRIES_PER_BLOCK`. A block that is missing or unreadable is passed over. -/
def findFrom (dir : Ino) (name : Name) (entries : Nat) : Nat → Nat → FsM σ (Option Slot)
  | 0, _ => return none
  | left + 1, n => do
    let block ← k.bmap dir n
    if block = 0 then findFrom dir name entries left (n + 1)
    else if !(← k.bread dir.dev block) then findFrom dir name entries left (n + 1)
    else
      match lookIn name (entries - n * dirEntriesPerBlock) ((← get).block dir.dev block) with
      | some i => return some ⟨dir.dev, block, i⟩
      | none => findFrom dir name entries left (n + 1)

/-- The rest of `find_entry`, with the name truncated and '..' seen to. -/
def searchDir (dir : Ino) (name : Name) (entries : Nat) : FsM σ (Option Slot) := do
  modify fun fs => { fs with searched := dir :: fs.searched }
  let block := (← inodeOf dir).zone 0
  if block = 0 then return none
  else if !(← k.bread dir.dev block) then return none
  else
    match lookIn name entries ((← get).block dir.dev block) with
    | some i => return some ⟨dir.dev, block, i⟩
    | none => findFrom k dir name entries ((entries - 1) / dirEntriesPerBlock) 1

/-- The directory to search and the name to search it for: '..' is '.' in the root of the process, and goes
    to the directory mounted on from the root of a mounted device. -/
def crossRoot (dir : Ino) (name : Name) : FsM σ (Ino × Name) := do
  if name ≠ dotDot then return (dir, name)
  else if some dir = current.root then return (dir, dot)
  else if dir.num = rootIno then
    match ← k.imount dir.dev with
    | some mounted =>
      k.iput dir
      hold mounted
      return (mounted, name)
    | none => return (dir, name)
  else return (dir, name)

/-- `find_entry`, with the directory it leaves in `*dir`. -/
def findEntry (dir : Ino) (name : Name) : FsM σ (Ino × Option Slot) := do
  let name := name.take nameLen
  let entries := (← inodeOf dir).size / dirEntrySize
  if name = [] then return (dir, none)
  else
    let (dir, name) ← crossRoot k current dir name
    let found ← searchDir k dir name entries
    return (dir, found)

end Finding

section Adding

/-- The first entry of the block `n` that is free or past the end of the directory. -/
def roomIn (n size : Nat) (block : Block) : Option (Fin dirEntriesPerBlock) :=
  (List.finRange dirEntriesPerBlock).find? fun i =>
    size ≤ (n * dirEntriesPerBlock + i.val) * dirEntrySize || (block i).inode = 0

/-- The entry taken: the directory grows where it ends before, and the name is written. -/
def takeEntry (dir : Ino) (name : Name) (n : Nat) (slot : Slot) : FsM σ Unit := do
  let i := n * dirEntriesPerBlock + slot.index.val
  if (← inodeOf dir).size ≤ i * dirEntrySize then
    changeEntry slot fun de => { de with inode := 0 }
    changeInode dir fun inode => { inode with size := (i + 1) * dirEntrySize }
  changeEntry slot fun de => { de with name := padded name }

def maxBlocks : Nat := 7 + 512 + 512 * 512

/-- The loop of `add_entry` from the second block on, `left` blocks before the most there can be. -/
def addFrom (dir : Ino) (name : Name) : Nat → Nat → FsM σ (Option Slot)
  | 0, _ => throw "_bmap: block>big"
  | left + 1, n => do
    let block ← k.createBlock dir n
    if block = 0 then return none
    else if !(← k.bread dir.dev block) then addFrom dir name left (n + 1)
    else
      match roomIn n (← inodeOf dir).size ((← get).block dir.dev block) with
      | some i =>
        takeEntry dir name n ⟨dir.dev, block, i⟩
        return some ⟨dir.dev, block, i⟩
      | none => addFrom dir name left (n + 1)

def addEntry (dir : Ino) (name : Name) : FsM σ (Option Slot) := do
  let name := name.take nameLen
  let block := (← inodeOf dir).zone 0
  if name = [] then return none
  else if block = 0 then return none
  else if !(← k.bread dir.dev block) then return none
  else
    match roomIn 0 (← inodeOf dir).size ((← get).block dir.dev block) with
    | some i =>
      takeEntry dir name 0 ⟨dir.dev, block, i⟩
      return some ⟨dir.dev, block, i⟩
    | none => addFrom k dir name (maxBlocks - 1) 1

end Adding

end Linux011.Fs

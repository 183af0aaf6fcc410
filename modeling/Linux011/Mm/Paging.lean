import Linux011.Library.Loop
import Linux011.Library.Numerals
import Linux011.Mm.Entry
import Mathlib.Logic.Function.Basic
import Mathlib.Data.List.FinRange

namespace Linux011.Mm

open Linux011.Library

def lowMem : Nat := 256

def pagingPages : Nat := 3840

def used : BitVec 8 := 100

/-- A page frame stands for its address; 0 is no page, as in the source. -/
structure SharedPage where
  count : BitVec 32
  physicalAddress : Nat

def SharedPage.more (s : SharedPage) : SharedPage := ⟨s.count + 1, s.physicalAddress⟩

def SharedPage.less (s : SharedPage) : SharedPage := ⟨s.count - 1, s.physicalAddress⟩

/-- The words of physical memory with the page directory at 0, `mem_map` by `MAP_NR`, `HIGH_MEMORY` in
    pages, and the shared pages by key. -/
structure Memory where
  words : Nat → BitVec 32
  memMap : Nat → BitVec 8
  highMemory : Nat
  sharedPages : Fin 64 → SharedPage

inductive Panic
  | nonexistentPage
  | freePage
  | wrongAlignment
  | swapperSpace
  | alreadyExist
  | toPageExists
  | badDataLimit
  | nonexistentTask
  deriving DecidableEq

/-- Why an operation does not return: a panic, or `get_free_page` found nothing. -/
inductive Stop
  | panic (why : Panic)
  | noMemory (m : Memory)

@[irreducible] def mapNr (page : Nat) : Nat := page - lowMem

@[irreducible] def tableWord (table i : Nat) : Nat := table * 1024 + i

namespace Memory

def set (m : Memory) (w : Nat) (e : BitVec 32) : Memory := { m with words := Function.update m.words w e }

def setMap (m : Memory) (page : Nat) (n : BitVec 8) : Memory :=
  { m with memMap := Function.update m.memMap (mapNr page) n }

def setShared (m : Memory) (key : Fin 64) (s : SharedPage) : Memory :=
  { m with sharedPages := Function.update m.sharedPages key s }

def fill (m : Memory) (page : Nat) (content : Nat → BitVec 32) : Memory :=
  { m with words := fun w => if w / 1024 = page then content (w % 1024) else m.words w }

def copyPage (m : Memory) (old new : Nat) : Memory := m.fill new fun i => m.words (tableWord old i)

/-- The last byte of `mem_map` below a bound that is 0. -/
def scan (memMap : Nat → BitVec 8) : Nat → Option Nat
  | 0 => none
  | n + 1 => if memMap n = 0 then some n else scan memMap n

/-- A page marked used, and cleared. -/
def take (m : Memory) (page : Nat) : Memory := (m.setMap page 1).fill page fun _ => 0

def getFreePage (m : Memory) : Option (Nat × Memory) :=
  (scan m.memMap pagingPages).map fun i => (i + lowMem, m.take (i + lowMem))

/-- Whether the caller should lower `mem_map`: not while the shared page has other users. -/
def releaseSharedPageIfExists (m : Memory) (page : Nat) : Bool × Memory :=
  match (List.finRange 64).find? fun i =>
      (m.sharedPages i).physicalAddress = page ∧ (m.sharedPages i).count ≠ 0 with
  | none => (true, m)
  | some i =>
    ((m.sharedPages i).less.count = 0, m.setShared i (m.sharedPages i).less)

/-- What `free_page` does to a page in use. -/
def freed (m : Memory) (page : Nat) : Memory :=
  let (last, m) := m.releaseSharedPageIfExists page
  if last then m.setMap page (m.memMap (mapNr page) - 1) else m

def freePage (m : Memory) (page : Nat) : Except Panic Memory :=
  if page < lowMem then .ok m
  else if m.highMemory ≤ page then .error .nonexistentPage
  else if m.memMap (mapNr page) ≠ 0 then .ok (m.freed page)
  else .error .freePage

def freeEntry (m : Memory) (w : Nat) : Except Panic Memory :=
  if present (m.words w) then (m.freePage (frame (m.words w))).map fun m => m.set w 0
  else .ok (m.set w 0)

def freeTable (m : Memory) (dir : Nat) : Except Panic Memory :=
  if present (m.words dir) then do
    let table := frame (m.words dir)
    let m ← upTo (fun m nr => m.freeEntry (tableWord table nr)) 1024 m
    let m ← m.freePage (frame (m.words dir))
    return m.set dir 0
  else .ok m

/-- Where the 64 MB of a task begin: `nr * 0x4000000`. -/
def base (nr : Nat) : Nat := nr * 0x4000000

def dirs (size : Nat) : Nat := (size + 0x3fffff) / 0x400000

def freePageTables (m : Memory) (start size : Nat) : Except Panic Memory :=
  if start % 0x400000 ≠ 0 then .error .wrongAlignment
  else if start = 0 then .error .swapperSpace
  else upTo (fun m k => m.freeTable (start / 0x400000 + k)) (dirs size) m

def copyEntry (m : Memory) (src dst : Nat) : Memory :=
  let thisPage := m.words src
  if present thisPage then
    let thisPage := protect thisPage
    let m := m.set dst thisPage
    if (0x100000 : BitVec 32) < thisPage then
      let m := m.set src thisPage
      m.setMap (frame thisPage) (m.memMap (mapNr (frame thisPage)) + 1)
    else m
  else m

/-- One page-directory entry; of the kernel's own table only the first 160 entries are copied. -/
def copyTable (kernel : Bool) (m : Memory) (fromDir toDir : Nat) : Except Stop Memory :=
  if present (m.words toDir) then .error (.panic .alreadyExist)
  else if present (m.words fromDir) then
    let fromTable := frame (m.words fromDir)
    match m.getFreePage with
    | none => .error (.noMemory m)
    | some (toTable, m) =>
      upTo (fun m nr => .ok (m.copyEntry (tableWord fromTable nr) (tableWord toTable nr)))
        (if kernel then 0xA0 else 1024) (m.set toDir (entry toTable))
  else .ok m

def copyPageTables (m : Memory) (start dest size : Nat) : Except Stop Memory :=
  if start % 0x400000 ≠ 0 ∨ dest % 0x400000 ≠ 0 then .error (.panic .wrongAlignment)
  else upTo (fun m k => m.copyTable (start = 0) (start / 0x400000 + k) (dest / 0x400000 + k)) (dirs size) m

/-- The page table behind a page-directory entry, made first where there is none. -/
def tableFor (m : Memory) (dir : Nat) : Option (Nat × Memory) :=
  if present (m.words dir) then some (frame (m.words dir), m)
  else m.getFreePage.map fun (table, m) => (table, m.set dir (entry table))

/-- `(address >> 12) & 0x3ff` -/
def pageIndex (address : Nat) : Nat := address / 4096 % 1024

def putPage (m : Memory) (page address : Nat) : Option Memory :=
  (m.tableFor (address / 0x400000)).map fun (table, m) => m.set (tableWord table (pageIndex address)) (entry page)

def unWpPage (m : Memory) (w : Nat) : Except Stop Memory :=
  let old := frame (m.words w)
  if lowMem ≤ old ∧ m.memMap (mapNr old) = 1 then .ok (m.set w (m.words w ||| 2))
  else
    match m.getFreePage with
    | none => .error (.noMemory m)
    | some (new, m) =>
      let m := if lowMem ≤ old then m.setMap old (m.memMap (mapNr old) - 1) else m
      .ok ((m.set w (entry new)).copyPage old new)

def entryWord (m : Memory) (address : Nat) : Nat :=
  tableWord (frame (m.words (address / 0x400000))) (pageIndex address)

def doWpPage (m : Memory) (address : Nat) : Except Stop Memory := m.unWpPage (m.entryWord address)

def writeVerify (m : Memory) (address : Nat) : Except Stop Memory :=
  if present (m.words (address / 0x400000)) then
    if 3 &&& m.words (m.entryWord address) = 1 then m.unWpPage (m.entryWord address) else .ok m
  else .ok m

/-- A fresh page put at an address; where its page table cannot be had it is freed again. -/
def newPage (m : Memory) (prepare : Memory → Nat → Memory) (address : Nat) : Except Stop Memory :=
  match m.getFreePage with
  | none => .error (.noMemory m)
  | some (page, m) =>
    let m := prepare m page
    match m.putPage page address with
    | some m => .ok m
    | none =>
      match m.freePage page with
      | .ok m => .error (.noMemory m)
      | .error why => .error (.panic why)

def getEmptyPage (m : Memory) (address : Nat) : Except Stop Memory := m.newPage (fun m _ => m) address

/-- Share the page at an address of the task in slot `p` with the current task, if it is present, clean
    and not the kernel's. -/
def tryToShare (m : Memory) (current p : Nat) (address : Nat) : Except Stop (Option Memory) :=
  let fromDir := address / 0x400000 + p * 16
  let toDir := address / 0x400000 + current * 16
  if present (m.words fromDir) then
    let fromPage := tableWord (frame (m.words fromDir)) (pageIndex address)
    let physAddr := m.words fromPage
    if 0x41 &&& physAddr ≠ 0x01 then .ok none
    else if m.highMemory ≤ frame physAddr ∨ frame physAddr < lowMem then .ok none
    else
      match m.tableFor toDir with
      | none => .error (.noMemory m)
      | some (table, m) =>
        let toPage := tableWord table (pageIndex address)
        if present (m.words toPage) then .error (.panic .toPageExists)
        else
          let m := m.set fromPage (protect (m.words fromPage))
          let m := m.set toPage (m.words fromPage)
          .ok (some (m.setMap (frame physAddr) (m.memMap (mapNr (frame physAddr)) + 1)))
  else .ok none

/-- `mem_init`: only the pages between `start_mem` and `end_mem` are free. -/
def memInit (m : Memory) (startMem endMem : Nat) : Memory :=
  { m with
    highMemory := endMem
    memMap := fun i => if mapNr startMem ≤ i ∧ i < mapNr startMem + (endMem - startMem) then 0 else used }

end Memory

end Linux011.Mm

import Linux011.Library.Count
import Linux011.Library.Machine
import Linux011.Mm.Paging
import Mathlib.Algebra.Order.Ring.Int

namespace Linux011.Mm

open Linux011.Library

/-- The main memory: the pages `mem_init` hands to `get_free_page`. -/
structure Layout where
  startMem : Nat
  endMem : Nat
  aboveLow : lowMem ≤ startMem
  inPaging : endMem ≤ lowMem + pagingPages

def Layout.Managed (L : Layout) (page : Nat) : Prop := L.startMem ≤ page ∧ page < L.endMem

namespace Memory

variable (m : Memory)

def pdes : Fin 1024 → BitVec 32 := fun d => m.words d

def entryAt (d i : Nat) : Nat := tableWord (frame (m.words d)) i

/-- The page-table entry an address translates through, 0 where there is no page table. -/
def pte (d i : Nat) : BitVec 32 :=
  if present (m.words d) then m.words (m.entryAt d i) else 0

def ptes : Fin 1024 × Fin 1024 → BitVec 32 := fun p => m.pte p.1 p.2

end Memory

def pointsTo (page : Nat) (e : BitVec 32) : Nat := if present e = true ∧ frame e = page then 1 else 0

/-- The users of a shared page beyond the one `mem_map` counts. -/
def sharers (page : Nat) (s : SharedPage) : Nat :=
  if s.physicalAddress = page ∧ s.count ≠ 0 then s.count.toNat - 1 else 0

namespace Memory

variable (m : Memory) (page : Nat)

def tables : Nat := total (pointsTo page) m.pdes

def mappings : Nat := total (pointsTo page) m.ptes

/-- How many references the kernel has on its books for a page, in `mem_map` and in the counts of the
    shared pages together. -/
def booked : Nat := (m.memMap (mapNr page)).toNat + total (sharers page) m.sharedPages

end Memory

/-- Memory with the references to pages that no page table shows: pages in flight between
    `get_free_page` and their page table, task structures, shared pages got and not attached. -/
structure Books where
  memory : Memory
  held : Nat → Nat

structure Sound (L : Layout) (m : Memory) (held : Nat → Nat) : Prop where
  high : m.highMemory = L.endMem
  reserved : ∀ i < pagingPages, ¬ L.Managed (i + lowMem) → m.memMap i ≠ 0
  single : ∀ page, m.tables page ≤ 1
  tablePage : ∀ page, 0 < m.tables page → L.Managed page ∨ 0 < page ∧ page < lowMem
  apart : ∀ page, lowMem ≤ page → 0 < m.tables page → m.mappings page = 0
  dataPage : ∀ page, 0 < m.mappings page → page < lowMem ∨ L.Managed page
  sharedPage : ∀ k, (m.sharedPages k).count ≠ 0 →
    L.Managed (m.sharedPages k).physicalAddress ∧ m.memMap (mapNr (m.sharedPages k).physicalAddress) ≠ 0
  distinct : ∀ j k, (m.sharedPages j).count ≠ 0 → (m.sharedPages k).count ≠ 0 →
    (m.sharedPages j).physicalAddress = (m.sharedPages k).physicalAddress → j = k
  balanced : ∀ page, L.Managed page → m.booked page = m.tables page + m.mappings page + held page

end Linux011.Mm

import Linux011.Mm.Views

namespace Linux011.Mm

open Linux011.Library

namespace Memory

/-- What `free_page` does, when it returns. -/
def unref (m : Memory) (page : Nat) : Memory := if page < lowMem then m else m.freed page

end Memory

/-- What can happen to the page tables: each function of the kernel is a sequence of these moves. -/
inductive Move
  | take (p : Nat)
  | drop (p : Nat)
  | fill (p : Nat) (content : Nat → BitVec 32)
  | newTable (d : Fin 1024) (t : Nat)
  | map (d i : Fin 1024) (p : Nat)
  | mapLow (d i : Fin 1024) (e : BitVec 32)
  | share (d i d' : Fin 1024)
  | grant (d i : Fin 1024)
  | copy (d i : Fin 1024) (p : Nat)
  | unmap (d i : Fin 1024)
  | dropTable (d : Fin 1024)
  | store (d i : Fin 1024) (j : Nat) (value : BitVec 32)
  | claim (k : Fin 64) (p : Nat)
  | get (k : Fin 64)

namespace Move

/-- Mark an entry read-only in both places, and count the page once more. -/
def shared (m : Memory) (src dst : Nat) : Memory :=
  let e := protect (m.words src)
  ((m.set dst e).set src e).setMap (frame e) (m.memMap (mapNr (frame e)) + 1)

def copied (m : Memory) (w p : Nat) : Memory :=
  let old := frame (m.words w)
  let m := m.take p
  let m := if lowMem ≤ old then m.setMap old (m.memMap (mapNr old) - 1) else m
  (m.set w (entry p)).copyPage old p

def unmapped (m : Memory) (w : Nat) : Memory :=
  (if present (m.words w) then m.unref (frame (m.words w)) else m).set w 0

def apply : Move → Books → Books
  | take p, ⟨m, held⟩ => ⟨m.take p, Function.update held p (held p + 1)⟩
  | drop p, ⟨m, held⟩ => ⟨m.freed p, Function.update held p (held p - 1)⟩
  | fill p content, ⟨m, held⟩ => ⟨m.fill p content, held⟩
  | newTable d t, ⟨m, held⟩ => ⟨(m.take t).set d (entry t), held⟩
  | map d i p, ⟨m, held⟩ =>
    ⟨m.set (m.entryAt d i) (entry p), fun page => held page + pointsTo page (m.pte d i) - pointsTo page (entry p)⟩
  | mapLow d i e, ⟨m, held⟩ => ⟨m.set (m.entryAt d i) e, held⟩
  | share d i d', ⟨m, held⟩ => ⟨shared m (m.entryAt d i) (m.entryAt d' i), held⟩
  | grant d i, ⟨m, held⟩ => ⟨m.set (m.entryAt d i) (m.pte d i ||| 2), held⟩
  | copy d i p, ⟨m, held⟩ => ⟨copied m (m.entryAt d i) p, held⟩
  | unmap d i, ⟨m, held⟩ => ⟨unmapped m (m.entryAt d i), held⟩
  | dropTable d, ⟨m, held⟩ => ⟨(m.unref (frame (m.words d))).set d 0, held⟩
  | store d i j value, ⟨m, held⟩ =>
    ⟨(m.set (tableWord (frame (m.pte d i)) j) value).set (m.entryAt d i) (touched (m.pte d i)), held⟩
  | claim k p, ⟨m, held⟩ => ⟨m.setShared k ⟨1, p⟩, held⟩
  | get k, ⟨m, held⟩ =>
    ⟨m.setShared k (m.sharedPages k).more,
      Function.update held (m.sharedPages k).physicalAddress (held (m.sharedPages k).physicalAddress + 1)⟩

/-- When the kernel makes a move. -/
def Legal (L : Layout) : Move → Books → Prop
  | take p, b => L.Managed p ∧ b.memory.memMap (mapNr p) = 0
  | drop p, b => L.Managed p ∧ 0 < b.held p
  | fill p _, b => L.Managed p ∧ b.memory.tables p = 0 ∧ b.memory.mappings p = 0
  | newTable d t, b => present (b.memory.words d) = false ∧ L.Managed t ∧ b.memory.memMap (mapNr t) = 0
  | map d _ p, b => present (b.memory.words d) = true ∧ L.Managed p ∧ b.memory.tables p = 0 ∧ 0 < b.held p
  | mapLow d i e, b => present (b.memory.words d) = true ∧ present (b.memory.pte d i) = false ∧
      present e = true ∧ frame e < lowMem ∧ writable e = false
  | share d i d', b => present (b.memory.pte d i) = true ∧ lowMem ≤ frame (b.memory.pte d i) ∧
      present (b.memory.words d') = true ∧ present (b.memory.pte d' i) = false ∧
      b.memory.memMap (mapNr (frame (b.memory.pte d i))) ≠ 255
  | grant d i, b => present (b.memory.pte d i) = true ∧ lowMem ≤ frame (b.memory.pte d i) ∧
      b.memory.memMap (mapNr (frame (b.memory.pte d i))) = 1
  | copy d i p, b => present (b.memory.pte d i) = true ∧ L.Managed p ∧ b.memory.memMap (mapNr p) = 0 ∧
      (lowMem ≤ frame (b.memory.pte d i) → b.memory.memMap (mapNr (frame (b.memory.pte d i))) ≠ 1)
  | unmap d _, b => present (b.memory.words d) = true
  | dropTable d, b => present (b.memory.words d) = true ∧
      ∀ i < 1024, b.memory.words (b.memory.entryAt d i) = 0
  | store d i j _, b => present (b.memory.pte d i) = true ∧ writable (b.memory.pte d i) = true ∧
      lowMem ≤ frame (b.memory.pte d i) ∧ j < 1024
  | claim k p, b => (b.memory.sharedPages k).count = 0 ∧ L.Managed p ∧ b.memory.memMap (mapNr p) ≠ 0 ∧
      ∀ j, (b.memory.sharedPages j).count ≠ 0 → (b.memory.sharedPages j).physicalAddress ≠ p
  | get k, b => (b.memory.sharedPages k).count ≠ 0 ∧ (b.memory.sharedPages k).count ≠ BitVec.allOnes 32

end Move

/-- Moves one after another, each allowed where it is made. -/
def Walk (L : Layout) (allowed : Move → Books → Prop) : Books → Books → Prop :=
  Relation.ReflTransGen fun b b' => ∃ move : Move, allowed move b ∧ move.Legal L b ∧ b' = move.apply b

end Linux011.Mm

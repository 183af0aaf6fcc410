import Linux011.Mm.Attach
import Linux011.Mm.Debug

namespace Linux011.Mm

namespace Caller

variable (p : Caller)

def shmat (shmid : BitVec 32) : Option (Caller × BitVec 32) :=
  (p.memory.sysShmat shmid p.linearAddress.toNat).map fun memory =>
    ({ p with memory := memory, brk := p.brk + 4096 }, p.brk)

/-- What the MMU makes of a logical address of the process. -/
def physical (logical : BitVec 32) : Option Nat :=
  p.memory.translate (BitVec.ofNat 32 (Memory.base p.nr) + logical).toNat

end Caller

/-- A page attached at `logicalAddress`, beside the pages that were mapped before. -/
structure AttachedAt (p q : Caller) (logicalAddress : BitVec 32) (page : Nat) : Prop where
  shared : ∀ k, k < 4096 → q.physical (logicalAddress + BitVec.ofNat 32 k) = some (page * 4096 + k)
  kept : ∀ d i : Fin 1024, present (p.memory.pte d i) = true →
    present (q.memory.pte d i) = true ∧ frame (q.memory.pte d i) = frame (p.memory.pte d i)

/-- The break is the start of a page, where nothing else is mapped. -/
structure Vacant (p : Caller) (page : Nat) : Prop where
  aligned : p.brk.toNat % 4096 = 0
  nothing : ∀ a, p.physical p.brk = some a → a = page * 4096

section Translation

variable {m : Memory} {linear page : Nat}

theorem translate_of_pte {d i : Fin 1024} (dir : linear / 0x400000 = d) (index : Memory.pageIndex linear = i) :
    m.translate linear = if present (m.pte d i) then some (frame (m.pte d i) * 4096 + linear % 4096) else none := by
  have word : m.entryWord linear = m.entryAt d i := by
    rw [Memory.entryWord, Memory.entryAt, dir, index]
  rw [Memory.translate, word, dir, Memory.pte]
  by_cases there : present (m.words d) = true
  · simp [there]
  · rw [if_neg fun both => there both.1, if_neg there, if_neg (by decide)]

theorem translate_same_page {other : Nat} (same : other / 4096 = linear / 4096)
    (found : m.translate linear = some (page * 4096 + linear % 4096)) :
    m.translate other = some (page * 4096 + other % 4096) := by
  have dir : other / 0x400000 = linear / 0x400000 := by omega
  have index : Memory.pageIndex other = Memory.pageIndex linear := by
    rw [Memory.pageIndex, Memory.pageIndex, same]
  rw [Memory.translate, Memory.entryWord, ← dir, ← index] at found
  rw [Memory.translate, Memory.entryWord]
  split at found
  · next there =>
    have frames := Option.some.inj found
    rw [if_pos there]
    exact congrArg some (by omega)
  · cases found

end Translation

section Attachment

variable {p q : Caller} {shmid logicalAddress : BitVec 32} {k : Fin 64}

/-- A successful call puts the shared page at the break and returns where that is. -/
theorem shmat_some (key : Memory.keyOf shmid = some k) (attached : p.shmat shmid = some (q, logicalAddress)) :
    p.memory.putPage (p.memory.sharedPages k).physicalAddress p.linearAddress.toNat = some q.memory ∧
      q.nr = p.nr ∧ logicalAddress = p.brk := by
  rcases Option.map_eq_some_iff.mp attached with ⟨m, mapped, same⟩
  cases same
  rw [Memory.sysShmat, key] at mapped
  dsimp only at mapped
  split at mapped
  · cases mapped
  · exact ⟨mapped, rfl, rfl⟩

theorem shmat_translates (tables : TablesInUse p.memory) (key : Memory.keyOf shmid = some k)
    (physical : (p.memory.sharedPages k).physicalAddress < 2 ^ 20)
    (attached : p.shmat shmid = some (q, logicalAddress)) :
    q.memory.translate p.linearAddress.toNat =
      some ((p.memory.sharedPages k).physicalAddress * 4096 + p.linearAddress.toNat % 4096) := by
  have small := p.linearAddress.isLt
  have dirs : p.linearAddress.toNat / 0x400000 < 1024 := by omega
  have apart : present (p.memory.words (p.linearAddress.toNat / 0x400000)) = true →
      frame (p.memory.words (p.linearAddress.toNat / 0x400000)) ≠ 0 := by
    intro there
    have use : 0 < p.memory.tables (frame (p.memory.words (p.linearAddress.toNat / 0x400000))) :=
      tables_pos ⟨_, dirs⟩ there
    exact (tables.tablePage _ use).ne'
  exact translate_putPage physical apart small (shmat_some key attached).1

theorem linearAddress_mod : p.linearAddress.toNat % 4096 = p.brk.toNat % 4096 := by
  have slot := p.nr.isLt
  rw [Caller.linearAddress, Memory.base, BitVec.toNat_add, BitVec.toNat_ofNat]
  omega

/-- An attached page is where it should be exactly when the break was vacant. -/
theorem attachedAt_iff_vacant (tables : TablesInUse p.memory) (key : Memory.keyOf shmid = some k)
    (physical : (p.memory.sharedPages k).physicalAddress < 2 ^ 20)
    (attached : p.shmat shmid = some (q, logicalAddress)) :
    AttachedAt p q logicalAddress (p.memory.sharedPages k).physicalAddress ↔
      Vacant p (p.memory.sharedPages k).physicalAddress := by
  have translated := shmat_translates tables key physical attached
  rcases shmat_some key attached with ⟨put, nr, rfl⟩
  have small := p.linearAddress.isLt
  have dirs : p.linearAddress.toNat / 0x400000 < 1024 := by omega
  have indices : Memory.pageIndex p.linearAddress.toNat < 1024 := Nat.mod_lt _ (by decide)
  have ptes := (tables.putPage (d := ⟨_, dirs⟩) (i := ⟨_, indices⟩) rfl rfl put).2.1
  have before := translate_of_pte (m := p.memory) (d := ⟨_, dirs⟩) (i := ⟨_, indices⟩) rfl rfl
  have new : q.memory.pte (⟨_, dirs⟩ : Fin 1024) (⟨_, indices⟩ : Fin 1024) =
      entry (p.memory.sharedPages k).physicalAddress := by
    have at_ := congrFun ptes (⟨_, dirs⟩, ⟨_, indices⟩)
    rw [Function.update_self] at at_
    exact at_
  have offset := linearAddress_mod (p := p)
  constructor
  · intro good
    have first := good.shared 0 (by decide)
    rw [BitVec.add_zero, Caller.physical, nr] at first
    have aligned := Option.some.inj (translated.symm.trans first)
    have start : p.brk.toNat % 4096 = 0 := by omega
    refine ⟨start, fun a found => ?_⟩
    have here : p.memory.translate p.linearAddress.toNat = some a := found
    rw [before] at here
    split at here
    · next there =>
      have same := (good.kept _ _ there).2
      rw [new, frame_entry physical] at same
      have is := Option.some.inj here
      omega
    · cases here
  · intro vacant
    have start : p.linearAddress.toNat % 4096 = 0 := offset.trans vacant.aligned
    constructor
    · intro n inside
      have address : (BitVec.ofNat 32 (Memory.base p.nr) + (p.brk + BitVec.ofNat 32 n)).toNat =
          p.linearAddress.toNat + n := by
        rw [← BitVec.add_assoc]
        change (p.linearAddress + BitVec.ofNat 32 n).toNat = _
        rw [BitVec.toNat_add, BitVec.toNat_ofNat]
        omega
      rw [Caller.physical, nr, address]
      have moved : q.memory.translate (p.linearAddress.toNat + n) =
          some ((p.memory.sharedPages k).physicalAddress * 4096 + (p.linearAddress.toNat + n) % 4096) :=
        translate_same_page (by omega) translated
      rw [moved]
      exact congrArg some (by omega)
    · intro d i there
      by_cases here : (d, i) = (⟨_, dirs⟩, ⟨_, indices⟩)
      · rcases Prod.mk.inj here with ⟨rfl, rfl⟩
        rw [if_pos there, start] at before
        have same := vacant.nothing _ before
        rw [new, frame_entry physical]
        exact ⟨present_entry _, by omega⟩
      · have other := congrFun ptes (d, i)
        rw [Function.update_of_ne here] at other
        change q.memory.pte d i = p.memory.pte d i at other
        rw [other]
        exact ⟨there, rfl⟩

end Attachment

section Examples

/-- A process that has made a shared page. -/
def sharing (brk : BitVec 32) : Caller := { nearStack with brk := brk }.call (.shmget 0 4096)

theorem sharing_tables (brk : BitVec 32) : TablesInUse (sharing brk).memory :=
  (nearStack_legal.tables.sysShmget 0 4096).1

theorem attachedAt_near_stack : ∃ q, AttachedAt (sharing 0x3ffa000) q 0x3ffa000 4093 := by
  have some : ((sharing 0x3ffa000).shmat 0).isSome = true := by decide +kernel
  rcases Option.isSome_iff_exists.mp some with ⟨⟨q, l⟩, attached⟩
  have returned : l = 0x3ffa000 := (shmat_some rfl attached).2.2
  have page : ((sharing 0x3ffa000).memory.sharedPages 0).physicalAddress = 4093 := by decide +kernel
  have free : (sharing 0x3ffa000).physical (sharing 0x3ffa000).brk = none := by decide +kernel
  have vacant : Vacant (sharing 0x3ffa000) ((sharing 0x3ffa000).memory.sharedPages 0).physicalAddress := by
    constructor
    · rfl
    · intro a found
      rw [free] at found
      cases found
  have good := (attachedAt_iff_vacant (sharing_tables _) rfl (by rw [page]; decide) attached).mpr vacant
  rw [page, returned] at good
  exact ⟨q, good⟩

/-- A break inside a page gives an address inside the shared page, and one at the stack replaces it. -/
theorem attached_elsewhere :
    (∃ q, (sharing 0x3ffa004).shmat 0 = some (q, 0x3ffa004) ∧ q.physical 0x3ffa004 = some (4093 * 4096 + 4) ∧
      ¬ AttachedAt (sharing 0x3ffa004) q 0x3ffa004 4093) ∧
    ∃ q, (sharing 0x3fff000).shmat 0 = some (q, 0x3fff000) ∧
      (sharing 0x3fff000).physical 0x3fff000 = some (4095 * 4096) ∧ q.physical 0x3fff000 = some (4093 * 4096) ∧
      ¬ AttachedAt (sharing 0x3fff000) q 0x3fff000 4093 := by
  have inside : ((sharing 0x3ffa004).shmat 0).any (fun out => out.2 = 0x3ffa004 ∧
      out.1.physical 0x3ffa004 = some (4093 * 4096 + 4)) = true := by decide +kernel
  have overrun : ((sharing 0x3fff000).shmat 0).any (fun out => out.2 = 0x3fff000 ∧
      (sharing 0x3fff000).physical 0x3fff000 = some (4095 * 4096) ∧
      out.1.physical 0x3fff000 = some (4093 * 4096) ∧
      present ((sharing 0x3fff000).memory.pte 31 1023) = true ∧
      frame (out.1.memory.pte 31 1023) ≠ frame ((sharing 0x3fff000).memory.pte 31 1023)) = true := by decide +kernel
  rcases (Option.any_eq_true _ _).mp inside with ⟨⟨q, l⟩, attached, found⟩
  rcases (Option.any_eq_true _ _).mp overrun with ⟨⟨q', l'⟩, attached', found'⟩
  rcases of_decide_eq_true found with ⟨rfl, first⟩
  rcases of_decide_eq_true found' with ⟨rfl, stack, replaced, there, lost⟩
  constructor
  · refine ⟨q, attached, first, fun good => ?_⟩
    have start := good.shared 0 (by decide)
    rw [show (0x3ffa004 : BitVec 32) + BitVec.ofNat 32 0 = 0x3ffa004 from rfl, first] at start
    exact absurd start (by decide)
  · exact ⟨q', attached', stack, replaced, fun good => lost (good.kept 31 1023 there).2⟩

end Examples

end Linux011.Mm

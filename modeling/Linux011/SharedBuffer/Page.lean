import Linux011.Mm.PageWalks
import Linux011.SharedBuffer.Program

namespace Linux011.SharedBuffer

open Linux011.Mm

/-- The shared page behind `key`, with its users: it is in use, and no other key records it. -/
structure Lent (m : Memory) (users page : Nat) : Prop where
  address : (m.sharedPages 8).physicalAddress = page
  count : (m.sharedPages 8).count.toNat = users
  alone : ∀ k, k ≠ 8 → (m.sharedPages k).count ≠ 0 → (m.sharedPages k).physicalAddress ≠ page
  low : lowMem ≤ page
  high : page < m.highMemory
  used : m.memMap (mapNr page) = 1

variable {m m' : Memory} {users page : Nat}

theorem keyOf_key : Memory.keyOf key = some 8 := by decide

theorem Lent.count_ne (lent : Lent m users page) (busy : users ≠ 0) : (m.sharedPages 8).count ≠ 0 := by
  intro zero
  have count := lent.count
  rw [zero] at count
  exact busy count.symm

theorem Lent.page_ne (lent : Lent m users page) : page ≠ 0 := by
  have low := lent.low
  unfold lowMem at low
  omega

theorem Lent.congr (lent : Lent m users page) (shared : m'.sharedPages = m.sharedPages)
    (high : m'.highMemory = m.highMemory) (map : m'.memMap = m.memMap) : Lent m' users page where
  address := by rw [shared]; exact lent.address
  count := by rw [shared]; exact lent.count
  alone := by rw [shared]; exact lent.alone
  low := lent.low
  high := by rw [high]; exact lent.high
  used := by rw [map]; exact lent.used

theorem Lent.attached (lent : Lent m users page) (busy : users ≠ 0) : attachedPage m key = some page := by
  simp only [attachedPage, keyOf_key, lent.count_ne busy, lent.address, lent.page_ne, or_self, if_false]

theorem Lent.recount (lent : Lent m users page) {count : BitVec 32} {users' : Nat} (moved : count.toNat = users') :
    Lent (m.setShared 8 ⟨count, (m.sharedPages 8).physicalAddress⟩) users' page where
  address := by simpa [Memory.setShared] using lent.address
  count := by simpa [Memory.setShared] using moved
  alone := by
    intro k other
    simpa [Memory.setShared, other] using lent.alone k other
  low := lent.low
  high := lent.high
  used := lent.used

theorem Lent.shmget {size : BitVec 32} (lent : Lent m users page) (busy : users ≠ 0)
    (few : users + 1 < 2 ^ 32) (small : ¬ (4096 : BitVec 32) < size) :
    ∃ m', m.sysShmget key size = (m', 8) ∧ m'.words = m.words ∧ Lent m' (users + 1) page := by
  refine ⟨m.setShared 8 (m.sharedPages 8).more, ?_, rfl, lent.recount ?_⟩
  · simp only [Memory.sysShmget, keyOf_key, small, if_false, lent.address, lent.page_ne, lent.count_ne busy,
      ne_eq, not_false_eq_true, and_self, if_true]
    rfl
  · have before := lent.count
    rw [BitVec.toNat_add, show (1 : BitVec 32).toNat = 1 from rfl]
    omega

theorem shmget_first {size : BitVec 32} (unused : (m.sharedPages 8).count = 0)
    (physical : ∀ i, m.memMap i = 0 → i + lowMem < m.highMemory)
    (inUse : ∀ k, (m.sharedPages k).count ≠ 0 → m.memMap (mapNr (m.sharedPages k).physicalAddress) ≠ 0)
    (small : ¬ (4096 : BitVec 32) < size) (left : m.getFreePage ≠ none) :
    ∃ m' page, m.sysShmget key size = (m', 8) ∧ Lent m' 1 page := by
  obtain ⟨⟨page, taken⟩, free⟩ := Option.ne_none_iff_exists'.mp left
  obtain ⟨i, scanned, same⟩ := Option.map_eq_some_iff.mp free
  obtain ⟨rfl, rfl⟩ := Prod.mk.inj same
  have zero := (scan_some scanned).2
  have map : mapNr (i + lowMem) = i := by
    unfold mapNr
    omega
  refine ⟨(m.take (i + lowMem)).setShared 8 ⟨(m.sharedPages 8).count + 1, i + lowMem⟩, i + lowMem, ?_, ?_⟩
  · have free_key : ¬ ((m.sharedPages 8).physicalAddress ≠ 0 ∧ (m.sharedPages 8).count ≠ 0) := fun busy => busy.2 unused
    rw [Memory.sysShmget, if_neg small, keyOf_key]
    dsimp only
    rw [if_neg free_key, free]
    rfl
  · constructor
    · simp [Memory.setShared]
    · simp [Memory.setShared, unused, Memory.take, Memory.setMap, Memory.fill]
    · intro k other count same
      simp only [Memory.setShared, Function.update_of_ne other] at count same
      apply inUse k count
      rw [show (m.sharedPages k).physicalAddress = i + lowMem from same, map, zero]
    · exact Nat.le_add_left _ _
    · exact physical i zero
    · simp [Memory.setShared, Memory.take, Memory.setMap, Memory.fill, map]

theorem Lent.freePage (lent : Lent m users page) (busy : users ≠ 0) :
    ∃ m', m.freePage page = .ok m' ∧ m'.words = m.words ∧ (users ≠ 1 → Lent m' (users - 1) page) := by
  have above := Nat.not_lt.mpr lent.low
  have below := Nat.not_le.mpr lent.high
  have used : m.memMap (mapNr page) ≠ 0 := by
    rw [lent.used]
    decide
  have given := freed_given m page
  refine ⟨m.freed page, by simp only [Memory.freePage, above, below, used, if_false, ne_eq, not_false_eq_true, if_true], given.words, ?_⟩
  intro others
  have pred := pred_toNat (lent.count_ne busy)
  have count := lent.count
  have key_of (k : Fin 64) (here : (m.sharedPages k).physicalAddress = page) (live : (m.sharedPages k).count ≠ 0) :
      k = 8 := by
    by_contra other
    exact lent.alone k other live here
  generalize m.freed page = after at given
  cases given with
  | own alone => exact absurd lent.address (alone 8 (lent.count_ne busy))
  | shared k here live others =>
    obtain rfl := key_of k here live
    exact lent.recount (by omega)
  | last k here live only =>
    obtain rfl := key_of k here live
    have less : (m.sharedPages 8).less.count.toNat = 0 := by rw [only]; rfl
    have same : (m.sharedPages 8).less.count = (m.sharedPages 8).count - 1 := rfl
    rw [same] at less
    omega

end Linux011.SharedBuffer

import Linux011.Mm.Moves

namespace Linux011.Mm

open Linux011.Library

variable {L : Layout} {m m' : Memory} {held : Nat → Nat}

section Counts

theorem tables_eq {page : Nat} (same : m'.pdes = m.pdes) : m'.tables page = m.tables page := by
  rw [Memory.tables, same]
  rfl

theorem mappings_eq {page : Nat} (same : m'.ptes = m.ptes) : m'.mappings page = m.mappings page := by
  rw [Memory.mappings, same]
  rfl

theorem mappings_update {d i : Fin 1024} {e : BitVec 32} (page : Nat)
    (changed : m'.ptes = Function.update m.ptes (d, i) e) :
    m'.mappings page + pointsTo page (m.pte d i) = m.mappings page + pointsTo page e := by
  rw [Memory.mappings, changed]
  exact total_update (pointsTo page) m.ptes (d, i) e

theorem tables_update {d : Fin 1024} {e : BitVec 32} (page : Nat)
    (changed : m'.pdes = Function.update m.pdes d e) :
    m'.tables page + pointsTo page (m.words d) = m.tables page + pointsTo page e := by
  rw [Memory.tables, changed]
  exact total_update (pointsTo page) m.pdes d e

theorem mapNr_inj {p q : Nat} (above : lowMem ≤ p) (above' : lowMem ≤ q) (same : mapNr p = mapNr q) :
    p = q := by
  unfold mapNr at same
  omega

theorem mapNr_add (i : Nat) : mapNr (i + lowMem) = i := by
  unfold mapNr
  exact Nat.add_sub_cancel _ _

@[simp] theorem setMap_shared {p : Nat} {n : BitVec 8} : (m.setMap p n).sharedPages = m.sharedPages := rfl

theorem setMap_same {p : Nat} {n : BitVec 8} : (m.setMap p n).memMap (mapNr p) = n := Function.update_self _ _ _

theorem setMap_elsewhere {p i : Nat} {n : BitVec 8} (apart : i ≠ mapNr p) :
    (m.setMap p n).memMap i = m.memMap i := Function.update_of_ne apart _ _

theorem setMap_other {p q : Nat} {n : BitVec 8} (above : lowMem ≤ p) (above' : lowMem ≤ q) (apart : q ≠ p) :
    (m.setMap p n).memMap (mapNr q) = m.memMap (mapNr q) :=
  setMap_elsewhere fun same => apart (mapNr_inj above' above same)

theorem setShared_same {k : Fin 64} {s : SharedPage} : (m.setShared k s).sharedPages k = s :=
  Function.update_self _ _ _

theorem booked_set {w : Nat} {e : BitVec 32} (page : Nat) : (m.set w e).booked page = m.booked page := rfl

theorem booked_setMap {p : Nat} {n : BitVec 8} (above : lowMem ≤ p) {page : Nat} (above' : lowMem ≤ page) :
    (m.setMap p n).booked page + (if page = p then (m.memMap (mapNr p)).toNat else 0) =
      m.booked page + (if page = p then n.toNat else 0) := by
  unfold Memory.booked
  have shared : (m.setMap p n).sharedPages = m.sharedPages := rfl
  by_cases same : page = p
  · subst same
    rw [setMap_same, shared, if_pos rfl, if_pos rfl]
    omega
  · rw [setMap_other above above' same, shared, if_neg same, if_neg same]

theorem booked_setShared {k : Fin 64} {s : SharedPage} (page : Nat) :
    (m.setShared k s).booked page + sharers page (m.sharedPages k) = m.booked page + sharers page s := by
  unfold Memory.booked
  have shared := total_update (sharers page) m.sharedPages k s
  show (m.memMap (mapNr page)).toNat + total (sharers page) (Function.update m.sharedPages k s) + _ = _
  omega

theorem sharers_live {s : SharedPage} (live : s.count ≠ 0) (page : Nat) :
    sharers page s = if page = s.physicalAddress then s.count.toNat - 1 else 0 := by
  by_cases same : page = s.physicalAddress
  · rw [sharers, if_pos same, if_pos ⟨same.symm, live⟩]
  · rw [sharers, if_neg same, if_neg fun both => same both.1.symm]

theorem sharers_dead {s : SharedPage} (dead : s.count = 0) (page : Nat) : sharers page s = 0 :=
  if_neg fun both => both.2 dead

end Counts

namespace Sound

variable (sound : Sound L m held)

include sound

theorem free {p : Nat} (managed : L.Managed p) (free : m.memMap (mapNr p) = 0) :
    m.tables p = 0 ∧ m.mappings p = 0 ∧ held p = 0 ∧ m.booked p = 0 := by
  have balanced := sound.balanced p managed
  have unshared : total (sharers p) m.sharedPages = 0 := by
    apply (total_eq_zero_iff _ _).mpr
    intro k
    apply if_neg
    intro ⟨same, live⟩
    have inUse := (sound.sharedPage k live).2
    rw [same] at inUse
    exact inUse free
  have none : m.booked p = 0 := by
    rw [Memory.booked, free, unshared]
    rfl
  omega

theorem mapped_used {p : Nat} (managed : L.Managed p)
    (used : 0 < m.tables p + m.mappings p + held p) : m.memMap (mapNr p) ≠ 0 := by
  intro free
  have none := sound.free managed free
  omega

theorem mapped_managed {d i : Fin 1024} (here : present (m.pte d i) = true)
    (high : lowMem ≤ frame (m.pte d i)) : L.Managed (frame (m.pte d i)) := by
  rcases sound.dataPage _ (mappings_pos d i here) with low | managed
  · omega
  · exact managed

theorem mapped_plain {d i : Fin 1024} (here : present (m.pte d i) = true)
    (high : lowMem ≤ frame (m.pte d i)) : m.tables (frame (m.pte d i)) = 0 := by
  by_contra use
  have none := sound.apart _ high (Nat.pos_of_ne_zero use)
  have mapped := mappings_pos d i here
  omega

end Sound

section Freed

variable {p : Nat}

/-- The two ways `free_page` gives up a page in use. -/
inductive Given (m : Memory) (p : Nat) : Memory → Prop
  | own (unshared : ∀ k, (m.sharedPages k).count ≠ 0 → (m.sharedPages k).physicalAddress ≠ p) :
      Given m p (m.setMap p (m.memMap (mapNr p) - 1))
  | shared (k : Fin 64) (here : (m.sharedPages k).physicalAddress = p) (live : (m.sharedPages k).count ≠ 0)
      (others : (m.sharedPages k).less.count ≠ 0) : Given m p (m.setShared k (m.sharedPages k).less)
  | last (k : Fin 64) (here : (m.sharedPages k).physicalAddress = p) (live : (m.sharedPages k).count ≠ 0)
      (only : (m.sharedPages k).less.count = 0) :
      Given m p ((m.setShared k (m.sharedPages k).less).setMap p (m.memMap (mapNr p) - 1))

theorem freed_given (m : Memory) (p : Nat) : Given m p (m.freed p) := by
  unfold Memory.freed Memory.releaseSharedPageIfExists
  split
  rename_i last after found
  split at found
  · rename_i none
    obtain ⟨rfl, rfl⟩ := Prod.mk.inj found
    rw [if_pos rfl]
    apply Given.own
    intro k live here
    have missed := List.find?_eq_none.mp none k (List.mem_finRange k)
    exact missed (decide_eq_true ⟨here, live⟩)
  · rename_i k some
    have here := List.find?_some some
    simp only [decide_eq_true_eq] at here
    simp only [Prod.mk.injEq] at found
    obtain ⟨rfl, rfl⟩ := found
    by_cases only : (m.sharedPages k).less.count = 0
    · rw [if_pos (by simpa using only)]
      exact .last k here.1 here.2 only
    · rw [if_neg (by simpa using only)]
      exact .shared k here.1 here.2 only

theorem Given.words (given : Given m p m') : m'.words = m.words := by
  cases given <;> rfl

theorem Given.high (given : Given m p m') : m'.highMemory = m.highMemory := by
  cases given <;> rfl

theorem pred_toNat {w : Nat} {n : BitVec w} (positive : n ≠ 0) : (n - 1).toNat + 1 = n.toNat := by
  have bound := n.isLt
  have nonzero : n.toNat ≠ 0 := fun zero => positive (BitVec.eq_of_toNat_eq zero)
  have width : 1 < 2 ^ w := by omega
  have one : (1 : BitVec w).toNat = 1 := by
    simp only [BitVec.ofNat_eq_ofNat, BitVec.toNat_ofNat]
    exact Nat.mod_eq_of_lt width
  rw [BitVec.toNat_sub, one]
  have wrap : 2 ^ w - 1 + n.toNat = (n.toNat - 1) + 2 ^ w := by omega
  rw [wrap, Nat.add_mod_right, Nat.mod_eq_of_lt (by omega)]
  omega

theorem Given.booked (given : Given m p m') (above : lowMem ≤ p) (inUse : m.memMap (mapNr p) ≠ 0)
    {page : Nat} (above' : lowMem ≤ page) :
    m'.booked page + (if page = p then 1 else 0) = m.booked page := by
  have pred := pred_toNat inUse
  cases given with
  | own =>
    have moved := booked_setMap (m := m) (n := m.memMap (mapNr p) - 1) above above'
    by_cases same : page = p
    · simp only [same, if_true] at moved ⊢
      omega
    · simp only [same, if_false] at moved ⊢
      omega
  | shared k here live others =>
    subst here
    have moved := booked_setShared (m := m) (k := k) (s := (m.sharedPages k).less) page
    have less : (m.sharedPages k).less.count.toNat + 1 = (m.sharedPages k).count.toNat := pred_toNat live
    have more : (m.sharedPages k).less.count.toNat ≠ 0 := fun zero => others (BitVec.eq_of_toNat_eq zero)
    rw [sharers_live live, sharers_live others] at moved
    by_cases same : page = (m.sharedPages k).physicalAddress
    · rw [if_pos same] at moved ⊢
      rw [if_pos (show page = (m.sharedPages k).less.physicalAddress from same)] at moved
      omega
    · rw [if_neg same] at moved ⊢
      rw [if_neg (show page ≠ (m.sharedPages k).less.physicalAddress from same)] at moved
      omega
  | last k here live only =>
    subst here
    have gone := booked_setShared (m := m) (k := k) (s := (m.sharedPages k).less) page
    have moved := booked_setMap (m := m.setShared k (m.sharedPages k).less)
      (n := m.memMap (mapNr (m.sharedPages k).physicalAddress) - 1) above above'
    have less : (m.sharedPages k).less.count.toNat + 1 = (m.sharedPages k).count.toNat := pred_toNat live
    have same_map : (m.setShared k (m.sharedPages k).less).memMap = m.memMap := rfl
    have zero : (0 : BitVec 32).toNat = 0 := rfl
    rw [only, zero] at less
    rw [sharers_live live, sharers_dead only] at gone
    rw [same_map] at moved
    by_cases same : page = (m.sharedPages k).physicalAddress
    · rw [if_pos same] at gone moved ⊢
      rw [if_pos same] at moved
      omega
    · rw [if_neg same] at gone moved ⊢
      rw [if_neg same] at moved
      omega

end Freed

end Linux011.Mm

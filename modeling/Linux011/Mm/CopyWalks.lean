import Linux011.Mm.Order

namespace Linux011.Mm

open Linux011.Library

variable {L : Layout} {m m' : Memory} {held : Nat → Nat}

/-- Entries that map the same page, and agree whether it is clean. -/
def Alike (e e' : BitVec 32) : Prop :=
  present e = present e' ∧ (present e = true → frame e = frame e' ∧ dirty e = dirty e')

namespace Alike

variable {e e' e'' : BitVec 32}

theorem refl (e : BitVec 32) : Alike e e := ⟨rfl, fun _ => ⟨rfl, rfl⟩⟩

theorem symm (alike : Alike e e') : Alike e' e :=
  ⟨alike.1.symm, fun here => ⟨(alike.2 (alike.1 ▸ here)).1.symm, (alike.2 (alike.1 ▸ here)).2.symm⟩⟩

theorem trans (first : Alike e e') (second : Alike e' e'') : Alike e e'' :=
  ⟨first.1.trans second.1, fun here =>
    ⟨(first.2 here).1.trans (second.2 (first.1 ▸ here)).1, (first.2 here).2.trans (second.2 (first.1 ▸ here)).2⟩⟩

theorem protect (e : BitVec 32) : Alike (protect e) e :=
  ⟨present_protect e, fun _ => ⟨frame_protect e, dirty_protect e⟩⟩

theorem absent (none : present e = false) (none' : present e' = false) : Alike e e' :=
  ⟨none.trans none'.symm, fun here => by rw [none] at here; cases here⟩

theorem pointsTo (alike : Alike e e') (page : Nat) : pointsTo page e = pointsTo page e' := by
  by_cases here : present e = true
  · exact pointsTo_congr alike.1 (alike.2 here).1
  · have none : present e = false := by simpa using here
    rw [pointsTo_absent none, pointsTo_absent (alike.1 ▸ none)]

end Alike

section Share

variable {d d' i : Fin 1024}

theorem shared_count (here : present (m.words d) = true) (d' i : Fin 1024) :
    (Move.shared m (m.entryAt d i) (m.entryAt d' i)).memMap =
      (m.setMap (frame (m.pte d i)) (m.memMap (mapNr (frame (m.pte d i))) + 1)).memMap := by
  unfold Move.shared
  rw [word_of_pte here]
  simp only [frame_protect]
  rfl

theorem above_low {e : BitVec 32} (here : present e = true) :
    (0x100000 : BitVec 32) < protect e ↔ lowMem ≤ frame e := by
  rw [← frame_protect, frame_div, BitVec.lt_def]
  have odd : (protect e).toNat % 2 = 1 := by
    rw [← present_protect, present_bit] at here
    rw [BitVec.getLsbD, Nat.testBit_zero] at here
    simpa using here
  simp only [lowMem, BitVec.reduceToNat]
  omega

theorem copyEntry_eq (m : Memory) (here : present (m.words d) = true) (d' i : Fin 1024) :
    m.copyEntry (m.entryAt d i) (m.entryAt d' i) =
      if present (m.pte d i) then
        if lowMem ≤ frame (m.pte d i) then Move.shared m (m.entryAt d i) (m.entryAt d' i)
        else m.set (m.entryAt d' i) (protect (m.pte d i))
      else m := by
  unfold Memory.copyEntry Move.shared
  rw [word_of_pte here]
  by_cases mapped : present (m.pte d i) = true
  · rw [if_pos mapped, if_pos mapped]
    simp only [above_low mapped]
    rfl
  · rw [if_neg mapped, if_neg mapped]

end Share

def dirOf (slot : Fin 64) (k : Fin 16) : Fin 1024 := ⟨16 * slot + k, by omega⟩

theorem dirOf_div (slot : Fin 64) (k : Fin 16) : (dirOf slot k).val / 16 = slot := by
  show (16 * slot.val + k.val) / 16 = slot
  omega

theorem dirOf_mod (slot : Fin 64) (k : Fin 16) : (dirOf slot k).val % 16 = k := by
  show (16 * slot.val + k.val) % 16 = k
  omega

theorem dirOf_inj {slot slot' : Fin 64} {k k' : Fin 16} (same : dirOf slot k = dirOf slot' k') :
    slot = slot' ∧ k = k' := by
  have div := congrArg (fun d : Fin 1024 => d.val / 16) same
  have mod := congrArg (fun d : Fin 1024 => d.val % 16) same
  simp only [dirOf_div, dirOf_mod] at div mod
  exact ⟨Fin.ext div, Fin.ext mod⟩

theorem dirOf_surjective (d : Fin 1024) : ∃ r j, d = dirOf r j :=
  ⟨⟨d.val / 16, by omega⟩, ⟨d.val % 16, by omega⟩, Fin.ext (by show d.val = 16 * (d.val / 16) + d.val % 16; omega)⟩

def windowOf (ptes : Fin 1024 × Fin 1024 → BitVec 32) (slot : Fin 64) : Fin 16 × Fin 1024 → BitVec 32 :=
  fun p => ptes (dirOf slot p.1, p.2)

namespace Memory

variable (m : Memory) (slot : Fin 64)

def window : Fin 16 × Fin 1024 → BitVec 32 := windowOf m.ptes slot

def uses (page : Nat) : Nat := total (pointsTo page) (m.window slot)

def copied (k n : Nat) : Fin 16 × Fin 1024 → BitVec 32 :=
  fun p => if p.1.val < k ∨ p.1.val = k ∧ p.2.val < n then m.window slot p else 0

end Memory

section Window

variable {slot other : Fin 64} {k : Fin 16} {i : Fin 1024} {e : BitVec 32}

theorem window_pte (m : Memory) (slot : Fin 64) (k : Fin 16) (i : Fin 1024) :
    m.window slot (k, i) = m.pte (dirOf slot k) i := rfl

theorem windowOf_same (ptes : Fin 1024 × Fin 1024 → BitVec 32) :
    windowOf (Function.update ptes (dirOf slot k, i) e) slot =
      Function.update (windowOf ptes slot) (k, i) e := by
  funext p
  by_cases same : p = (k, i)
  · subst same
    rw [Function.update_self]
    exact Function.update_self _ _ _
  · rw [Function.update_of_ne same]
    apply Function.update_of_ne
    intro equal
    obtain ⟨dir, index⟩ := Prod.mk.inj equal
    exact same (Prod.ext (dirOf_inj dir).2 index)

theorem windowOf_other (apart : other ≠ slot) (ptes : Fin 1024 × Fin 1024 → BitVec 32) :
    windowOf (Function.update ptes (dirOf slot k, i) e) other = windowOf ptes other := by
  funext p
  apply Function.update_of_ne
  intro equal
  exact apart (dirOf_inj (Prod.mk.inj equal).1).1

theorem copied_next (m : Memory) (slot : Fin 64) (k : Fin 16) (i : Fin 1024) :
    m.copied slot k (i + 1) = Function.update (m.copied slot k i) (k, i) (m.window slot (k, i)) := by
  funext p
  by_cases same : p = (k, i)
  · subst same
    rw [Function.update_self]
    exact if_pos (.inr ⟨rfl, Nat.lt_succ_self _⟩)
  · rw [Function.update_of_ne same]
    have elsewhere : ¬ (p.1.val = k ∧ p.2.val = i) := fun both => same (Prod.ext (Fin.ext both.1) (Fin.ext both.2))
    unfold Memory.copied
    congr 1
    simp only [eq_iff_iff]
    omega

theorem copied_total (m : Memory) (slot : Fin 64) (k : Fin 16) (i : Fin 1024) (page : Nat) :
    total (pointsTo page) (m.copied slot k (i + 1)) =
      total (pointsTo page) (m.copied slot k i) + pointsTo page (m.window slot (k, i)) := by
  have moved := total_update (pointsTo page) (m.copied slot k i) (k, i) (m.window slot (k, i))
  have zero : m.copied slot k i (k, i) = 0 := if_neg (by simp)
  have none := pointsTo_zero page
  rw [zero] at moved
  rw [copied_next]
  omega

theorem uses_le_mappings (m : Memory) (slot : Fin 64) (page : Nat) : m.uses slot page ≤ m.mappings page := by
  apply total_comp_le _ _ fun x : Fin 16 × Fin 1024 => (dirOf slot x.1, x.2)
  intro x y same
  have parts := Prod.mk.inj same
  exact Prod.ext (dirOf_inj parts.1).2 parts.2

theorem copied_le (m : Memory) (slot : Fin 64) (k n : Nat) (page : Nat) :
    total (pointsTo page) (m.copied slot k n) ≤ m.uses slot page := by
  apply total_mono
  intro p
  unfold Memory.copied
  split
  · exact Nat.le_refl _
  · rw [pointsTo_zero]
    exact Nat.zero_le _

theorem copied_mono (m : Memory) (slot : Fin 64) {k n k' n' : Nat} (page : Nat)
    (later : k < k' ∨ k = k' ∧ n ≤ n') :
    total (pointsTo page) (m.copied slot k n) ≤ total (pointsTo page) (m.copied slot k' n') := by
  apply total_mono
  intro p
  unfold Memory.copied
  split
  · rw [if_pos (by omega)]
  · rw [pointsTo_zero]
    exact Nat.zero_le _

end Window

section Copying

variable {s nr : Fin 64}

/-- How far `copy_page_tables` has come: the entries it has been through map the same pages for both tasks,
    and `mem_map` has grown by no more than them. -/
structure Copying (L : Layout) (held : Nat → Nat) (m : Memory) (s nr : Fin 64) (limit k n : Nat) (m' : Memory) :
    Prop where
  walk : Walk L (Move.own (windowAt nr)) ⟨m, held⟩ ⟨m', held⟩
  source : ∀ p, Alike (m'.window s p) (m.window s p)
  alike : ∀ p : Fin 16 × Fin 1024, p.1.val < k ∨ p.1.val = k ∧ p.2.val < n → p.2.val < limit →
    Alike (m'.window nr p) (m'.window s p)
  room : ∀ page, lowMem ≤ page → m.memMap (mapNr page) ≠ 0 → (m'.memMap (mapNr page)).toNat ≤
    (m.memMap (mapNr page)).toNat + total (pointsTo page) (m.copied s k n)

/-- The same while both page tables are there, and the new one is empty from here on. -/
structure CopyingTable (L : Layout) (held : Nat → Nat) (m : Memory) (s nr : Fin 64) (limit : Nat) (k : Fin 16)
    (tables : Nat × Nat) (n : Nat) (m' : Memory) : Prop extends Copying L held m s nr limit k n m' where
  tables : (frame (m'.words (dirOf s k)), frame (m'.words (dirOf nr k))) = tables
  here : present (m'.words (dirOf s k)) = true
  here' : present (m'.words (dirOf nr k)) = true
  blank : ∀ i : Fin 1024, n ≤ i → present (m'.window nr (k, i)) = false

variable {limit : Nat} {k : Fin 16} {tables : Nat × Nat} {i : Fin 1024} {m'' : Memory}

theorem CopyingTable.advance (copying : CopyingTable L held m s nr limit k tables i m')
    (walk : Walk L (Move.own (windowAt nr)) ⟨m', held⟩ ⟨m'', held⟩) (pdes : m''.pdes = m'.pdes)
    (dest : Alike (m''.window nr (k, i)) (m''.window s (k, i)))
    (source : Alike (m''.window s (k, i)) (m'.window s (k, i)))
    (others : ∀ p, p ≠ (k, i) → m''.window nr p = m'.window nr p ∧ m''.window s p = m'.window s p)
    (counted : ∀ page, lowMem ≤ page → (m''.memMap (mapNr page)).toNat ≤
      (m'.memMap (mapNr page)).toNat + pointsTo page (m'.window s (k, i))) :
    CopyingTable L held m s nr limit k tables (i + 1) m'' := by
  have source_dir : m''.words (dirOf s k) = m'.words (dirOf s k) := congrFun pdes _
  have dest_dir : m''.words (dirOf nr k) = m'.words (dirOf nr k) := congrFun pdes _
  constructor
  case tables =>
    rw [source_dir, dest_dir]
    exact copying.tables
  case here =>
    rw [source_dir]
    exact copying.here
  case here' =>
    rw [dest_dir]
    exact copying.here'
  case blank =>
    intro j beyond
    rw [(others (k, j) (by rintro ⟨⟩; omega)).1]
    exact copying.blank j (by omega)
  constructor
  case walk => exact copying.walk.append walk
  case source =>
    intro p
    by_cases same : p = (k, i)
    · rw [same]
      exact source.trans (copying.source _)
    · rw [(others p same).2]
      exact copying.source p
  case alike =>
    intro p before inside
    by_cases same : p = (k, i)
    · rw [same]
      exact dest
    · rw [(others p same).1, (others p same).2]
      have elsewhere : ¬ (p.1.val = k ∧ p.2.val = i) := fun both => same (Prod.ext (Fin.ext both.1) (Fin.ext both.2))
      exact copying.alike p (by omega) inside
  case room =>
    intro page above inUse
    have before := copying.room page above inUse
    have more := counted page above
    rw [(copying.source (k, i)).pointsTo] at more
    rw [copied_total]
    omega

/-- Room in `mem_map` for a copy of all a task maps. -/
def Memory.Room (m : Memory) (slot : Fin 64) : Prop :=
  ∀ page, lowMem ≤ page → 0 < m.uses slot page → (m.memMap (mapNr page)).toNat + m.uses slot page ≤ 255

theorem CopyingTable.room_at (copying : CopyingTable L held m s nr limit k tables i m') (sound : Sound L m held)
    (room : m.Room s) (mapped : present (m'.window s (k, i)) = true)
    (above : lowMem ≤ frame (m'.window s (k, i))) :
    m'.memMap (mapNr (frame (m'.window s (k, i)))) ≠ 255 := by
  have same := copying.source (k, i)
  have mapped₀ : present (m.pte (dirOf s k) i) = true := same.1 ▸ mapped
  have frame₀ : frame (m'.window s (k, i)) = frame (m.pte (dirOf s k) i) := (same.2 mapped).1
  rw [frame₀] at above ⊢
  have use := mappings_pos (dirOf s k) i mapped₀
  have inUse := sound.mapped_used (sound.mapped_managed mapped₀ above) (by omega)
  have now := copying.room _ above inUse
  have one : pointsTo (frame (m.pte (dirOf s k) i)) (m.window s (k, i)) = 1 := pointsTo_self mapped₀
  have next := copied_total m s k i (frame (m.pte (dirOf s k) i))
  have bound := copied_le m s k (i + 1) (frame (m.pte (dirOf s k) i))
  have limit := room _ above (by omega)
  intro full
  rw [full] at now
  have full' : (255 : BitVec 8).toNat = 255 := rfl
  omega

theorem CopyingTable.share (copying : CopyingTable L held m s nr limit k tables i m') (sound : Sound L m held)
    (apart : s ≠ nr) (room : m.Room s) (mapped : present (m'.window s (k, i)) = true)
    (above : lowMem ≤ frame (m'.window s (k, i))) :
    CopyingTable L held m s nr limit k tables (i + 1)
      (Move.shared m' (m'.entryAt (dirOf s k) i) (m'.entryAt (dirOf nr k) i)) := by
  have sound' : Sound L m' held := copying.walk.sound sound
  have room' := copying.room_at sound room mapped above
  have absent : present (m'.pte (dirOf nr k) i) = false := copying.blank i (Nat.le_refl _)
  have views := sound'.laid.share_views mapped copying.here'
  have dest : (Move.shared m' (m'.entryAt (dirOf s k) i) (m'.entryAt (dirOf nr k) i)).window nr =
      Function.update (m'.window nr) (k, i) (protect (m'.window s (k, i))) := by
    rw [Memory.window, views.2, windowOf_other apart.symm, windowOf_same]
    rfl
  have source : (Move.shared m' (m'.entryAt (dirOf s k) i) (m'.entryAt (dirOf nr k) i)).window s =
      Function.update (m'.window s) (k, i) (protect (m'.window s (k, i))) := by
    rw [Memory.window, views.2, windowOf_same, windowOf_other apart]
    rfl
  apply copying.advance
  · exact .one (.share (dirOf s k) i (dirOf nr k))
      ⟨dirOf_div nr k, (dirOf_mod s k).trans (dirOf_mod nr k).symm⟩
      ⟨mapped, above, copying.here', absent, room'⟩
  · exact views.1
  · rw [dest, source, Function.update_self, Function.update_self]
    exact .refl _
  · rw [source, Function.update_self]
    exact .protect _
  · intro p other
    rw [dest, source, Function.update_of_ne other, Function.update_of_ne other]
    exact ⟨rfl, rfl⟩
  · intro page high
    rw [shared_count copying.here]
    by_cases same : page = frame (m'.window s (k, i))
    · rw [same, pointsTo_self mapped]
      show ((m'.setMap (frame (m'.window s (k, i))) _).memMap _).toNat ≤ _
      rw [← window_pte, setMap_same, succ_toNat room']
    · show ((m'.setMap (frame (m'.window s (k, i))) _).memMap _).toNat ≤ _
      rw [setMap_other above high same]
      exact Nat.le_add_right _ _

theorem CopyingTable.entry (copying : CopyingTable L held m s nr limit k tables i m') (sound : Sound L m held)
    (apart : s ≠ nr) (room : m.Room s) : CopyingTable L held m s nr limit k tables (i + 1)
      (m'.copyEntry (m'.entryAt (dirOf s k) i) (m'.entryAt (dirOf nr k) i)) := by
  have sound' : Sound L m' held := copying.walk.sound sound
  have absent : present (m'.pte (dirOf nr k) i) = false := copying.blank i (Nat.le_refl _)
  rw [copyEntry_eq m' copying.here]
  split
  · rename_i mapped
    split
    · rename_i above
      exact copying.share sound apart room mapped above
    · rename_i low
      have ptes := sound'.laid.set_ptes copying.here' i (protect (m'.pte (dirOf s k) i))
      have dest : (m'.set (m'.entryAt (dirOf nr k) i) (protect (m'.pte (dirOf s k) i))).window nr =
          Function.update (m'.window nr) (k, i) (protect (m'.window s (k, i))) := by
        rw [Memory.window, ptes, windowOf_same]
        rfl
      have source : (m'.set (m'.entryAt (dirOf nr k) i) (protect (m'.pte (dirOf s k) i))).window s = m'.window s := by
        rw [Memory.window, ptes, windowOf_other apart]
        rfl
      apply copying.advance
      · exact .one (.mapLow (dirOf nr k) i (protect (m'.pte (dirOf s k) i))) (dirOf_div nr k)
          ⟨copying.here', absent, (present_protect _).trans mapped, by rw [frame_protect]; omega,
            writable_protect _⟩
      · exact sound'.laid.set_pdes copying.here' i _
      · rw [dest, source, Function.update_self]
        exact .protect _
      · rw [source]
        exact .refl _
      · intro p other
        rw [dest, source, Function.update_of_ne other]
        exact ⟨rfl, rfl⟩
      · exact fun _ _ => Nat.le_add_right _ _
  · rename_i unmapped
    apply copying.advance .none rfl
    · exact .absent absent (Bool.eq_false_of_not_eq_true unmapped)
    · exact .refl _
    · exact fun _ _ => ⟨rfl, rfl⟩
    · exact fun _ _ => Nat.le_add_right _ _

theorem pte_without_table {d i : Nat} (absent : present (m.words d) = false) : m.pte d i = 0 :=
  if_neg (by rw [absent]; decide)

theorem Copying.newTable (copying : Copying L held m s nr limit k 0 m') (sound : Sound L m held)
    (here : present (m'.words (dirOf s k)) = true) (absent : present (m'.words (dirOf nr k)) = false) {t : Nat}
    (managed : L.Managed t) (free : m'.memMap (mapNr t) = 0) :
    CopyingTable L held m s nr limit k (frame (m'.words (dirOf s k)), t) 0
      ((m'.take t).set (dirOf nr k) (entry t)) := by
  have sound' : Sound L m' held := copying.walk.sound sound
  have tabled := sound'.newTable_tabled absent managed free
  have window (slot : Fin 64) : ((m'.take t).set (dirOf nr k) (entry t)).window slot = m'.window slot := by
    rw [Memory.window, tabled.ptes]
    rfl
  constructor
  case tables => rw [tabled.kept _ here, tabled.table]
  case here =>
    rw [tabled.kept _ here]
    exact here
  case here' => exact tabled.here
  case blank =>
    intro i _
    rw [window, window_pte, pte_without_table absent, present_zero]
  constructor
  case walk => exact copying.walk.append (tabled.walk.mono (Move.own_mono (Set.empty_subset _)))
  case source =>
    intro p
    rw [window]
    exact copying.source p
  case alike =>
    intro p before inside
    rw [window, window]
    exact copying.alike p before inside
  case room =>
    intro page above inUse
    by_cases same : page = t
    · subst same
      have positive : (m.memMap (mapNr page)).toNat ≠ 0 := fun zero => inUse (BitVec.eq_of_toNat_eq zero)
      show ((m'.setMap page 1).memMap (mapNr page)).toNat ≤ _
      rw [setMap_same, show (1 : BitVec 8).toNat = 1 from rfl]
      omega
    · show ((m'.setMap t 1).memMap (mapNr page)).toNat ≤ _
      rw [setMap_other managed.physical.1 above same]
      exact copying.room page above inUse

theorem CopyingTable.whole (copying : CopyingTable L held m s nr limit k tables limit m') :
    Copying L held m s nr limit (k + 1) 0 m' where
  walk := copying.walk
  source := copying.source
  alike := fun p before inside => copying.alike p (by omega) inside
  room := by
    intro page above inUse
    have before := copying.room page above inUse
    have more : total (pointsTo page) (m.copied s k limit) ≤ total (pointsTo page) (m.copied s (k + 1) 0) :=
      copied_mono m s page (.inl (Nat.lt_succ_self _))
    omega

/-- How `copy_page_tables` may stop: it has changed the new task's entries only. -/
def CopyStops (L : Layout) (held : Nat → Nat) (m : Memory) (nr : Fin 64) (stop : Stop) : Prop :=
  stop = .panic .alreadyExist ∨ ∃ m', stop = .noMemory m' ∧ Walk L (Move.own (windowAt nr)) ⟨m, held⟩ ⟨m', held⟩

theorem Copying.table (copying : Copying L held m s nr limit k 0 m') (sound : Sound L m held) (apart : s ≠ nr)
    (room : m.Room s) {kernel : Bool} (entries : limit = if kernel then 0xA0 else 1024) :
    Ends (Copying L held m s nr limit (k + 1) 0) (CopyStops L held m nr)
      (m'.copyTable kernel (dirOf s k) (dirOf nr k)) := by
  have sound' : Sound L m' held := copying.walk.sound sound
  unfold Memory.copyTable
  split
  · exact .stop (.inl rfl)
  · rename_i unused
    have absent : present (m'.words (dirOf nr k)) = false := by simpa using unused
    split
    · rename_i here
      dsimp only
      split
      · exact .stop (.inr ⟨m', rfl, copying.walk⟩)
      · rename_i t m₁ got
        obtain ⟨rfl, managed, free⟩ := sound'.getFreePage got
        rw [← entries]
        have start := copying.newTable sound here absent managed free
        have short : limit ≤ 1024 := by
          rw [entries]
          split <;> decide
        have loop : Ends (CopyingTable L held m s nr limit k (frame (m'.words (dirOf s k)), t) limit)
            (CopyStops L held m nr) (upTo (fun m nr => .ok (m.copyEntry
              (tableWord (frame (m'.words (dirOf s k))) nr) (tableWord t nr))) limit
              ((m'.take t).set (dirOf nr k) (entry t))) := by
          apply Ends.upTo start
          intro n m'' below copying
          have tables := Prod.mk.inj copying.tables
          have entry := copying.entry (i := ⟨n, by omega⟩) sound apart room
          rw [Memory.entryAt, Memory.entryAt, tables.1, tables.2] at entry
          exact .pure entry
        exact loop.mono (fun _ copying => copying.whole) fun _ stops => stops
    · rename_i unmapped
      have none : present (m'.words (dirOf s k)) = false := by simpa using unmapped
      refine .pure ⟨copying.walk, copying.source, ?_, ?_⟩
      · intro p before inside
        by_cases same : p.1 = k
        · have dest := window_pte m' nr p.1 p.2
          have source := window_pte m' s p.1 p.2
          rw [same, pte_without_table absent] at dest
          rw [same, pte_without_table none] at source
          rw [← same] at dest source
          rw [show m'.window nr p = 0 from dest, show m'.window s p = 0 from source]
          exact .refl _
        · have other : p.1.val ≠ k := fun equal => same (Fin.ext equal)
          exact copying.alike p (by omega) inside
      · intro page above inUse
        have before := copying.room page above inUse
        have more : total (pointsTo page) (m.copied s k 0) ≤ total (pointsTo page) (m.copied s (k + 1) 0) :=
          copied_mono m s page (.inl (Nat.lt_succ_self _))
        omega

/-- The entries of a page table `fork` copies: the kernel's are copied in part. -/
def copiedEntries (s : Fin 64) : Nat := if Memory.base s = 0 then 0xA0 else 1024

theorem Sound.copyPageTables (sound : Sound L m held) (apart : s ≠ nr) (room : m.Room s) {size : Nat}
    (fits : Memory.dirs size ≤ 16) :
    Ends (Copying L held m s nr (copiedEntries s) (Memory.dirs size) 0) (CopyStops L held m nr)
      (m.copyPageTables (Memory.base s) (Memory.base nr) size) := by
  unfold Memory.copyPageTables
  rw [if_neg (by rw [base_aligned, base_aligned]; decide), base_dir, base_dir]
  apply Ends.upTo (I := fun k => Copying L held m s nr (copiedEntries s) k 0)
  · refine ⟨.none, fun _ => .refl _, ?_, fun _ _ _ => Nat.le_add_right _ _⟩
    intro p before
    omega
  · intro k m' below copying
    exact copying.table (k := ⟨k, by omega⟩) sound apart room (by unfold copiedEntries; simp)

end Copying

end Linux011.Mm

import Linux011.Mm.Footprint

namespace Linux011.Mm

open Linux011.Library

variable {L : Layout} {m m' : Memory} {held : Nat → Nat} {files : Nat → File} {k : Kernel} {s p q : Fin 64} {t : Task}
  {j : Fin 16} {i : Fin 1024} {address tmp iCount inode : Nat}

/-- What `try_to_share` asks of the entry of the task in slot `p`: present, clean and in the main memory. -/
def Memory.shareable (m : Memory) (p : Nat) (address : Nat) : Bool :=
  let dir := address / 0x400000 + p * 16
  let e := m.words (tableWord (frame (m.words dir)) (Memory.pageIndex address))
  present (m.words dir) && decide (0x41 &&& e = 1 ∧ lowMem ≤ frame e ∧ frame e < m.highMemory)

namespace Kernel

variable (k : Kernel)

/-- A task with the same executable that has the page to share. -/
def offers (s : Fin 64) (executable tmp : Nat) (p : Fin 64) : Bool :=
  match k.task p with
  | none => false
  | some q => decide (p ≠ s ∧ q.executable = some executable) && k.memory.shareable p tmp

/-- The task whose page a fault for a missing page maps, if there is one. -/
def donor (s : Fin 64) (t : Task) (address iCount : Nat) : Option (Fin 64) :=
  match t.executable with
  | none => none
  | some inode =>
    if t.endData ≤ address / 4096 * 4096 ∨ iCount < 2 then none
    else (List.finRange 64).tail.reverse.find? (k.offers s inode (address / 4096 * 4096))

end Kernel

theorem tryToShare_none {current p : Nat} (refused : m.shareable p address = false) :
    m.tryToShare current p address = .ok none := by
  unfold Memory.shareable at refused
  unfold Memory.tryToShare
  simp only [Bool.and_eq_false_iff, decide_eq_false_iff_not] at refused ⊢
  split
  · rename_i here
    have refused := refused.resolve_left (by rw [here]; decide)
    split
    · rfl
    · rename_i clean
      rw [if_pos]
      by_contra inside
      exact refused ⟨by simpa using clean, by omega⟩
  · rfl

theorem tryToShare_offered (current : Nat) {p : Nat} (offered : m.shareable p address = true) :
    m.tryToShare current p address ≠ .ok none := by
  unfold Memory.shareable at offered
  unfold Memory.tryToShare
  simp only [Bool.and_eq_true, decide_eq_true_eq] at offered ⊢
  obtain ⟨here, clean, above, below⟩ := offered
  rw [if_pos here, if_neg (not_not_intro clean), if_neg (by omega)]
  split
  · exact nofun
  · split <;> exact nofun

theorem shareFrom_find (slots : List (Fin 64)) : k.shareFrom s inode tmp slots =
    match slots.find? (k.offers s inode tmp) with
    | none => .ok none
    | some p => k.memory.tryToShare s p tmp := by
  induction slots with
  | nil => rfl
  | cons p rest ih =>
    rw [Kernel.shareFrom, List.find?_cons]
    unfold Kernel.offers at ih ⊢
    cases there : k.task p with
    | none =>
      dsimp only
      exact ih
    | some q =>
      dsimp only
      by_cases eligible : p ≠ s ∧ q.executable = some inode
      · rw [decide_eq_true eligible, if_neg (by tauto), Bool.true_and]
        cases offered : k.memory.shareable p tmp with
        | false =>
          rw [tryToShare_none offered]
          exact ih
        | true =>
          dsimp only
          have given := tryToShare_offered s offered
          generalize k.memory.tryToShare s p tmp = x at given
          match x with
          | .error stop => rfl
          | .ok (some m) => rfl
          | .ok none => exact absurd rfl given
      · rw [decide_eq_false eligible, if_pos (by tauto), Bool.false_and]
        exact ih

theorem offers_task (offered : k.offers s inode tmp p = true) : ∃ other, k.task p = some other ∧ p ≠ s ∧
    other.executable = some inode ∧ k.memory.shareable p tmp = true := by
  unfold Kernel.offers at offered
  split at offered
  · cases offered
  · rename_i other there
    simp only [Bool.and_eq_true, decide_eq_true_eq] at offered
    exact ⟨other, there, offered.1.1, offered.1.2, offered.2⟩

theorem newPage_empty (m : Memory) (address : Nat) : m.getEmptyPage address =
    m.newPage (fun m page => m.fill page fun _ => 0) address := by
  unfold Memory.getEmptyPage Memory.newPage
  cases got : m.getFreePage with
  | none => rfl
  | some r =>
    obtain ⟨p, m₁⟩ := r
    have taken : m₁ = m.take p := by
      unfold Memory.getFreePage at got
      obtain ⟨i, -, same⟩ := Option.map_eq_some_iff.mp got
      obtain ⟨rfl, rfl⟩ := Prod.mk.inj same
      rfl
    dsimp only
    rw [taken, ← take_filled]

theorem doNoPage_eq : k.doNoPage files s t address iCount =
    match k.donor s t address iCount with
    | none => k.memory.newPage (fun m page => m.fill page (t.demand files (address / 4096 * 4096)))
        (Memory.base s + address / 4096 * 4096)
    | some p => k.memory.tryToShare s p (address / 4096 * 4096) >>= fun
        | some m => .ok m
        | none => k.memory.newPage (fun m page => m.fill page (t.demand files (address / 4096 * 4096)))
            (Memory.base s + address / 4096 * 4096) := by
  unfold Kernel.doNoPage Kernel.donor Task.demand
  dsimp only
  cases t.executable with
  | none => exact newPage_empty _ _
  | some inode =>
    dsimp only
    by_cases beyond : t.endData ≤ address / 4096 * 4096
    · rw [if_pos beyond, if_pos (.inl beyond), if_pos beyond]
      exact newPage_empty _ _
    · rw [if_neg beyond, if_neg beyond, Kernel.sharePage, shareFrom_find]
      by_cases alone : iCount < 2
      · rw [if_pos alone, if_pos (.inr alone)]
        rfl
      · rw [if_neg alone, if_neg (by tauto)]
        cases (List.finRange 64).tail.reverse.find? (k.offers s inode (address / 4096 * 4096)) with
        | none => rfl
        | some p =>
          dsimp only
          congr 1

/-- A fault has mapped a page of its own, with what it demands in it. -/
structure Loaded (L : Layout) (files : Nat → File) (k : Kernel) (s : Fin 64) (t : Task) (tmp : Nat) (j : Fin 16)
    (i : Fin 1024) (p : Nat) (m' : Memory) : Prop where
  managed : L.Managed p
  ptes : m'.ptes = Function.update k.memory.ptes (dirOf s j, i) (entry p)
  words : ∀ w < 1024, m'.words (tableWord p w) = t.demand files tmp w

/-- A fault has mapped the clean page another task has of the same executable, read-only for both. -/
structure Borrowed (k : Kernel) (s : Fin 64) (t : Task) (tmp : Nat) (j : Fin 16) (i : Fin 1024) (q : Fin 64)
    (m' : Memory) : Prop where
  apart : q ≠ s
  below : tmp < t.endData
  executable : ∃ other inode, k.task q = some other ∧ other.executable = some inode ∧ t.executable = some inode
  here : present (k.memory.window q (j, i)) = true
  clean : dirty (k.memory.window q (j, i)) = false
  above : lowMem ≤ frame (k.memory.window q (j, i))
  ptes : m'.ptes = Function.update (Function.update k.memory.ptes (dirOf s j, i) (protect (k.memory.window q (j, i))))
    (dirOf q j, i) (protect (k.memory.window q (j, i)))

/-- What a fault for a missing page comes to. -/
structure Fetched (L : Layout) (held : Nat → Nat) (files : Nat → File) (k : Kernel) (s : Fin 64) (t : Task)
    (address iCount : Nat) (j : Fin 16) (i : Fin 1024) (m' : Memory) : Prop where
  walk : Walk L (Move.own {(dirOf s j, i)}) ⟨k.memory, held⟩ ⟨m', held⟩
  spares : Spares k.memory m'
  page : (k.donor s t address iCount = none ∧ ∃ p, Loaded L files k s t (address / 4096 * 4096) j i p m') ∨
    ∃ q, k.donor s t address iCount = some q ∧ Borrowed k s t (address / 4096 * 4096) j i q m'

/-- How a fault may end without a page. -/
structure Starved (L : Layout) (held : Nat → Nat) (m m' : Memory) : Prop extends Unchanged m m' where
  walk : ∃ entries, Walk L (Move.own entries) ⟨m, held⟩ ⟨m', held⟩

theorem Sound.tryToShare_spares (sound : Sound L m held) {d d' : Fin 1024} {current : Nat}
    (source : address / 0x400000 + p * 16 = d) (dest : address / 0x400000 + current * 16 = d')
    (index : Memory.pageIndex address = i) :
    Ends (fun r => ∀ m', r = some m' → Spares m m') (fun _ => True) (m.tryToShare current p address) := by
  unfold Memory.tryToShare
  rw [source, dest, index]
  dsimp only
  split
  · rename_i here
    split
    · exact .pure nofun
    · split
      · exact .pure nofun
      · split
        · exact .stop trivial
        · rename_i u m₁ got
          have tabled := sound.tableFor got
          have laid := (tabled.walk.sound sound).laid
          have dir : m₁.words d = m.words d := tabled.kept d here
          have here₁ : present (m₁.words d) = true := by rw [dir]; exact here
          split
          · exact .stop trivial
          · refine .pure fun m' same f inUse => ?_
            cases same
            rw [← Memory.entryAt, ← entryAt_of dir, ← tabled.table, ← Memory.entryAt]
            have first := sound.tableFor_spares got f inUse
            have second := Untouched.entry laid first.plain here₁ i (protect (m₁.words (m₁.entryAt d i)))
            have pdes := laid.set_pdes here₁ i (protect (m₁.words (m₁.entryAt d i)))
            have dir' : (m₁.set (m₁.entryAt d i) (protect (m₁.words (m₁.entryAt d i)))).words d' = m₁.words d' :=
              congrFun pdes d'
            have third := Untouched.entry (laid.of_pdes pdes) second.plain (d := d') (dir' ▸ tabled.here) i
              ((m₁.set (m₁.entryAt d i) (protect (m₁.words (m₁.entryAt d i)))).words (m₁.entryAt d i))
            rw [entryAt_of dir'] at third
            exact ⟨third.plain, (first.trans (second.trans third)).words⟩
  · exact .pure nofun

theorem Sound.fetch (sound : Sound L k.memory held) (spare : k.memory.Spare) (place : At s address j i)
    (absent : present (k.memory.window s (j, i)) = false) :
    Ends (Fetched L held files k s t address iCount j i)
      (fun stop => (∃ why, stop = .panic why ∧ Harmless why) ∨ ∃ m', stop = .noMemory m' ∧ Starved L held k.memory m')
      (k.doNoPage files s t address iCount) := by
  have dir : address / 4096 * 4096 / 0x400000 = j := by
    have same := place.dir
    omega
  have index : Memory.pageIndex (address / 4096 * 4096) = i := by
    have same := place.index
    unfold Memory.pageIndex at same ⊢
    omega
  have linear : (Memory.base s + address / 4096 * 4096) / 0x400000 = dirOf s j := by
    rw [base_div, dir]
    rfl
  have page : Memory.pageIndex (Memory.base s + address / 4096 * 4096) = i := by rw [base_index, index]
  have own : Ends (fun m' => ∃ p, Placed L held k.memory (dirOf s j) i (t.demand files (address / 4096 * 4096)) p m' ∧
        Spares k.memory m')
      (fun stop => (∃ why, stop = .panic why ∧ Harmless why) ∨ ∃ m', stop = .noMemory m' ∧ Starved L held k.memory m')
      (k.memory.newPage (fun m page => m.fill page (t.demand files (address / 4096 * 4096)))
        (Memory.base s + address / 4096 * 4096)) := by
    have placed := sound.newPage linear page absent
      (fun m page => m.fill page (t.demand files (address / 4096 * 4096))) fun _ => rfl
    have spares := sound.newPage_spares linear page
      (fun m page => m.fill page (t.demand files (address / 4096 * 4096))) fun _ => rfl
    constructor
    · intro m' returned
      obtain ⟨p, placed⟩ := placed.ok m' returned
      exact ⟨p, placed, spares.ok m' returned⟩
    · intro stop stopped
      obtain ⟨m', same, walk⟩ := placed.error stop stopped
      obtain ⟨m'', same', unchanged⟩ := spares.error stop stopped
      rw [same] at same'
      cases same'
      exact .inr ⟨m', same, unchanged, _, walk⟩
  rw [doNoPage_eq]
  cases found : k.donor s t address iCount with
  | none =>
    apply own.mono _ fun _ stops => stops
    rintro m' ⟨p, placed, spares⟩
    exact ⟨placed.walk, spares, .inl ⟨found, p, placed.managed, placed.ptes, placed.words⟩⟩
  | some q =>
    obtain ⟨inode, image, below, offered⟩ : ∃ inode, t.executable = some inode ∧ address / 4096 * 4096 < t.endData ∧
        k.offers s inode (address / 4096 * 4096) q = true := by
      unfold Kernel.donor at found
      split at found
      · cases found
      · rename_i inode image
        split at found
        · cases found
        · exact ⟨inode, image, by omega, List.find?_some found⟩
    obtain ⟨other, there, apart, same, shareable⟩ := offers_task offered
    have source : address / 4096 * 4096 / 0x400000 + q.val * 16 = dirOf q j := by
      show _ = 16 * q.val + j.val
      omega
    have dest : address / 4096 * 4096 / 0x400000 + s.val * 16 = dirOf s j := by
      show _ = 16 * s.val + j.val
      omega
    have shared := sound.tryToShare source dest index
      fun mapped above => spare _ above (mappings_pos (dirOf q j) i mapped)
    have spares := sound.tryToShare_spares source dest index
    have given := tryToShare_offered s shareable
    dsimp only
    generalize k.memory.tryToShare s q (address / 4096 * 4096) = x at shared spares given
    match x with
    | .error stop =>
      rcases shared.error stop rfl with rfl | rfl
      · exact .stop (.inr ⟨_, rfl, .refl _, ∅, .none⟩)
      · exact .stop (.inl ⟨_, rfl, by decide, by decide⟩)
    | .ok none => exact absurd rfl given
    | .ok (some m') =>
      obtain ⟨clean, u, m₁, tabled, legal, after⟩ := shared.ok _ rfl m' rfl
      have from_q : SharedFrom L held k.memory q s j i u m₁ m' := ⟨clean, tabled, legal, after⟩
      have pte : m₁.pte (dirOf q j) i = k.memory.window q (j, i) := pte_congr tabled.ptes _ _
      refine .pure ⟨from_q.walk, spares.ok _ rfl m' rfl, .inr ⟨q, found, apart, below, ⟨other, inode, there, same, image⟩,
        ?_, clean, ?_, from_q.ptes sound⟩⟩
      · rw [← pte]
        exact legal.1
      · rw [← pte]
        exact legal.2.1

namespace At

variable {a b : Nat} {j' : Fin 16} {i' : Fin 1024}

theorem unique (place : At s a j i) (place' : At s a j' i') : j' = j ∧ i' = i :=
  ⟨Fin.ext (place'.dir.symm.trans place.dir), Fin.ext (place'.index.symm.trans place.index)⟩

theorem of_page (place : At s a j i) (same : b / 4096 = a / 4096) : At q b j i where
  dir := by
    have dir := place.dir
    omega
  index := by
    have index := place.index
    unfold Memory.pageIndex at index ⊢
    rw [same]
    exact index

theorem page_eq (place : At s a j i) (place' : At s b j i) : a / 4096 = b / 4096 := by
  have dir := place.dir.trans place'.dir.symm
  have index := place.index.trans place'.index.symm
  unfold Memory.pageIndex at index
  omega

end At

theorem At.shareable_iff (place : At p address j i) : m.shareable p address = true ↔
    present (m.window p (j, i)) = true ∧ dirty (m.window p (j, i)) = false ∧
      lowMem ≤ frame (m.window p (j, i)) ∧ frame (m.window p (j, i)) < m.highMemory := by
  have source : address / 0x400000 + p.val * 16 = dirOf p j := by
    have dir := place.dir
    show _ = 16 * p.val + j.val
    omega
  unfold Memory.shareable
  dsimp only
  rw [source, place.index, Bool.and_eq_true, decide_eq_true_eq, clean_bits, ← Memory.entryAt, window_pte]
  constructor
  · rintro ⟨here, ⟨mapped, clean⟩, inside⟩
    rw [word_of_pte here] at mapped clean inside
    exact ⟨mapped, clean, inside⟩
  · rintro ⟨mapped, clean, inside⟩
    have here : present (m.words (dirOf p j)) = true := table_of_pte mapped
    rw [word_of_pte here]
    exact ⟨here, ⟨mapped, clean⟩, inside⟩

theorem Alike.shareable (place : At p address j i) (alike : Alike (m'.window p (j, i)) (m.window p (j, i)))
    (high : m'.highMemory = m.highMemory) : m'.shareable p address = m.shareable p address := by
  rw [Bool.eq_iff_iff, place.shareable_iff, place.shareable_iff, high]
  by_cases here : present (m'.window p (j, i)) = true
  · rw [← alike.1, (alike.2 here).1, (alike.2 here).2]
  · have none : ¬ present (m.window p (j, i)) = true := alike.1 ▸ here
    exact ⟨fun both => absurd both.1 here, fun both => absurd both.1 none⟩

theorem donor_congr (place : At s address j i) (alike : ∀ p, p ≠ s → Alike (m.window p (j, i)) (k.memory.window p (j, i)))
    (high : m.highMemory = k.memory.highMemory) :
    (⟨m, k.task⟩ : Kernel).donor s t address iCount = k.donor s t address iCount := by
  unfold Kernel.donor
  cases t.executable with
  | none => rfl
  | some inode =>
    dsimp only
    split
    · rfl
    · congr 1
      funext p
      unfold Kernel.offers
      cases k.task p with
      | none => rfl
      | some other =>
        dsimp only
        by_cases self : p = s
        · simp only [self, ne_eq, not_true_eq_false, false_and, decide_false, Bool.false_and]
        · have page : At p (address / 4096 * 4096) j i := place.of_page (by omega)
          rw [(alike p self).shareable page high]

theorem donor_page {b : Nat} (same : b / 4096 = address / 4096) : k.donor s t b iCount = k.donor s t address iCount := by
  unfold Kernel.donor
  rw [same]

theorem Fetched.alike (fetched : Fetched L held files k s t address iCount j i m') {x : Fin 1024 × Fin 1024}
    (elsewhere : x ≠ (dirOf s j, i)) : Alike (m'.ptes x) (k.memory.ptes x) := by
  rcases fetched.page with ⟨-, p, loaded⟩ | ⟨q, -, borrowed⟩
  · rw [loaded.ptes, Function.update_of_ne elsewhere]
    exact .refl _
  · rw [borrowed.ptes]
    by_cases source : x = (dirOf q j, i)
    · rw [source, Function.update_self]
      exact .protect _
    · rw [Function.update_of_ne source, Function.update_of_ne elsewhere]
      exact .refl _

theorem Exact.walked {entries : Set (Fin 1024 × Fin 1024)} (exact : Exact L k)
    (walk : Walk L (Move.own entries) ⟨k.memory, k.taskPages⟩ ⟨m', k.taskPages⟩) : Exact L ⟨m', k.task⟩ :=
  ⟨walk.orderly exact.orderly, exact.tasks.same rfl⟩

theorem Fetched.inUse (fetched : Fetched L held files k s t address iCount j i m')
    (absent : present (k.memory.window s (j, i)) = false) {f : Nat} (inUse : k.memory.InUse f) : m'.InUse f := by
  obtain ⟨x, points⟩ := (total_pos_iff _ _).mp inUse.mapped
  obtain ⟨here, same⟩ := pointsTo_pos.mp points
  have elsewhere : x ≠ (dirOf s j, i) := by
    rintro rfl
    exact absurd (absent.symm.trans here) nofun
  have alike := fetched.alike elsewhere
  have here' := alike.1.trans here
  have points' := pointsTo_pos.mpr ⟨here', (alike.2 here').1.trans same⟩
  exact ⟨inUse.positive, (fetched.spares f inUse).plain, (total_pos_iff _ _).mpr ⟨x, points'⟩⟩

theorem Exact.inUse (exact : Exact L k) {x : Fin 1024 × Fin 1024} (here : present (k.memory.ptes x) = true)
    (above : lowMem ≤ frame (k.memory.ptes x)) : k.memory.InUse (frame (k.memory.ptes x)) where
  positive := Nat.lt_of_lt_of_le (by decide) above
  plain := exact.orderly.sound.mapped_plain here above
  mapped := mappings_pos x.1 x.2 here

end Linux011.Mm

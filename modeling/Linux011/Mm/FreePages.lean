import Linux011.Mm.Faults

namespace Linux011.Mm

open Linux011.Library

variable {L : Layout} {m m' : Memory} {held : Nat → Nat} {files : Nat → File} {k : Kernel} {s : Fin 64} {t : Task}
  {j : Fin 16} {i : Fin 1024} {address iCount : Nat}

def zeros (memMap : Nat → BitVec 8) : Nat → Nat
  | 0 => 0
  | n + 1 => zeros memMap n + if memMap n = 0 then 1 else 0

@[irreducible] def Memory.freePages (m : Memory) : Nat := zeros m.memMap pagingPages

/-- What the page table behind a directory entry takes. -/
def Memory.tableCost (m : Memory) (d : Nat) : Nat := if present (m.words d) then 0 else 1

theorem zeros_update {memMap : Nat → BitVec 8} {n i : Nat} (inside : i < n) (v : BitVec 8) :
    zeros (Function.update memMap i v) n + (if memMap i = 0 then 1 else 0) = zeros memMap n + if v = 0 then 1 else 0 := by
  have before (n : Nat) (above : n ≤ i) : zeros (Function.update memMap i v) n = zeros memMap n := by
    induction n with
    | zero => rfl
    | succ n ih => rw [zeros, zeros, ih (by omega), Function.update_of_ne (by omega)]
  induction n with
  | zero => omega
  | succ n ih =>
    rw [zeros, zeros]
    by_cases last : i = n
    · rw [last, Function.update_self, ← last, before i (Nat.le_refl i)]
      omega
    · rw [Function.update_of_ne fun same => last same.symm]
      have earlier := ih (by omega)
      omega

theorem zeros_none {memMap : Nat → BitVec 8} {n : Nat} (used : ∀ i < n, memMap i ≠ 0) : zeros memMap n = 0 := by
  induction n with
  | zero => rfl
  | succ n ih => rw [zeros, ih fun i below => used i (by omega), if_neg (used n (by omega))]

theorem freePages_congr (same : m'.memMap = m.memMap) : m'.freePages = m.freePages := by
  rw [Memory.freePages, Memory.freePages, same]

theorem freePages_setMap {p : Nat} (inside : mapNr p < pagingPages) (n : BitVec 8) :
    (m.setMap p n).freePages + (if m.memMap (mapNr p) = 0 then 1 else 0) = m.freePages + if n = 0 then 1 else 0 := by
  rw [Memory.freePages, Memory.freePages]
  exact zeros_update inside n

theorem freePages_more {p : Nat} (inside : mapNr p < pagingPages) (same : m'.memMap = m.memMap)
    (used : m.memMap (mapNr p) ≠ 0) (room : m.memMap (mapNr p) + 1 ≠ 0) :
    (m'.setMap p (m'.memMap (mapNr p) + 1)).freePages = m.freePages := by
  have moved := freePages_setMap (m := m') inside (m'.memMap (mapNr p) + 1)
  have kept := freePages_congr same
  rw [← same] at used room
  rw [if_neg used, if_neg room, Nat.add_zero, Nat.add_zero, kept] at moved
  exact moved

theorem scan_none {memMap : Nat → BitVec 8} {n : Nat} (nothing : Memory.scan memMap n = none) : ∀ i < n, memMap i ≠ 0 := by
  induction n with
  | zero => exact nofun
  | succ n ih =>
    unfold Memory.scan at nothing
    split at nothing
    · cases nothing
    · rename_i used
      intro i below
      by_cases last : i = n
      · rw [last]
        exact used
      · exact ih nothing i (by omega)

theorem getFreePage_none (nothing : m.getFreePage = none) : m.freePages = 0 := by
  unfold Memory.getFreePage at nothing
  rw [Option.map_eq_none_iff] at nothing
  rw [Memory.freePages]
  exact zeros_none (scan_none nothing)

theorem getFreePage_counts {p : Nat} (got : m.getFreePage = some (p, m')) : m'.freePages + 1 = m.freePages := by
  unfold Memory.getFreePage at got
  obtain ⟨i, found, same⟩ := Option.map_eq_some_iff.mp got
  obtain ⟨rfl, rfl⟩ := Prod.mk.inj same
  obtain ⟨below, free⟩ := scan_some found
  have moved := freePages_setMap (m := m) (p := i + lowMem) (by rwa [mapNr_add]) 1
  rw [mapNr_add, if_pos free, if_neg (by decide)] at moved
  have same : (m.take (i + lowMem)).freePages = (m.setMap (i + lowMem) 1).freePages := freePages_congr rfl
  omega

theorem tableFor_counts {d u : Nat} (got : m.tableFor d = some (u, m')) : m'.freePages + m.tableCost d = m.freePages := by
  unfold Memory.tableFor at got
  unfold Memory.tableCost
  split at got
  · rename_i here
    cases got
    rw [if_pos here, Nat.add_zero]
  · rename_i absent
    obtain ⟨⟨p, m₁⟩, found, same⟩ := Option.map_eq_some_iff.mp got
    obtain ⟨rfl, rfl⟩ := Prod.mk.inj same
    have counted := getFreePage_counts found
    have same : (m₁.set d (entry p)).freePages = m₁.freePages := freePages_congr rfl
    rw [if_neg absent]
    omega

theorem tableFor_none {d : Nat} (nothing : m.tableFor d = none) : m.freePages < m.tableCost d := by
  unfold Memory.tableFor at nothing
  unfold Memory.tableCost
  split at nothing
  · cases nothing
  · rename_i absent
    rw [Option.map_eq_none_iff] at nothing
    rw [if_neg absent, getFreePage_none nothing]
    decide

theorem Sound.newPage_counts (sound : Sound L m held) (content : Nat → BitVec 32) {d : Fin 1024}
    (dir : address / 0x400000 = d) :
    Ends (fun m' => m'.freePages + (1 + m.tableCost d) = m.freePages)
      (fun stop => (∃ why, stop = .panic why) ∨ m.freePages < 1 + m.tableCost d)
      (m.newPage (fun m page => m.fill page content) address) := by
  unfold Memory.newPage
  split
  · rename_i nothing
    refine .stop (.inr ?_)
    rw [getFreePage_none nothing]
    omega
  · rename_i p m₁ got
    obtain ⟨rfl, managed, free⟩ := sound.getFreePage got
    have taken := getFreePage_counts got
    have positive := Sound.positive managed
    have low := d.isLt
    have word : ((m.take p).fill p content).words d = m.words d :=
      (fill_other (by omega)).trans (fill_other (by omega))
    have cost : ((m.take p).fill p content).tableCost d = m.tableCost d := by rw [Memory.tableCost, word, Memory.tableCost]
    have filled : ((m.take p).fill p content).freePages = (m.take p).freePages := freePages_congr rfl
    dsimp only
    split
    · rename_i m' put
      unfold Memory.putPage at put
      rw [dir] at put
      obtain ⟨⟨u, m₂⟩, found, same⟩ := Option.map_eq_some_iff.mp put
      have counted := tableFor_counts found
      have put : m'.freePages = m₂.freePages := freePages_congr (same ▸ rfl)
      exact .pure (by omega)
    · rename_i full
      have short : ((m.take p).fill p content).freePages < m.tableCost d := by
        unfold Memory.putPage at full
        rw [dir, Option.map_eq_none_iff] at full
        rw [← cost]
        exact tableFor_none full
      split
      · exact .stop (.inr (by omega))
      · exact .stop (.inl ⟨_, rfl⟩)

theorem Sound.tryToShare_counts (sound : Sound L m held) {p current : Nat} {d d' : Fin 1024}
    (source : address / 0x400000 + p * 16 = d) (dest : address / 0x400000 + current * 16 = d')
    (index : Memory.pageIndex address = i) (room : present (m.pte d i) = true → lowMem ≤ frame (m.pte d i) →
      m.memMap (mapNr (frame (m.pte d i))) ≠ 255) :
    Ends (fun r => ∀ m', r = some m' → m'.freePages + m.tableCost d' = m.freePages)
      (fun stop => (∃ why, stop = .panic why) ∨ m.freePages < m.tableCost d') (m.tryToShare current p address) := by
  unfold Memory.tryToShare
  rw [source, dest, index]
  dsimp only
  split
  · rename_i here
    have word := word_of_pte here i
    rw [← Memory.entryAt, word]
    split
    · exact .pure fun m' same => absurd same.symm (Option.some_ne_none m')
    · rename_i bits
      split
      · exact .pure fun m' same => absurd same.symm (Option.some_ne_none m')
      · rename_i inside
        have mapped := ((clean_bits _).mp (by simpa using bits)).1
        have above : lowMem ≤ frame (m.pte d i) := by omega
        have managed := sound.mapped_managed mapped above
        split
        · rename_i nothing
          exact .stop (.inr (tableFor_none nothing))
        · rename_i u m₁ got
          split
          · exact .stop (.inl ⟨_, rfl⟩)
          · refine .pure fun m' same => ?_
            cases same
            have counted := tableFor_counts got
            have tabled := sound.tableFor got
            have use := mappings_pos d i mapped
            have inUse := sound.mapped_used managed (by omega)
            have kept := (tabled.inUse _ above inUse).1
            have below : mapNr (frame (m.pte d i)) < pagingPages := by
              have high := L.inPaging
              obtain ⟨-, top⟩ := managed
              unfold mapNr
              simp only [lowMem, pagingPages] at above high ⊢
              omega
            have shown := room mapped above
            have full : m₁.memMap (mapNr (frame (m.pte d i))) + 1 ≠ 0 := by
              rw [kept]
              intro zero
              have bound := (m.memMap (mapNr (frame (m.pte d i)))).isLt
              have sum := congrArg BitVec.toNat zero
              rw [BitVec.toNat_add] at sum
              apply shown
              apply BitVec.eq_of_toNat_eq
              show _ = 255
              have one : (1 : BitVec 8).toNat = 1 := rfl
              have none : (0 : BitVec 8).toNat = 0 := rfl
              omega
            have more (m₂ : Memory) (same : m₂.memMap = m₁.memMap) :
                (m₂.setMap (frame (m.pte d i)) (m₂.memMap (mapNr (frame (m.pte d i))) + 1)).freePages +
                  m.tableCost d' = m.freePages := by
              rw [freePages_more below same (kept ▸ inUse) full]
              exact counted
            exact more _ rfl
  · exact .pure fun m' same => absurd same.symm (Option.some_ne_none m')

section Dirs

variable {d d' : Fin 1024}

theorem Sound.take_dir (sound : Sound L m held) {p : Nat} {m₁ : Memory} (got : m.getFreePage = some (p, m₁)) (d : Fin 1024) :
    m₁.words d = m.words d := by
  obtain ⟨rfl, managed, -⟩ := sound.getFreePage got
  have positive := Sound.positive managed
  have low := d.isLt
  exact fill_other (by omega)

theorem Sound.tableFor_dir (sound : Sound L m held) {u : Nat} (got : m.tableFor d = some (u, m')) (other : d' ≠ d) :
    m'.words d' = m.words d' := by
  unfold Memory.tableFor at got
  split at got
  · cases got
    rfl
  · obtain ⟨⟨p, m₁⟩, found, same⟩ := Option.map_eq_some_iff.mp got
    obtain ⟨rfl, rfl⟩ := Prod.mk.inj same
    rw [set_other fun equal => other (Fin.ext equal), sound.take_dir found]

theorem Sound.putPage_dir (sound : Sound L m held) {p : Nat} (dir : address / 0x400000 = d)
    (put : m.putPage p address = some m') (other : d' ≠ d) : m'.words d' = m.words d' := by
  unfold Memory.putPage at put
  rw [dir] at put
  obtain ⟨⟨u, m₁⟩, found, same⟩ := Option.map_eq_some_iff.mp put
  have tabled := sound.tableFor found
  have high := (tabled.walk.sound sound).laid.table_word tabled.here (Memory.pageIndex address)
  have low := d'.isLt
  rw [Memory.entryAt, tabled.table] at high
  rw [← same, set_other (by omega), sound.tableFor_dir found other]

theorem Sound.newPage_dir (sound : Sound L m held) (content : Nat → BitVec 32) (dir : address / 0x400000 = d)
    (other : d' ≠ d) : Ends (fun m' => m'.words d' = m.words d') (fun _ => True)
      (m.newPage (fun m page => m.fill page content) address) := by
  unfold Memory.newPage
  split
  · exact .stop trivial
  · rename_i p m₁ got
    have taken := sound.take_dir got d'
    obtain ⟨rfl, managed, free⟩ := sound.getFreePage got
    obtain ⟨unused, unmapped, -, -⟩ := sound.free managed free
    have positive := Sound.positive managed
    have views := take_views positive unused
    have filled : Sound L ((m.take p).fill p content) (Function.update held p (held p + 1)) :=
      (sound.take managed free).fill managed ((tables_eq views.1).trans unused) content
    have low := d'.isLt
    dsimp only
    split
    · rename_i m' put
      refine .pure ?_
      rw [filled.putPage_dir dir put other, ← taken]
      exact fill_other (by omega)
    · split <;> exact .stop trivial

theorem Sound.tryToShare_dir (sound : Sound L m held) {p current : Nat} {d'' : Fin 1024}
    (source : address / 0x400000 + p * 16 = d'') (dest : address / 0x400000 + current * 16 = d) (other : d' ≠ d) :
    Ends (fun r => ∀ m', r = some m' → m'.words d' = m.words d') (fun _ => True) (m.tryToShare current p address) := by
  have low := d'.isLt
  unfold Memory.tryToShare
  rw [source, dest]
  dsimp only
  split
  · rename_i here
    split
    · exact .pure nofun
    · split
      · exact .pure nofun
      · split
        · exact .stop trivial
        · rename_i u m₁ got
          have tabled := sound.tableFor got
          have high := (tabled.walk.sound sound).laid.table_word tabled.here (Memory.pageIndex address)
          have high' := sound.laid.table_word here (Memory.pageIndex address)
          rw [Memory.entryAt, tabled.table] at high
          rw [Memory.entryAt] at high'
          split
          · exact .stop trivial
          · refine .pure fun m' same => ?_
            cases same
            rw [← sound.tableFor_dir got other]
            exact (set_other (by omega)).trans (set_other (by omega))
  · exact .pure nofun

end Dirs

def Kernel.faultCost (k : Kernel) (s : Fin 64) (t : Task) (address iCount : Nat) : Nat :=
  (if k.donor s t address iCount = none then 1 else 0) +
    k.memory.tableCost ((Memory.base s + address) / 0x400000)

theorem Sound.doNoPage_counts (sound : Sound L k.memory held) (spare : k.memory.Spare) (place : At s address j i) :
    Ends (fun m' => m'.freePages + k.faultCost s t address iCount = k.memory.freePages)
      (fun stop => (∃ why, stop = .panic why) ∨ k.memory.freePages < k.faultCost s t address iCount)
      (k.doNoPage files s t address iCount) := by
  have dir : address / 4096 * 4096 / 0x400000 = j := by
    have same := place.dir
    omega
  have index : Memory.pageIndex (address / 4096 * 4096) = i := by
    have same := place.index
    unfold Memory.pageIndex at same ⊢
    omega
  have linear : (Memory.base s + address / 4096 * 4096) / 0x400000 = dirOf s j := by
    rw [base_div, dir]
    rfl
  rw [doNoPage_eq, Kernel.faultCost, place.linear]
  cases found : k.donor s t address iCount with
  | none =>
    rw [if_pos rfl]
    exact sound.newPage_counts _ linear
  | some q =>
    rw [if_neg nofun, Nat.zero_add]
    obtain ⟨inode, offered⟩ : ∃ inode, k.offers s inode (address / 4096 * 4096) q = true := by
      unfold Kernel.donor at found
      split at found
      · cases found
      · split at found
        · cases found
        · exact ⟨_, List.find?_some found⟩
    obtain ⟨other, there, apart, same, shareable⟩ := offers_task offered
    have source : address / 4096 * 4096 / 0x400000 + q.val * 16 = dirOf q j := by
      show _ = 16 * q.val + j.val
      omega
    have dest : address / 4096 * 4096 / 0x400000 + s.val * 16 = dirOf s j := by
      show _ = 16 * s.val + j.val
      omega
    have counted := sound.tryToShare_counts source dest index
      fun mapped above => spare _ above (mappings_pos (dirOf q j) i mapped)
    have given := tryToShare_offered s shareable
    dsimp only
    generalize k.memory.tryToShare s q (address / 4096 * 4096) = x at counted given
    match x with
    | .error stop => exact .stop (counted.error stop rfl)
    | .ok none => exact absurd rfl given
    | .ok (some m') => exact .pure (counted.ok _ rfl m' rfl)

theorem Sound.doNoPage_dir (sound : Sound L k.memory held) (place : At s address j i) {d : Fin 1024}
    (other : d ≠ dirOf s j) : Ends (fun m' => m'.words d = k.memory.words d) (fun _ => True)
      (k.doNoPage files s t address iCount) := by
  have dir : address / 4096 * 4096 / 0x400000 = j := by
    have same := place.dir
    omega
  have linear : (Memory.base s + address / 4096 * 4096) / 0x400000 = dirOf s j := by
    rw [base_div, dir]
    rfl
  rw [doNoPage_eq]
  cases found : k.donor s t address iCount with
  | none => exact sound.newPage_dir _ linear other
  | some q =>
    have source : address / 4096 * 4096 / 0x400000 + q.val * 16 = dirOf q j := by
      show _ = 16 * q.val + j.val
      omega
    have dest : address / 4096 * 4096 / 0x400000 + s.val * 16 = dirOf s j := by
      show _ = 16 * s.val + j.val
      omega
    apply (sound.tryToShare_dir source dest other).bind
    intro r same
    cases r with
    | none => exact sound.newPage_dir _ linear other
    | some m' => exact .pure (same m' rfl)

end Linux011.Mm

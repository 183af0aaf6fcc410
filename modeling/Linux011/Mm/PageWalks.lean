import Linux011.Mm.Walks

namespace Linux011.Mm

open Linux011.Library

variable {L : Layout} {m m' : Memory} {held : Nat → Nat}

section Take

theorem scan_some {memMap : Nat → BitVec 8} {n i : Nat} (found : Memory.scan memMap n = some i) :
    i < n ∧ memMap i = 0 := by
  induction n with
  | zero => cases found
  | succ n ih =>
    unfold Memory.scan at found
    split at found
    · rename_i free
      cases found
      exact ⟨Nat.lt_succ_self _, free⟩
    · have earlier := ih found
      exact ⟨earlier.1.trans (Nat.lt_succ_self _), earlier.2⟩

theorem Sound.getFreePage (sound : Sound L m held) {p : Nat} (got : m.getFreePage = some (p, m')) :
    m' = m.take p ∧ L.Managed p ∧ m.memMap (mapNr p) = 0 := by
  unfold Memory.getFreePage at got
  obtain ⟨i, found, same⟩ := Option.map_eq_some_iff.mp got
  obtain ⟨rfl, rfl⟩ := Prod.mk.inj same
  obtain ⟨below, free⟩ := scan_some found
  refine ⟨rfl, ?_, ?_⟩
  · by_contra outside
    exact sound.reserved i below outside free
  · rw [mapNr_add]
    exact free

end Take

section Table

variable {d : Fin 1024} {t : Nat}

/-- There is a page table now; nothing in use has changed. -/
structure Tabled (L : Layout) (held : Nat → Nat) (m : Memory) (d : Fin 1024) (t : Nat) (m' : Memory) : Prop where
  walk : Walk L (Move.own ∅) ⟨m, held⟩ ⟨m', held⟩
  here : present (m'.words d) = true
  table : frame (m'.words d) = t
  ptes : m'.ptes = m.ptes
  kept : ∀ d' : Fin 1024, present (m.words d') = true → m'.words d' = m.words d'
  inUse : ∀ p, lowMem ≤ p → m.memMap (mapNr p) ≠ 0 →
    m'.memMap (mapNr p) = m.memMap (mapNr p) ∧ m'.tables p = m.tables p
  words : ∀ w, 1024 ≤ w → w / 1024 ≠ t → m'.words w = m.words w

theorem Sound.newTable_tabled (sound : Sound L m held) (absent : present (m.words d) = false)
    (managed : L.Managed t) (free : m.memMap (mapNr t) = 0) :
    Tabled L held m d t ((m.take t).set d (entry t)) := by
  obtain ⟨unused, -, -, -⟩ := sound.free managed free
  have above := managed.physical.1
  have positive : 0 < t := Nat.lt_of_lt_of_le (by decide) above
  have before := take_views positive unused
  have dir : (m.take t).words d = m.words d := congrFun before.1 d
  have views := (sound.take managed free).laid.install_views (dir ▸ absent) positive managed.physical.2
    fun i => take_zero m
  constructor
  case walk => exact .one (.newTable d t) trivial ⟨absent, managed, free⟩
  case here => rw [set_self, present_entry]
  case table => rw [set_self, frame_entry managed.physical.2]
  case ptes => exact views.2.trans before.2
  case kept =>
    intro d' here
    have apart : d'.val ≠ d := by
      intro same
      rw [same, absent] at here
      cases here
    rw [set_other apart]
    exact congrFun before.1 d'
  case inUse =>
    intro p high inUse
    have apart : p ≠ t := fun same => inUse (same ▸ free)
    have moved := tables_update p views.1
    rw [dir, pointsTo_absent absent, pointsTo_entry managed.physical.2, if_neg apart.symm,
      tables_eq before.1] at moved
    exact ⟨setMap_other above high apart, by omega⟩
  case words =>
    intro w high elsewhere
    have low := d.isLt
    rw [set_other (by omega)]
    exact fill_other elsewhere

theorem Sound.tableFor (sound : Sound L m held) (got : m.tableFor d = some (t, m')) :
    Tabled L held m d t m' := by
  unfold Memory.tableFor at got
  split at got
  · rename_i here
    cases got
    constructor
    case walk => exact .none
    case here => exact here
    case inUse => exact fun _ _ _ => ⟨rfl, rfl⟩
    all_goals intros; rfl
  · rename_i absent
    obtain ⟨⟨p, m₁⟩, found, same⟩ := Option.map_eq_some_iff.mp got
    obtain ⟨rfl, rfl⟩ := Prod.mk.inj same
    obtain ⟨rfl, managed, free⟩ := sound.getFreePage found
    exact sound.newTable_tabled (by simpa using absent) managed free

end Table

section Put

variable {d i : Fin 1024} {p address : Nat}

theorem Sound.putPage (sound : Sound L m held) (dir : address / 0x400000 = d)
    (index : Memory.pageIndex address = i) (managed : L.Managed p) (plain : m.tables p = 0)
    (holding : 0 < held p) (put : m.putPage p address = some m') :
    ∃ t m₁, Tabled L held m d t m₁ ∧ (Move.map d i p).Legal L ⟨m₁, held⟩ ∧ t ≠ p ∧
      m' = m₁.set (m₁.entryAt d i) (entry p) := by
  unfold Memory.putPage at put
  rw [dir, index] at put
  obtain ⟨⟨t, m₁⟩, found, same⟩ := Option.map_eq_some_iff.mp put
  have tabled := sound.tableFor found
  have inUse := sound.mapped_used managed (by omega)
  have kept := (tabled.inUse p managed.physical.1 inUse).2
  refine ⟨t, m₁, tabled, ⟨tabled.here, managed, kept.trans plain, holding⟩, ?_, ?_⟩
  · intro equal
    have use := tables_pos d tabled.here
    rw [tabled.table, equal, kept, plain] at use
    cases use
  · rw [← same, Memory.entryAt, tabled.table]

/-- A new page with its content has been put at an address that had none. -/
structure Placed (L : Layout) (held : Nat → Nat) (m : Memory) (d i : Fin 1024) (content : Nat → BitVec 32)
    (p : Nat) (m' : Memory) : Prop where
  walk : Walk L (Move.own {(d, i)}) ⟨m, held⟩ ⟨m', held⟩
  managed : L.Managed p
  ptes : m'.ptes = Function.update m.ptes (d, i) (entry p)
  words : ∀ j < 1024, m'.words (tableWord p j) = content j

theorem held_again (held : Nat → Nat) (p : Nat) :
    Function.update (Function.update held p (held p + 1)) p
      (Function.update held p (held p + 1) p - 1) = held := by
  rw [Function.update_self, Function.update_idem]
  exact Function.update_eq_self p held

theorem held_mapped (held : Nat → Nat) {p : Nat} (physical : p < 2 ^ 20) {e : BitVec 32}
    (absent : present e = false) :
    (fun page => Function.update held p (held p + 1) page + pointsTo page e - pointsTo page (entry p)) = held := by
  funext page
  rw [pointsTo_absent absent, pointsTo_entry physical]
  by_cases same : page = p
  · rw [same, Function.update_self, if_pos rfl]
    omega
  · rw [Function.update_of_ne same, if_neg fun equal => same equal.symm]
    omega

theorem Sound.newPage (sound : Sound L m held) (dir : address / 0x400000 = d)
    (index : Memory.pageIndex address = i) (absent : present (m.pte d i) = false)
    (prepare : Memory → Nat → Memory) {content : Nat → BitVec 32}
    (prepared : ∀ p, prepare (m.take p) p = (m.take p).fill p content) :
    Ends (fun m' => ∃ p, Placed L held m d i content p m')
      (fun stop => ∃ m', stop = .noMemory m' ∧ Walk L (Move.own {(d, i)}) ⟨m, held⟩ ⟨m', held⟩)
      (m.newPage prepare address) := by
  unfold Memory.newPage
  split
  · exact .stop ⟨m, rfl, .none⟩
  · rename_i p m₁ got
    obtain ⟨rfl, managed, free⟩ := sound.getFreePage got
    obtain ⟨unused, unmapped, -, -⟩ := sound.free managed free
    have positive : 0 < p := Nat.lt_of_lt_of_le (by decide) managed.physical.1
    have views := take_views positive unused
    have plain : (m.take p).tables p = 0 := (tables_eq views.1).trans unused
    have unmapped' : (m.take p).mappings p = 0 := (mappings_eq views.2).trans unmapped
    have filled := fill_views (m := m.take p) positive plain content
    have walk : Walk L (Move.own {(d, i)}) ⟨m, held⟩
        ⟨(m.take p).fill p content, Function.update held p (held p + 1)⟩ :=
      (Walk.one (.take p) trivial ⟨managed, free⟩).next (.fill p content) trivial ⟨managed, plain, unmapped'⟩
    have sound₁ : Sound L ((m.take p).fill p content) (Function.update held p (held p + 1)) := walk.sound sound
    have plain₁ := (tables_eq filled.1).trans plain
    have unmapped₁ := (mappings_eq filled.2).trans unmapped'
    have holding : 0 < Function.update held p (held p + 1) p := by
      rw [Function.update_self]
      omega
    simp only [prepared]
    split
    · rename_i m' put
      obtain ⟨t, m₂, tabled, legal, apart, rfl⟩ := sound₁.putPage dir index managed plain₁ holding put
      have inUse := sound₁.mapped_used managed (by omega)
      have absent' : present (m₂.pte d i) = false := by
        rw [pte_congr tabled.ptes, pte_congr filled.2, pte_congr views.2]
        exact absent
      have mapped := (walk.append (tabled.walk.mono (Move.own_mono (Set.empty_subset _)))).next (.map d i p)
        ⟨rfl, absent', (mappings_eq tabled.ptes).trans unmapped₁⟩ legal
      have sound₂ : Sound L m₂ (Function.update held p (held p + 1)) := tabled.walk.sound sound₁
      refine .pure ⟨p, ?_, managed, ?_, ?_⟩
      · simp only [Move.apply, held_mapped held managed.physical.2 absent'] at mapped
        exact mapped
      · rw [sound₂.laid.set_ptes tabled.here, tabled.ptes, filled.2, views.2]
      · intro j inPage
        have elsewhere : tableWord p j / 1024 = p := tableWord_div inPage
        have ownTable : m₂.entryAt d i / 1024 = t := by rw [Memory.entryAt, tabled.table, tableWord_div i.isLt]
        rw [set_other fun same => apart (by rw [← ownTable, ← elsewhere, same]),
          tabled.words _ (by omega) (by rw [elsewhere]; exact apart.symm), fill_word content inPage]
    · have above := managed.physical.1
      rw [sound₁.freePage (.inr managed) (by omega)]
      have given := walk.next (.drop p) trivial ⟨managed, holding⟩
      simp only [Move.apply, held_again] at given
      refine .stop ⟨_, rfl, ?_⟩
      rw [Memory.unref, if_neg (by omega)]
      exact given

end Put

section UnWp

variable {d i : Fin 1024}

/-- What a write fault does: make the page writable where the entry is its only user, or copy it. -/
def Unshared (L : Layout) (held : Nat → Nat) (m : Memory) (d i : Fin 1024) (m' : Memory) : Prop :=
  ((Move.grant d i).Legal L ⟨m, held⟩ ∧ m' = m.set (m.entryAt d i) (m.pte d i ||| 2)) ∨
    ∃ p, (Move.copy d i p).Legal L ⟨m, held⟩ ∧ m' = Move.copied m (m.entryAt d i) p

theorem Unshared.walk (unshared : Unshared L held m d i m') : Walk L (Move.own ∅) ⟨m, held⟩ ⟨m', held⟩ := by
  rcases unshared with ⟨legal, rfl⟩ | ⟨p, legal, rfl⟩
  · exact .one (.grant d i) trivial legal
  · exact .one (.copy d i p) trivial legal

theorem Sound.unWpPage (sound : Sound L m held) (mapped : present (m.pte d i) = true) :
    Ends (Unshared L held m d i) (fun stop => stop = .noMemory m) (m.unWpPage (m.entryAt d i)) := by
  unfold Memory.unWpPage
  have word := word_of_pte (table_of_pte mapped) i
  rw [word]
  dsimp only
  split
  · rename_i sole
    exact .pure (.inl ⟨⟨mapped, sole.1, sole.2⟩, rfl⟩)
  · rename_i others
    split
    · exact .stop rfl
    · rename_i p m₁ got
      obtain ⟨rfl, managed, free⟩ := sound.getFreePage got
      refine .pure (.inr ⟨p, ⟨mapped, managed, free, fun high one => others ⟨high, one⟩⟩, ?_⟩)
      unfold Move.copied
      rw [word]

end UnWp

section Share

theorem set_comm {w w' : Nat} {e e' : BitVec 32} (apart : w ≠ w') : (m.set w e).set w' e' = (m.set w' e').set w e := by
  have words := Function.update_comm apart e e' m.words
  unfold Memory.set
  simp only
  rw [words]

variable {d d' i : Fin 1024} {p current address : Nat}

theorem Sound.tryToShare (sound : Sound L m held) (source : address / 0x400000 + p * 16 = d)
    (dest : address / 0x400000 + current * 16 = d') (index : Memory.pageIndex address = i)
    (room : present (m.pte d i) = true → lowMem ≤ frame (m.pte d i) →
      m.memMap (mapNr (frame (m.pte d i))) ≠ 255) :
    Ends (fun result => ∀ m', result = some m' → dirty (m.pte d i) = false ∧
        ∃ t m₁, Tabled L held m d' t m₁ ∧ (Move.share d i d').Legal L ⟨m₁, held⟩ ∧
          m' = Move.shared m₁ (m₁.entryAt d i) (m₁.entryAt d' i))
      (fun stop => stop = .noMemory m ∨ stop = .panic .toPageExists) (m.tryToShare current p address) := by
  unfold Memory.tryToShare
  rw [source, dest, index]
  dsimp only
  split
  · rename_i here
    have word := word_of_pte here i
    rw [← Memory.entryAt, word]
    split
    · exact .pure fun m' same => absurd same.symm (Option.some_ne_none m')
    · rename_i clean
      obtain ⟨mapped, clean⟩ := (clean_bits _).mp (by simpa using clean)
      split
      · exact .pure fun m' same => absurd same.symm (Option.some_ne_none m')
      · rename_i inside
        have high : lowMem ≤ frame (m.pte d i) := by omega
        split
        · exact .stop (.inl rfl)
        · rename_i t m₁ got
          have tabled := sound.tableFor got
          have dir : m₁.words d = m.words d := tabled.kept d here
          have pte : m₁.pte d i = m.pte d i := pte_congr tabled.ptes d i
          have here₁ : present (m₁.words d) = true := by rw [dir]; exact here
          have source : m₁.words (m₁.entryAt d i) = m.pte d i := (word_of_pte here₁ i).trans pte
          rw [← entryAt_of dir, source, ← tabled.table, ← Memory.entryAt]
          split
          · exact .stop (.inr rfl)
          · rename_i free
            have absent : present (m₁.pte d' i) = false := by
              rw [← word_of_pte tabled.here i]
              simpa using free
            have apart : m₁.entryAt d i ≠ m₁.entryAt d' i := by
              intro same
              rw [← same, source] at free
              exact free mapped
            refine .pure fun m' result => ⟨clean, t, m₁, tabled, ?_, ?_⟩
            · have inUse := sound.mapped_used (sound.mapped_managed mapped high)
                (by have use := mappings_pos d i mapped; omega)
              refine ⟨pte ▸ mapped, pte ▸ high, tabled.here, absent, ?_⟩
              show m₁.memMap (mapNr (frame (m₁.pte d i))) ≠ 255
              rw [pte, (tabled.inUse _ high inUse).1]
              exact room mapped high
            · cases result
              rw [set_self, set_comm apart]
              unfold Move.shared
              rw [source]
              simp only [frame_protect]
              rfl
  · exact .pure fun m' same => absurd same.symm (Option.some_ne_none m')

end Share

end Linux011.Mm

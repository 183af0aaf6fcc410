import Linux011.Mm.Exact

namespace Linux011.Mm

open Linux011.Library

variable {L : Layout} {m m' m'' : Memory} {held : Nat → Nat} {f : Nat}

/-- A page that some task maps and that is neither the page directory nor a page table. -/
structure Memory.InUse (m : Memory) (f : Nat) : Prop where
  positive : 0 < f
  plain : m.tables f = 0
  mapped : 0 < m.mappings f

/-- A page has data in it still, and the same. -/
structure Untouched (f : Nat) (m m' : Memory) : Prop where
  plain : m'.tables f = 0
  words : ∀ j < 1024, m'.words (tableWord f j) = m.words (tableWord f j)

namespace Untouched

theorem refl (plain : m.tables f = 0) : Untouched f m m := ⟨plain, fun _ _ => rfl⟩

theorem trans (first : Untouched f m m') (second : Untouched f m' m'') : Untouched f m m'' :=
  ⟨second.plain, fun j inPage => (second.words j inPage).trans (first.words j inPage)⟩

theorem of_words (plain : m.tables f = 0) (same : m'.words = m.words) : Untouched f m m' where
  plain := by
    rw [tables_eq (m := m) (funext fun d : Fin 1024 => congrFun same d)]
    exact plain
  words := fun _ _ => congrFun same _

theorem fill {p : Nat} (plain : m.tables f = 0) (positive : 0 < p) (unused : m.tables p = 0) (apart : f ≠ p)
    (content : Nat → BitVec 32) : Untouched f m (m.fill p content) where
  plain := (tables_eq (fill_views positive unused content).1).trans plain
  words := by
    intro j inPage
    apply fill_other
    rw [tableWord_div inPage]
    exact apart

theorem take {p : Nat} (plain : m.tables f = 0) (positive : 0 < p) (unused : m.tables p = 0) (apart : f ≠ p) :
    Untouched f m (m.take p) := by
  have filled := Untouched.fill (m := m.setMap p 1) plain positive unused apart fun _ => 0
  exact ⟨filled.plain, filled.words⟩

theorem entry {d : Fin 1024} (laid : Laid m) (plain : m.tables f = 0) (here : present (m.words d) = true) (i : Fin 1024)
    (e : BitVec 32) : Untouched f m (m.set (m.entryAt d i) e) where
  plain := (tables_eq (laid.set_pdes here i e)).trans plain
  words := by
    intro j inPage
    apply set_other
    intro same
    have use := tables_pos d here
    rw [← (tableWord_inj inPage i.isLt same).1, plain] at use
    cases use

theorem directory (positive : 0 < f) (plain : m.tables f = 0) (d : Fin 1024) {e : BitVec 32} (other : pointsTo f e = 0) :
    Untouched f m (m.set d e) where
  plain := by
    have moved := tables_update f (set_directory m d e)
    omega
  words := by
    intro j _
    have low := d.isLt
    apply set_other
    unfold tableWord
    omega

theorem word {p j : Nat} (plain : m.tables f = 0) (positive : 0 < p) (inPage : j < 1024) (apart : f ≠ p) (e : BitVec 32) :
    Untouched f m (m.set (tableWord p j) e) where
  plain := by
    have high (d : Fin 1024) : d.val ≠ tableWord p j := by
      have low := d.isLt
      unfold tableWord
      omega
    rw [tables_eq (m := m) (funext fun d : Fin 1024 => set_other (high d))]
    exact plain
  words := by
    intro i index
    exact set_other fun same => apart (tableWord_inj index inPage same).1

end Untouched

/-- The pages in use are left alone. -/
def Spares (m m' : Memory) : Prop := ∀ f, m.InUse f → Untouched f m m'

theorem Spares.refl (m : Memory) : Spares m m := fun _ inUse => .refl inUse.plain

theorem Spares.trans (first : Spares m m') (second : Spares m' m'')
    (mapped : ∀ f, m.InUse f → 0 < m'.mappings f) : Spares m m'' := by
  intro f inUse
  have untouched := first f inUse
  exact untouched.trans (second f ⟨inUse.positive, untouched.plain, mapped f inUse⟩)

theorem Spares.trans_ptes (first : Spares m m') (second : Spares m' m'') (same : m'.ptes = m.ptes) : Spares m m'' :=
  first.trans second fun f inUse => by
    rw [mappings_eq same]
    exact inUse.mapped

section Pages

variable {d d' i : Fin 1024} {p t address : Nat}

theorem Memory.InUse.not_free (inUse : m.InUse f) (sound : Sound L m held) (managed : L.Managed p)
    (free : m.memMap (mapNr p) = 0) : f ≠ p := by
  rintro rfl
  have mapped := inUse.mapped
  rw [(sound.free managed free).2.1] at mapped
  cases mapped

theorem Sound.take_spares (sound : Sound L m held) (managed : L.Managed p) (free : m.memMap (mapNr p) = 0) :
    Spares m (m.take p) := fun _ inUse =>
  .take inUse.plain (Sound.positive managed) (sound.free managed free).1 (inUse.not_free sound managed free)

theorem Sound.tableFor_spares (sound : Sound L m held) (got : m.tableFor d = some (t, m')) : Spares m m' := by
  unfold Memory.tableFor at got
  split at got
  · cases got
    exact .refl m
  · obtain ⟨⟨p, m₁⟩, found, same⟩ := Option.map_eq_some_iff.mp got
    obtain ⟨rfl, rfl⟩ := Prod.mk.inj same
    obtain ⟨rfl, managed, free⟩ := sound.getFreePage found
    intro f inUse
    have taken := sound.take_spares managed free f inUse
    have apart := inUse.not_free sound managed free
    apply taken.trans
    apply Untouched.directory inUse.positive taken.plain
    rw [pointsTo_entry managed.physical.2, if_neg apart.symm]

theorem Sound.putPage_spares (sound : Sound L m held) (dir : address / 0x400000 = d)
    (index : Memory.pageIndex address = i) (put : m.putPage p address = some m') : Spares m m' := by
  unfold Memory.putPage at put
  rw [dir, index] at put
  obtain ⟨⟨t, m₁⟩, found, same⟩ := Option.map_eq_some_iff.mp put
  have tabled := sound.tableFor found
  intro f inUse
  have untouched := sound.tableFor_spares found f inUse
  have entered := Untouched.entry (tabled.walk.sound sound).laid untouched.plain tabled.here i (entry p)
  rw [Memory.entryAt, tabled.table] at entered
  rw [← same]
  exact untouched.trans entered

/-- What a fault that got no memory leaves: the page tables and the pages in use. -/
structure Unchanged (m m' : Memory) : Prop where
  ptes : m'.ptes = m.ptes
  spares : Spares m m'

theorem Unchanged.refl (m : Memory) : Unchanged m m := ⟨rfl, .refl m⟩

theorem Sound.newPage_spares (sound : Sound L m held) (dir : address / 0x400000 = d)
    (index : Memory.pageIndex address = i) (prepare : Memory → Nat → Memory) {content : Nat → BitVec 32}
    (prepared : ∀ p, prepare (m.take p) p = (m.take p).fill p content) :
    Ends (Spares m) (fun stop => ∃ m', stop = .noMemory m' ∧ Unchanged m m') (m.newPage prepare address) := by
  unfold Memory.newPage
  split
  · exact .stop ⟨m, rfl, .refl m⟩
  · rename_i p m₁ got
    obtain ⟨rfl, managed, free⟩ := sound.getFreePage got
    obtain ⟨unused, unmapped, -, -⟩ := sound.free managed free
    have positive := Sound.positive managed
    have views := take_views positive unused
    have plain : (m.take p).tables p = 0 := (tables_eq views.1).trans unused
    have filled := fill_views (m := m.take p) positive plain content
    have ptes : ((m.take p).fill p content).ptes = m.ptes := filled.2.trans views.2
    have spares : Spares m ((m.take p).fill p content) := by
      intro f inUse
      have taken := sound.take_spares managed free f inUse
      exact taken.trans (.fill taken.plain positive plain (inUse.not_free sound managed free) content)
    have unmapped' : (m.take p).mappings p = 0 := (mappings_eq views.2).trans unmapped
    have walk : Walk L (Move.own {(d, i)}) ⟨m, held⟩
        ⟨(m.take p).fill p content, Function.update held p (held p + 1)⟩ :=
      (Walk.one (.take p) trivial ⟨managed, free⟩).next (.fill p content) trivial ⟨managed, plain, unmapped'⟩
    have sound₁ : Sound L ((m.take p).fill p content) (Function.update held p (held p + 1)) := walk.sound sound
    simp only [prepared]
    split
    · rename_i m' put
      exact .pure (spares.trans_ptes (sound₁.putPage_spares dir index put) ptes)
    · have holding : 0 < Function.update held p (held p + 1) p := by
        rw [Function.update_self]
        omega
      rw [sound₁.freePage (.inr managed) (by omega)]
      have words := unref_words ((m.take p).fill p content) p
      refine .stop ⟨_, rfl, ?_, ?_⟩
      · rw [← ptes]
        exact (views_kept (fun w _ => congrFun words w) fun _ _ _ => congrFun words _).2
      · exact spares.trans_ptes (fun f inUse => .of_words inUse.plain words) ptes

theorem Sound.unshared_spares (sound : Sound L m held) (unshared : Unshared L held m d i m') : Spares m m' := by
  intro f inUse
  rcases unshared with ⟨legal, rfl⟩ | ⟨p, legal, rfl⟩
  · exact .entry sound.laid inUse.plain (table_of_pte legal.1) i _
  · obtain ⟨mapped, managed, free, -⟩ := legal
    obtain ⟨unused, -, -, -⟩ := sound.free managed free
    have positive := Sound.positive managed
    have taken := sound.take_spares managed free f inUse
    have views := take_views positive unused
    have dir : (m.take p).words d = m.words d := congrFun views.1 d
    have laid := (sound.take managed free).laid
    have entered := Untouched.entry laid taken.plain (d := d) (dir ▸ table_of_pte mapped) i (Linux011.Mm.entry p)
    have pdes := laid.set_pdes (d := d) (dir ▸ table_of_pte mapped) i (Linux011.Mm.entry p)
    have plain : ((m.take p).set ((m.take p).entryAt d i) (Linux011.Mm.entry p)).tables p = 0 := by
      rw [tables_eq pdes, tables_eq views.1, unused]
    have copied := Untouched.fill entered.plain positive plain (inUse.not_free sound managed free)
      fun j => ((m.take p).set (m.entryAt d i) (Linux011.Mm.entry p)).words (tableWord (frame (m.words (m.entryAt d i))) j)
    rw [entryAt_of dir] at entered copied
    have all := taken.trans (entered.trans copied)
    unfold Move.copied
    dsimp only
    split
    · exact ⟨all.plain, all.words⟩
    · exact all

end Pages

section Free

variable {slot : Fin 64} {size : Nat}

theorem freePage_words (m : Memory) (p : Nat) :
    Ends (fun m' => m'.words = m.words) (fun _ => True) (m.freePage p) := by
  unfold Memory.freePage
  split
  · exact .pure rfl
  · split
    · exact .stop trivial
    · split
      · exact .pure (freed_given m p).words
      · exact .stop trivial

theorem freeEntry_words (m : Memory) (w : Nat) :
    Ends (fun m' => m'.words = Function.update m.words w 0) (fun _ => True) (m.freeEntry w) := by
  unfold Memory.freeEntry
  split
  · apply (freePage_words m _).map
    intro m' same
    rw [← same]
    rfl
  · exact .pure rfl

theorem freeTable_words (m : Memory) (d : Nat) :
    Ends (fun m' => ∀ w, w ≠ d → (present (m.words d) = true → w / 1024 ≠ frame (m.words d)) →
      m'.words w = m.words w) (fun _ => True) (m.freeTable d) := by
  unfold Memory.freeTable
  split
  · rename_i here
    have emptied : Ends (fun m' => ∀ w, w / 1024 ≠ frame (m.words d) → m'.words w = m.words w) (fun _ => True)
        (upTo (fun m' nr => m'.freeEntry (tableWord (frame (m.words d)) nr)) 1024 m) := by
      apply Ends.upTo (I := fun _ (m' : Memory) => ∀ w, w / 1024 ≠ frame (m.words d) → m'.words w = m.words w)
      · exact fun _ _ => rfl
      · intro n m₁ below same
        apply (freeEntry_words m₁ _).mono _ fun _ _ => trivial
        intro m₂ words w outside
        rw [words, Function.update_of_ne]
        · exact same w outside
        · rintro rfl
          exact outside (tableWord_div below)
    apply emptied.bind
    intro m₁ same
    apply (freePage_words m₁ _).bind
    intro m₂ words
    refine .pure fun w other outside => ?_
    rw [set_other other, words]
    exact same w (outside here)
  · exact .pure fun _ _ _ => rfl

/-- A word of the first `n` page-directory entries of a slot, or of their page tables. -/
def Memory.Tabular (m : Memory) (slot n w : Nat) : Prop :=
  ∃ k < n, w = 16 * slot + k ∨ present (m.words (16 * slot + k)) = true ∧ w / 1024 = frame (m.words (16 * slot + k))

theorem Laid.dir_outside (laid : Laid m) {n d : Nat} (inside : 16 * slot.val + n ≤ 1024) (dir : d < 1024)
    (other : ∀ k < n, d ≠ 16 * slot.val + k) : ¬ m.Tabular slot n d := by
  rintro ⟨k, below, same | ⟨here, table⟩⟩
  · exact other k below same
  · have positive := laid.tablePage _ (tables_pos ⟨16 * slot.val + k, by omega⟩ here)
    simp only at positive
    omega

theorem Laid.freeTable_tabular (laid : Laid m) {n : Nat} (below : n < 16) {m₁ : Memory}
    (same : ∀ w, ¬ m.Tabular slot n w → m₁.words w = m.words w) :
    Ends (fun m' => ∀ w, ¬ m.Tabular slot (n + 1) w → m'.words w = m.words w) (fun _ => True)
      (m₁.freeTable (16 * slot + n)) := by
  have inside := slot.isLt
  have dir : m₁.words (16 * slot.val + n) = m.words (16 * slot.val + n) := by
    apply same
    apply laid.dir_outside <;> omega
  apply (freeTable_words m₁ _).mono _ fun _ _ => trivial
  intro m₂ round w outside
  rw [round w]
  · apply same
    rintro ⟨k, earlier, here⟩
    exact outside ⟨k, by omega, here⟩
  · exact fun same => outside ⟨n, Nat.lt_succ_self n, .inl same⟩
  · rw [dir]
    exact fun here table => outside ⟨n, Nat.lt_succ_self n, .inr ⟨here, table⟩⟩

theorem Laid.freePageTables_words (laid : Laid m) (slot : Fin 64) (fits : Memory.dirs size ≤ 16) :
    Ends (fun m' => ∀ w, ¬ m.Tabular slot (Memory.dirs size) w → m'.words w = m.words w) (fun _ => True)
      (m.freePageTables (Memory.base slot) size) := by
  unfold Memory.freePageTables
  split
  · exact .stop trivial
  · split
    · exact .stop trivial
    · rw [base_dir]
      apply Ends.upTo (I := fun n (m' : Memory) => ∀ w, ¬ m.Tabular slot n w → m'.words w = m.words w)
      · exact fun _ _ => rfl
      · exact fun n m₁ below same => laid.freeTable_tabular (by omega) same

/-- A slot has lost its first page tables, and nobody has lost anything else. -/
structure Vacated (m : Memory) (slot : Fin 64) (n : Nat) (m' : Memory) : Prop where
  others : ∀ r, r ≠ slot → m'.window r = m.window r
  rest : ∀ x : Fin 16 × Fin 1024, n ≤ x.1.val → m'.window slot x = m.window slot x
  gone : ∀ x : Fin 16 × Fin 1024, x.1.val < n → present (m'.window slot x) = false
  untouched : ∀ f, 0 < f → m.tables f = 0 → Untouched f m m'

theorem pte_same {d i : Fin 1024} (dir : m'.words d = m.words d)
    (table : present (m.words d) = true → m'.words (m.entryAt d i) = m.words (m.entryAt d i)) :
    m'.pte d i = m.pte d i := by
  unfold Memory.pte
  rw [entryAt_of dir, dir]
  split
  · rename_i here
    exact table here
  · rfl

theorem Laid.vacated (laid : Laid m) {n : Nat} (inside : n ≤ 16)
    (words : ∀ w, ¬ m.Tabular slot n w → m'.words w = m.words w)
    (absent : ∀ k < n, present (m'.words (16 * slot + k)) = false) : Vacated m slot n m' := by
  have room := slot.isLt
  have kept (d i : Fin 1024) (other : ∀ k < n, d.val ≠ 16 * slot.val + k) : m'.pte d i = m.pte d i := by
    apply pte_same
    · exact words _ (laid.dir_outside (by omega) d.isLt other)
    · intro here
      apply words
      rintro ⟨k, below, same | ⟨here', table⟩⟩
      · have high := laid.table_word here i
        omega
      · rw [Memory.entryAt, tableWord_div i.isLt] at table
        have dir : d = ⟨16 * slot.val + k, by omega⟩ := laid.own_table here here' table
        exact other k below (congrArg Fin.val dir)
  constructor
  case others =>
    intro r apart
    funext x
    apply kept (dirOf r x.1) x.2
    intro k below same
    have place : (dirOf r x.1).val = 16 * r.val + x.1.val := rfl
    exact apart (Fin.ext (by omega))
  case rest =>
    intro x beyond
    apply kept (dirOf slot x.1) x.2
    intro k below same
    have place : (dirOf slot x.1).val = 16 * slot.val + x.1.val := rfl
    omega
  case gone =>
    intro x below
    have none : present (m'.words (dirOf slot x.1)) = false := absent x.1 below
    rw [show m'.window slot x = m'.pte (dirOf slot x.1) x.2 from rfl, pte_without_table none, present_zero]
  case untouched =>
    intro f positive plain
    constructor
    · by_contra use
      obtain ⟨d, points⟩ := (total_pos_iff _ _).mp (Nat.pos_of_ne_zero use)
      obtain ⟨here, same⟩ := pointsTo_pos.mp points
      have here : present (m'.words d) = true := here
      have other : ∀ k < n, d.val ≠ 16 * slot.val + k := by
        intro k below equal
        rw [equal, absent k below] at here
        cases here
      have dir := words d (laid.dir_outside (by omega) d.isLt other)
      have use := tables_pos d (dir ▸ here)
      have same : frame (m'.words d) = f := same
      rw [← dir, same, plain] at use
      cases use
    · intro j inPage
      apply words
      rintro ⟨k, below, same | ⟨here, table⟩⟩
      · unfold tableWord at same
        omega
      · have use := tables_pos ⟨16 * slot.val + k, by omega⟩ here
        rw [tableWord_div inPage] at table
        simp only [← table, plain] at use
        cases use

theorem Vacated.trans {n n' : Nat} (first : Vacated m slot n m') (second : Vacated m' slot n' m'') (more : n ≤ n') :
    Vacated m slot n' m'' where
  others := fun r apart => (second.others r apart).trans (first.others r apart)
  rest := fun x beyond => (second.rest x beyond).trans (first.rest x (by omega))
  gone := second.gone
  untouched := by
    intro f positive plain
    have untouched := first.untouched f positive plain
    exact untouched.trans (second.untouched f positive untouched.plain)

theorem Sound.vacate (sound : Sound L m held) (other : slot ≠ 0) (fits : Memory.dirs size ≤ 16) :
    Ends (Vacated m slot (Memory.dirs size)) (fun _ => False) (m.freePageTables (Memory.base slot) size) := by
  have positive : 0 < slot.val := Nat.pos_of_ne_zero fun same => other (Fin.ext same)
  have cleared := sound.freePageTables positive slot.isLt fits
  have words := sound.laid.freePageTables_words slot fits
  constructor
  · exact fun m' returned => sound.laid.vacated fits (words.ok m' returned) (cleared.ok m' returned).absent
  · exact cleared.error

end Free

section Fork

variable {s nr : Fin 64} {k : Fin 16} {t : Task}

theorem copyEntry_words (m : Memory) {src dst w : Nat} (other : w ≠ src) (other' : w ≠ dst) :
    (m.copyEntry src dst).words w = m.words w := by
  unfold Memory.copyEntry
  dsimp only
  split
  · split
    · show Function.update (Function.update m.words dst _) src _ w = _
      rw [Function.update_of_ne other, Function.update_of_ne other']
    · exact set_other other'
  · rfl

theorem copyTable_words (m : Memory) (kernel : Bool) (source dest : Nat) :
    Ends (fun m' => m' = m ∨ present (m.words source) = true ∧ ∃ p m₁, m.getFreePage = some (p, m₁) ∧
        ∀ w, w / 1024 ≠ frame (m.words source) → w / 1024 ≠ p →
          m'.words w = Function.update m.words dest (entry p) w)
      (fun stop => stop = .panic .alreadyExist ∨ stop = .noMemory m) (m.copyTable kernel source dest) := by
  unfold Memory.copyTable
  split
  · exact .stop (.inl rfl)
  · split
    · rename_i here
      dsimp only
      split
      · exact .stop (.inr rfl)
      · rename_i p m₁ got
        have taken : m₁ = m.take p := by
          unfold Memory.getFreePage at got
          obtain ⟨i, -, same⟩ := Option.map_eq_some_iff.mp got
          obtain ⟨rfl, rfl⟩ := Prod.mk.inj same
          rfl
        have short : (if kernel then 0xA0 else 1024) ≤ 1024 := by split <;> decide
        have copied : Ends (fun m' => ∀ w, w / 1024 ≠ frame (m.words source) → w / 1024 ≠ p →
            m'.words w = Function.update m.words dest (entry p) w)
            (fun stop : Stop => stop = .panic .alreadyExist ∨ stop = .noMemory m)
            (upTo (fun m' nr => .ok (m'.copyEntry (tableWord (frame (m.words source)) nr) (tableWord p nr)))
              (if kernel then 0xA0 else 1024) (m₁.set dest (entry p))) := by
          apply Ends.upTo (I := fun _ (m' : Memory) => ∀ w, w / 1024 ≠ frame (m.words source) → w / 1024 ≠ p →
            m'.words w = Function.update m.words dest (entry p) w)
          · intro w _ fresh
            by_cases same : w = dest
            · rw [same, set_self, Function.update_self]
            · rw [set_other same, Function.update_of_ne same, taken]
              exact fill_other fresh
          · intro n m₂ below earlier
            refine .pure fun w outside fresh => ?_
            rw [copyEntry_words, earlier w outside fresh]
            · rintro rfl
              exact outside (tableWord_div (by omega))
            · rintro rfl
              exact fresh (tableWord_div (by omega))
        exact copied.mono (fun _ words => .inr ⟨here, p, m₁, got, words⟩) fun _ stops => stops
    · exact .pure (.inl rfl)

/-- What `copy_page_tables` leaves alone: the other slots, what it has not come to, and the pages in use. -/
structure Beside (m : Memory) (s nr : Fin 64) (n : Nat) (m' : Memory) : Prop where
  others : ∀ r, r ≠ s → r ≠ nr → m'.window r = m.window r
  beyond : ∀ x : Fin 16 × Fin 1024, n ≤ x.1.val → m'.window nr x = m.window nr x
  spares : Spares m m'

theorem Sound.copied_beside (sound : Sound L m held) {p : Nat} {m₁ : Memory}
    (here : present (m.words (dirOf s k)) = true) (got : m.getFreePage = some (p, m₁))
    (words : ∀ w, w / 1024 ≠ frame (m.words (dirOf s k)) → w / 1024 ≠ p →
      m'.words w = Function.update m.words (dirOf nr k) (entry p) w) :
    (∀ d i : Fin 1024, d ≠ dirOf s k → d ≠ dirOf nr k → m'.pte d i = m.pte d i) ∧ Spares m m' := by
  obtain ⟨-, managed, free⟩ := sound.getFreePage got
  obtain ⟨unused, -, -, -⟩ := sound.free managed free
  have positive := Sound.positive managed
  have table := sound.laid.tablePage _ (tables_pos (dirOf s k) here)
  have dirs (d : Fin 1024) : m'.words d = Function.update m.words (dirOf nr k) (entry p) d := by
    apply words <;> omega
  constructor
  · intro d i source dest
    have other : d.val ≠ dirOf nr k := fun same => dest (Fin.ext same)
    apply pte_same
    · rw [dirs d, Function.update_of_ne other]
    · intro there
      have high := sound.laid.table_word there i
      have dest := (dirOf nr k).isLt
      rw [words, Function.update_of_ne (by omega)]
      · rw [Memory.entryAt, tableWord_div i.isLt]
        exact fun same => source (sound.laid.own_table there here same)
      · rw [Memory.entryAt, tableWord_div i.isLt]
        intro same
        have use := tables_pos d there
        rw [same, unused] at use
        cases use
  · intro f inUse
    have fresh := inUse.not_free sound managed free
    constructor
    · have pdes : m'.pdes = Function.update m.pdes (dirOf nr k) (entry p) := by
        funext d
        have dir := dirs d
        by_cases same : d = dirOf nr k
        · rw [same, Function.update_self] at dir ⊢
          exact dir
        · rw [Function.update_of_ne fun equal => same (Fin.ext equal)] at dir
          rw [Function.update_of_ne same]
          exact dir
      have moved := tables_update f pdes
      rw [pointsTo_entry managed.physical.2, if_neg fresh.symm, inUse.plain] at moved
      omega
    · intro j inPage
      have positive := inUse.positive
      have dest := (dirOf nr k).isLt
      rw [words, Function.update_of_ne]
      · unfold tableWord
        omega
      · rw [tableWord_div inPage]
        rintro rfl
        have use := tables_pos (dirOf s k) here
        rw [inUse.plain] at use
        cases use
      · rw [tableWord_div inPage]
        exact fresh

theorem Copying.mapped {limit n n' : Nat} (copying : Copying L held m s nr limit n n' m') (beside : Beside m s nr n m')
    (blank : ∀ x, present (m.window nr x) = false) (inUse : m.InUse f) : 0 < m'.mappings f := by
  obtain ⟨x, points⟩ := (total_pos_iff _ _).mp inUse.mapped
  obtain ⟨here, same⟩ := pointsTo_pos.mp points
  obtain ⟨r, j, place⟩ := dirOf_surjective x.1
  have window (m : Memory) : m.ptes x = m.window r (j, x.2) := by
    rw [show m.window r (j, x.2) = m.ptes (dirOf r j, x.2) from rfl, ← place]
  have same' : present (m'.ptes x) = true ∧ frame (m'.ptes x) = f := by
    rw [window] at here same ⊢
    by_cases parent : r = s
    · subst parent
      have alike := copying.source (j, x.2)
      have here' := alike.1.trans here
      exact ⟨here', (alike.2 here').1.trans same⟩
    · by_cases child : r = nr
      · rw [child, blank] at here
        cases here
      · rw [beside.others r parent child]
        exact ⟨here, same⟩
  exact (total_pos_iff _ _).mpr ⟨x, pointsTo_pos.mpr same'⟩

theorem Sound.copyPageTables_beside (sound : Sound L m held) (apart : s ≠ nr) (room : m.Room s) {size : Nat}
    (fits : Memory.dirs size ≤ 16) (blank : ∀ x, present (m.window nr x) = false) :
    Ends (fun m' => Copying L held m s nr (copiedEntries s) (Memory.dirs size) 0 m' ∧
        Beside m s nr (Memory.dirs size) m')
      (fun stop => stop = .panic .alreadyExist ∨ ∃ m' n, stop = .noMemory m' ∧ n ≤ Memory.dirs size ∧
        Copying L held m s nr (copiedEntries s) n 0 m' ∧ Beside m s nr n m')
      (m.copyPageTables (Memory.base s) (Memory.base nr) size) := by
  unfold Memory.copyPageTables
  rw [if_neg (by rw [base_aligned, base_aligned]; decide), base_dir, base_dir]
  apply Ends.upTo (I := fun n m' => Copying L held m s nr (copiedEntries s) n 0 m' ∧ Beside m s nr n m')
  · refine ⟨⟨.none, fun _ => .refl _, ?_, fun _ _ _ => Nat.le_add_right _ _⟩, fun _ _ _ => rfl, fun _ _ => rfl, .refl m⟩
    intro p before
    omega
  · intro n m₁ below ⟨copying, beside⟩
    have short : n < 16 := by omega
    have sound₁ : Sound L m₁ held := copying.walk.sound sound
    have entries : copiedEntries s = if decide (Memory.base s = 0) then 0xA0 else 1024 := by
      unfold copiedEntries
      simp
    have next := copying.table (k := ⟨n, short⟩) sound apart room entries
    have words := copyTable_words m₁ (Memory.base s = 0) (dirOf s ⟨n, short⟩) (dirOf nr ⟨n, short⟩)
    constructor
    · intro m₂ returned
      refine ⟨next.ok m₂ returned, ?_⟩
      rcases words.ok m₂ returned with rfl | ⟨here, p, m₃, got, words⟩
      · exact ⟨beside.others, fun x beyond => beside.beyond x (by omega), beside.spares⟩
      · obtain ⟨ptes, spares⟩ := sound₁.copied_beside here got words
        refine ⟨?_, ?_, beside.spares.trans spares fun f inUse => copying.mapped beside blank inUse⟩
        · intro r parent child
          rw [← beside.others r parent child]
          funext x
          exact ptes (dirOf r x.1) x.2 (fun same => parent (dirOf_inj same).1) fun same => child (dirOf_inj same).1
        · intro x beyond
          rw [← beside.beyond x (by omega)]
          apply ptes (dirOf nr x.1) x.2 fun same => apart (dirOf_inj same).1.symm
          intro same
          have place := congrArg Fin.val (dirOf_inj same).2
          simp only at place
          omega
    · intro stop stopped
      rcases words.error stop stopped with rfl | rfl
      · exact .inl rfl
      · exact .inr ⟨m₁, n, rfl, by omega, copying, beside⟩

end Fork

end Linux011.Mm

import Linux011.Mm.FreePages
import Linux011.Mm.References

namespace Linux011.Mm

open Linux011.Library

variable {L : Layout} {m m' m'' : Memory} {held : Nat → Nat} {pages more : Set Nat} {p : Nat}

section Give

/-- What giving up pages does to the keys: a key that is live afterwards has not had its page given up, and
    no key changes unless its page is. -/
structure GivenUp (pages : Set Nat) (m m' : Memory) : Prop where
  live : ∀ key, (m'.sharedPages key).count ≠ 0 → (m.sharedPages key).count ≠ 0 ∧
    (m'.sharedPages key).physicalAddress = (m.sharedPages key).physicalAddress ∧
    m'.memMap (mapNr (m.sharedPages key).physicalAddress) = m.memMap (mapNr (m.sharedPages key).physicalAddress)
  kept : (∀ key, (m.sharedPages key).count ≠ 0 → (m.sharedPages key).physicalAddress ∉ pages) →
    m'.sharedPages = m.sharedPages

namespace GivenUp

theorem of_same (map : m'.memMap = m.memMap) (shared : m'.sharedPages = m.sharedPages) : GivenUp pages m m' where
  live := by
    intro key live
    rw [shared] at live ⊢
    rw [map]
    exact ⟨live, rfl, rfl⟩
  kept _ := shared

theorem refl (pages : Set Nat) (m : Memory) : GivenUp pages m m := of_same rfl rfl

theorem mono (given : GivenUp pages m m') (fewer : pages ⊆ more) : GivenUp more m m' where
  live := given.live
  kept apart := given.kept fun key live there => apart key live (fewer there)

theorem trans (first : GivenUp pages m m') (second : GivenUp pages m' m'') : GivenUp pages m m'' where
  live := by
    intro key live
    rcases second.live key live with ⟨live', same', map'⟩
    rcases first.live key live' with ⟨live, same, map⟩
    refine ⟨live, same'.trans same, ?_⟩
    rw [← map, ← same]
    exact map'
  kept := by
    intro apart
    have same := first.kept apart
    rw [← same]
    exact second.kept (same ▸ apart)

theorem set (given : GivenUp pages m m') (w : Nat) (e : BitVec 32) : GivenUp pages m (m'.set w e) :=
  ⟨given.live, given.kept⟩

end GivenUp

theorem Given.givenUp (given : Given m p m') (sound : Sound L m held) (above : lowMem ≤ p) : GivenUp {p} m m' := by
  have high (key : Fin 64) (live : (m.sharedPages key).count ≠ 0) : lowMem ≤ (m.sharedPages key).physicalAddress :=
    (sound.sharedPage key live).1.physical.1
  cases given with
  | own unshared =>
    constructor
    · intro key live
      have live : (m.sharedPages key).count ≠ 0 := live
      exact ⟨live, rfl, setMap_other above (high key live) (unshared key live)⟩
    · exact fun _ => rfl
  | shared k here before =>
    constructor
    · intro key live
      have still := less_live live before
      exact ⟨still.1, still.2, rfl⟩
    · exact fun apart => absurd here (apart k before)
  | last k here before only =>
    constructor
    · intro key live
      have still := less_live live before
      refine ⟨still.1, still.2, ?_⟩
      apply setMap_other above (high key still.1)
      intro same
      have equal : key = k := sound.distinct key k still.1 before (same.trans here.symm)
      rw [equal] at live
      exact live (by rw [setMap_shared, setShared_same, only])
    · exact fun apart => absurd here (apart k before)

theorem Sound.unref_givenUp (sound : Sound L m held) (p : Nat) : GivenUp {p} m (m.unref p) := by
  unfold Memory.unref
  split
  · exact .refl _ m
  · exact (freed_given m p).givenUp sound (by omega)

end Give

section Tables

/-- The page tables and pages behind a page-directory entry. -/
def Memory.behind (m : Memory) (d : Nat) : Set Nat :=
  {page | present (m.words d) = true ∧
    (frame (m.words d) = page ∨ ∃ i : Fin 1024, present (m.pte d i) = true ∧ frame (m.pte d i) = page)}

/-- What freeing the first entries of a page table has given up. -/
structure Spent (L : Layout) (held : Nat → Nat) (m : Memory) (d : Fin 1024) (n : Nat) (m' : Memory) : Prop
    extends Emptied L held m d n m' where
  rest : ∀ i, n ≤ i → i < 1024 → m'.words (tableWord (frame (m.words d)) i) = m.words (tableWord (frame (m.words d)) i)
  given : GivenUp (m.behind d) m m'

variable {d : Fin 1024} {n : Nat}

theorem Spent.entry (spent : Spent L held m d n m') (sound : Sound L m held) (here : present (m.words d) = true)
    (below : n < 1024) :
    Ends (Spent L held m d (n + 1)) (fun _ => False) (m'.freeEntry (tableWord (frame (m.words d)) n)) := by
  have next := spent.toEmptied.entry sound here below
  have dir : m'.words d = m.words d := congrFun spent.pdes d
  have here' : present (m'.words d) = true := by rw [dir]; exact here
  have word : tableWord (frame (m.words d)) n = m'.entryAt d n := by rw [Memory.entryAt, dir]
  have sound' : Sound L m' held := spent.walk.sound sound
  have freed := sound'.freeEntry here' ⟨n, below⟩
  rw [← word] at freed
  rw [freed] at next ⊢
  refine .pure ⟨next.ok _ rfl, ?_, spent.given.trans ?_⟩
  · intro i upTo inside
    rw [unmapped_words, Function.update_of_ne fun same => absurd (tableWord_inj inside below same).2 (by omega)]
    exact spent.rest i (by omega) inside
  · have entry : m'.words (tableWord (frame (m.words d)) n) = m.pte d (⟨n, below⟩ : Fin 1024) :=
      (spent.rest n (Nat.le_refl n) below).trans (pte_of_table here).symm
    unfold Move.unmapped
    split
    · rename_i mapped
      have unref := sound'.unref_givenUp (frame (m'.words (tableWord (frame (m.words d)) n)))
      apply (unref.set _ 0).mono
      intro page same
      rw [Set.mem_singleton_iff] at same
      rw [entry] at mapped same
      exact ⟨here, .inr ⟨⟨n, below⟩, mapped, same.symm⟩⟩
    · exact .of_same rfl rfl

theorem Sound.freeTable_given (sound : Sound L m held) (d : Fin 1024) :
    Ends (fun m' => m'.words d = (if present (m.words d) then 0 else m.words d) ∧ GivenUp (m.behind d) m m')
      (fun _ => False) (m.freeTable d) := by
  unfold Memory.freeTable
  split
  · rename_i here
    have spent : Ends (Spent L held m d 1024) (fun _ => False)
        (upTo (fun m' nr => m'.freeEntry (tableWord (frame (m.words d)) nr)) 1024 m) := by
      apply Ends.upTo
      · exact ⟨⟨.none, rfl, fun _ none => nomatch none⟩, fun _ _ _ => rfl, .refl _ m⟩
      · exact fun n m' below spent => spent.entry sound here below
    refine spent.bind fun m' spent => ?_
    have sound' : Sound L m' held := spent.walk.sound sound
    have dir : m'.words d = m.words d := congrFun spent.pdes d
    have use := tables_pos d (m := m') (by rw [dir]; exact here)
    rw [sound'.freePage ((sound'.tablePage _ use).symm.imp_left And.right) (by omega)]
    refine .pure ⟨set_self, spent.given.trans ?_⟩
    have unref := sound'.unref_givenUp (frame (m'.words d))
    apply (unref.set _ 0).mono
    intro page same
    rw [Set.mem_singleton_iff, dir] at same
    exact ⟨here, .inl same.symm⟩
  · exact .pure ⟨rfl, .refl _ m⟩

/-- The first page-directory entries of a task are gone, with what they mapped. -/
structure Undone (L : Layout) (held : Nat → Nat) (m : Memory) (slot : Fin 64) (n : Nat) (m' : Memory) : Prop
    extends Cleared L held m slot n m' where
  words : ∀ w, ¬ m.Tabular slot n w → m'.words w = m.words w
  dirs : ∀ k < n, m'.words (16 * slot + k) =
    if present (m.words (16 * slot + k)) then 0 else m.words (16 * slot + k)
  given : GivenUp {page | ∃ k < n, page ∈ m.behind (16 * slot + k)} m m'

variable {slot : Fin 64}

theorem Undone.table (undone : Undone L held m slot n m') (sound : Sound L m held) (below : n < 16) :
    Ends (Undone L held m slot (n + 1)) (fun _ => False) (m'.freeTable (16 * slot + n)) := by
  have inside := slot.isLt
  have sound' : Sound L m' held := undone.walk.sound sound
  have cleared := undone.toCleared.table sound slot.isLt below
  have words := sound.laid.freeTable_tabular below undone.words
  have dir : m'.words (16 * slot + n) = m.words (16 * slot + n) := by
    apply undone.words
    apply sound.laid.dir_outside <;> omega
  have vacated := sound.laid.vacated (Nat.le_of_lt below) undone.words undone.absent
  have behind : m'.behind (16 * slot + n) = m.behind (16 * slot + n) := by
    have pte (i : Fin 1024) : m'.pte (16 * slot + n) i = m.pte (16 * slot + n) i :=
      vacated.rest (⟨n, below⟩, i) (Nat.le_refl n)
    unfold Memory.behind
    simp only [dir, pte]
  have others := sound'.freeTable ⟨16 * slot + n, by omega⟩
  have freed := sound'.freeTable_given ⟨16 * slot + n, by omega⟩
  rw [behind, dir] at freed
  constructor
  · intro m'' returned
    rcases freed.ok m'' returned with ⟨own, given⟩
    have words := words.ok m'' returned
    refine ⟨cleared.ok m'' returned, words, ?_, ?_⟩
    · intro k upTo
      by_cases last : k = n
      · rw [last]
        exact own
      · rw [← undone.dirs k (by omega)]
        exact (others.ok m'' returned).others ⟨16 * slot + k, by omega⟩ fun same => last (by simpa using same)
    · apply GivenUp.trans
      · exact undone.given.mono fun page ⟨k, earlier, there⟩ => ⟨k, by omega, there⟩
      · exact given.mono fun page there => ⟨n, Nat.lt_succ_self n, there⟩
  · exact cleared.error

theorem Sound.undo (sound : Sound L m held) (other : slot ≠ 0) {size : Nat} (fits : Memory.dirs size ≤ 16) :
    Ends (Undone L held m slot (Memory.dirs size)) (fun _ => False) (m.freePageTables (Memory.base slot) size) := by
  have positive : 0 < slot.val := Nat.pos_of_ne_zero fun same => other (Fin.ext same)
  have nonzero : Memory.base slot ≠ 0 := by
    unfold Memory.base
    omega
  unfold Memory.freePageTables
  rw [if_neg (by rw [base_aligned]; decide), if_neg nonzero, base_dir]
  apply Ends.upTo
  · exact ⟨⟨.none, fun _ none => nomatch none⟩, fun _ _ => rfl, nofun, .refl _ m⟩
  · exact fun k m' below undone => undone.table sound (by omega)

end Tables

section Copies

/-- What copying a page table writes besides the copy. -/
structure Drawn (table copy : Nat) (m m' : Memory) : Prop where
  elsewhere : ∀ w, w / 1024 ≠ table → w / 1024 ≠ copy → m'.words w = m.words w
  source : ∀ w, w / 1024 = table → m'.words w = m.words w ∨ m'.words w = protect (m.words w)
  shared : m'.sharedPages = m.sharedPages
  free : m'.freePages = m.freePages

theorem protect_protect (e : BitVec 32) : protect (protect e) = protect e := by
  unfold protect
  rw [BitVec.and_assoc, BitVec.and_self]

variable {table copy : Nat}

theorem Drawn.refl (m : Memory) : Drawn table copy m m := ⟨fun _ _ _ => rfl, fun _ _ => .inl rfl, rfl, rfl⟩

theorem Drawn.trans (first : Drawn table copy m m') (second : Drawn table copy m' m'') : Drawn table copy m m'' where
  elsewhere := fun w outside fresh => (second.elsewhere w outside fresh).trans (first.elsewhere w outside fresh)
  source := by
    intro w inside
    rcases second.source w inside with same | marked
    · rw [same]
      exact first.source w inside
    · rcases first.source w inside with same | already
      · exact .inr (same ▸ marked)
      · rw [already, protect_protect] at marked
        exact .inr marked
  shared := second.shared.trans first.shared
  free := second.free.trans first.free

theorem copyEntry_shared (m : Memory) (src dst : Nat) : (m.copyEntry src dst).sharedPages = m.sharedPages := by
  unfold Memory.copyEntry
  dsimp only
  split
  · split <;> rfl
  · rfl

theorem copyEntry_source (m : Memory) {src dst : Nat} (apart : src ≠ dst) :
    (m.copyEntry src dst).words src = m.words src ∨ (m.copyEntry src dst).words src = protect (m.words src) := by
  unfold Memory.copyEntry
  dsimp only
  split
  · split
    · exact .inr set_self
    · exact .inl (set_other apart)
  · exact .inl rfl

variable {s nr : Fin 64} {limit : Nat} {k : Fin 16} {tables : Nat × Nat} {i : Fin 1024}

theorem CopyingTable.drawn (copying : CopyingTable L held m s nr limit k (table, copy) i m') (sound : Sound L m held)
    (room : m.Room s) (apart : table ≠ copy) :
    Drawn table copy m' (m'.copyEntry (tableWord table i) (tableWord copy i)) := by
  have sound' : Sound L m' held := copying.walk.sound sound
  have here := Prod.mk.inj copying.tables
  have other : tableWord table i ≠ tableWord copy i := fun same => apart (tableWord_inj i.isLt i.isLt same).1
  constructor
  case elsewhere =>
    intro w outside fresh
    apply copyEntry_words
    · rintro rfl
      exact outside (tableWord_div i.isLt)
    · rintro rfl
      exact fresh (tableWord_div i.isLt)
  case source =>
    intro w inside
    by_cases same : w = tableWord table i
    · rw [same]
      exact copyEntry_source m' other
    · refine .inl (copyEntry_words m' same ?_)
      rintro rfl
      exact apart (inside.symm.trans (tableWord_div i.isLt))
  case shared => exact copyEntry_shared m' _ _
  case free =>
    have entry := copyEntry_eq m' copying.here (dirOf nr k) i
    rw [Memory.entryAt, Memory.entryAt, here.1, here.2] at entry
    rw [entry]
    split
    · rename_i mapped
      split
      · rename_i above
        have managed := sound'.mapped_managed mapped above
        have use := mappings_pos (dirOf s k) i mapped
        have used := sound'.mapped_used managed (by omega)
        have full := copying.room_at sound room mapped above
        have inside : mapNr (frame (m'.pte (dirOf s k) i)) < pagingPages := by
          have high := L.inPaging
          have top := managed.2
          unfold mapNr
          simp only [lowMem, pagingPages] at above high ⊢
          omega
        have source := shared_count copying.here (dirOf nr k) i
        rw [Memory.entryAt, Memory.entryAt, here.1, here.2] at source
        rw [freePages_congr source]
        apply freePages_more inside rfl used
        intro zero
        apply full
        have sum := congrArg (fun n => n - 1) zero
        change m'.memMap (mapNr (frame (m'.pte (dirOf s k) i))) = 255
        simpa using sum
      · exact freePages_congr rfl
    · rfl

/-- A page table has been copied through a new one. -/
structure Duplicated (L : Layout) (held : Nat → Nat) (m : Memory) (s nr : Fin 64) (limit : Nat) (k : Fin 16)
    (m' m'' : Memory) : Prop where
  here : present (m'.words (dirOf s k)) = true
  copy : ∃ t, m'.getFreePage = some (t, m'.take t) ∧
    CopyingTable L held m s nr limit k (frame (m'.words (dirOf s k)), t) limit m'' ∧
    Drawn (frame (m'.words (dirOf s k))) t ((m'.take t).set (dirOf nr k) (entry t)) m''

theorem Copying.duplicate (copying : Copying L held m s nr limit k 0 m') (sound : Sound L m held) (apart : s ≠ nr)
    (room : m.Room s) {kernel : Bool} (entries : limit = if kernel then 0xA0 else 1024) :
    Ends (fun m'' => present (m'.words (dirOf nr k)) = false ∧
        (m'' = m' ∧ present (m'.words (dirOf s k)) = false ∨ Duplicated L held m s nr limit k m' m''))
      (fun stop => stop = .panic .alreadyExist ∧ present (m'.words (dirOf nr k)) = true ∨
        stop = .noMemory m' ∧ present (m'.words (dirOf s k)) = true ∧ m'.getFreePage = none)
      (m'.copyTable kernel (dirOf s k) (dirOf nr k)) := by
  have sound' : Sound L m' held := copying.walk.sound sound
  unfold Memory.copyTable
  split
  · rename_i there
    exact .stop (.inl ⟨rfl, there⟩)
  · rename_i unused
    have absent : present (m'.words (dirOf nr k)) = false := by simpa using unused
    split
    · rename_i here
      dsimp only
      split
      · rename_i nothing
        exact .stop (.inr ⟨rfl, here, nothing⟩)
      · rename_i t m₁ got
        have page := sound'.getFreePage got
        rcases page with ⟨rfl, managed, free⟩
        have other : frame (m'.words (dirOf s k)) ≠ t := by
          intro same
          have use := tables_pos (dirOf s k) here
          rw [same, (sound'.free managed free).1] at use
          cases use
        have short : limit ≤ 1024 := by
          rw [entries]
          split <;> decide
        rw [← entries]
        have loop : Ends (fun m'' => CopyingTable L held m s nr limit k (frame (m'.words (dirOf s k)), t) limit m'' ∧
              Drawn (frame (m'.words (dirOf s k))) t ((m'.take t).set (dirOf nr k) (entry t)) m'')
            (fun stop : Stop => stop = .panic .alreadyExist ∧ present (m'.words (dirOf nr k)) = true ∨
              stop = .noMemory m' ∧ present (m'.words (dirOf s k)) = true ∧ m'.getFreePage = none)
            (upTo (fun m nr => .ok (m.copyEntry
              (tableWord (frame (m'.words (dirOf s k))) nr) (tableWord t nr))) limit
              ((m'.take t).set (dirOf nr k) (entry t))) := by
          apply Ends.upTo (I := fun n m'' => CopyingTable L held m s nr limit k (frame (m'.words (dirOf s k)), t) n m'' ∧
              Drawn (frame (m'.words (dirOf s k))) t ((m'.take t).set (dirOf nr k) (entry t)) m'')
          · exact ⟨copying.newTable sound here absent managed free, .refl _⟩
          · intro n m'' below both
            have tables := Prod.mk.inj both.1.tables
            have entry := both.1.entry (i := ⟨n, by omega⟩) sound apart room
            rw [Memory.entryAt, Memory.entryAt, tables.1, tables.2] at entry
            exact .pure ⟨entry, both.2.trans (both.1.drawn (i := ⟨n, by omega⟩) sound room other)⟩
        exact loop.mono (fun m'' both => ⟨absent, .inr ⟨here, t, got, both⟩⟩) fun _ stops => stops
    · rename_i unmapped
      exact .pure ⟨absent, .inl ⟨rfl, by simpa using unmapped⟩⟩

def Memory.tablesBelow (m : Memory) (s : Fin 64) : Nat → Nat
  | 0 => 0
  | k + 1 => m.tablesBelow s k + if present (m.words (16 * s + k)) then 1 else 0

/-- How far `copy_page_tables` has come, with all it has written on the way. -/
structure Halted (L : Layout) (held : Nat → Nat) (m : Memory) (s nr : Fin 64) (n : Nat) (m' : Memory) : Prop
    extends Copying L held m s nr (copiedEntries s) n 0 m' where
  parent : ∀ x, m'.window s x = m.window s x ∨ m'.window s x = protect (m.window s x)
  others : ∀ r, r ≠ s → r ≠ nr → m'.window r = m.window r
  beyond : ∀ x : Fin 16 × Fin 1024, n ≤ x.1.val → m'.window nr x = m.window nr x
  child : ∀ x : Fin 16 × Fin 1024, x.1.val < n → present (m'.window nr x) = true → x.2.val < copiedEntries s
  absent : ∀ j : Fin 16, j.val < n → present (m.words (dirOf nr j)) = false
  dirs : ∀ d : Fin 1024, (∀ j : Fin 16, j.val < n → present (m.words (dirOf s j)) = true → d ≠ dirOf nr j) →
    m'.words d = m.words d
  tables : ∀ j : Fin 16, j.val < n → present (m.words (dirOf s j)) = true → present (m'.words (dirOf nr j)) = true
  shared : m'.sharedPages = m.sharedPages
  free : m'.freePages + m.tablesBelow s n = m.freePages

theorem Halted.source_dir {n : Nat} (halted : Halted L held m s nr n m') (apart : s ≠ nr) (j : Fin 16) :
    m'.words (dirOf s j) = m.words (dirOf s j) :=
  halted.dirs (dirOf s j) fun _ _ _ same => apart (dirOf_inj same).1

theorem Halted.fresh_dir {n : Nat} (halted : Halted L held m s nr n m') {j : Fin 16} (beyond : n ≤ j) :
    m'.words (dirOf nr j) = m.words (dirOf nr j) := by
  apply halted.dirs
  intro j' below _ same
  have equal := congrArg Fin.val (dirOf_inj same).2
  omega

theorem Halted.grown {n : Nat} (halted : Halted L held m s nr n m') (r : Fin 64) (x : Fin 16 × Fin 1024) (f : Nat) :
    pointsTo f (m.window r x) ≤ pointsTo f (m'.window r x) := by
  by_cases own : r = nr
  · rw [own]
    by_cases below : x.1.val < n
    · have gone := pte_without_table (i := x.2) (halted.absent x.1 below)
      rw [show m.window nr x = m.pte (dirOf nr x.1) x.2 from rfl, gone, pointsTo_zero]
      exact Nat.zero_le _
    · rw [halted.beyond x (Nat.le_of_not_lt below)]
  · by_cases parent : r = s
    · rw [parent, (halted.source x).pointsTo]
    · rw [halted.others r parent own]

theorem Halted.mappings_le {n : Nat} (halted : Halted L held m s nr n m') (f : Nat) : m.mappings f ≤ m'.mappings f := by
  apply total_mono
  rintro ⟨d, i⟩
  rcases dirOf_surjective d with ⟨r, j, rfl⟩
  exact halted.grown r (j, i) f

theorem Halted.untabled {n f : Nat} (halted : Halted L held m s nr n m') (sound : Sound L m held) (managed : L.Managed f)
    (plain : m.tables f = 0) (used : m.memMap (mapNr f) ≠ 0) : m'.tables f = 0 := by
  have sound' : Sound L m' held := halted.walk.sound sound
  have before := sound.balanced f managed
  have after := sound'.balanced f managed
  have room := halted.room f managed.physical.1 used
  have few := copied_le m s n 0 f
  have fewer := uses_le_mappings m s f
  have more := halted.mappings_le f
  by_contra use
  have none := sound'.apart f managed.physical.1 (Nat.pos_of_ne_zero use)
  rw [Memory.booked] at before after
  rw [halted.shared] at after
  omega

theorem Halted.duplicated (halted : Halted L held m s nr k m') (sound : Sound L m held) (apart : s ≠ nr)
    (absent : present (m.words (dirOf nr k)) = false)
    (duplicated : Duplicated L held m s nr (copiedEntries s) k m' m'') : Halted L held m s nr (k + 1) m'' := by
  have sound' : Sound L m' held := halted.walk.sound sound
  have here := duplicated.here
  have source := halted.source_dir apart k
  rcases duplicated.copy with ⟨t, got, copying, drawn⟩
  have page := sound'.getFreePage got
  have taken := getFreePage_counts got
  have positive := Sound.positive page.2.1
  have tablePage := sound'.laid.tablePage _ (tables_pos (dirOf s k) here)
  have words (w : Nat) (outside : w / 1024 ≠ frame (m'.words (dirOf s k))) (fresh : w / 1024 ≠ t) :
      m''.words w = Function.update m'.words (dirOf nr k) (entry t) w := by
    rw [drawn.elsewhere w outside fresh]
    by_cases same : w = dirOf nr k
    · rw [same, set_self, Function.update_self]
    · rw [set_other same, Function.update_of_ne same]
      exact fill_other fresh
  have dirs (d : Fin 1024) (other : d ≠ dirOf nr k) : m''.words d = m'.words d := by
    have low := d.isLt
    rw [words d (by omega) (by omega), Function.update_of_ne fun same => other (Fin.ext same)]
  have ptes := (sound'.copied_beside here got words).1
  have other (j : Fin 16) : dirOf nr j ≠ dirOf s k := fun same => apart (dirOf_inj same).1.symm
  have mapped : present (m.words (dirOf s k)) = true := by
    rw [← source]
    exact here
  have index (j : Fin 16) (earlier : j ≠ k) (r : Fin 64) : dirOf r j ≠ dirOf r k := fun same => earlier (dirOf_inj same).2
  constructor
  case toCopying => exact copying.whole
  case parent =>
    rintro ⟨j, i⟩
    by_cases last : j = k
    · subst last
      have before : ((m'.take t).set (dirOf nr j) (entry t)).words (tableWord (frame (m'.words (dirOf s j))) i) =
          m'.window s (j, i) := by
        have high := sound'.laid.table_word here i
        have low := (dirOf nr j).isLt
        rw [Memory.entryAt] at high
        rw [set_other (by omega), window_pte, pte_of_table here, Memory.entryAt]
        apply fill_other
        rw [tableWord_div i.isLt]
        intro same
        have use := tables_pos (dirOf s j) here
        rw [same, (sound'.free page.2.1 page.2.2).1] at use
        cases use
      have after : m''.window s (j, i) = m''.words (tableWord (frame (m'.words (dirOf s j))) i) := by
        have same := dirs (dirOf s j) (other j).symm
        rw [window_pte, pte_of_table (by rw [same]; exact here), Memory.entryAt, same]
      rw [after]
      rcases drawn.source _ (tableWord_div i.isLt) with same | marked
      · rw [same, before]
        exact halted.parent (j, i)
      · rw [marked, before]
        rcases halted.parent (j, i) with same | already
        · exact .inr (congrArg protect same)
        · rw [already, protect_protect]
          exact .inr rfl
    · rw [window_pte, ptes _ _ (index j last s) fun same => apart (dirOf_inj same).1]
      exact halted.parent (j, i)
  case others =>
    intro r parent child
    rw [← halted.others r parent child]
    funext x
    exact ptes (dirOf r x.1) x.2 (fun same => parent (dirOf_inj same).1) fun same => child (dirOf_inj same).1
  case beyond =>
    intro x after
    rw [← halted.beyond x (by omega)]
    exact ptes (dirOf nr x.1) x.2 (other x.1) (index x.1 (fun same => by rw [same] at after; omega) nr)
  case child =>
    rintro ⟨j, i⟩ below there
    by_cases last : j = k
    · by_contra late
      subst last
      rw [copying.blank i (Nat.le_of_not_lt late)] at there
      cases there
    · have earlier : j.val < k := by
        have distinct : j.val ≠ k := fun same => last (Fin.ext same)
        have upTo : j.val < k.val + 1 := below
        omega
      rw [window_pte, ptes _ _ (other j) (index j last nr)] at there
      exact halted.child (j, i) earlier there
  case absent =>
    intro j below
    by_cases last : j = k
    · rw [last]
      exact absent
    · have distinct : j.val ≠ k := fun same => last (Fin.ext same)
      exact halted.absent j (by omega)
  case dirs =>
    intro d outside
    rw [dirs d (outside k (Nat.lt_succ_self _) mapped)]
    exact halted.dirs d fun j below => outside j (by omega)
  case tables =>
    intro j below there
    by_cases last : j = k
    · rw [last]
      exact copying.here'
    · have distinct : j.val ≠ k := fun same => last (Fin.ext same)
      rw [dirs _ (index j last nr)]
      exact halted.tables j (by omega) there
  case shared => exact drawn.shared.trans halted.shared
  case free =>
    have same : ((m'.take t).set (dirOf nr k) (entry t)).freePages = (m'.take t).freePages := freePages_congr rfl
    have before := halted.free
    have below : m.tablesBelow s (k + 1) = m.tablesBelow s k + 1 := by
      rw [Memory.tablesBelow]
      exact congrArg _ (if_pos mapped)
    have drawn := drawn.free
    omega

theorem Halted.skipped (halted : Halted L held m s nr k m') (apart : s ≠ nr)
    (absent : present (m.words (dirOf nr k)) = false) (nothing : present (m'.words (dirOf s k)) = false)
    (copying : Copying L held m s nr (copiedEntries s) (k + 1) 0 m') : Halted L held m s nr (k + 1) m' := by
  have source : present (m.words (dirOf s k)) = false := by
    rw [← halted.source_dir apart k]
    exact nothing
  have reached (j : Fin 16) (below : j.val < k + 1) (there : present (m.words (dirOf s j)) = true) : j.val < k := by
    have distinct : j ≠ k := by
      rintro rfl
      rw [source] at there
      cases there
    have differ : j.val ≠ k := fun same => distinct (Fin.ext same)
    omega
  constructor
  case toCopying => exact copying
  case parent => exact halted.parent
  case others => exact halted.others
  case beyond => exact fun x after => halted.beyond x (by omega)
  case child =>
    rintro ⟨j, i⟩ below there
    by_cases last : j = k
    · have gone := pte_without_table (i := i) (show present (m'.words (dirOf nr k)) = false by
        rw [halted.fresh_dir (Nat.le_refl _)]
        exact absent)
      rw [last, window_pte, gone, present_zero] at there
      cases there
    · have distinct : j.val ≠ k := fun same => last (Fin.ext same)
      have upTo : j.val < k.val + 1 := below
      exact halted.child (j, i) (by show j.val < k; omega) there
  case absent =>
    intro j below
    by_cases last : j = k
    · rw [last]
      exact absent
    · have distinct : j.val ≠ k := fun same => last (Fin.ext same)
      exact halted.absent j (by omega)
  case dirs => exact fun d outside => halted.dirs d fun j below there => outside j (by omega) there
  case tables => exact fun j below there => halted.tables j (reached j below there) there
  case shared => exact halted.shared
  case free =>
    have none : (if present (m.words (16 * s + k)) then 1 else 0) = 0 := by
      have same : m.words (16 * s + k) = m.words (dirOf s k) := rfl
      rw [same, source]
      rfl
    rw [Memory.tablesBelow, none]
    exact halted.free

structure Failed (L : Layout) (held : Nat → Nat) (m : Memory) (s nr : Fin 64) (n : Nat) (k : Fin 16) (m' : Memory) : Prop
    extends Halted L held m s nr k m' where
  inside : k.val < n
  unmade : present (m.words (dirOf s k)) = true
  none : m'.freePages = 0

theorem Sound.copyPageTables_halts (sound : Sound L m held) (apart : s ≠ nr) (room : m.Room s) {size : Nat}
    (fits : Memory.dirs size ≤ 16) :
    Ends (Halted L held m s nr (Memory.dirs size))
      (fun stop => (stop = .panic .alreadyExist ∧
          ∃ j : Fin 16, j.val < Memory.dirs size ∧ present (m.words (dirOf nr j)) = true) ∨
        ∃ m' k, stop = .noMemory m' ∧ Failed L held m s nr (Memory.dirs size) k m')
      (m.copyPageTables (Memory.base s) (Memory.base nr) size) := by
  unfold Memory.copyPageTables
  rw [if_neg (by rw [base_aligned, base_aligned]; decide), base_dir, base_dir]
  apply Ends.upTo (I := fun n m' => Halted L held m s nr n m')
  · refine ⟨⟨.none, fun _ => .refl _, ?_, fun _ _ _ => Nat.le_add_right _ _⟩, fun _ => .inl rfl, fun _ _ _ => rfl,
      fun _ _ => rfl, ?_, nofun, fun _ _ => rfl, nofun, rfl, rfl⟩
    · intro p before
      omega
    · intro x before
      omega
  · intro n m' below halted
    have short : n < 16 := by omega
    have entries : copiedEntries s = if decide (Memory.base s = 0) then 0xA0 else 1024 := by
      unfold copiedEntries
      simp
    have next := Copying.duplicate (k := ⟨n, short⟩) halted.toCopying sound apart room entries
    have copying := Copying.table (k := ⟨n, short⟩) halted.toCopying sound apart room entries
    have fresh := halted.fresh_dir (j := ⟨n, short⟩) (Nat.le_refl n)
    have source := halted.source_dir apart ⟨n, short⟩
    constructor
    · intro m'' returned
      rcases next.ok m'' returned with ⟨absent, same | duplicated⟩
      · rw [fresh] at absent
        have whole := copying.ok m'' returned
        rcases same with ⟨rfl, nothing⟩
        exact Halted.skipped (k := ⟨n, short⟩) halted apart absent nothing whole
      · rw [fresh] at absent
        exact Halted.duplicated (k := ⟨n, short⟩) halted sound apart absent duplicated
    · intro stop stopped
      rcases next.error stop stopped with ⟨rfl, there⟩ | ⟨rfl, here, nothing⟩
      · exact .inl ⟨rfl, ⟨n, short⟩, below, by rw [← fresh]; exact there⟩
      · exact .inr ⟨m', ⟨n, short⟩, rfl, halted, below, by rw [← source]; exact here, getFreePage_none nothing⟩

end Copies

end Linux011.Mm

import Linux011.Mm.Attach
import Linux011.Mm.Kernel

namespace Linux011.Mm

theorem sub_page {size : BitVec 32} (positive : 0 < size.toInt) : (size - 4096).toInt = size.toInt - 4096 := by
  have upper := BitVec.toInt_lt (x := size)
  have four : (4096 : BitVec 32).toInt = 4096 := by decide
  rw [BitVec.toInt_sub, four, Int.bmod_eq_of_le] <;> omega

namespace Memory

variable (m : Memory)

/-- The loop of `verify_area`. -/
def verifyPages (m : Memory) (start size : BitVec 32) : Except Stop Memory :=
  if 0 < size.toInt then do
    let m ← m.writeVerify start.toNat
    m.verifyPages (start + 4096) (size - 4096)
  else .ok m
termination_by size.toInt.toNat
decreasing_by
  rw [sub_page (by assumption)]
  omega

def verifyArea (nr : Fin 64) (addr size : BitVec 32) : Except Stop Memory :=
  m.verifyPages ((addr &&& 0xfffff000) + BitVec.ofNat 32 (base nr)) (size + (addr &&& 0xfff))

def bufferByte (nr : Fin 64) (addr : BitVec 32) (r : Nat) : Nat :=
  (BitVec.ofNat 32 (base nr) + addr + BitVec.ofNat 32 r).toNat

def Counted (page : Nat) : Prop := lowMem ≤ page → m.memMap (mapNr page) ≠ 0

def Sole (page : Nat) : Prop := lowMem ≤ page ∧ m.memMap (mapNr page) = 1

def Data (page : Nat) : Prop := m.Counted page ∧ page ≠ 0 ∧ m.tables page = 0

end Memory

/-- A read-only entry with the one that took its place: it is writable, its page has no other user, and holds
    what the old one held. -/
structure OwnCopy (m m' : Memory) (e e' : BitVec 32) : Prop where
  present : present e' = true
  writable : writable e' = true
  sole : m.Counted (frame e) → m'.Sole (frame e')
  contents : m.Data (frame e) → m'.Data (frame e') ∧
    ∀ i, i < 1024 → m'.words (tableWord (frame e') i) = m.words (tableWord (frame e) i)

/-- `verify_area` covers the buffer. -/
structure Verified (m m' : Memory) (nr : Fin 64) (addr size : BitVec 32) : Prop where
  writable : ∀ r : Nat, r < size.toInt → present (m'.pteOf (Memory.bufferByte nr addr r)) = true →
    writable (m'.pteOf (Memory.bufferByte nr addr r)) = true
  separate : ∀ r : Nat, r < size.toInt → present (m.pteOf (Memory.bufferByte nr addr r)) = true →
    Mm.writable (m.pteOf (Memory.bufferByte nr addr r)) = false →
    OwnCopy m m' (m.pteOf (Memory.bufferByte nr addr r)) (m'.pteOf (Memory.bufferByte nr addr r))

/-- What verifying pages keeps: read-only entries may become writable, and nothing else changes. -/
structure Hardens (m m' : Memory) : Prop where
  tables : TablesInUse m'
  pdes : m'.pdes = m.pdes
  used : ∀ page, m.Counted page → m'.Counted page
  sole : ∀ page, m.Sole page → m'.Sole page
  contents : ∀ page, m.Data page → ∀ i, i < 1024 → m'.words (tableWord page i) = m.words (tableWord page i)
  entries : ∀ x, m'.ptes x = m.ptes x ∨
    present (m.ptes x) = true ∧ writable (m.ptes x) = false ∧ OwnCopy m m' (m.ptes x) (m'.ptes x)

namespace Hardens

variable {m m' m'' : Memory}

theorem refl (tables : TablesInUse m) : Hardens m m :=
  ⟨tables, rfl, fun _ => id, fun _ => id, fun _ _ _ _ => rfl, fun _ => .inl rfl⟩

theorem data (hardens : Hardens m m') {page : Nat} (data : m.Data page) : m'.Data page :=
  ⟨hardens.used page data.1, data.2.1, (tables_eq hardens.pdes).trans data.2.2⟩

theorem entry_kept (hardens : Hardens m m') {x : Fin 1024 × Fin 1024} (write : writable (m.ptes x) = true) :
    m'.ptes x = m.ptes x := by
  rcases hardens.entries x with same | ⟨-, read, -⟩
  · exact same
  · rw [write] at read
    cases read

theorem trans (first : Hardens m m') (second : Hardens m' m'') : Hardens m m'' where
  tables := second.tables
  pdes := second.pdes.trans first.pdes
  used page counted := second.used page (first.used page counted)
  sole page sole := second.sole page (first.sole page sole)
  contents page data i inside := (second.contents page (first.data data) i inside).trans (first.contents page data i inside)
  entries x := by
    rcases first.entries x with same | ⟨there, read, made⟩
    · rcases second.entries x with same' | ⟨there', read', made'⟩
      · exact .inl (same'.trans same)
      · rw [same] at there' read' made'
        have sole : m.Counted (frame (m.ptes x)) → m''.Sole (frame (m''.ptes x)) := fun counted =>
          made'.sole (first.used _ counted)
        have contents : m.Data (frame (m.ptes x)) → m''.Data (frame (m''.ptes x)) ∧
            ∀ i, i < 1024 → m''.words (tableWord (frame (m''.ptes x)) i) = m.words (tableWord (frame (m.ptes x)) i) := by
          intro data
          have copied := made'.contents (first.data data)
          exact ⟨copied.1, fun i inside => (copied.2 i inside).trans (first.contents _ data i inside)⟩
        exact .inr ⟨there', read', made'.present, made'.writable, sole, contents⟩
    · have kept := second.entry_kept made.writable
      rw [← kept] at made
      have contents : m.Data (frame (m.ptes x)) → m''.Data (frame (m''.ptes x)) ∧
          ∀ i, i < 1024 → m''.words (tableWord (frame (m''.ptes x)) i) = m.words (tableWord (frame (m.ptes x)) i) := by
        intro data
        have copied := made.contents data
        exact ⟨second.data copied.1, fun i inside => (second.contents _ copied.1 i inside).trans (copied.2 i inside)⟩
      exact .inr ⟨there, read, made.present, made.writable, fun counted => second.sole _ (made.sole counted), contents⟩

end Hardens

section Unsharing

variable {m m' : Memory} {d i : Fin 1024}

theorem hardens_grant (tables : TablesInUse m) (there : present (m.pte d i) = true) (read : writable (m.pte d i) = false)
    (sole : m.Sole (frame (m.pte d i))) :
    Hardens m (m.set (m.entryAt d i) (m.pte d i ||| 2)) := by
  have table := table_of_pte there
  have pdes := tables.toLaid.set_pdes table i (m.pte d i ||| 2)
  have ptes := tables.toLaid.set_ptes table i (m.pte d i ||| 2)
  have contents : ∀ page, m.Data page → ∀ j, j < 1024 →
      (m.set (m.entryAt d i) (m.pte d i ||| 2)).words (tableWord page j) = m.words (tableWord page j) := by
    intro page data j inside
    apply set_other
    intro word
    have same := (tableWord_inj inside i.isLt word).1
    have use := tables_pos d table
    rw [← same, data.2.2] at use
    cases use
  refine ⟨tables.congr pdes fun _ _ inUse => inUse, pdes, fun _ => id, fun _ => id, contents, fun x => ?_⟩
  rw [ptes]
  by_cases here : x = (d, i)
  · rw [here, Function.update_self]
    refine .inr ⟨there, read, ?_⟩
    change OwnCopy m _ (m.pte d i) (m.pte d i ||| 2)
    constructor
    · rw [present_grant]
      exact there
    · exact writable_grant _
    · rw [frame_grant]
      exact fun _ => sole
    · rw [frame_grant]
      exact fun data => ⟨⟨data.1, data.2.1, (tables_eq pdes).trans data.2.2⟩, contents _ data⟩
  · rw [Function.update_of_ne here]
    exact .inl rfl

/-- `mem_map` after a free page was taken for an entry and its old page given up. -/
def Memory.given (m : Memory) (old new : Nat) : Memory :=
  if lowMem ≤ old then (m.take new).setMap old ((m.take new).memMap (mapNr old) - 1) else m.take new

theorem given_words (old new : Nat) : (m.given old new).words = (m.take new).words := by
  rw [Memory.given]
  split <;> rfl

section Given

variable {old new page : Nat}

theorem given_new (above : lowMem ≤ new) (apart : old ≠ new) : (m.given old new).memMap (mapNr new) = 1 := by
  have taken : (m.take new).memMap (mapNr new) = 1 := setMap_same
  rw [Memory.given]
  split
  · next high =>
    rw [setMap_other high above apart.symm]
    exact taken
  · exact taken

theorem given_other (above : lowMem ≤ new) (high : lowMem ≤ page) (fresh : page ≠ new) (kept : page ≠ old) :
    (m.given old new).memMap (mapNr page) = m.memMap (mapNr page) := by
  have taken : (m.take new).memMap (mapNr page) = m.memMap (mapNr page) := setMap_other above high fresh
  rw [Memory.given]
  split
  · next high' =>
    rw [setMap_other high' high kept]
    exact taken
  · exact taken

theorem given_counted (above : lowMem ≤ new) (shared : lowMem ≤ old → m.memMap (mapNr old) ≠ 1)
    (free : m.memMap (mapNr new) = 0) (counted : m.Counted page) : (m.given old new).Counted page := by
  intro high zero
  have inUse := counted high
  have fresh : page ≠ new := by
    intro same
    rw [same] at inUse
    exact inUse free
  by_cases same : page = old
  · have taken : (m.take new).memMap (mapNr page) = m.memMap (mapNr page) := setMap_other above high fresh
    have others := shared (same ▸ high)
    rw [← same] at others
    rw [Memory.given, if_pos (same ▸ high), ← same, setMap_same, taken] at zero
    bv_omega
  · rw [given_other above high fresh same] at zero
    exact inUse zero

end Given

theorem hardens_copy (tables : TablesInUse m) (there : present (m.pte d i) = true) (read : writable (m.pte d i) = false)
    {new : Nat} (above : lowMem ≤ new) (physical : new < 2 ^ 20) (free : m.memMap (mapNr new) = 0)
    (shared : lowMem ≤ frame (m.pte d i) → m.memMap (mapNr (frame (m.pte d i))) ≠ 1) :
    let m' := ((m.given (frame (m.pte d i)) new).set (m.entryAt d i) (entry new)).copyPage (frame (m.pte d i)) new
    Hardens m m' ∧ m'.pte d i = entry new := by
  have unused := tables.unused above free
  have positive : 0 < new := Nat.lt_of_lt_of_le (by decide) above
  have table := table_of_pte there
  generalize e : m.pte d i = old at *
  generalize from_ : m.given (frame old) new = given
  have words : given.words = (m.take new).words := from_ ▸ given_words _ _
  have counted : ∀ page, m.Counted page → given.Counted page := fun page counted =>
    from_ ▸ given_counted above shared free counted
  have before : given.pdes = m.pdes ∧ given.ptes = m.ptes := by
    have views := take_views positive unused
    rw [← views.1, ← views.2]
    constructor
    · funext d'
      exact congrFun words _
    · funext x
      rw [Memory.ptes, Memory.ptes, Memory.pte, Memory.pte, Memory.entryAt, Memory.entryAt, words]
  have tables' : TablesInUse given := tables.congr before.1 fun page high inUse => counted page (fun _ => inUse) high
  have dir : given.words d = m.words d := congrFun before.1 d
  have table' : present (given.words d) = true := dir.symm ▸ table
  have at_ : m.entryAt d i = given.entryAt d i := (entryAt_of dir).symm
  have set := tables'.toLaid.set_pdes table' i (entry new)
  have unused' : (given.set (given.entryAt d i) (entry new)).tables new = 0 := by
    rw [tables_eq (set.trans before.1)]
    exact unused
  have filled := fill_views positive unused' fun j => (given.set (given.entryAt d i) (entry new)).words (tableWord (frame old) j)
  have pdes := filled.1.trans (set.trans before.1)
  have ptes := filled.2.trans ((tables'.toLaid.set_ptes table' i (entry new)).trans (by rw [before.2]))
  have others : ∀ page, m.Data page → page ≠ new ∧ ∀ j, j < 1024 →
      (given.set (given.entryAt d i) (entry new)).words (tableWord page j) = m.words (tableWord page j) := by
    intro page data
    have fresh : page ≠ new := by
      intro same
      rw [same] at data
      exact data.1 above free
    refine ⟨fresh, fun j inside => ?_⟩
    rw [set_other, words]
    · apply fill_other
      rw [tableWord_div inside]
      exact fresh
    · intro word
      have same := (tableWord_inj inside i.isLt word).1
      have use := tables_pos d table
      rw [← dir, ← same, data.2.2] at use
      cases use
  intro m'
  have is : m' = (given.set (given.entryAt d i) (entry new)).copyPage (frame old) new := by rw [← at_]
  rw [is, Memory.copyPage]
  refine ⟨⟨tables'.congr ?_ fun _ _ inUse => inUse, pdes, counted, ?_, ?_, ?_⟩, ?_⟩
  · exact filled.1.trans set
  · intro page sole
    have fresh : page ≠ new := by
      intro same
      rw [same, Memory.Sole, free] at sole
      exact absurd sole.2 (by decide)
    have kept : page ≠ frame old := by
      intro same
      rw [same] at sole
      exact shared sole.1 sole.2
    refine ⟨sole.1, ?_⟩
    change given.memMap (mapNr page) = 1
    rw [← from_, given_other above sole.1 fresh kept]
    exact sole.2
  · intro page data j inside
    rw [fill_other]
    · exact (others page data).2 j inside
    · rw [tableWord_div inside]
      exact (others page data).1
  · intro x
    rw [ptes]
    by_cases here : x = (d, i)
    · rw [here, Function.update_self]
      have was : m.ptes (d, i) = old := e
      rw [was]
      refine .inr ⟨there, read, present_entry _, writable_entry _, ?_, ?_⟩ <;> rw [frame_entry physical]
      · intro inUse
        have apart : frame old ≠ new := by
          intro same
          exact inUse (same ▸ above) (same ▸ free)
        refine ⟨above, ?_⟩
        change given.memMap (mapNr new) = 1
        rw [← from_]
        exact given_new above apart
      · intro data
        have fresh := others _ data
        have taken : given.memMap (mapNr new) = 1 := from_ ▸ given_new above fresh.1
        have used : given.memMap (mapNr new) ≠ 0 := by
          rw [taken]
          decide
        refine ⟨⟨fun _ => used, positive.ne', (tables_eq pdes).trans unused⟩, fun j inside => ?_⟩
        rw [fill_word _ inside]
        exact fresh.2 j inside
    · rw [Function.update_of_ne here]
      exact .inl rfl
  · exact (congrFun ptes (d, i)).trans (Function.update_self ..)

theorem hardens_unWpPage (tables : TablesInUse m) (there : present (m.pte d i) = true)
    (read : writable (m.pte d i) = false) (returns : m.unWpPage (m.entryAt d i) = .ok m') :
    Hardens m m' ∧ writable (m'.pte d i) = true := by
  have word := word_of_pte (table_of_pte there) i
  have table := table_of_pte there
  rw [Memory.unWpPage, word] at returns
  dsimp only at returns
  split at returns
  · next sole =>
    cases returns
    have ptes := tables.toLaid.set_ptes table i (m.pte d i ||| 2)
    have new : (m.set (m.entryAt d i) (m.pte d i ||| 2)).pte d i = m.pte d i ||| 2 :=
      (congrFun ptes (d, i)).trans (Function.update_self ..)
    rw [new]
    exact ⟨hardens_grant tables there read sole, writable_grant _⟩
  · next shared =>
    split at returns
    · cases returns
    · next new taken got =>
      rcases tables.getFreePage got with ⟨rfl, above, physical, -⟩
      have free : m.memMap (mapNr new) = 0 := by
        rcases Option.map_eq_some_iff.mp got with ⟨n, found, same⟩
        cases same
        rw [mapNr_add]
        exact (scan_some found).2
      have hardens := hardens_copy tables there read above physical free fun high one => shared ⟨high, one⟩
      cases returns
      refine ⟨hardens.1, ?_⟩
      have new := hardens.2
      rw [Memory.given] at new
      rw [new]
      exact writable_entry _

theorem hardens_writeVerify (tables : TablesInUse m) {address : Nat} (linear : address < 2 ^ 32)
    (returns : m.writeVerify address = .ok m') :
    Hardens m m' ∧ (present (m'.pteOf address) = true → writable (m'.pteOf address) = true) := by
  have dir : address / 0x400000 < 1024 := by omega
  have index : Memory.pageIndex address < 1024 := Nat.mod_lt _ (by decide)
  rw [Memory.writeVerify] at returns
  split at returns
  · next table =>
    have word : m.words (m.entryWord address) = m.pteOf address := (pte_of_table table).symm
    split at returns
    · next bits =>
      rw [word, read_only_bits] at bits
      have made := hardens_unWpPage (d := ⟨_, dir⟩) (i := ⟨_, index⟩) tables bits.1 bits.2 returns
      exact ⟨made.1, fun _ => made.2⟩
    · next bits =>
      cases returns
      refine ⟨.refl tables, fun there => ?_⟩
      by_contra read
      rw [word, read_only_bits] at bits
      exact bits ⟨there, by simpa using read⟩
  · next none =>
    cases returns
    exact ⟨.refl tables, fun there => absurd (table_of_pte there) none⟩

end Unsharing

section Loop

variable {m m' : Memory} {start size : BitVec 32}

theorem Hardens.writable_kept {m'' : Memory} (hardens : Hardens m' m'') {address : Nat} (linear : address < 2 ^ 32)
    (write : present (m'.pteOf address) = true → writable (m'.pteOf address) = true)
    (there : present (m''.pteOf address) = true) : writable (m''.pteOf address) = true := by
  have dir : address / 0x400000 < 1024 := by omega
  have index : Memory.pageIndex address < 1024 := Nat.mod_lt _ (by decide)
  rcases hardens.entries (⟨_, dir⟩, ⟨_, index⟩) with same | ⟨-, -, made⟩
  · have kept : m''.pteOf address = m'.pteOf address := same
    rw [kept] at there ⊢
    exact write there
  · exact made.writable

theorem hardens_verifyPages (tables : TablesInUse m) (returns : m.verifyPages start size = .ok m') :
    Hardens m m' ∧ ∀ j : Nat, 4096 * j < size.toInt →
      present (m'.pteOf (start + BitVec.ofNat 32 (4096 * j)).toNat) = true →
      writable (m'.pteOf (start + BitVec.ofNat 32 (4096 * j)).toNat) = true := by
  induction m, start, size using Memory.verifyPages.induct with
  | case1 m start size positive ih =>
    rw [Memory.verifyPages, if_pos positive] at returns
    cases first : m.writeVerify start.toNat with
    | error stop =>
      rw [first] at returns
      cases returns
    | ok m₁ =>
      rw [first] at returns
      have step := hardens_writeVerify tables start.isLt first
      have rest := ih m₁ step.1.tables returns
      refine ⟨step.1.trans rest.1, fun j inside => ?_⟩
      cases j with
      | zero =>
        have same : start + BitVec.ofNat 32 (4096 * 0) = start := BitVec.add_zero _
        rw [same]
        exact rest.1.writable_kept start.isLt step.2
      | succ j =>
        have next : start + BitVec.ofNat 32 (4096 * (j + 1)) = start + 4096 + BitVec.ofNat 32 (4096 * j) := by
          rw [Nat.mul_succ, Nat.add_comm, BitVec.ofNat_add, BitVec.add_assoc]
          rfl
        rw [next]
        apply rest.2
        rw [sub_page positive]
        push_cast at inside
        omega
  | case2 m start size done =>
    rw [Memory.verifyPages, if_neg done] at returns
    cases returns
    refine ⟨.refl tables, fun j inside => ?_⟩
    omega

end Loop

section Area

variable {m m' : Memory} {nr : Fin 64} {addr size : BitVec 32}

theorem offset_toNat (addr : BitVec 32) : (addr &&& 0xfff).toNat = addr.toNat % 4096 := by
  rw [BitVec.toNat_and]
  exact Nat.and_two_pow_sub_one_eq_mod addr.toNat 12

theorem page_toNat (addr : BitVec 32) : (addr &&& 0xfffff000).toNat = addr.toNat / 4096 * 4096 := by
  have quotient : (addr &&& 0xfffff000).toNat / 4096 = addr.toNat / 4096 := by
    rw [← frame_div addr, frame, BitVec.and_comm, BitVec.toNat_ushiftRight, Nat.shiftRight_eq_div_pow]
  have rest : (addr &&& 0xfffff000).toNat % 4096 = 0 := by
    have disjoint : (0xfffff000 : BitVec 32) &&& 0xfff = 0#32 := by decide
    rw [← offset_toNat, BitVec.and_assoc, disjoint, BitVec.and_zero]
    rfl
  omega

theorem page_of_byte {b a r : Nat} (aligned : b % 4096 = 0) :
    ((b % 2 ^ 32 + a) % 2 ^ 32 + r % 2 ^ 32) % 2 ^ 32 / 4096 =
      ((a / 4096 * 4096 + b % 2 ^ 32) % 2 ^ 32 + 4096 * ((a % 4096 + r) / 4096) % 2 ^ 32) % 2 ^ 32 / 4096 := by
  omega

theorem bufferByte_page (nr : Fin 64) (addr : BitVec 32) (r : Nat) : Memory.bufferByte nr addr r / 4096 =
    ((addr &&& 0xfffff000) + BitVec.ofNat 32 (Memory.base nr) +
      BitVec.ofNat 32 (4096 * ((addr.toNat % 4096 + r) / 4096))).toNat / 4096 := by
  have aligned : Memory.base nr % 4096 = 0 := by
    rw [Memory.base]
    omega
  rw [Memory.bufferByte, BitVec.toNat_add, BitVec.toNat_add, BitVec.toNat_add, BitVec.toNat_add, BitVec.toNat_ofNat,
    BitVec.toNat_ofNat, BitVec.toNat_ofNat, page_toNat]
  exact page_of_byte aligned

theorem pteOf_page {address address' : Nat} (same : address / 4096 = address' / 4096) :
    m.pteOf address = m.pteOf address' := by
  have dir : address / 0x400000 = address' / 0x400000 := by omega
  rw [Memory.pteOf, Memory.pteOf, dir, Memory.pageIndex, Memory.pageIndex, same]

theorem size_toInt (small : size.toInt + addr.toNat % 4096 < 2 ^ 31) :
    (size + (addr &&& 0xfff)).toInt = size.toInt + addr.toNat % 4096 := by
  have lower := BitVec.le_toInt size
  have offset := offset_toNat addr
  have positive : (addr &&& 0xfff).toInt = addr.toNat % 4096 := by
    rw [BitVec.toInt_eq_toNat_of_lt (by omega), offset]
    rfl
  rw [BitVec.toInt_add, positive, Int.bmod_eq_of_le] <;> omega

theorem size_overflow (large : 2 ^ 31 ≤ size.toInt + addr.toNat % 4096) :
    (size + (addr &&& 0xfff)).toInt < 0 := by
  have upper := BitVec.toInt_lt (x := size)
  have offset := offset_toNat addr
  have positive : (addr &&& 0xfff).toInt = addr.toNat % 4096 := by
    rw [BitVec.toInt_eq_toNat_of_lt (by omega), offset]
    rfl
  have wrapped : (size.toInt + (addr.toNat : Int) % 4096 - 2 ^ 32).bmod (2 ^ 32) =
      size.toInt + (addr.toNat : Int) % 4096 - 2 ^ 32 := by
    rw [Int.bmod_eq_of_le] <;> omega
  rw [BitVec.toInt_add, positive]
  have same := Int.sub_bmod_right (size.toInt + (addr.toNat : Int) % 4096) (2 ^ 32)
  push_cast at same wrapped ⊢
  rw [← same, wrapped]
  omega

/-- A buffer is covered unless its end overflows the size. -/
theorem verified_iff_fits (tables : TablesInUse m) (returns : m.verifyArea nr addr size = .ok m') :
    Verified m m' nr addr size ↔ size.toInt + addr.toNat % 4096 < 2 ^ 31 ∨
      ∀ r : Nat, r < size.toInt → present (m.pteOf (Memory.bufferByte nr addr r)) = true →
        writable (m.pteOf (Memory.bufferByte nr addr r)) = true := by
  have hardens := hardens_verifyPages tables returns
  have linear (r : Nat) : Memory.bufferByte nr addr r < 2 ^ 32 := (BitVec.ofNat 32 (Memory.base nr) + addr + BitVec.ofNat 32 r).isLt
  by_cases small : size.toInt + addr.toNat % 4096 < 2 ^ 31
  · refine ⟨fun _ => .inl small, fun _ => ?_⟩
    have covered : ∀ r : Nat, r < size.toInt → present (m'.pteOf (Memory.bufferByte nr addr r)) = true →
        writable (m'.pteOf (Memory.bufferByte nr addr r)) = true := by
      intro r inside
      rw [pteOf_page (bufferByte_page nr addr r)]
      apply hardens.2
      rw [size_toInt small]
      push_cast
      omega
    refine ⟨covered, fun r inside there read => ?_⟩
    have dir : Memory.bufferByte nr addr r / 0x400000 < 1024 := by
      have bound := linear r
      omega
    have index : Memory.pageIndex (Memory.bufferByte nr addr r) < 1024 := Nat.mod_lt _ (by decide)
    rcases hardens.1.entries (⟨_, dir⟩, ⟨_, index⟩) with same | ⟨-, -, made⟩
    · have kept : m'.pteOf (Memory.bufferByte nr addr r) = m.pteOf (Memory.bufferByte nr addr r) := same
      have write := covered r inside (kept.symm ▸ there)
      rw [kept, read] at write
      cases write
    · exact made
  · have overrun := size_overflow (Int.le_of_not_gt small)
    rw [Memory.verifyArea, Memory.verifyPages, if_neg (by omega)] at returns
    cases returns
    constructor
    · exact fun good => .inr good.writable
    · intro either
      have write := either.resolve_left small
      refine ⟨write, fun r inside there read => ?_⟩
      rw [write r inside there] at read
      cases read

end Area

section Examples

/-- The page of the stack is shared with another task, as a fork leaves it. -/
def forked : Memory := (stacked.set (stacked.entryAt 31 1023) (protect (stacked.pte 31 1023))).setMap 4095 2

theorem forked_tables : TablesInUse forked := by
  have table : present (stacked.words (31 : Fin 1024)) = true := by decide +kernel
  have pdes := nearStack_legal.tables.toLaid.set_pdes table (1023 : Fin 1024) (protect (stacked.pte 31 1023))
  have tables : TablesInUse (stacked.set (stacked.entryAt 31 1023) (protect (stacked.pte 31 1023))) :=
    nearStack_legal.tables.congr pdes fun _ _ inUse => inUse
  have same : forked.pdes = (stacked.set (stacked.entryAt 31 1023) (protect (stacked.pte 31 1023))).pdes := rfl
  apply tables.congr same
  intro page above inUse
  by_cases same : page = 4095
  · rw [same]
    exact fun zero => absurd (setMap_same.symm.trans zero) (by decide)
  · exact (setMap_other (by decide) above same).symm ▸ inUse

/-- A hundred bytes of the stack are verified. -/
theorem verified_forked : ∃ m', forked.verifyArea 1 0x3fff001 100 = .ok m' ∧ Verified forked m' 1 0x3fff001 100 ∧
    present (forked.pteOf 0x7fff001) = true ∧ writable (forked.pteOf 0x7fff001) = false := by
  have found : (forked.writeVerify 0x7fff000).toOption.isSome = true := by decide +kernel
  have entry : present (forked.pteOf 0x7fff001) = true ∧ writable (forked.pteOf 0x7fff001) = false := by decide +kernel
  cases first : forked.writeVerify 0x7fff000 with
  | error stop =>
    rw [first] at found
    cases found
  | ok m₁ =>
    have rest : m₁.verifyPages 0x8000000 (101 - 4096) = .ok m₁ := by
      rw [Memory.verifyPages, if_neg (by decide)]
    have returns : forked.verifyArea 1 0x3fff001 100 = .ok m₁ := by
      change forked.verifyPages 0x7fff000 101 = .ok m₁
      rw [Memory.verifyPages, if_pos (by decide)]
      change (forked.writeVerify 0x7fff000 >>= fun m => m.verifyPages 0x8000000 (101 - 4096)) = _
      rw [first]
      exact rest
    exact ⟨m₁, returns, (verified_iff_fits forked_tables returns).mpr (.inl (by decide)), entry⟩

/-- The greatest count of `read` at an odd address verifies nothing. -/
theorem unverified_forked : forked.verifyArea 1 0x3fff001 0x7fffffff = .ok forked ∧
    present (forked.pteOf 0x7fff001) = true ∧ writable (forked.pteOf 0x7fff001) = false ∧
    ¬ Verified forked forked 1 0x3fff001 0x7fffffff := by
  have returns : forked.verifyArea 1 0x3fff001 0x7fffffff = .ok forked := by
    change forked.verifyPages 0x7fff000 0x80000000 = .ok forked
    rw [Memory.verifyPages, if_neg (by decide)]
  have entry : present (forked.pteOf 0x7fff001) = true ∧ writable (forked.pteOf 0x7fff001) = false := by decide +kernel
  refine ⟨returns, entry.1, entry.2, fun good => ?_⟩
  have first : Memory.bufferByte 1 0x3fff001 0 = 0x7fff001 := by decide
  have write := good.writable 0 (by decide)
  rw [first, entry.2] at write
  exact absurd (write entry.1) (by decide)

end Examples

end Linux011.Mm

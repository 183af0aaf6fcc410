import Linux011.Fs.Laws
import Linux011.Fs.Tree

namespace Linux011.Fs

variable {σ : Type} {fs fs' : FileSystem σ} {d x y : Ino} {i j m n b : Nat} {de : DirEntry}

namespace FileSystem

variable (fs : FileSystem σ)

def IsDir (d : Ino) : Prop := fs.inodeMap d = true ∧ sIsDir (fs.inode d).mode = true

instance (d : Ino) : Decidable (fs.IsDir d) := inferInstanceAs (Decidable (_ ∧ _))

def entries (d : Ino) : Nat := (fs.inode d).size / dirEntrySize

def slotAt (d : Ino) (i : Nat) : Slot :=
  ⟨d.dev, (fs.inode d).zone (i / dirEntriesPerBlock), ⟨i % dirEntriesPerBlock, Nat.mod_lt _ (by decide)⟩⟩

def live (d : Ino) (i : Nat) : Option DirEntry :=
  if fs.IsDir d ∧ i < fs.entries d ∧ (fs.slotAt d i).block ≠ 0 ∧ (fs.entry (fs.slotAt d i)).inode ≠ 0 then
    some (fs.entry (fs.slotAt d i))
  else none

def tree : Tree where
  used := {x | fs.inodeMap x = true}
  dir := {d | fs.IsDir d}
  live := fs.live
  nlinks x := if fs.inodeMap x then (fs.inode x).nlinks.toNat else 0

/-- An inode in use has a block. -/
def Owns (x : Ino) (b : Nat) : Prop := fs.inodeMap x = true ∧ (fs.inode x).Stores ∧ (fs.inode x).Lists b

/-- The blocks of files and directories are taken and are theirs alone. -/
structure Sound : Prop where
  aligned : ∀ d, fs.IsDir d → dirEntrySize ∣ (fs.inode d).size
  bare : ∀ d, fs.IsDir d → (fs.inode d).zone 0 = 0 → ∀ n, (fs.inode d).zone n = 0
  owned : ∀ x b, fs.Owns x b → fs.zoneMap x.dev b = true
  apart : ∀ x y b, fs.Owns x b → fs.Owns y b → x.dev = y.dev → x = y
  inner : ∀ d m n, fs.IsDir d → (fs.inode d).zone m = (fs.inode d).zone n → (fs.inode d).zone m ≠ 0 → m = n
  direct : ∀ d n, fs.IsDir d → (fs.inode d).zone n ≠ 0 → (fs.inode d).zone n ∉ (fs.inode d).indirect
  held : ∀ x, 0 < (fs.inode x).count → fs.inodeMap x = true

end FileSystem

section Places

theorem place_div (n : Nat) (index : Fin dirEntriesPerBlock) : (n * dirEntriesPerBlock + index.val) / dirEntriesPerBlock = n := by
  have small := index.isLt
  unfold dirEntriesPerBlock at *
  omega

theorem slotAt_place (fs : FileSystem σ) (d : Ino) (n : Nat) (index : Fin dirEntriesPerBlock) :
    fs.slotAt d (n * dirEntriesPerBlock + index.val) = ⟨d.dev, (fs.inode d).zone n, index⟩ := by
  have rest : (n * dirEntriesPerBlock + index.val) % dirEntriesPerBlock = index.val := by
    have small := index.isLt
    unfold dirEntriesPerBlock at *
    omega
  unfold FileSystem.slotAt
  simp only [place_div, rest]

theorem live_eq_some {e : DirEntry} : fs.live d i = some e ↔
    fs.IsDir d ∧ i < fs.entries d ∧ (fs.inode d).zone (i / dirEntriesPerBlock) ≠ 0 ∧ e.inode ≠ 0 ∧
      fs.entry (fs.slotAt d i) = e := by
  unfold FileSystem.live
  constructor
  · intro same
    split at same
    next all =>
      cases same
      exact ⟨all.1, all.2.1, all.2.2.1, all.2.2.2, rfl⟩
    next => cases same
  · rintro ⟨isDir, inside, mapped, some', rfl⟩
    exact if_pos ⟨isDir, inside, mapped, some'⟩

theorem live_notDir (notDir : ¬ fs.IsDir d) (i : Nat) : fs.live d i = none := if_neg fun all => notDir all.1

theorem owns_zone (isDir : fs.IsDir d) (mapped : (fs.inode d).zone n ≠ 0) : fs.Owns d ((fs.inode d).zone n) :=
  ⟨isDir.1, .inr isDir.2, mapped, .inl ⟨n, rfl⟩⟩

theorem slotAt_inj (sound : fs.Sound) (isDir : fs.IsDir d) (isDir' : fs.IsDir y)
    (mapped : (fs.inode d).zone (i / dirEntriesPerBlock) ≠ 0) (same : fs.slotAt y j = fs.slotAt d i) : y = d ∧ j = i := by
  have dev : y.dev = d.dev := congrArg Slot.dev same
  have zone : (fs.inode y).zone (j / dirEntriesPerBlock) = (fs.inode d).zone (i / dirEntriesPerBlock) := congrArg Slot.block same
  have rest : j % dirEntriesPerBlock = i % dirEntriesPerBlock := congrArg (fun slot => slot.index.val) same
  have own := owns_zone isDir mapped
  have own' := owns_zone isDir' (zone ▸ mapped)
  rw [zone] at own'
  have one := sound.apart y d _ own' own dev
  rw [one] at zone
  have block := sound.inner d _ _ isDir zone (zone ▸ mapped)
  refine ⟨one, ?_⟩
  have first := Nat.div_add_mod j dirEntriesPerBlock
  have second := Nat.div_add_mod i dirEntriesPerBlock
  rw [block, rest] at first
  omega

theorem entry_setEntry (fs : FileSystem σ) (slot slot' : Slot) (de : DirEntry) :
    (fs.setEntry slot de).entry slot' = if slot' = slot then de else fs.entry slot' := by
  unfold FileSystem.setEntry FileSystem.setBlock FileSystem.entry
  rcases slot with ⟨dev, block, index⟩
  rcases slot' with ⟨dev', block', index'⟩
  dsimp only
  by_cases devs : dev' = dev
  · subst devs
    rw [Function.update_self]
    by_cases blocks : block' = block
    · subst blocks
      rw [Function.update_self]
      by_cases indices : index' = index
      · subst indices
        simp
      · rw [Function.update_of_ne indices, if_neg fun same => indices (Slot.mk.inj same).2.2]
    · rw [Function.update_of_ne blocks, if_neg fun same => blocks (Slot.mk.inj same).2.1]
  · rw [Function.update_of_ne devs, if_neg fun same => devs (Slot.mk.inj same).1]

theorem live_setEntry (sound : fs.Sound) (isDir : fs.IsDir d) (mapped : (fs.inode d).zone (i / dirEntriesPerBlock) ≠ 0) :
    (fs.setEntry (fs.slotAt d i) de).live =
      fs.tree.setLive d i (if i < fs.entries d ∧ de.inode ≠ 0 then some de else none) := by
  funext y j
  unfold Tree.setLive
  have entry := entry_setEntry fs (fs.slotAt d i) (fs.slotAt y j) de
  split
  next here =>
    rcases here with ⟨rfl, rfl⟩
    rw [if_pos rfl] at entry
    show (if fs.IsDir y ∧ j < fs.entries y ∧ (fs.slotAt y j).block ≠ 0 ∧
      ((fs.setEntry (fs.slotAt y j) de).entry (fs.slotAt y j)).inode ≠ 0 then _ else _) = _
    rw [entry]
    refine if_congr ⟨fun all => ⟨all.2.1, all.2.2.2⟩, fun all => ⟨isDir, all.1, mapped, all.2⟩⟩ ?_ rfl
    exact congrArg some entry
  next other =>
    show (if fs.IsDir y ∧ j < fs.entries y ∧ (fs.slotAt y j).block ≠ 0 ∧
      ((fs.setEntry (fs.slotAt d i) de).entry (fs.slotAt y j)).inode ≠ 0 then
        some ((fs.setEntry (fs.slotAt d i) de).entry (fs.slotAt y j)) else none) = _
    by_cases isDir' : fs.IsDir y
    · rw [entry, if_neg fun same => other (slotAt_inj sound isDir isDir' mapped same)]
      rfl
    · rw [if_neg fun all => isDir' all.1]
      exact (if_neg fun all => isDir' all.1).symm

end Places

section Changes

/-- Two states that differ in the counts of the inodes at most. -/
structure Near (fs fs' : FileSystem σ) : Prop where
  inode : ∀ x, fs'.inode x = { fs.inode x with count := (fs'.inode x).count }
  inodeMap : fs'.inodeMap = fs.inodeMap
  zoneMap : fs'.zoneMap = fs.zoneMap
  block : fs'.block = fs.block
  held : ∀ x, 0 < (fs'.inode x).count → fs.inodeMap x = true

theorem Near.refl (sound : fs.Sound) : Near fs fs := ⟨fun _ => rfl, rfl, rfl, rfl, sound.held⟩

theorem Near.trans {fs₁ : FileSystem σ} (near : Near fs fs₁) (near' : Near fs₁ fs') : Near fs fs' where
  inode x := by rw [near'.inode x, near.inode x]
  inodeMap := near'.inodeMap.trans near.inodeMap
  zoneMap := near'.zoneMap.trans near.zoneMap
  block := near'.block.trans near.block
  held x some' := near.inodeMap ▸ near'.held x some'

theorem Same.near (sound : fs.Sound) (same : Same fs fs') : Near fs fs' where
  inode x := by rw [same.inode]
  inodeMap := same.inodeMap
  zoneMap := same.zoneMap
  block := same.block
  held x some' := sound.held x (same.inode ▸ some')

theorem live_congr (isDir : fs'.IsDir d ↔ fs.IsDir d) (size : fs.IsDir d → (fs'.inode d).size = (fs.inode d).size)
    (zone : fs.IsDir d → (fs'.inode d).zone = (fs.inode d).zone)
    (block : ∀ n, fs.IsDir d → (fs.inode d).zone n ≠ 0 →
      fs'.block d.dev ((fs.inode d).zone n) = fs.block d.dev ((fs.inode d).zone n)) : fs'.live d = fs.live d := by
  funext i
  by_cases dir : fs.IsDir d
  · have slot : fs'.slotAt d i = fs.slotAt d i := by
      unfold FileSystem.slotAt
      rw [zone dir]
    have entries : fs'.entries d = fs.entries d := by
      unfold FileSystem.entries
      rw [size dir]
    unfold FileSystem.live
    rw [slot, entries]
    by_cases mapped : (fs.slotAt d i).block = 0
    · rw [if_neg fun all => all.2.2.1 mapped, if_neg fun all => all.2.2.1 mapped]
    · have entry : fs'.entry (fs.slotAt d i) = fs.entry (fs.slotAt d i) := congrFun (block _ dir mapped) _
      rw [entry]
      simp only [isDir]
  · unfold FileSystem.live
    rw [if_neg fun all => dir (isDir.mp all.1), if_neg fun all => dir all.1]

theorem Near.isDir (near : Near fs fs') (d : Ino) : fs'.IsDir d ↔ fs.IsDir d := by
  unfold FileSystem.IsDir
  rw [near.inodeMap, near.inode d]

theorem Near.links (near : Near fs fs') (links : x.dev ≠ 0 → (fs.inode x).nlinks ≠ 0) : x.dev ≠ 0 → (fs'.inode x).nlinks ≠ 0 := by
  rw [near.inode x]
  exact links

theorem Near.tree (near : Near fs fs') : fs'.tree = fs.tree := by
  refine Tree.ext ?_ ?_ ?_ ?_
  · show {x | fs'.inodeMap x = true} = {x | fs.inodeMap x = true}
    rw [near.inodeMap]
  · exact Set.ext near.isDir
  · funext d
    refine live_congr (near.isDir d) (fun _ => ?_) (fun _ => ?_) fun n _ _ => ?_
    · rw [near.inode d]
    · rw [near.inode d]
    · rw [near.block]
  · funext x
    show (if fs'.inodeMap x then (fs'.inode x).nlinks.toNat else 0) = if fs.inodeMap x then (fs.inode x).nlinks.toNat else 0
    rw [near.inodeMap, near.inode x]

theorem FileSystem.Sound.congr (sound : fs.Sound) (inodeMap : fs'.inodeMap = fs.inodeMap)
    (inode : ∀ x, (fs'.inode x).mode = (fs.inode x).mode ∧ (fs'.inode x).zone = (fs.inode x).zone ∧
      (fs'.inode x).indirect = (fs.inode x).indirect)
    (aligned : ∀ d, fs.IsDir d → dirEntrySize ∣ (fs'.inode d).size)
    (zoneMap : fs'.zoneMap = fs.zoneMap) (held : ∀ x, 0 < (fs'.inode x).count → fs.inodeMap x = true) : fs'.Sound := by
  have isDir (d : Ino) : fs'.IsDir d ↔ fs.IsDir d := by
    unfold FileSystem.IsDir
    rw [inodeMap, (inode d).1]
  have owns (x : Ino) (b : Nat) : fs'.Owns x b ↔ fs.Owns x b := by
    unfold FileSystem.Owns MInode.Stores MInode.Lists
    rw [inodeMap, (inode x).1, (inode x).2.1, (inode x).2.2]
  refine ⟨?_, ?_, ?_, ?_, ?_, ?_, ?_⟩
  · exact fun d dir => aligned d ((isDir d).mp dir)
  · intro d dir
    rw [(inode d).2.1]
    exact sound.bare d ((isDir d).mp dir)
  · intro x b own
    rw [zoneMap]
    exact sound.owned x b ((owns x b).mp own)
  · exact fun x y b own own' => sound.apart x y b ((owns x b).mp own) ((owns y b).mp own')
  · intro d m n dir
    rw [(inode d).2.1]
    exact sound.inner d m n ((isDir d).mp dir)
  · intro d n dir
    rw [(inode d).2.1, (inode d).2.2]
    exact sound.direct d n ((isDir d).mp dir)
  · intro x some'
    rw [inodeMap]
    exact held x some'

theorem Near.sound (near : Near fs fs') (sound : fs.Sound) : fs'.Sound := by
  refine sound.congr near.inodeMap (fun x => ?_) (fun d dir => ?_) near.zoneMap near.held
  · rw [near.inode x]
    exact ⟨rfl, rfl, rfl⟩
  · rw [near.inode d]
    exact sound.aligned d dir

theorem Near.count (sound : fs.Sound) (x : Ino) (f : Nat → Nat) (held : 0 < f (fs.inode x).count → fs.inodeMap x = true) :
    Near fs (fs.modifyInode x fun inode => { inode with count := f inode.count }) where
  inode y := by
    unfold FileSystem.modifyInode FileSystem.setInode
    dsimp only
    by_cases own : y = x
    · rw [own, Function.update_self]
    · rw [Function.update_of_ne own]
  inodeMap := rfl
  zoneMap := rfl
  block := rfl
  held y some' := by
    unfold FileSystem.modifyInode FileSystem.setInode at some'
    dsimp only at some'
    by_cases own : y = x
    · rw [own, Function.update_self] at some'
      rw [own]
      exact held some'
    · rw [Function.update_of_ne own] at some'
      exact sound.held y some'

theorem modifyInode_self (fs : FileSystem σ) (x : Ino) (f : MInode → MInode) :
    (fs.modifyInode x f).inode x = f (fs.inode x) := Function.update_self ..

theorem modifyInode_other (f : MInode → MInode) (other : y ≠ x) : (fs.modifyInode x f).inode y = fs.inode y :=
  Function.update_of_ne other ..

theorem not_used (free : fs.inodeMap x = false) : x ∉ fs.tree.used := Bool.eq_false_iff.mp free

theorem apart_of_free (isDir : fs.IsDir d) (free : fs.inodeMap x = false) : d ≠ x := by
  rintro rfl
  exact not_used free isDir.1

theorem tree_nlinks (used : fs.inodeMap x = true) : fs.tree.nlinks x = (fs.inode x).nlinks.toNat := if_pos used

theorem setLinks_inode (fs : FileSystem σ) (x : Ino) (v : BitVec 8) (y : Ino) :
    ∃ v', (fs.modifyInode x fun inode => { inode with nlinks := v }).inode y = { fs.inode y with nlinks := v' } := by
  by_cases own : y = x
  · rw [own]
    exact ⟨v, modifyInode_self fs x _⟩
  · exact ⟨_, modifyInode_other _ own⟩

theorem setLinks_tree (used : fs.inodeMap x = true) (v : BitVec 8) :
    (fs.modifyInode x fun inode => { inode with nlinks := v }).tree =
      { fs.tree with nlinks := Function.update fs.tree.nlinks x v.toNat } := by
  have isDir (d : Ino) : (fs.modifyInode x fun inode => { inode with nlinks := v }).IsDir d ↔ fs.IsDir d := by
    rcases setLinks_inode fs x v d with ⟨v', same⟩
    unfold FileSystem.IsDir
    rw [same]
    rfl
  refine Tree.ext rfl (Set.ext isDir) ?_ ?_
  · funext d
    rcases setLinks_inode fs x v d with ⟨v', same⟩
    refine live_congr (isDir d) (fun _ => ?_) (fun _ => ?_) fun _ _ _ => rfl
    · rw [same]
    · rw [same]
  · funext y
    show (if fs.inodeMap y then ((fs.modifyInode x fun inode => { inode with nlinks := v }).inode y).nlinks.toNat else 0) =
      Function.update fs.tree.nlinks x v.toNat y
    by_cases own : y = x
    · rw [own, modifyInode_self, if_pos used, Function.update_self]
    · rw [modifyInode_other _ own, Function.update_of_ne own]
      rfl

theorem FileSystem.Sound.setLinks (sound : fs.Sound) (x : Ino) (v : BitVec 8) :
    (fs.modifyInode x fun inode => { inode with nlinks := v }).Sound := by
  refine sound.congr rfl (fun y => ?_) (fun d dir => ?_) rfl fun y some' => ?_
  · rcases setLinks_inode fs x v y with ⟨v', same⟩
    rw [same]
    exact ⟨rfl, rfl, rfl⟩
  · rcases setLinks_inode fs x v d with ⟨v', same⟩
    rw [same]
    exact sound.aligned d dir
  · rcases setLinks_inode fs x v y with ⟨v', same⟩
    rw [same] at some'
    exact sound.held y some'

end Changes

section Freeing

variable (freed : Freed x fs fs')

include freed

theorem Freed.isDir (y : Ino) : fs'.IsDir y ↔ y ≠ x ∧ fs.IsDir y := by
  unfold FileSystem.IsDir
  rw [freed.inodeMap]
  by_cases own : y = x
  · rw [own, Function.update_self]
    simp
  · rw [Function.update_of_ne own, freed.inode y own]
    simp [own]

theorem Freed.owns (y : Ino) (b : Nat) : fs'.Owns y b ↔ y ≠ x ∧ fs.Owns y b := by
  unfold FileSystem.Owns
  rw [freed.inodeMap]
  by_cases own : y = x
  · rw [own, Function.update_self]
    simp
  · rw [Function.update_of_ne own, freed.inode y own]
    simp [own]

omit freed in
theorem spared (sound : fs.Sound) (used : fs.inodeMap x = true) (other : y ≠ x) (owns : fs.Owns y b) :
    ¬ (y.dev = x.dev ∧ (fs.inode x).Stores ∧ (fs.inode x).Lists b) := by
  rintro ⟨dev, stores, lists⟩
  exact other (sound.apart y x b owns ⟨used, stores, lists⟩ dev)

theorem Freed.tree (sound : fs.Sound) (used : fs.inodeMap x = true) : fs'.tree = fs.tree.drop x := by
  refine Tree.ext ?_ ?_ ?_ ?_
  · ext y
    show fs'.inodeMap y = true ↔ fs.inodeMap y = true ∧ y ≠ x
    rw [freed.inodeMap]
    by_cases own : y = x
    · rw [own, Function.update_self]
      simp
    · rw [Function.update_of_ne own]
      simp [own]
  · ext y
    show fs'.IsDir y ↔ fs.IsDir y ∧ y ≠ x
    rw [freed.isDir, and_comm]
  · funext y
    show fs'.live y = fun j => if y = x then none else fs.live y j
    by_cases own : y = x
    · funext j
      rw [if_pos own]
      exact if_neg fun all => ((freed.isDir y).mp all.1).1 own
    · simp only [own, if_false]
      refine live_congr ?_ (fun _ => ?_) (fun _ => ?_) fun n isDir mapped => ?_
      · rw [freed.isDir]
        simp [own]
      · rw [freed.inode y own]
      · rw [freed.inode y own]
      · exact freed.block y.dev _ (spared sound used own (owns_zone isDir mapped))
  · funext y
    show (if fs'.inodeMap y then (fs'.inode y).nlinks.toNat else 0) = Function.update fs.tree.nlinks x 0 y
    rw [freed.inodeMap]
    by_cases own : y = x
    · rw [own, Function.update_self, Function.update_self]
      rfl
    · rw [Function.update_of_ne own, Function.update_of_ne own, freed.inode y own]
      rfl

theorem Freed.sound (sound : fs.Sound) (used : fs.inodeMap x = true) : fs'.Sound := by
  refine ⟨?_, ?_, ?_, ?_, ?_, ?_, ?_⟩
  · intro d dir
    rcases (freed.isDir d).mp dir with ⟨other, dir⟩
    rw [freed.inode d other]
    exact sound.aligned d dir
  · intro d dir
    rcases (freed.isDir d).mp dir with ⟨other, dir⟩
    rw [freed.inode d other]
    exact sound.bare d dir
  · intro y b own
    rcases (freed.owns y b).mp own with ⟨other, own⟩
    rw [freed.zoneMap y.dev b (spared sound used other own)]
    exact sound.owned y b own
  · exact fun y z b own own' => sound.apart y z b ((freed.owns y b).mp own).2 ((freed.owns z b).mp own').2
  · intro d m n dir
    rcases (freed.isDir d).mp dir with ⟨other, dir⟩
    rw [freed.inode d other]
    exact sound.inner d m n dir
  · intro d n dir
    rcases (freed.isDir d).mp dir with ⟨other, dir⟩
    rw [freed.inode d other]
    exact sound.direct d n dir
  · intro y some'
    have other : y ≠ x := by
      rintro rfl
      rw [freed.count] at some'
      cases some'
    rw [freed.inode y other] at some'
    rw [freed.inodeMap, Function.update_of_ne other]
    exact sound.held y some'

end Freeing

section Growing

variable (grown : Grown d n b fs fs') (within : fs.IsDir d) (absent : (fs.inode d).zone n = 0)

include grown

theorem Grown.other (other : y ≠ d) : fs'.inode y = fs.inode y := by
  rw [grown.inode, Function.update_of_ne other]

theorem Grown.self : fs'.inode d =
    { fs.inode d with zone := Function.update (fs.inode d).zone n b, indirect := (fs'.inode d).indirect } := by
  have self := congrFun grown.inode d
  rw [Function.update_self] at self
  exact self

theorem Grown.isDir (y : Ino) : fs'.IsDir y ↔ fs.IsDir y := by
  unfold FileSystem.IsDir
  rw [grown.inodeMap]
  by_cases own : y = d
  · rw [own, grown.self]
  · rw [grown.other own]

theorem Grown.spared (sound : fs.Sound) (within : fs.IsDir d) (owns : fs.Owns y m) (notIndirect : y = d → m ∉ (fs.inode d).indirect) :
    y.dev = d.dev → m ≠ b ∧ m ∉ (fs'.inode d).indirect := by
  intro dev
  have taken := sound.owned y m owns
  rw [dev] at taken
  have nonzero := owns.2.2.1
  refine ⟨?_, fun inside => ?_⟩
  · rintro rfl
    rw [grown.free nonzero] at taken
    cases taken
  · by_cases old : m ∈ (fs.inode d).indirect
    · have one := sound.apart y d m owns ⟨within.1, .inr within.2, nonzero, .inr old⟩ dev
      exact notIndirect one old
    · rw [(grown.fresh m inside old).2] at taken
      cases taken

include within absent

theorem Grown.live (sound : fs.Sound) : fs'.live = fs.live := by
  funext y
  by_cases own : y = d
  · funext i
    apply Option.ext
    intro e
    rw [live_eq_some, live_eq_some, grown.isDir]
    have entries : fs'.entries y = fs.entries y := by
      unfold FileSystem.entries
      rw [own, grown.self]
    rw [entries]
    by_cases here : i / dirEntriesPerBlock = n
    · rw [own, here, absent]
      constructor
      · rintro ⟨-, -, mapped, some', there⟩
        have new : (fs'.inode d).zone n = b := by
          rw [grown.self]
          exact Function.update_self ..
        rw [new] at mapped
        have block : fs'.entry (fs'.slotAt d i) = ⟨0, fun _ => 0⟩ := by
          unfold FileSystem.entry FileSystem.slotAt
          dsimp only
          rw [here, new, grown.blank mapped]
          rfl
        rw [← there, block] at some'
        exact absurd rfl some'
      · exact fun all => absurd rfl all.2.2.1
    · have zone : (fs'.inode y).zone (i / dirEntriesPerBlock) = (fs.inode y).zone (i / dirEntriesPerBlock) := by
        rw [own, grown.self]
        exact Function.update_of_ne here ..
      have slot : fs'.slotAt y i = fs.slotAt y i := by
        unfold FileSystem.slotAt
        rw [zone]
      rw [zone, slot]
      refine and_congr_right fun dir => and_congr_right fun _ => and_congr_right fun mapped => ?_
      have owns := owns_zone dir mapped
      have kept := grown.block y.dev _ (grown.spared sound within owns fun same => same ▸ sound.direct y _ dir mapped)
      have entry : fs'.entry (fs.slotAt y i) = fs.entry (fs.slotAt y i) := congrFun kept _
      rw [entry]
  · refine live_congr (grown.isDir y) (fun _ => ?_) (fun _ => ?_) fun m dir mapped => ?_
    · rw [grown.other own]
    · rw [grown.other own]
    · exact grown.block y.dev _ (grown.spared sound within (owns_zone dir mapped) fun same => absurd same own)

theorem Grown.owns (y : Ino) (c : Nat) : fs'.Owns y c ↔ fs.Owns y c ∨
    y = d ∧ c ≠ 0 ∧ (c = b ∨ c ∈ (fs'.inode d).indirect) := by
  unfold FileSystem.Owns
  rw [grown.inodeMap]
  by_cases own : y = d
  · subst own
    have lists : (fs'.inode y).Lists c ↔ (fs.inode y).Lists c ∨ c ≠ 0 ∧ (c = b ∨ c ∈ (fs'.inode y).indirect) := by
      unfold MInode.Lists
      rw [grown.self]
      dsimp only
      constructor
      · rintro ⟨some', ⟨m, here⟩ | indirect⟩
        · by_cases new : m = n
          · rw [new, Function.update_self] at here
            exact .inr ⟨some', .inl here.symm⟩
          · rw [Function.update_of_ne new] at here
            exact .inl ⟨some', .inl ⟨m, here⟩⟩
        · exact .inr ⟨some', .inr indirect⟩
      · rintro (⟨some', ⟨m, here⟩ | indirect⟩ | ⟨some', new | indirect⟩)
        · refine ⟨some', .inl ⟨m, ?_⟩⟩
          rw [Function.update_of_ne]
          · exact here
          · rintro rfl
            exact some' (here.symm.trans absent)
        · exact ⟨some', .inr (grown.kept c indirect)⟩
        · exact ⟨some', .inl ⟨n, by rw [Function.update_self, new]⟩⟩
        · exact ⟨some', .inr indirect⟩
    have stores : (fs'.inode y).Stores ↔ (fs.inode y).Stores := by
      unfold MInode.Stores
      rw [grown.self]
    have within' : (fs.inode y).Stores := .inr within.2
    rw [lists, stores]
    have used := within.1
    tauto
  · rw [grown.other own]
    simp [own]

theorem Grown.sound (sound : fs.Sound) (bare : (fs.inode d).zone 0 ≠ 0) : fs'.Sound := by
  have later : n ≠ 0 := by
    rintro rfl
    exact bare absent
  have zone (m : Nat) : (fs'.inode d).zone m = if m = n then b else (fs.inode d).zone m := by
    rw [grown.self]
    exact Function.update_apply ..
  have new (nonzero : b ≠ 0) {y : Ino} {m : Nat} (owns : fs.Owns y m) (dev : y.dev = d.dev) : m ≠ b := by
    rintro rfl
    have taken := sound.owned y m owns
    rw [dev, grown.free nonzero] at taken
    cases taken
  refine ⟨?_, ?_, ?_, ?_, ?_, ?_, ?_⟩
  · intro y dir
    have old := sound.aligned y ((grown.isDir y).mp dir)
    by_cases own : y = d
    · rw [own, grown.self]
      exact own ▸ old
    · rw [grown.other own]
      exact old
  · intro y dir
    by_cases own : y = d
    · rw [own]
      intro absent'
      rw [zone, if_neg later.symm] at absent'
      exact absurd absent' bare
    · rw [grown.other own]
      exact sound.bare y ((grown.isDir y).mp dir)
  · intro y c owns
    rw [grown.zoneMap]
    rcases (grown.owns within absent y c).mp owns with old | ⟨rfl, some', new | indirect⟩
    · exact .inl (sound.owned y c old)
    · exact .inr ⟨rfl, .inl ⟨new ▸ some', new⟩⟩
    · by_cases before : c ∈ (fs.inode y).indirect
      · exact .inl (sound.owned y c ⟨within.1, .inr within.2, some', .inr before⟩)
      · exact .inr ⟨rfl, .inr ⟨indirect, before⟩⟩
  · have clash {y : Ino} {c : Nat} (owns : fs.Owns y c) (taken : c ≠ 0 ∧ (c = b ∨ c ∈ (fs'.inode d).indirect))
        (dev : y.dev = d.dev) : y = d := by
      by_contra other
      have apart := grown.spared sound within owns (fun same => absurd same other) dev
      rcases taken.2 with same | inside
      · exact apart.1 same
      · exact apart.2 inside
    intro y z c owns owns' dev
    rcases (grown.owns within absent y c).mp owns with old | ⟨rfl, taken⟩
    · rcases (grown.owns within absent z c).mp owns' with old' | ⟨rfl, taken⟩
      · exact sound.apart y z c old old' dev
      · exact clash old taken dev
    · rcases (grown.owns within absent z c).mp owns' with old' | ⟨rfl, -⟩
      · exact (clash old' taken dev.symm).symm
      · rfl
  · intro y m k dir same mapped
    by_cases own : y = d
    · subst own
      rw [zone, zone] at same
      rw [zone] at mapped
      split at same
      next first =>
        split at same
        next second => exact first.trans second.symm
        next =>
          rw [if_pos first] at mapped
          exact absurd same.symm (new mapped (owns_zone within (same ▸ mapped)) rfl)
      next first =>
        rw [if_neg first] at mapped
        split at same
        next => exact absurd same (new (same ▸ mapped) (owns_zone within mapped) rfl)
        next => exact sound.inner y m k within same mapped
    · rw [grown.other own] at same mapped
      exact sound.inner y m k ((grown.isDir y).mp dir) same mapped
  · intro y m dir mapped
    by_cases own : y = d
    · subst own
      rw [zone] at mapped ⊢
      split at mapped
      next here =>
        rw [if_pos here]
        intro inside
        by_cases old : b ∈ (fs.inode y).indirect
        · have taken := sound.owned y b ⟨within.1, .inr within.2, mapped, .inr old⟩
          rw [grown.free mapped] at taken
          cases taken
        · exact (grown.fresh b inside old).1 rfl
      next here =>
        rw [if_neg here]
        exact (grown.spared sound within (owns_zone within mapped) (fun _ => sound.direct y m within mapped) rfl).2
    · rw [grown.other own] at mapped ⊢
      exact sound.direct y m ((grown.isDir y).mp dir) mapped
  · intro y some'
    rw [grown.inodeMap]
    by_cases own : y = d
    · rw [own]
      exact within.1
    · rw [grown.other own] at some'
      exact sound.held y some'

end Growing

end Linux011.Fs

import Linux011.Fs.Creating

namespace Linux011.Fs

open Linux011.Library

variable {σ : Type} {k : Kernel σ} {current : Process} {fs fs' fs₁ : FileSystem σ} {d x : Ino} {base : Name} {z : Nat}
  {slot : Slot}

section Building

def dotEntry (x : Ino) : DirEntry := ⟨x.num, padded dot⟩

def dotDotEntry (d : Ino) : DirEntry := ⟨d.num, padded dotDot⟩

/-- A new inode that has been made into a directory with a new block. -/
structure Built (x d : Ino) (z : Nat) (fs fs' : FileSystem σ) : Prop where
  free : fs.inodeMap x = false
  others : ∀ y, y ≠ x → fs'.inode y = fs.inode y
  inodeMap : fs'.inodeMap = Function.update fs.inodeMap x true
  isDir : sIsDir (fs'.inode x).mode = true
  size : (fs'.inode x).size = 32
  zone : (fs'.inode x).zone = Function.update (fun _ => 0) 0 z
  indirect : (fs'.inode x).indirect = []
  links : (fs'.inode x).nlinks = 2 ∧ (fs'.inode x).count = 1
  some' : z ≠ 0
  zoneFree : fs.zoneMap x.dev z = false
  zoneMap : fs'.zoneMap = Function.update fs.zoneMap x.dev (Function.update (fs.zoneMap x.dev) z true)
  block : ∀ dev b, ¬ (dev = x.dev ∧ b = z) → fs'.block dev b = fs.block dev b
  contents : ∀ i, fs'.block x.dev z i = if i = 0 then dotEntry x else if i = 1 then dotDotEntry d else ⟨0, fun _ => 0⟩

variable (built : Built x d z fs fs')

include built

theorem Built.dir (y : Ino) : fs'.IsDir y ↔ fs.IsDir y ∨ y = x := by
  unfold FileSystem.IsDir
  rw [built.inodeMap]
  by_cases own : y = x
  · rw [own, Function.update_self, built.isDir]
    simp
  · rw [Function.update_of_ne own, built.others y own]
    simp [own]

theorem Built.lists (b : Nat) : (fs'.inode x).Lists b ↔ b = z := by
  unfold MInode.Lists
  rw [built.zone, built.indirect]
  constructor
  · rintro ⟨nonzero, ⟨m, here⟩ | here⟩
    · by_cases first : m = 0
      · rw [first, Function.update_self] at here
        exact here.symm
      · rw [Function.update_of_ne first] at here
        exact absurd here.symm nonzero
    · cases here
  · rintro rfl
    exact ⟨built.some', .inl ⟨0, Function.update_self ..⟩⟩

theorem Built.owns (y : Ino) (b : Nat) : fs'.Owns y b ↔ fs.Owns y b ∧ y ≠ x ∨ y = x ∧ b = z := by
  unfold FileSystem.Owns
  rw [built.inodeMap]
  by_cases own : y = x
  · rw [own, Function.update_self, built.lists]
    have stores : (fs'.inode x).Stores := .inr built.isDir
    simp [stores]
  · rw [Function.update_of_ne own, built.others y own]
    simp [own]

theorem Built.elsewhere (sound : fs.Sound) {y : Ino} {b : Nat} (owns : fs.Owns y b) : ¬ (y.dev = x.dev ∧ b = z) := by
  rintro ⟨dev, rfl⟩
  have taken := sound.owned y b owns
  rw [dev, built.zoneFree] at taken
  cases taken

theorem Built.sound (sound : fs.Sound) : fs'.Sound := by
  have old {y : Ino} (other : y ≠ x) (isDir : fs'.IsDir y) : fs.IsDir y := ((built.dir y).mp isDir).resolve_right other
  refine ⟨?_, ?_, ?_, ?_, ?_, ?_, ?_⟩
  · intro y isDir
    by_cases own : y = x
    · rw [own, built.size]
      exact ⟨2, rfl⟩
    · rw [built.others y own]
      exact sound.aligned y (old own isDir)
  · intro y isDir absent n
    by_cases own : y = x
    · rw [own, built.zone, Function.update_self] at absent
      exact absurd absent built.some'
    · rw [built.others y own] at absent ⊢
      exact sound.bare y (old own isDir) absent n
  · intro y b owns
    rw [built.zoneMap]
    rcases (built.owns y b).mp owns with ⟨before, -⟩ | ⟨rfl, rfl⟩
    · by_cases dev : y.dev = x.dev
      · have other : b ≠ z := fun same => built.elsewhere sound before ⟨dev, same⟩
        rw [dev, Function.update_self, Function.update_of_ne other, ← dev]
        exact sound.owned y b before
      · rw [Function.update_of_ne dev]
        exact sound.owned y b before
    · rw [Function.update_self, Function.update_self]
  · intro y w b owns owns' dev
    rcases (built.owns y b).mp owns with ⟨before, -⟩ | ⟨rfl, rfl⟩
    · rcases (built.owns w b).mp owns' with ⟨before', -⟩ | ⟨rfl, rfl⟩
      · exact sound.apart y w b before before' dev
      · exact absurd ⟨dev, rfl⟩ (built.elsewhere sound before)
    · rcases (built.owns w b).mp owns' with ⟨before', -⟩ | ⟨rfl, -⟩
      · exact absurd ⟨dev.symm, rfl⟩ (built.elsewhere sound before')
      · rfl
  · intro y m n isDir same mapped
    by_cases own : y = x
    · rw [own, built.zone] at same mapped
      have first {m : Nat} (some' : (Function.update (fun _ => 0) 0 z : Nat → Nat) m ≠ 0) : m = 0 := by
        by_contra later
        rw [Function.update_of_ne later] at some'
        exact some' rfl
      have left : m = 0 := first mapped
      have right : n = 0 := first (same ▸ mapped)
      rw [left, right]
    · rw [built.others y own] at same mapped
      exact sound.inner y m n (old own isDir) same mapped
  · intro y n isDir mapped
    by_cases own : y = x
    · rw [own, built.indirect]
      exact List.not_mem_nil
    · rw [built.others y own] at mapped ⊢
      exact sound.direct y n (old own isDir) mapped
  · intro y some'
    rw [built.inodeMap]
    by_cases own : y = x
    · rw [own, Function.update_self]
    · rw [built.others y own] at some'
      rw [Function.update_of_ne own]
      exact sound.held y some'

theorem Built.entry (num : x.num ≠ 0) (parent : d.num ≠ 0) (i : Nat) : fs'.live x i =
    if x = x ∧ i = 0 then some (dotEntry x) else if x = x ∧ i = 1 then some (dotDotEntry d) else none := by
  have isDir : fs'.IsDir x := (built.dir x).mpr (.inr rfl)
  have entries : fs'.entries x = 2 := by
    unfold FileSystem.entries
    rw [built.size]
    rfl
  have zone : (fs'.inode x).zone 0 = z := by rw [built.zone, Function.update_self]
  match i with
  | 0 =>
    rw [if_pos ⟨rfl, rfl⟩]
    refine live_eq_some.mpr ⟨isDir, ?_, ?_, num, ?_⟩
    · omega
    · exact zone ▸ built.some'
    · show fs'.block x.dev ((fs'.inode x).zone 0) 0 = _
      rw [zone, built.contents]
      rfl
  | 1 =>
    rw [if_neg fun here => absurd here.2 Nat.one_ne_zero, if_pos ⟨rfl, rfl⟩]
    refine live_eq_some.mpr ⟨isDir, ?_, ?_, parent, ?_⟩
    · omega
    · exact zone ▸ built.some'
    · show fs'.block x.dev ((fs'.inode x).zone 0) 1 = _
      rw [zone, built.contents]
      rfl
  | i + 2 =>
    cases there : fs'.live x (i + 2) with
    | none => simp
    | some e =>
      have inside := (live_eq_some.mp there).2.1
      omega

theorem Built.tree (sound : fs.Sound) (num : x.num ≠ 0) (parent : d.num ≠ 0) :
    fs'.tree = fs.tree.build x (dotEntry x) (dotDotEntry d) := by
  refine Tree.ext ?_ ?_ ?_ ?_
  · ext y
    show fs'.inodeMap y = true ↔ y = x ∨ fs.inodeMap y = true
    rw [built.inodeMap]
    by_cases own : y = x
    · rw [own, Function.update_self]
      simp
    · rw [Function.update_of_ne own]
      simp [own]
  · ext y
    show fs'.IsDir y ↔ y = x ∨ fs.IsDir y
    rw [built.dir, or_comm]
  · funext y
    by_cases own : y = x
    · funext i
      show fs'.live y i = if y = x ∧ i = 0 then _ else if y = x ∧ i = 1 then _ else fs.live y i
      rw [own]
      have dead : fs.live x i = none := live_notDir (fun here => not_used built.free here.1) i
      rw [dead]
      exact built.entry num parent i
    · have others : (fs.tree.build x (dotEntry x) (dotDotEntry d)).live y = fs.live y := by
        funext i
        show (if y = x ∧ i = 0 then _ else if y = x ∧ i = 1 then _ else fs.live y i) = fs.live y i
        rw [if_neg fun here => own here.1, if_neg fun here => own here.1]
      rw [others]
      refine live_congr ?_ (fun _ => ?_) (fun _ => ?_) fun n isDir mapped => ?_
      · rw [built.dir]
        simp [own]
      · rw [built.others y own]
      · rw [built.others y own]
      · exact built.block y.dev _ (built.elsewhere sound (owns_zone isDir mapped))
  · funext y
    show (if fs'.inodeMap y then (fs'.inode y).nlinks.toNat else 0) = Function.update fs.tree.nlinks x 2 y
    rw [built.inodeMap]
    by_cases own : y = x
    · rw [own, Function.update_self, Function.update_self, built.links.1]
      rfl
    · rw [Function.update_of_ne own, Function.update_of_ne own, built.others y own]
      rfl

end Building

section Making

theorem Allotted.same (allotted : Allotted x fs fs₁) (same : Same fs₁ fs') : Allotted x fs fs' where
  free := allotted.free
  others y other := same.inode ▸ allotted.others y other
  inodeMap := same.inodeMap.trans allotted.inodeMap
  zoneMap := same.zoneMap.trans allotted.zoneMap
  block := same.block.trans allotted.block
  aligned := same.inode ▸ allotted.aligned
  empty := same.inode ▸ allotted.empty

theorem directory_mode (mode umask : BitVec 16) : sIsDir (iDirectory ||| mode &&& 0o0777 &&& ~~~umask) = true := by
  refine decide_eq_true ?_
  apply BitVec.eq_of_getLsbD_eq
  intro i inside
  have bits : ∀ i < 16, (iDirectory.getLsbD i = true → sIfmt.getLsbD i = true) ∧
      (sIfmt.getLsbD i && (0o0777 : BitVec 16).getLsbD i) = false ∧
      (0o040000 : BitVec 16).getLsbD i = iDirectory.getLsbD i := by decide
  rcases bits i inside with ⟨type, apart, same⟩
  rw [same]
  simp only [BitVec.getLsbD_and, BitVec.getLsbD_or]
  grind

theorem strcpy_blank (num : Nat) (name : Name) : DirEntry.strcpy ⟨num, fun _ => 0⟩ name = ⟨num, padded name⟩ := by
  refine DirEntry.ext rfl ?_
  funext i
  show (if i.val < name.length then name.getD i 0 else if i.val = name.length then 0 else 0) = name.getD i 0
  split
  next => rfl
  next past => rw [ite_self, List.getD_eq_getElem?_getD, List.getElem?_eq_none (Nat.not_lt.mp past), Option.getD_none]

theorem Fresh.built (fresh : Fresh d.dev x fs fs₁) (some' : z ≠ 0) (zoneFree : fs.zoneMap x.dev z = false)
    (others : ∀ y, y ≠ x → fs'.inode y = fs₁.inode y) (mode umask : BitVec 16)
    (own : fs'.inode x = { fs₁.inode x with
      size := 32, zone := Function.update (fs₁.inode x).zone 0 z, nlinks := 2, mode := iDirectory ||| mode &&& 0o0777 &&& ~~~umask })
    (inodeMap : fs'.inodeMap = fs₁.inodeMap)
    (zoneMap : fs'.zoneMap = Function.update fs₁.zoneMap x.dev (Function.update (fs₁.zoneMap x.dev) z true))
    (block : fs'.block = Function.update fs₁.block x.dev (Function.update (fs₁.block x.dev) z
      (Function.update (Function.update blank 0 (dotEntry x)) 1 (dotDotEntry d)))) : Built x d z fs fs' := by
  rcases fresh.inode with ⟨uid, gid, inode⟩
  have self := congrFun inode x
  rw [Function.update_self] at self
  rw [self] at own
  refine ⟨fresh.free, fun y other => ?_, inodeMap.trans fresh.inodeMap, ?_, ?_, ?_, ?_, ?_, some', zoneFree, ?_, ?_, ?_⟩
  · rw [others y other, inode, Function.update_of_ne other]
  · rw [own]
    exact directory_mode mode umask
  · rw [own]
  · rw [own]
  · rw [own]
  · rw [own]
    exact ⟨rfl, rfl⟩
  · rw [zoneMap, fresh.zoneMap]
  · intro dev b other
    rw [block, fresh.block]
    by_cases here : dev = x.dev
    · rw [here, Function.update_self, Function.update_of_ne fun same => other ⟨here, same⟩]
    · rw [Function.update_of_ne here]
  · intro i
    rw [block, Function.update_self, Function.update_self]
    by_cases second : i = 1
    · rw [second, Function.update_self]
      rfl
    · rw [Function.update_of_ne second, if_neg second]
      by_cases first : i = 0
      · rw [first, Function.update_self, if_pos rfl]
      · rw [Function.update_of_ne first, if_neg first]
        rfl

theorem setEntry_block (fs : FileSystem σ) (slot : Slot) (de : DirEntry) : (fs.setEntry slot de).block =
    Function.update fs.block slot.dev (Function.update (fs.block slot.dev) slot.block
      (Function.update (fs.block slot.dev slot.block) slot.index de)) := rfl

theorem setEntry_inode (fs : FileSystem σ) (slot : Slot) (de : DirEntry) : (fs.setEntry slot de).inode = fs.inode := rfl

theorem modifyInode_block (fs : FileSystem σ) (x : Ino) (f : MInode → MInode) : (fs.modifyInode x f).block = fs.block := rfl

theorem Consistent.num (consistent : Consistent fs) (entered : Entered fs d) (disk : d.dev ≠ 0) : d.num ≠ 0 := by
  have count := consistent.sane.exact d entered.isDir.1
  have links := tree_nlinks entered.isDir.1
  have some' : fs.tree.namers d ≠ ∅ := by
    intro none
    rw [none, Set.encard_empty, links] at count
    have zero : (fs.inode d).nlinks.toNat = 0 := by exact_mod_cast count.symm
    exact entered.links disk (BitVec.eq_of_toNat_eq zero)
  rcases Set.nonempty_iff_ne_empty.mpr some' with ⟨p, e, there, same⟩
  have inode := (live_eq_some.mp there).2.2.2.1
  rw [← same]
  exact inode

theorem Built.abandoned {fs₂ fs₃ fs₄ : FileSystem σ} (consistent : Consistent fs) (built : Built x d z fs fs₁) (apart : d ≠ x)
    (num : x.num ≠ 0) (parent : d.num ≠ 0) (prepared : Prepared d fs₁ fs₂) (near : Near fs₂ fs₃) (inode : fs₄.inode = fs₃.inode)
    (inodeMap : fs₄.inodeMap = fs₃.inodeMap) (blocks : ∀ dev c, ¬ (dev = x.dev ∧ c = z) →
      fs₄.zoneMap dev c = fs₃.zoneMap dev c ∧ fs₄.block dev c = fs₃.block dev c)
    (freed : Freed x (fs₄.modifyInode x fun inode => { inode with nlinks := 0 }) fs') : fs'.tree = fs.tree ∧ Consistent fs' := by
  have own : fs₃.inode x = { fs₁.inode x with count := (fs₃.inode x).count } := by
    rw [near.inode x, prepared.others x apart.symm]
  have stores : (fs₃.inode x).Stores := by
    rw [own]
    exact .inr built.isDir
  have lists (c : Nat) : (fs₃.inode x).Lists c ↔ c = z := by
    rw [own]
    exact built.lists c
  have free := not_used built.free
  have here : (fs₄.modifyInode x fun inode => { inode with nlinks := 0 }).inode x = { fs₃.inode x with nlinks := 0 } := by
    rw [modifyInode_self, inode]
  have spares {dev c : Nat} (other : ¬ (dev = x.dev ∧ (fs₃.inode x).Stores ∧ (fs₃.inode x).Lists c)) :
      ¬ (dev = x.dev ∧ ((fs₄.modifyInode x fun inode => { inode with nlinks := 0 }).inode x).Stores ∧
        ((fs₄.modifyInode x fun inode => { inode with nlinks := 0 }).inode x).Lists c) ∧ ¬ (dev = x.dev ∧ c = z) := by
    rw [here]
    exact ⟨other, fun same => other ⟨same.1, stores, (lists c).mpr same.2⟩⟩
  have whole : Freed x fs₃ fs' := by
    refine ⟨⟨fun dev c other => ?_, fun dev c other => ?_⟩, freed.count, fun y other => ?_, ?_⟩
    · exact (freed.zoneMap dev c (spares other).1).trans (blocks dev c (spares other).2).1
    · exact (freed.block dev c (spares other).1).trans (blocks dev c (spares other).2).2
    · rw [freed.inode y other, modifyInode_other _ other, inode]
    · rw [← inodeMap]
      exact freed.inodeMap
  refine consistent.abandon (near.sound prepared.sound) ?_ ?_ (fun y other none => ?_) whole
  · rw [near.inodeMap, prepared.inodeMap, built.inodeMap, Function.update_self]
  · rw [near.tree, prepared.tree, built.tree consistent.sound num parent]
    exact consistent.sane.drop_build free (unused_links built.free)
  · rw [← built.others y other] at none
    rw [near.inode y]
    exact (prepared.zone y).mpr none

theorem Consistent.furnish {fs₂ fs₃ : FileSystem σ} (consistent : Consistent fs) (built : Built x d z fs fs₁) (num : x.num ≠ 0)
    (dev : x.dev = d.dev) (disk : d.dev ≠ 0) (entered : Entered fs d) (room : (fs.inode d).nlinks ≠ 255)
    (added : Added d (base.take nameLen) slot fs₁ fs₂) (mapped : (fs₁.inode d).zone 0 ≠ 0)
    (finds : Finds fs d (current.sought d base) none) (plain : 0 ∉ base)
    (linked : fs₃ = (fs₂.setEntry slot { fs₂.entry slot with inode := x.num }).modifyInode d
      fun inode => { inode with nlinks := inode.nlinks + 1 }) :
    Consistent fs₃ ∧ ∃ i, fs.tree.live d i = none ∧ fs₃.tree =
      (fs.tree.enter d i ⟨x.num, padded (base.take nameLen)⟩ 0 True).furnish x d (dotEntry x) (dotDotEntry d) := by
  have free := not_used built.free
  have apart := apart_of_free entered.isDir built.free
  have parent := consistent.num entered disk
  have first : (fs.inode d).zone 0 ≠ 0 := by
    rw [← built.others d apart]
    exact mapped
  have made := consistent.made entered.isDir first
  have isDir₁ : fs₁.IsDir d := (built.dir d).mpr (.inl entered.isDir)
  have tree₁ := built.tree consistent.sound num parent
  have target := Tree.target_eq dev (padded (base.take nameLen))
  rcases added.named isDir₁ num with ⟨i, dead, sound₂, tree₂⟩
  have empty : fs.tree.live d i = none := by
    have old : fs₁.live d i = fs.tree.live d i := by
      show fs₁.tree.live d i = _
      rw [tree₁]
      exact (if_neg fun here => apart here.1).trans (if_neg fun here => apart here.1)
    rw [← old]
    exact dead
  have place := made.place empty
  have links : (fs₂.inode d).nlinks = (fs.inode d).nlinks := (added.links d).1.trans (by rw [built.others d apart])
  have used₂ : (fs₂.setEntry slot { fs₂.entry slot with inode := x.num }).inodeMap d = true := by
    show fs₂.inodeMap d = true
    rw [added.inodeMap]
    exact isDir₁.1
  have same : fs₃ = (fs₂.setEntry slot { fs₂.entry slot with inode := x.num }).modifyInode d
      fun inode => { inode with nlinks := (fs.inode d).nlinks + 1 } := by
    rw [linked]
    unfold FileSystem.modifyInode
    dsimp only
    rw [setEntry_inode, links]
  have tree : fs₃.tree = (fs.tree.enter d i ⟨x.num, padded (base.take nameLen)⟩ 0 True).furnish x d (dotEntry x) (dotDotEntry d) := by
    rw [same, setLinks_tree used₂, links_add room entered.isDir.1, tree₂, tree₁]
    exact Tree.build_enter apart target
  have sane₁ : (fs.tree.enter d i ⟨x.num, padded (base.take nameLen)⟩ 0 True).Sane :=
    consistent.sane.enter_new empty made (new_name made finds plain num) (target.symm ▸ free)
  have bare (j : Nat) : (fs.tree.enter d i ⟨x.num, padded (base.take nameLen)⟩ 0 True).live x j = none :=
    (if_neg fun here => apart here.1.symm).trans (consistent.sane.unused free j)
  have names : (fs.tree.enter d i ⟨x.num, padded (base.take nameLen)⟩ 0 True).Names d i x :=
    ⟨_, if_pos ⟨rfl, rfl⟩, target⟩
  have sane := sane₁.furnish bare place names (.inr ⟨trivial, target.symm⟩) apart
    (by show Function.update fs.tree.nlinks (Tree.target d _) (0 + 1) x = 1; rw [target, Function.update_self])
    (padded_matches (by decide) num) (e := dotEntry x) rfl (padded_matches (by decide) parent) (f := dotDotEntry d)
    (by unfold Tree.target; rw [dev]; rfl)
  refine ⟨⟨?_, tree ▸ sane, fun y dir mapped' => ?_⟩, i, empty, tree⟩
  · rw [same]
    exact sound₂.setLinks d _
  · have live : fs₃.live = ((fs.tree.enter d i ⟨x.num, padded (base.take nameLen)⟩ 0 True).furnish x d (dotEntry x)
        (dotDotEntry d)).live := congrArg Tree.live tree
    rw [live]
    by_cases own : y = x
    · have dot : ((fs.tree.enter d i ⟨x.num, padded (base.take nameLen)⟩ 0 True).furnish x d (dotEntry x)
          (dotDotEntry d)).live y 0 = some (dotEntry x) := if_pos ⟨own, rfl⟩
      rw [dot]
      rfl
    · have kept : ((fs.tree.enter d i ⟨x.num, padded (base.take nameLen)⟩ 0 True).furnish x d (dotEntry x)
          (dotDotEntry d)).live y 0 = fs.tree.live y 0 :=
        (if_neg fun here => own here.1).trans ((if_neg fun here => own here.1).trans
          (if_neg (Tree.low_place place Nat.two_pos)))
      rw [kept]
      have dir₁ : fs₁.IsDir y := by
        have here : y ∈ fs₃.tree.dir := dir
        rw [tree] at here
        refine (built.dir y).mpr (.inl (here.resolve_right fun new => own ?_))
        rw [new.2, target]
      refine consistent.filled y (((built.dir y).mp dir₁).resolve_right own) fun none => mapped' ?_
      have zone : (fs₃.inode y).zone = (fs₂.inode y).zone := by
        rw [same]
        by_cases above : y = d
        · rw [above, modifyInode_self]
          rfl
        · rw [modifyInode_other _ above]
          rfl
      rw [zone]
      rw [← built.others y own] at none
      exact (added.zone y).mpr none

variable (serves : k.Serves)

include serves

theorem newDirectory_builds (consistent : Consistent fs) (entered : Entered fs d) (fresh : Fresh d.dev x fs fs₁) (mode : BitVec 16) :
    Gives (newDirectory k current d x mode) (fun out fs' => match out with
      | .error _ => Consistent fs' ∧ fs'.tree = fs.tree
      | .ok _ => ∃ z, Built x d z fs fs') fs₁ := by
  have apart := apart_of_free entered.isDir fresh.free
  rcases fresh.inode with ⟨uid, gid, inode⟩
  have self := congrFun inode x
  rw [Function.update_self] at self
  rw [newDirectory, gives_changeInode]
  have allotted := fresh.allotted.change (fun inode => { inode with size := 32 }) ⟨2, rfl⟩
    (fun _ => by rw [self]; exact ⟨rfl, rfl⟩)
  have own₂ := modifyInode_self fs₁ x fun inode => { inode with size := 32 }
  have others₂ (y : Ino) (other : y ≠ x) : (fs₁.modifyInode x fun inode => { inode with size := 32 }).inode y = fs₁.inode y :=
    modifyInode_other _ other
  have maps₂ : (fs₁.modifyInode x fun inode => { inode with size := 32 }).inodeMap = fs₁.inodeMap ∧
    (fs₁.modifyInode x fun inode => { inode with size := 32 }).zoneMap = fs₁.zoneMap ∧
    (fs₁.modifyInode x fun inode => { inode with size := 32 }).block = fs₁.block := ⟨rfl, rfl, rfl⟩
  generalize fs₁.modifyInode x _ = fs₂ at *
  apply (serves.newBlock x.dev fs₂).bind
  intro z fs₃ made
  rw [gives_changeInode]
  split
  next none =>
    rw [if_pos none] at made
    have allotted₃ := allotted.same made
    have own₃ : fs₃.inode x = { fs₁.inode x with size := 32 } := made.inode ▸ own₂
    have allotted₄ := allotted₃.change (fun inode => { inode with zone := Function.update inode.zone 0 z }) allotted₃.aligned
      (fun _ => by rw [own₃, self, none]; exact ⟨Function.update_eq_self 0 _, rfl⟩)
    have own₄ := modifyInode_self fs₃ x fun inode => { inode with zone := Function.update inode.zone 0 z }
    rw [own₃, self] at own₄
    generalize fs₃.modifyInode x _ = fs₄ at *
    have lives : ¬ Dies d (fs₄.inode d) := by
      rw [allotted₄.others d apart]
      exact lives_of_links entered.links
    apply (iput_others serves (allotted₄.sound consistent.sound) lives).bind
    rintro - fs₅ ⟨near, others⟩
    have own₅ := (others x apart.symm).trans own₄
    have links₅ : (fs₅.inode x).nlinks = 1 := own₅ ▸ rfl
    have gone : fs₅.modifyInode x (fun inode => { inode with nlinks := inode.nlinks - 1 }) =
        fs₅.modifyInode x fun inode => { inode with nlinks := 0 } := by
      unfold FileSystem.modifyInode
      dsimp only
      rw [links₅]
      rfl
    rw [gives_changeInode, gone]
    have dies : Dies x ((fs₅.modifyInode x fun inode => { inode with nlinks := 0 }).inode x) := by
      rw [modifyInode_self, own₅]
      exact ⟨fresh.dev ▸ fresh.disk, rfl, rfl⟩
    apply (iput_frees serves dies).bind
    intro _ fs₆ freed
    exact (consistent.abandoned allotted₄ (.refl (d := d) (allotted₄.sound consistent.sound)) near 0 freed).symm
  next some' =>
    rw [if_neg some'] at made
    have zoneFree : fs.zoneMap x.dev z = false := by
      rw [← fresh.zoneMap, ← maps₂.2.1]
      exact made.1
    apply (serves.bread x.dev z _).bind
    rintro read fs₄ ⟨rfl, same⟩
    simp only [Bool.not_true, Bool.false_eq_true, if_false]
    rw [gives_changeEntry, gives_changeEntry, gives_changeInode]
    have block₄ : fs₄.block = Function.update fs₁.block x.dev (Function.update (fs₁.block x.dev) z blank) := by
      rw [same.block, ← maps₂.2.2]
      exact made.2.block
    have own₄ : fs₄.inode x = { fs₁.inode x with size := 32, zone := Function.update (fs₁.inode x).zone 0 z } := by
      rw [same.inode, modifyInode_self, made.2.inode, show (fs₂.claim x.dev z).inode = fs₂.inode from rfl, own₂]
    refine ⟨z, fresh.built some' zoneFree (fun y other => ?_) mode current.umask ?_ ?_ ?_ ?_⟩
    · rw [modifyInode_other _ other]
      show fs₄.inode y = fs₁.inode y
      rw [same.inode, modifyInode_other _ other, made.2.inode]
      exact others₂ y other
    · rw [modifyInode_self, setEntry_inode, setEntry_inode, own₄]
    · show fs₄.inodeMap = fs₁.inodeMap
      rw [same.inodeMap]
      exact made.2.inodeMap.trans maps₂.1
    · show fs₄.zoneMap = _
      rw [same.zoneMap, ← maps₂.2.1]
      exact made.2.zoneMap
    · rw [modifyInode_block, setEntry_block, setEntry_block, block₄]
      simp only [FileSystem.entry, setEntry_block, block₄, Function.update_self, Function.update_idem]
      rw [Function.update_of_ne (by decide : (1 : Fin dirEntriesPerBlock) ≠ 0)]
      have first : DirEntry.strcpy ⟨x.num, (blank 0).name⟩ dot = dotEntry x := strcpy_blank x.num dot
      have second : DirEntry.strcpy ⟨d.num, (blank 1).name⟩ dotDot = dotDotEntry d := strcpy_blank d.num dotDot
      rw [first, second]

theorem mkdirEntry_built (consistent : Consistent fs) (pathname : List (BitVec 8)) (mode : BitVec 16) :
    Gives (mkdirEntry k current pathname mode) (fun out fs' => match out with
      | .error _ => Consistent fs' ∧ fs'.tree = fs.tree
      | .ok (d, x, out) => ∃ fs₁ fs₂ z, Near fs fs₁ ∧ Entered fs₁ d ∧ fs.tree.DirectoryOf current pathname d ∧
        basenameFrom pathname [] ≠ [] ∧ d.dev ≠ 0 ∧ x.dev = d.dev ∧ x.num ≠ 0 ∧ Finds fs₁ d (current.sought d (basenameFrom pathname [])) none ∧ Built x d z fs₁ fs₂ ∧
        Adds d (lastName pathname) fs₂ fs' out ∧ (out ≠ none → (fs₂.inode d).zone 0 ≠ 0)) fs := by
  rw [mkdirEntry]
  split
  next => exact ⟨consistent, rfl⟩
  next =>
    apply (parentOf_leads serves consistent pathname).bind
    rintro out fs₁ ⟨near₁, leads⟩
    cases out with
    | error e => exact ⟨near₁.consistent consistent, near₁.tree⟩
    | ok place =>
      rcases place with ⟨d, base⟩
      rcases leads d base rfl with ⟨entered, directory, rfl, some'⟩
      have consistent₁ := near₁.consistent consistent
      dsimp only
      apply (freshInode_fresh serves consistent₁ (entered.near near₁) some').bind
      intro out fs₂ fresh
      cases out with
      | error e => exact ⟨fresh.consistent consistent₁, fresh.tree.trans near₁.tree⟩
      | ok place =>
        rcases place with ⟨d', x⟩
        rcases fresh with ⟨rfl, finds, fs₃, near₃, fresh⟩
        have near := near₁.trans near₃
        have consistent₃ := near.consistent consistent
        dsimp only
        apply (newDirectory_builds serves consistent₃ (entered.near near) fresh mode).bind
        intro out fs₄ built
        cases out with
        | error e => exact ⟨built.1, built.2.trans near.tree⟩
        | ok _ =>
          rcases built with ⟨z, built⟩
          have isDir : fs₄.IsDir d' := (built.dir d').mpr (.inl (entered.near near).isDir)
          apply (addEntry_adds serves (built.sound consistent₃.sound) isDir (basenameFrom pathname [])).bind
          rintro out fs₅ ⟨adds, mapped⟩
          exact ⟨fs₃, fs₄, z, near, entered.near near, directory, some', fresh.disk, fresh.dev, fresh.num, near₃.finds.mpr finds, built, adds,
            mapped⟩

omit serves in
/-- What `sys_mkdir` leaves behind. -/
def Tree.Makes (T : Tree) (current : Process) (pathname : List (BitVec 8)) (T' : Tree) : Except Errno Unit → Prop
  | .error _ => T' = T
  | .ok _ => ∃ x d i, x ∉ T.used ∧ T.DirectoryOf current pathname d ∧ basenameFrom pathname [] ≠ [] ∧
    T.Vacant d i (lastName pathname) x ∧
    T' = (T.enter d i ⟨x.num, padded (lastName pathname)⟩ 0 True).furnish x d (dotEntry x) (dotDotEntry d)

theorem sysMkdir_makes (consistent : Consistent fs) (room : ∀ x, fs.tree.nlinks x ≠ 255) (pathname : List (BitVec 8))
    (mode : BitVec 16) : Gives (sysMkdir k current pathname mode)
      (fun out fs' => Consistent fs' ∧ fs.tree.Makes current pathname fs'.tree out) fs := by
  rw [sysMkdir]
  apply (mkdirEntry_built serves consistent pathname mode).bind
  rintro out fs₃ made
  match out with
  | .error e => exact made
  | .ok (d, x, out) =>
    rcases made with ⟨fs₁, fs₂, z, near, entered, directory, some', disk, dev, num, finds, built, adds, mapped⟩
    have consistent₁ := near.consistent consistent
    have parent := consistent₁.num entered disk
    have apart := apart_of_free entered.isDir built.free
    have prepared : Prepared d fs₂ fs₃ := by
      cases out with
      | none => exact adds
      | some slot => exact adds.toPrepared
    have links₃ : d.dev ≠ 0 → (fs₃.inode d).nlinks ≠ 0 := by
      rw [(prepared.links d).1, built.others d apart]
      exact entered.links
    cases out with
    | none =>
      dsimp only
      apply (iput_others serves prepared.sound (lives_of_links links₃)).bind
      rintro - fs₄ ⟨near₄, others⟩
      rw [gives_inodeOf]
      have own₄ : fs₄.inode x = fs₂.inode x := (others x apart.symm).trans (prepared.others x apart.symm)
      have zone : (fs₄.inode x).zone 0 = z := by
        rw [own₄, built.zone, Function.update_self]
      rw [zone]
      apply (serves.freeBlock x.dev z fs₄).bind
      rintro - fs₅ ⟨inode, inodeMap, blocks⟩
      rw [gives_changeInode]
      have dies : Dies x ((fs₅.modifyInode x fun inode => { inode with nlinks := 0 }).inode x) := by
        rw [modifyInode_self, inode, own₄]
        exact ⟨dev ▸ disk, rfl, built.links.2⟩
      apply (iput_frees serves dies).bind
      intro _ fs₆ freed
      have both := built.abandoned consistent₁ apart num parent prepared near₄ inode inodeMap blocks freed
      exact ⟨both.2, both.1.trans near.tree⟩
    | some slot =>
      unfold nameInode
      dsimp only
      rw [gives_changeEntry, gives_changeInode]
      have plain : 0 ∉ basenameFrom pathname [] := basenameFrom_plain pathname nofun
      have room₁ : (fs₁.inode d).nlinks ≠ 255 := by
        intro full
        apply room d
        rw [← near.tree, tree_nlinks entered.isDir.1, full]
        rfl
      rcases consistent₁.furnish built num dev disk entered room₁ adds (mapped nofun) finds plain rfl
        with ⟨consistent₄, i, empty, tree⟩
      have made := consistent₁.made entered.isDir (by rw [← built.others d apart]; exact mapped nofun)
      have links₄ : ((fs₃.setEntry slot { fs₃.entry slot with inode := x.num }).modifyInode d
          fun inode => { inode with nlinks := inode.nlinks + 1 }).inode d =
          { fs₃.inode d with nlinks := (fs₃.inode d).nlinks + 1 } := by
        rw [modifyInode_self, setEntry_inode]
      have own₄ : ((fs₃.setEntry slot { fs₃.entry slot with inode := x.num }).modifyInode d
          fun inode => { inode with nlinks := inode.nlinks + 1 }).inode x = fs₂.inode x := by
        rw [modifyInode_other _ apart.symm, setEntry_inode]
        exact prepared.others x apart.symm
      generalize (fs₃.setEntry slot { fs₃.entry slot with inode := x.num }).modifyInode d _ = fs₄ at *
      have more : (fs₄.inode d).nlinks ≠ 0 := by
        rw [links₄]
        intro none
        have full : (fs₃.inode d).nlinks ≠ 255 := by
          rw [(prepared.links d).1, built.others d apart]
          exact room₁
        exact full (by dsimp only at none; bv_omega)
      apply (iput_near serves consistent₄.sound (lives_of_links fun _ => more)).bind
      rintro - fs₅ near₅
      have lives : ¬ Dies x (fs₅.inode x) := by
        refine lives_of_links fun _ => ?_
        rw [near₅.inode x, own₄, built.links.1]
        decide
      apply (iput_near serves (near₅.sound consistent₄.sound) lives).bind
      rintro - fs₆ near₆
      have after := near₅.trans near₆
      refine ⟨after.consistent consistent₄, x, d, i, near.tree ▸ not_used built.free, directory, some',
        near.tree ▸ ⟨made, dev, num, empty, unfound_name made finds⟩, ?_⟩
      rw [after.tree, tree, near.tree]
      rfl

end Making

end Linux011.Fs

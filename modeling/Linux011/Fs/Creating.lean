import Linux011.Fs.Calls
import Linux011.Fs.Insert

namespace Linux011.Fs

open Linux011.Library

variable {σ : Type} {k : Kernel σ} {current : Process} {fs fs' fs₁ : FileSystem σ} {d x : Ino} {name base : Name} {i n num : Nat}
  {slot : Slot}

section Naming

theorem padded_matches (short : name.length ≤ nameLen) (some' : num ≠ 0) :
    entryMatches name ⟨num, padded name⟩ = true := by
  rw [entryMatches_iff]
  refine ⟨some', short, fun i last => ?_, fun i inside => ?_⟩
  · show name.getD i.val 0 = 0
    rw [last, List.getD_eq_getElem?_getD, List.getElem?_eq_none (Nat.le_refl _)]
    rfl
  · show name[i.val]? = some (name.getD i.val 0)
    rw [List.getD_eq_getElem?_getD, List.getElem?_eq_getElem inside]
    rfl

theorem Added.named (added : Added d name slot fs fs') (isDir : fs.IsDir d) (some' : num ≠ 0) :
    ∃ i, fs.live d i = none ∧ (fs'.setEntry slot { fs'.entry slot with inode := num }).Sound ∧
      (fs'.setEntry slot { fs'.entry slot with inode := num }).tree =
        { fs.tree with live := fs.tree.setLive d i (some ⟨num, padded name⟩) } := by
  rcases added.place with ⟨i, rfl, inside, mapped, written, dead⟩
  have isDir' := (added.isDir d).mpr isDir
  refine ⟨i, added.live ▸ dead, added.sound.congr rfl (fun _ => ⟨rfl, rfl, rfl⟩) added.sound.aligned rfl added.sound.held, ?_⟩
  have tree := added.tree
  have entry : ({ fs'.entry (fs'.slotAt d i) with inode := num } : DirEntry) = ⟨num, padded name⟩ := DirEntry.ext rfl written
  have live : (fs'.setEntry (fs'.slotAt d i) ⟨num, padded name⟩).live = _ := live_setEntry added.sound isDir' mapped
  rw [if_pos ⟨inside, some'⟩, tree] at live
  rw [entry]
  refine Tree.ext ?_ ?_ live ?_
  · show fs'.tree.used = fs.tree.used
    rw [tree]
  · show fs'.tree.dir = fs.tree.dir
    rw [tree]
  · show fs'.tree.nlinks = fs.tree.nlinks
    rw [tree]

theorem Consistent.made (consistent : Consistent fs) (isDir : fs.IsDir d) (mapped : (fs.inode d).zone 0 ≠ 0) : fs.tree.Made d := by
  rcases Option.isSome_iff_exists.mp (consistent.filled d isDir mapped) with ⟨e, there⟩
  exact consistent.sane.made_of_live (show fs.tree.live d 0 = some e from there)

theorem unfound_name (made : fs.tree.Made d) (finds : Finds fs d (current.sought d base) none) (j : Nat) (f : DirEntry)
    (there : fs.tree.live d j = some f) : entryMatches (base.take nameLen) f = false := by
  have sought : current.sought d base = base.take nameLen := by
    unfold Process.sought at finds ⊢
    split
    next root =>
      rw [if_pos root] at finds
      rcases made.dot with ⟨e, here, self, -⟩
      rw [finds 0 e here] at self
      cases self
    next => rfl
  rw [← sought]
  exact finds j f there

theorem new_name (made : fs.tree.Made d) (finds : Finds fs d (current.sought d base) none) (plain : 0 ∉ base) (some' : num ≠ 0) (j : Nat)
    (f : DirEntry) (name : Name) (there : fs.tree.live d j = some f) (plain' : 0 ∉ name) (matches_ : entryMatches name f = true) :
    entryMatches name ⟨num, padded (base.take nameLen)⟩ = false := by
  by_contra other
  have plain₁ : 0 ∉ base.take nameLen := fun zero => plain (List.mem_of_mem_take zero)
  have own := padded_matches (List.length_take_le nameLen base) some'
  have same := entryMatches_unique plain' plain₁ (by simpa using other) own
  rw [same, unfound_name made finds j f there] at matches_
  cases matches_

end Naming

section Allotting

structure Allotted (x : Ino) (fs fs' : FileSystem σ) : Prop where
  free : fs.inodeMap x = false
  others : ∀ y, y ≠ x → fs'.inode y = fs.inode y
  inodeMap : fs'.inodeMap = Function.update fs.inodeMap x true
  zoneMap : fs'.zoneMap = fs.zoneMap
  block : fs'.block = fs.block
  aligned : dirEntrySize ∣ (fs'.inode x).size
  empty : (fs'.inode x).Stores → (fs'.inode x).zone = (fun _ => 0) ∧ (fs'.inode x).indirect = []

theorem Fresh.allotted {dev : Nat} (fresh : Fresh dev x fs fs') : Allotted x fs fs' := by
  rcases fresh.inode with ⟨uid, gid, inode⟩
  have self := congrFun inode x
  rw [Function.update_self] at self
  refine ⟨fresh.free, fun y other => ?_, fresh.inodeMap, fresh.zoneMap, fresh.block, ?_, fun _ => ?_⟩
  · rw [inode, Function.update_of_ne other]
  · rw [self]
    exact Nat.dvd_zero _
  · rw [self]
    exact ⟨rfl, rfl⟩

theorem Allotted.change (allotted : Allotted x fs fs₁) (f : MInode → MInode) (aligned : dirEntrySize ∣ (f (fs₁.inode x)).size)
    (empty : (f (fs₁.inode x)).Stores → (f (fs₁.inode x)).zone = (fun _ => 0) ∧ (f (fs₁.inode x)).indirect = []) :
    Allotted x fs (fs₁.modifyInode x f) where
  free := allotted.free
  others y other := (modifyInode_other f other).trans (allotted.others y other)
  inodeMap := allotted.inodeMap
  zoneMap := allotted.zoneMap
  block := allotted.block
  aligned := by
    rw [modifyInode_self]
    exact aligned
  empty := by
    rw [modifyInode_self]
    exact empty

variable (allotted : Allotted x fs fs')

include allotted

theorem Allotted.isDir (y : Ino) : fs'.IsDir y ↔ fs.IsDir y ∨ sIsDir (fs'.inode x).mode = true ∧ y = x := by
  unfold FileSystem.IsDir
  rw [allotted.inodeMap]
  by_cases own : y = x
  · rw [own, Function.update_self, allotted.free]
    simp
  · rw [Function.update_of_ne own, allotted.others y own]
    simp [own]

theorem Allotted.owns (y : Ino) (b : Nat) : fs'.Owns y b ↔ fs.Owns y b := by
  unfold FileSystem.Owns
  rw [allotted.inodeMap]
  by_cases own : y = x
  · rw [own, Function.update_self, allotted.free]
    constructor
    · rintro ⟨-, stores, some', listed⟩
      rcases allotted.empty stores with ⟨zone, indirect⟩
      rw [zone, indirect] at listed
      rcases listed with ⟨m, here⟩ | here
      · exact absurd here.symm some'
      · cases here
    · rintro ⟨used, -⟩
      cases used
  · rw [Function.update_of_ne own, allotted.others y own]

theorem Allotted.tree (sane : fs.tree.Sane) :
    fs'.tree = fs.tree.alloc x (fs'.inode x).nlinks.toNat (sIsDir (fs'.inode x).mode = true) := by
  refine Tree.ext ?_ (Set.ext allotted.isDir) ?_ ?_
  · ext y
    show fs'.inodeMap y = true ↔ y = x ∨ fs.inodeMap y = true
    rw [allotted.inodeMap]
    by_cases own : y = x
    · rw [own, Function.update_self]
      simp
    · rw [Function.update_of_ne own]
      simp [own]
  · funext y
    by_cases own : y = x
    · funext i
      have free := not_used allotted.free
      show fs'.live y i = fs.tree.live y i
      rw [own, sane.unused free]
      apply Option.eq_none_iff_forall_ne_some.mpr
      intro e there
      rcases live_eq_some.mp there with ⟨isDir, -, mapped, -⟩
      rw [(allotted.empty (.inr isDir.2)).1] at mapped
      exact mapped rfl
    · refine live_congr ?_ (fun _ => ?_) (fun _ => ?_) fun _ _ _ => ?_
      · rw [allotted.isDir]
        simp [own]
      · rw [allotted.others y own]
      · rw [allotted.others y own]
      · rw [allotted.block]
  · funext y
    show (if fs'.inodeMap y then (fs'.inode y).nlinks.toNat else 0) = Function.update fs.tree.nlinks x _ y
    rw [allotted.inodeMap]
    by_cases own : y = x
    · rw [own, Function.update_self, Function.update_self, if_pos rfl]
    · rw [Function.update_of_ne own, Function.update_of_ne own, allotted.others y own]
      rfl

theorem Allotted.sound (sound : fs.Sound) : fs'.Sound := by
  have bare {y : Ino} (own : y = x) (isDir : fs'.IsDir y) : (fs'.inode y).zone = fun _ => 0 := by
    rw [own] at isDir ⊢
    exact (allotted.empty (.inr isDir.2)).1
  have old {y : Ino} (other : y ≠ x) (isDir : fs'.IsDir y) : fs.IsDir y :=
    ((allotted.isDir y).mp isDir).resolve_right fun new => other new.2
  refine ⟨?_, ?_, ?_, ?_, ?_, ?_, ?_⟩
  · intro y isDir
    by_cases own : y = x
    · rw [own]
      exact allotted.aligned
    · rw [allotted.others y own]
      exact sound.aligned y (old own isDir)
  · intro y isDir absent n
    by_cases own : y = x
    · rw [bare own isDir]
    · rw [allotted.others y own] at absent ⊢
      exact sound.bare y (old own isDir) absent n
  · intro y b owns
    rw [allotted.zoneMap]
    exact sound.owned y b ((allotted.owns y b).mp owns)
  · exact fun y z b owns owns' => sound.apart y z b ((allotted.owns y b).mp owns) ((allotted.owns z b).mp owns')
  · intro y m n isDir same mapped
    by_cases own : y = x
    · rw [bare own isDir] at mapped
      exact absurd rfl mapped
    · rw [allotted.others y own] at same mapped
      exact sound.inner y m n (old own isDir) same mapped
  · intro y n isDir mapped
    by_cases own : y = x
    · rw [bare own isDir] at mapped
      exact absurd rfl mapped
    · rw [allotted.others y own] at mapped ⊢
      exact sound.direct y n (old own isDir) mapped
  · intro y some'
    rw [allotted.inodeMap]
    by_cases own : y = x
    · rw [own, Function.update_self]
    · rw [allotted.others y own] at some'
      rw [Function.update_of_ne own]
      exact sound.held y some'

end Allotting

section Creating

def lastName (pathname : List (BitVec 8)) : Name := (basenameFrom pathname []).take nameLen

/-- A place in a directory for a new name of an inode. -/
structure Tree.Vacant (T : Tree) (d : Ino) (i : Nat) (name : Name) (x : Ino) : Prop where
  made : T.Made d
  dev : x.dev = d.dev
  num : x.num ≠ 0
  empty : T.live d i = none
  new : ∀ j f, T.live d j = some f → entryMatches name f = false

/-- An inode gets a new name, the last component of a path, in the directory of the path. -/
def Tree.Enters (T : Tree) (current : Process) (pathname : List (BitVec 8)) (x : Ino) (n : Nat) (isDir : Prop) (T' : Tree) : Prop :=
  ∃ d i, T.DirectoryOf current pathname d ∧ basenameFrom pathname [] ≠ [] ∧ T.Vacant d i (lastName pathname) x ∧
    T' = T.enter d i ⟨x.num, padded (lastName pathname)⟩ n isDir

theorem Consistent.create {fs₂ : FileSystem σ} (consistent : Consistent fs) (allotted : Allotted x fs fs₁)
    (links : (fs₁.inode x).nlinks = 1) (num : x.num ≠ 0) (dev : x.dev = d.dev) (isDir : fs.IsDir d)
    (added : Added d (base.take nameLen) slot fs₁ fs₂) (mapped : (fs₁.inode d).zone 0 ≠ 0)
    (finds : Finds fs d (current.sought d base) none) (plain : 0 ∉ base) :
    ∃ i, fs.tree.live d i = none ∧ (fs₂.setEntry slot { fs₂.entry slot with inode := x.num }).tree =
        fs.tree.enter d i ⟨x.num, padded (base.take nameLen)⟩ 0 (sIsDir (fs₁.inode x).mode = true) ∧
      Consistent (fs₂.setEntry slot { fs₂.entry slot with inode := x.num }) := by
  have free := not_used allotted.free
  have apart : d ≠ x := fun same => free (same ▸ isDir.1)
  have first : (fs.inode d).zone 0 ≠ 0 := by
    rw [← allotted.others d apart]
    exact mapped
  have made := consistent.made isDir first
  have isDir₁ : fs₁.IsDir d := (allotted.isDir d).mpr (.inl isDir)
  have tree₁ := allotted.tree consistent.sane
  rcases added.named isDir₁ num with ⟨i, dead, sound, tree⟩
  have live₁ : fs₁.live = fs.live := congrArg Tree.live tree₁
  have empty : fs.tree.live d i = none := (congrFun (congrFun live₁ d) i).symm.trans dead
  have target := Tree.target_eq dev (padded (base.take nameLen))
  have whole : (fs₂.setEntry slot { fs₂.entry slot with inode := x.num }).tree =
      fs.tree.enter d i ⟨x.num, padded (base.take nameLen)⟩ 0 (sIsDir (fs₁.inode x).mode = true) := by
    rw [tree, tree₁, links]
    unfold Tree.enter
    rw [target]
    rfl
  have sane : (fs.tree.enter d i ⟨x.num, padded (base.take nameLen)⟩ 0 (sIsDir (fs₁.inode x).mode = true)).Sane :=
    consistent.sane.enter_new empty made (new_name made finds plain num) (target.symm ▸ free)
  refine ⟨i, empty, whole, sound, whole ▸ sane, fun y dir mapped => ?_⟩
  have dir₁ : fs₁.IsDir y := (added.isDir y).mp dir
  have mapped₁ : (fs₁.inode y).zone 0 ≠ 0 := by
    by_cases own : y = d
    · rw [own]
      exact fun none => mapped (own ▸ added.bare.mpr none)
    · rw [← added.others y own]
      exact mapped
  have other : y ≠ x := by
    rintro rfl
    rw [(allotted.empty (.inr dir₁.2)).1] at mapped₁
    exact mapped₁ rfl
  rw [allotted.others y other] at mapped₁
  have old := consistent.filled y (((allotted.isDir y).mp dir₁).resolve_right fun new => other new.2) mapped₁
  have kept : fs.tree.live y 0 = (fs.tree.enter d i ⟨x.num, padded (base.take nameLen)⟩ 0 (sIsDir (fs₁.inode x).mode = true)).live y 0 :=
    (if_neg (Tree.low_place (made.place empty) Nat.two_pos)).symm
  rw [← whole] at kept
  exact (congrArg Option.isSome kept).symm.trans old

theorem Consistent.abandon (consistent : Consistent fs) (sound : fs₁.Sound) (used : fs₁.inodeMap x = true)
    (tree : fs₁.tree.drop x = fs.tree) (zone : ∀ y, y ≠ x → (fs.inode y).zone 0 = 0 → (fs₁.inode y).zone 0 = 0)
    (freed : Freed x fs₁ fs') : fs'.tree = fs.tree ∧ Consistent fs' := by
  have whole := (freed.tree sound used).trans tree
  refine ⟨whole, freed.sound sound used, whole ▸ consistent.sane, fun y dir mapped => ?_⟩
  rcases (freed.isDir y).mp dir with ⟨other, -⟩
  rw [freed.inode y other] at mapped
  have dir₀ : y ∈ fs.tree.dir := whole ▸ (show y ∈ fs'.tree.dir from dir)
  have old := consistent.filled y dir₀ fun none => mapped (zone y other none)
  have live : fs'.live = fs.live := congrArg Tree.live whole
  rw [live]
  exact old

theorem drop_links (T : Tree) (x : Ino) (n : Nat) : ({ T with nlinks := Function.update T.nlinks x n } : Tree).drop x = T.drop x := by
  unfold Tree.drop
  dsimp only
  rw [Function.update_idem]

theorem unused_links (free : fs.inodeMap x = false) : fs.tree.nlinks x = 0 := by
  show (if fs.inodeMap x then (fs.inode x).nlinks.toNat else 0) = 0
  rw [free]
  rfl

theorem lives_of_links {inode : MInode} (links : d.dev ≠ 0 → inode.nlinks ≠ 0) : ¬ Dies d inode :=
  fun dies => links dies.1 dies.2.1

theorem Consistent.abandoned {fs₂ fs₃ : FileSystem σ} (consistent : Consistent fs) (allotted : Allotted x fs fs₁)
    (prepared : Prepared d fs₁ fs₂) (near : Near fs₂ fs₃) (v : BitVec 8)
    (freed : Freed x (fs₃.modifyInode x fun inode => { inode with nlinks := v }) fs') : fs'.tree = fs.tree ∧ Consistent fs' := by
  have used : fs₃.inodeMap x = true := by
    rw [near.inodeMap, prepared.inodeMap, allotted.inodeMap, Function.update_self]
  have free := not_used allotted.free
  refine consistent.abandon ((near.sound prepared.sound).setLinks x v) used ?_ (fun y other none => ?_) freed
  · rw [setLinks_tree used, drop_links, near.tree, prepared.tree, allotted.tree consistent.sane]
    exact consistent.sane.drop_alloc free (unused_links allotted.free) _ _
  · rw [modifyInode_other _ other, near.inode y]
    rw [← allotted.others y other] at none
    exact (prepared.zone y).mpr none

/-- What a call that makes a new name leaves behind. -/
def Tree.Creates (T : Tree) (current : Process) (pathname : List (BitVec 8)) (isDir : Prop) (T' : Tree) {α : Type} :
    Except Errno α → Prop
  | .error _ => T' = T
  | .ok _ => ∃ x, x ∉ T.used ∧ T.Enters current pathname x 0 isDir T'

variable (serves : k.Serves)

include serves

theorem parentOf_leads (consistent : Consistent fs) (pathname : List (BitVec 8)) : Gives (parentOf k current pathname)
    (fun out fs' => Near fs fs' ∧ ∀ d base, out = .ok (d, base) →
      Entered fs d ∧ fs.tree.DirectoryOf current pathname d ∧ base = basenameFrom pathname [] ∧ base ≠ []) fs := by
  rw [parentOf]
  apply (dirNamei_leads serves consistent pathname).bind
  rintro out fs₁ ⟨near, leads⟩
  cases out with
  | none => exact ⟨near, nofun⟩
  | some place =>
    rcases place with ⟨d, base⟩
    rcases leads d base rfl with ⟨entered, directory, last⟩
    have dropped {e : Errno} : Gives (do k.iput d; return (Except.error e : Except Errno (Ino × Name)))
        (fun out fs' => Near fs fs' ∧ ∀ d base, out = .ok (d, base) →
          Entered fs d ∧ fs.tree.DirectoryOf current pathname d ∧ base = basenameFrom pathname [] ∧ base ≠ []) fs₁ := by
      apply (iput_near serves (near.sound consistent.sound) (entered.lives near)).bind
      exact fun _ fs₂ near₂ => ⟨near.trans near₂, nofun⟩
    dsimp only
    split
    next => exact dropped
    next named =>
      rw [gives_inodeOf]
      split
      next => exact dropped
      next =>
        refine ⟨near, fun d' base' same => ?_⟩
        cases same
        exact ⟨entered, directory, last, named⟩

theorem freshInode_fresh (consistent : Consistent fs) (entered : Entered fs d) (some' : base ≠ []) : Gives (freshInode k current d base)
    (fun out fs' => match out with
      | .error _ => Near fs fs'
      | .ok (d', x) => d' = d ∧ Finds fs d (current.sought d base) none ∧ ∃ fs₁, Near fs fs₁ ∧ Fresh d.dev x fs₁ fs') fs := by
  rw [freshInode]
  apply (findEntry_finds serves consistent.sound entered base).bind
  rintro ⟨d', found⟩ fs₁ ⟨near, same, finds⟩
  dsimp only at same finds ⊢
  rw [if_neg some'] at finds
  rw [same]
  cases found with
  | some slot =>
    apply (iput_near serves (near.sound consistent.sound) (entered.lives near)).bind
    exact fun _ fs₂ near₂ => near.trans near₂
  | none =>
    apply (serves.newInode d.dev fs₁).bind
    intro new fs₂ made
    cases new with
    | none =>
      have near₂ := near.trans (Same.near (near.sound consistent.sound) made)
      apply (iput_near serves (near₂.sound consistent.sound) (entered.lives near₂)).bind
      exact fun _ fs₃ near₃ => near₂.trans near₃
    | some x => exact ⟨rfl, finds, fs₁, near, made⟩

theorem addEntry_new (consistent : Consistent fs) (entered : Entered fs d) (allotted : Allotted x fs fs₁)
    (links : (fs₁.inode x).nlinks = 1) (num : x.num ≠ 0) (dev : x.dev = d.dev)
    (finds : Finds fs d (current.sought d base) none) (plain : 0 ∉ base) :
    Gives (addEntry k d base) (fun out fs' => Prepared d fs₁ fs' ∧ ∀ slot, out = some slot →
      Consistent (fs'.setEntry slot { fs'.entry slot with inode := x.num }) ∧ ∃ i, fs.tree.Vacant d i (base.take nameLen) x ∧
        (fs'.setEntry slot { fs'.entry slot with inode := x.num }).tree =
          fs.tree.enter d i ⟨x.num, padded (base.take nameLen)⟩ 0 (sIsDir (fs₁.inode x).mode = true)) fs₁ := by
  have isDir₁ : fs₁.IsDir d := (allotted.isDir d).mpr (.inl entered.isDir)
  apply (addEntry_adds serves (allotted.sound consistent.sound) isDir₁ base).imp
  rintro out fs₂ ⟨adds, mapped⟩
  cases out with
  | none => exact ⟨adds, nofun⟩
  | some slot =>
    refine ⟨Added.toPrepared adds, fun slot' same => ?_⟩
    cases same
    have first := mapped nofun
    rcases consistent.create allotted links num dev entered.isDir adds first finds plain with ⟨i, empty, tree, consistent'⟩
    have apart := apart_of_free entered.isDir allotted.free
    rw [allotted.others d apart] at first
    have made := consistent.made entered.isDir first
    exact ⟨consistent', i, ⟨made, dev, num, empty, unfound_name made finds⟩, tree⟩

omit serves in
theorem device_stores {mode : BitVec 16} (device : sIsBlk mode || sIsChr mode || sIsProc mode) : ¬ (sIsReg mode = true ∨ sIsDir mode = true) := by
  simp only [sIsBlk, sIsChr, sIsProc, sIsReg, sIsDir, Bool.or_eq_true, decide_eq_true_eq] at *
  rintro (reg | dir)
  · rw [reg] at device
    revert device
    decide
  · rw [dir] at device
    revert device
    decide

theorem sysMknod_makes (consistent : Consistent fs) (filename : List (BitVec 8)) (mode : BitVec 16) (dev : Nat) :
    Gives (sysMknod k current filename mode dev)
      (fun out fs' => Consistent fs' ∧ fs.tree.Creates current filename (sIsDir mode = true) fs'.tree out) fs := by
  rw [sysMknod]
  split
  next => exact ⟨consistent, rfl⟩
  next =>
    apply (parentOf_leads serves consistent filename).bind
    rintro out fs₁ ⟨near, leads⟩
    cases out with
    | error e => exact ⟨near.consistent consistent, near.tree⟩
    | ok place =>
      rcases place with ⟨d, base⟩
      rcases leads d base rfl with ⟨entered, directory, rfl, named⟩
      rw [← near.tree] at directory ⊢
      have consistent₁ := near.consistent consistent
      apply (freshInode_fresh serves consistent₁ (entered.near near) named).bind
      intro out fs₂ made
      cases out with
      | error e => exact ⟨Near.consistent made consistent₁, Near.tree made⟩
      | ok pair =>
        rcases pair with ⟨d', x⟩
        rcases made with ⟨rfl, finds, fs₃, near₃, fresh⟩
        dsimp only
        have entered₃ := (entered.near near).near near₃
        have consistent₃ := near₃.consistent consistent₁
        rw [← near₃.finds] at finds
        rw [← near₃.tree] at directory ⊢
        have apart := apart_of_free entered₃.isDir fresh.free
        rcases fresh.inode with ⟨uid, gid, inode⟩
        have self := congrFun inode x
        rw [Function.update_self] at self
        rw [gives_changeInode]
        have allotted := fresh.allotted.change (fun inode => { inode with
          mode := mode
          zone := if sIsBlk mode || sIsChr mode || sIsProc mode then Function.update inode.zone 0 dev else inode.zone })
          (by rw [self]; exact Nat.dvd_zero _) (fun stores => by
            rw [self]
            exact ⟨if_neg fun device => device_stores device stores, rfl⟩)
        have inode₄ := modifyInode_self fs₂ x fun inode => { inode with
          mode := mode
          zone := if sIsBlk mode || sIsChr mode || sIsProc mode then Function.update inode.zone 0 dev else inode.zone }
        rw [self] at inode₄
        generalize fs₂.modifyInode x _ = fs₄ at *
        apply (addEntry_new serves consistent₃ entered₃ allotted (by rw [inode₄]) fresh.num fresh.dev finds
          (basenameFrom_plain filename nofun)).bind
        rintro out fs₅ ⟨prepared, added⟩
        have links₅ : d'.dev ≠ 0 → (fs₅.inode d').nlinks ≠ 0 := by
          rw [(prepared.links d').1, allotted.others d' apart]
          exact entered₃.links
        cases out with
        | none =>
          apply (iput_others serves prepared.sound (lives_of_links links₅)).bind
          rintro _ fs₆ ⟨near₆, others₆⟩
          rw [gives_changeInode]
          have x₆ : (fs₆.inode x).count = 1 := by
            rw [others₆ x apart.symm, (prepared.links x).2, inode₄]
          have dies : Dies x ((fs₆.modifyInode x fun inode => { inode with nlinks := 0 }).inode x) := by
            rw [modifyInode_self]
            exact ⟨fresh.dev ▸ fresh.disk, rfl, x₆⟩
          apply (iput_frees serves dies).bind
          intro _ fs₇ freed
          have both := consistent₃.abandoned allotted prepared near₆ 0 freed
          exact ⟨both.2, both.1⟩
        | some slot =>
          rcases added slot rfl with ⟨consistent₆, i, vacant, tree⟩
          unfold nameInode
          rw [gives_changeEntry]
          have inode₆ : (fs₅.setEntry slot { fs₅.entry slot with inode := x.num }).inode = fs₅.inode := rfl
          generalize fs₅.setEntry slot { fs₅.entry slot with inode := x.num } = fs₆ at *
          apply (iput_near serves consistent₆.sound (lives_of_links (inode₆ ▸ links₅))).bind
          rintro _ fs₇ near₇
          have links₇ : x.dev ≠ 0 → (fs₇.inode x).nlinks ≠ 0 := by
            rw [near₇.inode x, inode₆, (prepared.links x).1, inode₄]
            exact fun _ => (by decide : (1 : BitVec 8) ≠ 0)
          have consistent₇ := near₇.consistent consistent₆
          apply (iput_near serves consistent₇.sound (lives_of_links links₇)).bind
          rintro _ fs₈ near₈
          refine ⟨near₈.consistent consistent₇, x, not_used fresh.free, d', i, directory, named, vacant, ?_⟩
          rw [near₈.tree, near₇.tree, tree, inode₄]
          rfl

theorem openNew_makes (consistent : Consistent fs) (entered : Entered fs d) (finds : Finds fs d (current.sought d base) none)
    (plain : 0 ∉ base) {mode : BitVec 16} (regular : sIsDir mode = false) : Gives (openNew k current d base mode)
      (fun out fs' => Consistent fs' ∧ match out with
        | .error _ => fs'.tree = fs.tree
        | .ok x => x ∉ fs.tree.used ∧ ∃ i, fs.tree.Vacant d i (base.take nameLen) x ∧
          fs'.tree = fs.tree.enter d i ⟨x.num, padded (base.take nameLen)⟩ 0 False) fs := by
  rw [openNew]
  apply (serves.newInode d.dev fs).bind
  intro new fs₁ made
  cases new with
  | none =>
    have near : Near fs fs₁ := Same.near consistent.sound made
    apply (iput_near serves (near.sound consistent.sound) (entered.lives near)).bind
    exact fun _ fs₂ near₂ => ⟨(near.trans near₂).consistent consistent, (near.trans near₂).tree⟩
  | some x =>
    have fresh : Fresh d.dev x fs fs₁ := made
    have apart := apart_of_free entered.isDir fresh.free
    rcases fresh.inode with ⟨uid, gid, inode⟩
    have self := congrFun inode x
    rw [Function.update_self] at self
    dsimp only
    rw [gives_changeInode]
    have allotted := fresh.allotted.change (fun inode => { inode with uid := current.euid, mode := mode })
      (by rw [self]; exact Nat.dvd_zero _) (fun _ => by rw [self]; exact ⟨rfl, rfl⟩)
    have inode₂ := modifyInode_self fs₁ x fun inode => { inode with uid := current.euid, mode := mode }
    rw [self] at inode₂
    generalize fs₁.modifyInode x _ = fs₂ at *
    apply (addEntry_new serves consistent entered allotted (by rw [inode₂]) fresh.num fresh.dev finds plain).bind
    rintro out fs₃ ⟨prepared, added⟩
    have links₃ : d.dev ≠ 0 → (fs₃.inode d).nlinks ≠ 0 := by
      rw [(prepared.links d).1, allotted.others d apart]
      exact entered.links
    cases out with
    | none =>
      dsimp only
      have x₃ : (fs₃.inode x).nlinks = 1 ∧ (fs₃.inode x).count = 1 := by
        rw [(prepared.links x).1, (prepared.links x).2, inode₂]
        exact ⟨rfl, rfl⟩
      have gone : fs₃.modifyInode x (fun inode => { inode with nlinks := inode.nlinks - 1 }) =
          fs₃.modifyInode x fun inode => { inode with nlinks := 0 } := by
        unfold FileSystem.modifyInode
        dsimp only
        rw [x₃.1]
        rfl
      rw [gives_changeInode, gone]
      have dies : Dies x ((fs₃.modifyInode x fun inode => { inode with nlinks := 0 }).inode x) := by
        rw [modifyInode_self]
        exact ⟨fresh.dev ▸ fresh.disk, rfl, x₃.2⟩
      apply (iput_frees serves dies).bind
      intro _ fs₄ freed
      have both := consistent.abandoned allotted prepared (.refl prepared.sound) 0 freed
      have links₄ : d.dev ≠ 0 → (fs₄.inode d).nlinks ≠ 0 := by
        rw [freed.inode d apart, modifyInode_other _ apart]
        exact links₃
      apply (iput_near serves both.2.sound (lives_of_links links₄)).bind
      exact fun _ fs₅ near₅ => ⟨near₅.consistent both.2, near₅.tree.trans both.1⟩
    | some slot =>
      rcases added slot rfl with ⟨consistent₄, i, vacant, tree⟩
      unfold nameInode
      dsimp only
      rw [gives_changeEntry]
      have inode₄ : (fs₃.setEntry slot { fs₃.entry slot with inode := x.num }).inode = fs₃.inode := rfl
      generalize fs₃.setEntry slot { fs₃.entry slot with inode := x.num } = fs₄ at *
      apply (iput_near serves consistent₄.sound (lives_of_links (inode₄ ▸ links₃))).bind
      rintro _ fs₅ near₅
      refine ⟨near₅.consistent consistent₄, not_used fresh.free, i, vacant, ?_⟩
      rw [near₅.tree, tree, inode₂, show (sIsDir mode = true) = False by rw [regular]; simp]

omit serves in
/-- Where a path leads. -/
def Tree.PathTo (T : Tree) (current : Process) (pathname : List (BitVec 8)) (x : Ino) : Prop :=
  if basenameFrom pathname [] = [] then T.DirectoryOf current pathname x
  else ∃ d, T.DirectoryOf current pathname d ∧ T.Step current d (basenameFrom pathname []) x

omit serves in
theorem Truncated.consistent (consistent : Consistent fs) (truncated : Truncated x fs fs') (file : ¬ fs.IsDir x) (used : fs.inodeMap x = true) :
    Consistent fs' ∧ fs'.tree = fs.tree := by
  have sound := consistent.sound
  have other {y : Ino} (apart : y ≠ x) : fs'.inode y = fs.inode y := by rw [truncated.inode, Function.update_of_ne apart]
  have self := congrFun truncated.inode x
  rw [Function.update_self] at self
  have isDir (y : Ino) : fs'.IsDir y ↔ fs.IsDir y := by
    unfold FileSystem.IsDir
    rw [truncated.inodeMap]
    by_cases own : y = x
    · rw [own, self]
    · rw [other own]
  have dir {y : Ino} (here : fs'.IsDir y) : fs.IsDir y ∧ y ≠ x :=
    ⟨(isDir y).mp here, fun own => file (own ▸ (isDir y).mp here)⟩
  have owns {y : Ino} {b : Nat} (here : fs'.Owns y b) : fs.Owns y b ∧ y ≠ x := by
    rcases here with ⟨inUse, stores, some', listed⟩
    have apart : y ≠ x := by
      rintro rfl
      rw [self] at listed
      rcases listed with ⟨m, here⟩ | here
      · exact some' here.symm
      · cases here
    rw [truncated.inodeMap] at inUse
    rw [other apart] at stores listed
    exact ⟨⟨inUse, stores, some', listed⟩, apart⟩
  have live : fs'.live = fs.live := by
    funext y
    by_cases own : y = x
    · funext i
      have before := live_notDir (own ▸ file : ¬ fs.IsDir y) i
      exact (live_notDir (fun here => file (own ▸ (isDir y).mp here)) i).trans before.symm
    · refine live_congr (isDir y) (fun _ => ?_) (fun _ => ?_) fun n here mapped => ?_
      · rw [other own]
      · rw [other own]
      · exact truncated.block y.dev _ (spared sound used own (owns_zone here mapped))
  have tree : fs'.tree = fs.tree := by
    refine Tree.ext ?_ (Set.ext isDir) live ?_
    · show {y | fs'.inodeMap y = true} = {y | fs.inodeMap y = true}
      rw [truncated.inodeMap]
    · funext y
      show (if fs'.inodeMap y then (fs'.inode y).nlinks.toNat else 0) = if fs.inodeMap y then (fs.inode y).nlinks.toNat else 0
      rw [truncated.inodeMap]
      by_cases own : y = x
      · rw [own, self]
      · rw [other own]
  refine ⟨⟨⟨?_, ?_, ?_, ?_, ?_, ?_, ?_⟩, tree ▸ consistent.sane, ?_⟩, tree⟩
  · intro y here
    rw [other (dir here).2]
    exact sound.aligned y (dir here).1
  · intro y here
    rw [other (dir here).2]
    exact sound.bare y (dir here).1
  · intro y b here
    rw [truncated.zoneMap y.dev b (spared sound used (owns here).2 (owns here).1)]
    exact sound.owned y b (owns here).1
  · exact fun y z b here there => sound.apart y z b (owns here).1 (owns there).1
  · intro y m n here
    rw [other (dir here).2]
    exact sound.inner y m n (dir here).1
  · intro y n here
    rw [other (dir here).2]
    exact sound.direct y n (dir here).1
  · intro y some'
    rw [truncated.inodeMap]
    by_cases own : y = x
    · rw [own]
      exact used
    · rw [other own] at some'
      exact sound.held y some'
  · intro y here mapped
    rw [other (dir here).2] at mapped
    rw [live]
    exact consistent.filled y (dir here).1 mapped

theorem openFound_keeps (consistent : Consistent fs) (entered : Entered fs d) {e : DirEntry} (there : fs.live d i = some e) (flag : OpenFlags)
    (writes : flag.trunc = true → flag.accmode ≠ 0) : Gives (openFound k current d (fs.slotAt d i) flag)
      (fun out fs' => Consistent fs' ∧ fs'.tree = fs.tree ∧ ∀ x, out = .ok x → x = Tree.target d e) fs := by
  rw [openFound, gives_entryInode, found_entry (.refl consistent.sound) there]
  apply (iput_near serves consistent.sound (lives_of_links entered.links)).bind
  intro _ fs₁ near
  have consistent₁ := near.consistent consistent
  split
  next => exact ⟨consistent₁, near.tree, nofun⟩
  next =>
    have target : fs.tree.Names d i ⟨d.dev, e.inode⟩ := ⟨e, there, rfl⟩
    have used := consistent.sane.named d i _ target
    apply (iget_near serves consistent₁.sound (near.inodeMap ▸ used)).bind
    rintro got fs₂ ⟨near₂, got_⟩
    have near₂ := near.trans near₂
    have consistent₂ := near₂.consistent consistent
    cases got with
    | none => exact ⟨consistent₂, near₂.tree, nofun⟩
    | some x =>
      rcases got_ x rfl with ⟨rfl, disk, -⟩
      dsimp only
      rw [gives_inodeOf]
      have links : (fs₂.inode ⟨d.dev, e.inode⟩).nlinks ≠ 0 := by
        rw [near₂.inode]
        exact consistent.links target
      split
      next =>
        apply (iput_near serves consistent₂.sound (lives_of_links fun _ => links)).bind
        exact fun _ fs₃ near₃ => ⟨near₃.consistent consistent₂, near₃.tree.trans near₂.tree, nofun⟩
      next allowed =>
        split
        next truncates =>
          rw [Bool.or_eq_true, not_or, Bool.and_eq_true, decide_eq_true_iff] at allowed
          have file : ¬ fs₂.IsDir ⟨d.dev, e.inode⟩ := fun isDir => allowed.1 ⟨isDir.2, writes truncates⟩
          apply (serves.truncate _ fs₂).bind
          rintro _ fs₃ ⟨emptied, kept⟩
          have both : Consistent fs₃ ∧ fs₃.tree = fs₂.tree := by
            by_cases stores : (fs₂.inode ⟨d.dev, e.inode⟩).Stores
            · exact (emptied stores).consistent consistent₂ file (near₂.inodeMap ▸ used)
            · have near₃ := (kept stores).near consistent₂.sound
              exact ⟨near₃.consistent consistent₂, near₃.tree⟩
          refine ⟨both.1, both.2.trans near₂.tree, fun x same => ?_⟩
          cases same
          rfl
        next =>
          refine ⟨consistent₂, near₂.tree, fun x same => ?_⟩
          cases same
          rfl

omit serves in
theorem regular_notDir (mode : BitVec 16) : sIsDir (mode ||| iRegular) = false := by
  unfold sIsDir
  rw [decide_eq_false_iff_not]
  intro same
  have bit := congrArg (fun word => word.getLsbD 15) same
  rw [BitVec.getLsbD_and, BitVec.getLsbD_or, show iRegular.getLsbD 15 = true from rfl, Bool.or_true] at bit
  revert bit
  decide

/-- What `open_namei` leaves behind. -/
def Tree.Opens (T : Tree) (current : Process) (pathname : List (BitVec 8)) (T' : Tree) : Except Errno Ino → Prop
  | .error _ => T' = T
  | .ok x => T' = T ∧ T.PathTo current pathname x ∨ x ∉ T.used ∧ T.Enters current pathname x 0 False T'

theorem openNamei_opens (consistent : Consistent fs) (pathname : List (BitVec 8)) (flag : OpenFlags) (mode : BitVec 16) :
    Gives (openNamei k current pathname flag mode)
      (fun out fs' => Consistent fs' ∧ fs.tree.Opens current pathname fs'.tree out) fs := by
  rw [openNamei]
  have writes : (if flag.trunc && flag.accmode = 0 then { flag with accmode := 1 } else flag).trunc = true →
      (if flag.trunc && flag.accmode = 0 then { flag with accmode := 1 } else flag).accmode ≠ 0 := by
    split
    next => exact fun _ => (by decide : (1 : BitVec 2) ≠ 0)
    next both =>
      intro trunc none
      rw [trunc, none] at both
      exact both rfl
  generalize (if flag.trunc && flag.accmode = 0 then { flag with accmode := 1 } else flag) = flag at *
  dsimp only
  apply (dirNamei_leads serves consistent pathname).bind
  rintro out fs₁ ⟨near, leads⟩
  have consistent₁ := near.consistent consistent
  cases out with
  | none => exact ⟨consistent₁, near.tree⟩
  | some place =>
    rcases place with ⟨d, base⟩
    rcases leads d base rfl with ⟨entered, directory, rfl⟩
    have entered₁ := entered.near near
    have plain : 0 ∉ basenameFrom pathname [] := basenameFrom_plain pathname nofun
    rw [← near.tree] at directory ⊢
    dsimp only
    split
    next ends =>
      split
      next => exact ⟨consistent₁, .inl ⟨rfl, by rw [Tree.PathTo, if_pos ends]; exact directory⟩⟩
      next =>
        apply (iput_near serves consistent₁.sound (lives_of_links entered₁.links)).bind
        exact fun _ fs₂ near₂ => ⟨near₂.consistent consistent₁, near₂.tree⟩
    next some' =>
      apply (findEntry_finds serves consistent₁.sound entered₁ _).bind
      rintro ⟨d', found⟩ fs₂ ⟨near₂, same, finds⟩
      dsimp only at same finds ⊢
      rw [if_neg some'] at finds
      rw [same]
      have consistent₂ := near₂.consistent consistent₁
      have entered₂ := entered₁.near near₂
      have dropped {e : Errno} : Gives (do k.iput d; return (Except.error e : Except Errno Ino))
          (fun out fs' => Consistent fs' ∧ fs₁.tree.Opens current pathname fs'.tree out) fs₂ := by
        apply (iput_near serves consistent₂.sound (lives_of_links entered₂.links)).bind
        exact fun _ fs₃ near₃ => ⟨near₃.consistent consistent₂, near₃.tree.trans near₂.tree⟩
      cases found with
      | none =>
        dsimp only
        split
        next => exact dropped
        next =>
          rw [gives_inodeOf]
          split
          next => exact dropped
          next =>
            rw [← near₂.finds] at finds
            rw [← near₂.tree] at directory ⊢
            apply (openNew_makes serves consistent₂ entered₂ finds plain (regular_notDir _)).imp
            rintro out fs₃ ⟨consistent₃, made⟩
            cases out with
            | error e => exact ⟨consistent₃, made⟩
            | ok x =>
              rcases made with ⟨new, i, vacant, tree⟩
              exact ⟨consistent₃, .inr ⟨new, d, i, directory, some', vacant, tree⟩⟩
      | some slot =>
        rcases finds with ⟨i, e, rfl, there, matches_⟩
        rw [← near₂.slotAt]
        apply (openFound_keeps serves consistent₂ entered₂ (near₂.live ▸ there) flag writes).imp
        rintro out fs₃ ⟨consistent₃, tree, target⟩
        refine ⟨consistent₃, ?_⟩
        cases out with
        | error e => exact tree.trans near₂.tree
        | ok x =>
          refine .inl ⟨tree.trans near₂.tree, ?_⟩
          rw [Tree.PathTo, if_neg some']
          exact ⟨d, directory, i, e, there, matches_, (target x rfl).symm⟩

theorem namei_leads (consistent : Consistent fs) (pathname : List (BitVec 8)) : Gives (namei k current pathname)
    (fun out fs' => Near fs fs' ∧ ∀ x, out = some x → fs.tree.PathTo current pathname x ∧ fs.inodeMap x = true ∧
      (x.dev ≠ 0 → (fs.inode x).nlinks ≠ 0) ∧ (fs.IsDir x ∨ x.num ≠ 0)) fs := by
  rw [namei]
  apply (dirNamei_leads serves consistent pathname).bind
  rintro out fs₁ ⟨near, leads⟩
  cases out with
  | none => exact ⟨near, fun _ same => absurd same.symm (Option.some_ne_none _)⟩
  | some place =>
    rcases place with ⟨d, base⟩
    rcases leads d base rfl with ⟨entered, directory, rfl⟩
    have consistent₁ := near.consistent consistent
    dsimp only
    split
    next ends =>
      refine ⟨near, fun x same => ?_⟩
      cases same
      exact ⟨by rw [Tree.PathTo, if_pos ends]; exact directory, entered.isDir.1, entered.links, .inl entered.isDir⟩
    next some' =>
      apply (findEntry_finds serves consistent₁.sound (entered.near near) _).bind
      rintro ⟨d', found⟩ fs₂ ⟨near₁, same, finds⟩
      dsimp only at same finds ⊢
      rw [if_neg some', near.finds] at finds
      rw [same]
      have near₂ := near.trans near₁
      have sound₂ := near₂.sound consistent.sound
      cases found with
      | none =>
        apply (iput_near serves sound₂ (entered.lives near₂)).bind
        exact fun _ fs₃ near₃ => ⟨near₂.trans near₃, fun _ same => absurd same.symm (Option.some_ne_none _)⟩
      | some slot =>
        rcases finds with ⟨i, e, rfl, there, matches_⟩
        have target : fs.tree.Names d i ⟨d.dev, e.inode⟩ := ⟨e, there, rfl⟩
        have used := consistent.sane.named d i _ target
        dsimp only
        rw [gives_entryInode, found_entry near₂ there]
        apply (iput_near serves sound₂ (entered.lives near₂)).bind
        rintro _ fs₃ near₃
        have near₃ := near₂.trans near₃
        apply (iget_near serves (near₃.sound consistent.sound) (near₃.inodeMap ▸ used)).imp
        rintro got fs₄ ⟨near₄, got_⟩
        refine ⟨near₃.trans near₄, fun x same => ?_⟩
        rcases got_ x same with ⟨rfl, -⟩
        refine ⟨?_, used, fun _ => consistent.links target, .inr (live_eq_some.mp there).2.2.2.1⟩
        rw [Tree.PathTo, if_neg some']
        exact ⟨d, directory, i, e, there, matches_, rfl⟩

omit serves in
theorem links_add (room : (fs.inode d).nlinks ≠ 255) (used : fs.inodeMap d = true) :
    ((fs.inode d).nlinks + 1).toNat = fs.tree.nlinks d + 1 := by
  have small : (fs.inode d).nlinks.toNat ≠ 255 := fun full => room (BitVec.eq_of_toNat_eq full)
  have bound := (fs.inode d).nlinks.isLt
  rw [tree_nlinks used, BitVec.toNat_add]
  exact Nat.mod_eq_of_lt (show (fs.inode d).nlinks.toNat + 1 < 2 ^ 8 by omega)

omit serves in
theorem Consistent.relink {fs₂ fs₃ : FileSystem σ} (consistent : Consistent fs) (isDir : fs.IsDir d) (mapped : (fs.inode d).zone 0 ≠ 0)
    (added : Added d (base.take nameLen) slot fs fs₁) (finds : Finds fs d (current.sought d base) none) (plain : 0 ∉ base)
    (used : fs.inodeMap x = true) (file : ¬ fs.IsDir x) (dev : x.dev = d.dev) (num : x.num ≠ 0) (room : (fs.inode x).nlinks ≠ 255)
    (near : Near (fs₁.setEntry slot { fs₁.entry slot with inode := x.num }) fs₂)
    (linked : fs₃ = fs₂.modifyInode x fun inode => { inode with nlinks := inode.nlinks + 1 }) :
    Consistent fs₃ ∧ ∃ i, fs.tree.live d i = none ∧
      fs₃.tree = fs.tree.enter d i ⟨x.num, padded (base.take nameLen)⟩ (fs.tree.nlinks x) False := by
  have made := consistent.made isDir mapped
  have target := Tree.target_eq dev (padded (base.take nameLen))
  rcases added.named isDir num with ⟨i, empty, sound₁, tree₁⟩
  have place : 2 ≤ i := made.place empty
  have inode₁ : (fs₁.setEntry slot { fs₁.entry slot with inode := x.num }).inode = fs₁.inode := rfl
  have isDir₁ (y : Ino) : (fs₁.setEntry slot { fs₁.entry slot with inode := x.num }).IsDir y ↔ fs.IsDir y := added.isDir y
  have used₂ : fs₂.inodeMap x = true := by
    rw [near.inodeMap]
    exact added.inodeMap ▸ used
  have links₂ : (fs₂.inode x).nlinks = (fs.inode x).nlinks := by
    rw [near.inode x, inode₁]
    exact (added.links x).1
  have same : fs₃ = fs₂.modifyInode x fun inode => { inode with nlinks := (fs.inode x).nlinks + 1 } := by
    rw [linked]
    unfold FileSystem.modifyInode
    dsimp only
    rw [links₂]
  have sound₃ : fs₃.Sound := by
    rw [same]
    exact (near.sound sound₁).setLinks x _
  have tree : fs₃.tree = fs.tree.enter d i ⟨x.num, padded (base.take nameLen)⟩ (fs.tree.nlinks x) False := by
    rw [same, setLinks_tree used₂, links_add room used, near.tree, tree₁]
    refine Tree.ext ?_ ?_ rfl ?_
    · show fs.tree.used = insert (Tree.target d _) fs.tree.used
      rw [target, Set.insert_eq_of_mem (show x ∈ fs.tree.used from used)]
    · show fs.tree.dir = {y | y ∈ fs.tree.dir ∨ False ∧ _}
      simp
    · show Function.update fs.tree.nlinks x _ = Function.update fs.tree.nlinks (Tree.target d _) _
      rw [target]
  have sane : (fs.tree.enter d i ⟨x.num, padded (base.take nameLen)⟩ (fs.tree.nlinks x) False).Sane :=
    consistent.sane.enter empty made (new_name made finds plain num) (by rw [target]; exact consistent.sane.exact x used)
      (by rw [target]; exact file) False.elim
  refine ⟨⟨sound₃, tree ▸ sane, fun y dir mapped' => ?_⟩, i, empty, tree⟩
  have dir₀ : fs.IsDir y := by
    have here : y ∈ fs₃.tree.dir := dir
    rw [tree] at here
    exact here.resolve_right fun never => never.1
  have zone : (fs₃.inode y).zone = (fs₁.inode y).zone := by
    rw [same]
    by_cases own : y = x
    · rw [own, modifyInode_self, near.inode x, inode₁]
    · rw [modifyInode_other _ own, near.inode y, inode₁]
  rw [zone] at mapped'
  have old := consistent.filled y dir₀ fun none => mapped' ((added.zone y).mpr none)
  have kept : (fs.tree.enter d i ⟨x.num, padded (base.take nameLen)⟩ (fs.tree.nlinks x) False).live y 0 = fs.tree.live y 0 :=
    if_neg (Tree.low_place place Nat.two_pos)
  rw [← tree] at kept
  exact (congrArg Option.isSome kept).trans old

/-- What `sys_link` leaves behind. -/
def Tree.Links (T : Tree) (current : Process) (oldname newname : List (BitVec 8)) (T' : Tree) : Except Errno Unit → Prop
  | .error _ => T' = T
  | .ok _ => ∃ x, T.PathTo current oldname x ∧ x ∉ T.dir ∧ T.Enters current newname x (T.nlinks x) False T'

structure Place (fs : FileSystem σ) (current : Process) (oldname newname : List (BitVec 8)) (x d : Ino) (slot : Slot)
    (fs' : FileSystem σ) : Prop where
  entered : Entered fs d
  directory : fs.tree.DirectoryOf current newname d
  some' : basenameFrom newname [] ≠ []
  path : fs.tree.PathTo current oldname x
  used : fs.inodeMap x = true
  file : ¬ fs.IsDir x
  links : x.dev ≠ 0 → (fs.inode x).nlinks ≠ 0
  dev : x.dev = d.dev
  num : x.num ≠ 0
  mapped : (fs.inode d).zone 0 ≠ 0
  added : Added d (lastName newname) slot fs fs'
  finds : Finds fs d (current.sought d (basenameFrom newname [])) none

theorem linkEntry_places (consistent : Consistent fs) (oldname newname : List (BitVec 8)) : Gives (linkEntry k current oldname newname)
    (fun out fs' => match out with
      | .error _ => Consistent fs' ∧ fs'.tree = fs.tree
      | .ok (x, d, slot) => ∃ fs₁, Near fs fs₁ ∧ Place fs₁ current oldname newname x d slot fs') fs := by
  rw [linkEntry]
  apply (namei_leads serves consistent oldname).bind
  rintro out fs₁ ⟨near, leads⟩
  have consistent₁ := near.consistent consistent
  cases out with
  | none => exact ⟨consistent₁, near.tree⟩
  | some x =>
    rcases leads x rfl with ⟨path, used, links, kind⟩
    dsimp only
    rw [gives_inodeOf]
    have links₁ := near.links links
    split
    next =>
      apply (iput_near serves consistent₁.sound (lives_of_links links₁)).bind
      exact fun _ fs₂ near₂ => ⟨near₂.consistent consistent₁, near₂.tree.trans near.tree⟩
    next notDir =>
      have file : ¬ fs.IsDir x := by
        intro isDir
        rw [near.inode x] at notDir
        exact notDir isDir.2
      have num := kind.resolve_left file
      apply (dirNamei_leads serves consistent₁ newname).bind
      rintro out fs₂ ⟨near₂, leads₂⟩
      have near₂' := near.trans near₂
      have consistent₂ := near₂.consistent consistent₁
      have links₂ := near₂.links links₁
      cases out with
      | none =>
        apply (iput_near serves consistent₂.sound (lives_of_links links₂)).bind
        exact fun _ fs₃ near₃ => ⟨near₃.consistent consistent₂, near₃.tree.trans near₂'.tree⟩
      | some place =>
        rcases place with ⟨d, base⟩
        rcases leads₂ d base rfl with ⟨entered, directory, rfl⟩
        have entered₂ := entered.near near₂
        rw [← near₂.tree] at directory
        -- both references are dropped, in either order
        have dropped {fs₃ : FileSystem σ} {e : Errno} (consistent₃ : Consistent fs₃) (tree : fs₃.tree = fs.tree)
            (first : d.dev ≠ 0 → (fs₃.inode d).nlinks ≠ 0) (second : x.dev ≠ 0 → (fs₃.inode x).nlinks ≠ 0) :
            Gives (do k.iput d; k.iput x; return (Except.error e : Except Errno (Ino × Ino × Slot)))
              (fun out fs' => match out with
                | .error _ => Consistent fs' ∧ fs'.tree = fs.tree
                | .ok (x, d, slot) => ∃ fs₁, Near fs fs₁ ∧ Place fs₁ current oldname newname x d slot fs') fs₃ := by
          apply (iput_near serves consistent₃.sound (lives_of_links first)).bind
          intro _ fs₄ near₄
          apply (iput_near serves (near₄.sound consistent₃.sound) (lives_of_links (near₄.links second))).bind
          exact fun _ fs₅ near₅ => ⟨(near₄.trans near₅).consistent consistent₃, (near₄.trans near₅).tree.trans tree⟩
        dsimp only
        split
        next =>
          apply (iput_near serves consistent₂.sound (lives_of_links links₂)).bind
          intro _ fs₃ near₃
          apply (iput_near serves (near₃.sound consistent₂.sound) (lives_of_links (entered₂.near near₃).links)).bind
          exact fun _ fs₄ near₄ => ⟨(near₃.trans near₄).consistent consistent₂, (near₃.trans near₄).tree.trans near₂'.tree⟩
        next some' =>
          split
          next => exact dropped consistent₂ near₂'.tree entered₂.links links₂
          next sameDev =>
            rw [gives_inodeOf]
            split
            next => exact dropped consistent₂ near₂'.tree entered₂.links links₂
            next =>
              apply (findEntry_finds serves consistent₂.sound entered₂ _).bind
              rintro ⟨d', found⟩ fs₃ ⟨near₃, same, finds⟩
              dsimp only at same finds ⊢
              rw [if_neg some', ← near₃.finds] at finds
              rw [same]
              have near₃' := near₂'.trans near₃
              have consistent₃ := near₃.consistent consistent₂
              have entered₃ := entered₂.near near₃
              have links₃ := near₃.links links₂
              cases found with
              | some slot => exact dropped consistent₃ near₃'.tree entered₃.links links₃
              | none =>
                apply (addEntry_adds serves consistent₃.sound entered₃.isDir _).bind
                rintro out fs₄ ⟨adds, mapped⟩
                cases out with
                | none =>
                  have prepared : Prepared d fs₃ fs₄ := adds
                  refine dropped (prepared.consistent consistent₃) (prepared.tree.trans near₃'.tree) ?_ ?_
                  · rw [(prepared.links d).1]
                    exact entered₃.links
                  · rw [(prepared.links x).1]
                    exact links₃
                | some slot =>
                  refine ⟨fs₃, near₃', entered₃, ?_, some', ?_, ?_, ?_, links₃, ?_, num, mapped nofun, adds, finds⟩
                  · rw [near₃.tree]
                    exact directory
                  · rw [near₃'.tree]
                    exact path
                  · rw [near₃'.inodeMap]
                    exact used
                  · rw [near₃'.isDir]
                    exact file
                  · exact (not_not.mp sameDev).symm

theorem sysLink_links (consistent : Consistent fs) (room : ∀ x, fs.tree.nlinks x ≠ 255) (oldname newname : List (BitVec 8)) :
    Gives (sysLink k current oldname newname)
      (fun out fs' => Consistent fs' ∧ fs.tree.Links current oldname newname fs'.tree out) fs := by
  rw [sysLink]
  apply (linkEntry_places serves consistent oldname newname).bind
  intro out fs₁ placed
  cases out with
  | error e => exact placed
  | ok all =>
    rcases all with ⟨x, d, slot⟩
    rcases placed with ⟨fs₀, near, place⟩
    have consistent₀ := near.consistent consistent
    have room₀ : (fs₀.inode x).nlinks ≠ 255 := by
      intro full
      apply room x
      rw [← near.tree, tree_nlinks place.used, full]
      rfl
    rw [← near.tree]
    rcases place.added.named place.entered.isDir place.num with ⟨-, -, sound₂, -⟩
    dsimp only
    unfold nameInode
    rw [gives_changeEntry]
    have links₂ (y : Ino) : ((fs₁.setEntry slot { fs₁.entry slot with inode := x.num }).inode y).nlinks = (fs₀.inode y).nlinks :=
      (place.added.links y).1
    generalize named : fs₁.setEntry slot { fs₁.entry slot with inode := x.num } = fs₂ at *
    apply (iput_near serves sound₂ (lives_of_links ?_)).bind
    · intro _ fs₃ near₃
      rw [gives_changeInode]
      rcases consistent₀.relink place.entered.isDir place.mapped place.added place.finds (basenameFrom_plain newname nofun) place.used
        place.file place.dev place.num room₀ (named ▸ near₃) rfl with ⟨consistent₄, i, empty, tree⟩
      have links₄ : ((fs₃.modifyInode x fun inode => { inode with nlinks := inode.nlinks + 1 }).inode x).nlinks ≠ 0 := by
        rw [modifyInode_self, near₃.inode x]
        dsimp only
        rw [links₂]
        intro wraps
        apply room₀
        have back := congrArg (· - 1) wraps
        simpa using back
      generalize fs₃.modifyInode x (fun inode => { inode with nlinks := inode.nlinks + 1 }) = fs₄ at *
      apply (iput_near serves consistent₄.sound (lives_of_links fun _ => links₄)).bind
      intro _ fs₅ near₅
      have made := consistent₀.made place.entered.isDir place.mapped
      refine ⟨near₅.consistent consistent₄, x, place.path, place.file, d, i, place.directory, place.some',
        ⟨made, place.dev, place.num, empty, unfound_name made place.finds⟩, ?_⟩
      rw [near₅.tree, tree]
      rfl
    · rw [links₂]
      exact place.entered.links

end Creating

end Linux011.Fs

import Linux011.Fs.Mkdir

namespace Linux011.Fs

open Linux011.Library

variable {σ : Type} {k : Kernel σ} {current : Process} {fs fs' fs₁ : FileSystem σ} {d x : Ino} {name base : Name} {i n num : Nat}
  {slot : Slot} {e : DirEntry}

section Clearing

theorem clear_tree (sound : fs.Sound) (there : fs.live d i = some e) :
    (fs.setEntry (fs.slotAt d i) { fs.entry (fs.slotAt d i) with inode := 0 }).tree =
      { fs.tree with live := fs.tree.setLive d i none } := by
  rcases live_eq_some.mp there with ⟨isDir, -, mapped, -⟩
  refine Tree.ext rfl rfl ?_ rfl
  have live : (fs.setEntry (fs.slotAt d i) { fs.entry (fs.slotAt d i) with inode := 0 }).live = _ :=
    live_setEntry sound isDir mapped
  rw [if_neg fun all => all.2 rfl] at live
  exact live

theorem clear_sound (sound : fs.Sound) (slot : Slot) (de : DirEntry) : (fs.setEntry slot de).Sound :=
  sound.congr rfl (fun _ => ⟨rfl, rfl, rfl⟩) sound.aligned rfl sound.held

theorem drop_file (file : ¬ fs.IsDir x) : fs.tree.drop x = fs.tree.free x := by
  refine Tree.ext rfl ?_ ?_ rfl
  · exact Set.sdiff_singleton_eq_self file
  · funext y j
    show (if y = x then none else fs.tree.live y j) = fs.tree.live y j
    split
    next own => rw [own, show fs.tree.live x j = none from live_notDir file j]
    next => rfl

theorem Consistent.freed (consistent : Consistent fs) (used : fs.inodeMap x = true) (file : ¬ fs.IsDir x) (links : (fs.inode x).nlinks = 0)
    (freed : Freed x fs fs') : Consistent fs' ∧ fs'.tree = fs.tree.free x := by
  have tree := (freed.tree consistent.sound used).trans (drop_file file)
  have unnamed : fs.tree.namers x = ∅ := by
    have count := consistent.sane.exact x used
    rw [tree_nlinks used, links] at count
    exact Set.encard_eq_zero.mp count
  refine ⟨⟨freed.sound consistent.sound used, tree ▸ consistent.sane.free file unnamed, fun y dir mapped => ?_⟩, tree⟩
  rcases (freed.isDir y).mp dir with ⟨other, old⟩
  rw [freed.inode y other] at mapped
  have live : fs'.live = fs.live := congrArg Tree.live tree
  rw [live]
  exact consistent.filled y old mapped

end Clearing

section Unlinking

def Tree.Denotes (T : Tree) (current : Process) (pathname : List (BitVec 8)) (d : Ino) (i : Nat) (x : Ino) : Prop :=
  T.DirectoryOf current pathname d ∧ basenameFrom pathname [] ≠ [] ∧
    ∃ e, T.live d i = some e ∧ entryMatches (current.sought d (basenameFrom pathname [])) e = true ∧ Tree.target d e = x

/-- What `sys_unlink` leaves behind. -/
def Tree.Unlinks (T : Tree) (current : Process) (pathname : List (BitVec 8)) (T' : Tree) : Except Errno Unit → Prop
  | .error _ => T' = T
  | .ok _ => ∃ d i x, T.Denotes current pathname d i x ∧ x ∉ T.dir ∧
    (T' = T.leave d i x ∨ T.nlinks x = 1 ∧ T' = (T.leave d i x).free x)

theorem Consistent.unlink (consistent : Consistent fs) (there : fs.live d i = some e) (file : ¬ fs.IsDir (Tree.target d e))
    (removed : fs' = (fs.setEntry (fs.slotAt d i) { fs.entry (fs.slotAt d i) with inode := 0 }).modifyInode (Tree.target d e)
      fun inode => { inode with nlinks := inode.nlinks - 1 }) :
    Consistent fs' ∧ fs'.tree = fs.tree.leave d i (Tree.target d e) := by
  have names : fs.tree.Names d i (Tree.target d e) := ⟨e, there, rfl⟩
  have used : fs.inodeMap (Tree.target d e) = true := consistent.sane.named d i _ names
  have some' := consistent.links names
  have fewer : ((fs.inode (Tree.target d e)).nlinks - 1).toNat = fs.tree.nlinks (Tree.target d e) - 1 := by
    rw [tree_nlinks used]
    bv_omega
  have same : fs' = (fs.setEntry (fs.slotAt d i) { fs.entry (fs.slotAt d i) with inode := 0 }).modifyInode (Tree.target d e)
      fun inode => { inode with nlinks := (fs.inode (Tree.target d e)).nlinks - 1 } := by
    rw [removed]
    unfold FileSystem.modifyInode
    dsimp only
    rw [setEntry_inode]
  have tree : fs'.tree = fs.tree.leave d i (Tree.target d e) := by
    have used₁ : (fs.setEntry (fs.slotAt d i) { fs.entry (fs.slotAt d i) with inode := 0 }).inodeMap (Tree.target d e) = true := used
    rw [same, setLinks_tree used₁, clear_tree consistent.sound there, fewer]
    rfl
  refine ⟨⟨?_, tree ▸ consistent.sane.leave names file, fun y dir mapped => ?_⟩, tree⟩
  · rw [same]
    exact (clear_sound consistent.sound _ _).setLinks _ _
  · have place := consistent.sane.place names file
    have kept : fs'.live y 0 = fs.live y 0 := by
      show fs'.tree.live y 0 = fs.tree.live y 0
      rw [tree]
      exact if_neg (Tree.low_place place Nat.two_pos)
    rw [kept]
    refine consistent.filled y ?_ ?_
    · have here : y ∈ fs'.tree.dir := dir
      rw [tree] at here
      exact here
    · have zone : (fs'.inode y).zone = (fs.inode y).zone := by
        rcases setLinks_inode (fs.setEntry (fs.slotAt d i) { fs.entry (fs.slotAt d i) with inode := 0 }) (Tree.target d e)
          ((fs.inode (Tree.target d e)).nlinks - 1) y with ⟨v, links⟩
        rw [same, links]
        rfl
      rw [← zone]
      exact mapped

variable (serves : k.Serves)

include serves

theorem iput_file (consistent : Consistent fs) (used : fs.inodeMap x = true) (file : ¬ fs.IsDir x) : Gives (k.iput x)
    (fun _ fs' => Consistent fs' ∧ (fs'.tree = fs.tree ∧ Near fs fs' ∨
      (fs.inode x).nlinks = 0 ∧ fs'.tree = fs.tree.free x ∧ ∀ y, y ≠ x → fs'.inode y = fs.inode y)) fs := by
  by_cases dies : Dies x (fs.inode x)
  · apply (iput_frees serves dies).imp
    intro _ fs' freed
    have both := consistent.freed used file dies.2.1 freed
    exact ⟨both.1, .inr ⟨dies.2.1, both.2, freed.inode⟩⟩
  · apply (iput_near serves consistent.sound dies).imp
    exact fun _ fs' near => ⟨near.consistent consistent, .inl ⟨near.tree, near⟩⟩

theorem refused {er : Errno} {y : Ino} (consistent : Consistent fs) (near : Near fs fs₁) (first : x.dev ≠ 0 → (fs.inode x).nlinks ≠ 0)
    (second : y.dev ≠ 0 → (fs.inode y).nlinks ≠ 0) :
    Gives (do k.iput x; k.iput y; return (Except.error er : Except Errno Unit))
      (fun out fs' => (Consistent fs' ∧ fs'.tree = fs.tree) ∧ out = .error er) fs₁ := by
  apply (iput_near serves (near.sound consistent.sound) (lives_of_links (near.links first))).bind
  rintro - fs₂ near₂
  have near₂ := near.trans near₂
  apply (iput_near serves (near₂.sound consistent.sound) (lives_of_links (near₂.links second))).bind
  rintro - fs₃ near₃
  have near₃ := near₂.trans near₃
  exact ⟨⟨near₃.consistent consistent, near₃.tree⟩, rfl⟩

theorem name_goes (consistent : Consistent fs) (entered : Entered fs d) (there : fs.live d i = some e)
    (file : ¬ fs.IsDir (Tree.target d e)) :
    Gives
      (do
        clearEntry (fs.slotAt d i)
        changeInode (Tree.target d e) fun inode => { inode with nlinks := inode.nlinks - 1 }
        k.iput (Tree.target d e)
        k.iput d
        return (Except.ok () : Except Errno Unit))
      (fun out fs' => Consistent fs' ∧ out = .ok () ∧ (fs'.tree = fs.tree.leave d i (Tree.target d e) ∨
        fs.tree.nlinks (Tree.target d e) = 1 ∧ fs'.tree = (fs.tree.leave d i (Tree.target d e)).free (Tree.target d e))) fs := by
  have used : fs.inodeMap (Tree.target d e) = true := consistent.sane.named d i _ ⟨e, there, rfl⟩
  have apart : d ≠ Tree.target d e := fun same => file (same ▸ entered.isDir)
  unfold clearEntry
  rw [gives_changeEntry, gives_changeInode]
  rcases consistent.unlink there file rfl with ⟨consistent₁, tree₁⟩
  have own₁ := modifyInode_self (fs.setEntry (fs.slotAt d i) { fs.entry (fs.slotAt d i) with inode := 0 }) (Tree.target d e)
    fun inode => { inode with nlinks := inode.nlinks - 1 }
  have other₁ : (FileSystem.modifyInode (fs.setEntry (fs.slotAt d i) { fs.entry (fs.slotAt d i) with inode := 0 })
      (Tree.target d e) fun inode => { inode with nlinks := inode.nlinks - 1 }).inode d = fs.inode d :=
    modifyInode_other _ apart
  generalize FileSystem.modifyInode _ (Tree.target d e) _ = fs₁ at *
  have links₁ : d.dev ≠ 0 → (fs₁.inode d).nlinks ≠ 0 := by
    rw [other₁]
    exact entered.links
  have used₁ : Tree.target d e ∈ fs₁.tree.used := by
    rw [tree₁]
    exact used
  have file₁ : Tree.target d e ∉ fs₁.tree.dir := by
    rw [tree₁]
    exact file
  apply (iput_file serves consistent₁ used₁ file₁).bind
  rintro - fs₂ ⟨consistent₂, ⟨tree₂, near₂⟩ | ⟨last, tree₂, others₂⟩⟩
  · apply (iput_near serves consistent₂.sound (lives_of_links (near₂.links links₁))).bind
    rintro - fs₃ near₃
    exact ⟨near₃.consistent consistent₂, rfl, .inl (near₃.tree.trans (tree₂.trans tree₁))⟩
  · have lives : ¬ Dies d (fs₂.inode d) := by
      rw [others₂ d apart]
      exact lives_of_links links₁
    apply (iput_near serves consistent₂.sound lives).bind
    rintro - fs₃ near₃
    refine ⟨near₃.consistent consistent₂, rfl, .inr ⟨?_, near₃.tree.trans (tree₂.trans (by rw [tree₁]))⟩⟩
    have single : (fs.inode (Tree.target d e)).nlinks = 1 := by
      rw [own₁] at last
      have last : (fs.inode (Tree.target d e)).nlinks - 1 = 0 := last
      bv_omega
    rw [tree_nlinks used, single]
    rfl

theorem sysUnlink_unlinks (consistent : Consistent fs) (pathname : List (BitVec 8)) : Gives (sysUnlink k current pathname)
    (fun out fs' => Consistent fs' ∧ fs.tree.Unlinks current pathname fs'.tree out) fs := by
  rw [sysUnlink]
  apply (parentOf_leads serves consistent pathname).bind
  rintro out fs₁ ⟨near₁, leads⟩
  cases out with
  | error e => exact ⟨near₁.consistent consistent, near₁.tree⟩
  | ok place =>
    rcases place with ⟨d, base⟩
    rcases leads d base rfl with ⟨entered, directory, rfl, some'⟩
    dsimp only
    apply (findEntry_finds serves (near₁.sound consistent.sound) (entered.near near₁) _).bind
    rintro ⟨d', found⟩ fs₂ ⟨near₂, same, finds⟩
    dsimp only at same finds ⊢
    rw [if_neg some', near₁.finds] at finds
    rw [same]
    have near := near₁.trans near₂
    have consistent₂ := near.consistent consistent
    cases found with
    | none =>
      apply (iput_near serves consistent₂.sound (entered.lives near)).bind
      exact fun _ fs₃ near₃ => ⟨near₃.consistent consistent₂, near₃.tree.trans near.tree⟩
    | some slot =>
      rcases finds with ⟨i, e, rfl, there, named⟩
      have names : fs.tree.Names d i (Tree.target d e) := ⟨e, there, rfl⟩
      have used := consistent.sane.named d i _ names
      dsimp only
      rw [gives_entryInode, found_entry near there]
      apply (iget_near serves consistent₂.sound (near.inodeMap ▸ used)).bind
      rintro got fs₃ ⟨near₃, got_⟩
      have near₃ := near.trans near₃
      have consistent₃ := near₃.consistent consistent
      cases got with
      | none =>
        apply (iput_near serves consistent₃.sound (entered.lives near₃)).bind
        exact fun _ fs₄ near₄ => ⟨near₄.consistent consistent₃, near₄.tree.trans near₃.tree⟩
      | some x =>
        have here : x = Tree.target d e := (got_ x rfl).1
        subst here
        have links := consistent.links names
        have links₃ : (fs₃.inode (Tree.target d e)).nlinks ≠ 0 := by
          rw [near₃.inode]
          exact links
        dsimp only
        rw [gives_inodeOf, gives_inodeOf]
        split
        next =>
          apply (refused serves consistent near₃ entered.links (y := Tree.target d e) fun _ => links).imp
          rintro out fs' ⟨kept, rfl⟩
          exact kept
        next =>
          split
          next =>
            apply (refused serves consistent near₃ (x := Tree.target d e) (fun _ => links) entered.links).imp
            rintro out fs' ⟨kept, rfl⟩
            exact kept
          next file =>
            have there₃ : fs₃.live d i = some e := near₃.live ▸ there
            have file₃ : ¬ fs₃.IsDir (Tree.target d e) := fun isDir => file isDir.2
            have denotes : fs.tree.Denotes current pathname d i (Tree.target d e) := ⟨directory, some', e, there, named, rfl⟩
            have fileBefore : Tree.target d e ∉ fs.tree.dir := by
              rw [← near₃.tree]
              exact file₃
            rw [← near₃.slotAt d i]
            apply (name_goes serves consistent₃ (entered.near near₃) there₃ file₃).imp
            rintro out fs' ⟨kept, rfl, gone⟩
            rw [near₃.tree] at gone
            exact ⟨kept, d, i, Tree.target d e, denotes, fileBefore, gone⟩

end Unlinking

section Emptying

structure Emptied (fs : FileSystem σ) (x : Ino) : Prop where
  mapped : (fs.inode x).zone 0 ≠ 0
  empty : ∀ j, 2 ≤ j → fs.live x j = none

variable (serves : k.Serves)

theorem none_live (dead : ∀ index : Fin dirEntriesPerBlock, n * dirEntriesPerBlock + index.val < fs.entries x →
      (fs.block x.dev ((fs.inode x).zone n) index).inode = 0) {j : Nat} (here : j / dirEntriesPerBlock = n) : fs.live x j = none := by
  cases there : fs.live x j with
  | none => rfl
  | some e =>
    rcases live_eq_some.mp there with ⟨-, inside, -, some', entry⟩
    have place : n * dirEntriesPerBlock + j % dirEntriesPerBlock = j := by
      rw [← here, Nat.mul_comm]
      exact Nat.div_add_mod j dirEntriesPerBlock
    have zero := dead ⟨j % dirEntriesPerBlock, Nat.mod_lt _ (by decide)⟩ (by rw [place]; exact inside)
    subst here
    have same : fs.block x.dev ((fs.inode x).zone (j / dirEntriesPerBlock)) ⟨j % dirEntriesPerBlock, Nat.mod_lt _ (by decide)⟩ = e := entry
    rw [same] at zero
    exact absurd zero some'

theorem Same.trans {fs₂ : FileSystem σ} (same : Same fs fs₁) (same' : Same fs₁ fs₂) : Same fs fs₂ :=
  ⟨same'.inode.trans same.inode, same'.inodeMap.trans same.inodeMap, same'.zoneMap.trans same.zoneMap, same'.block.trans same.block⟩

include serves

theorem emptyFrom_empties (left n : Nat) (same : Same fs fs₁)
    (passed : ∀ j, 2 ≤ j → j / dirEntriesPerBlock < n → fs.live x j = none)
    (enough : fs.entries x ≤ (n + left) * dirEntriesPerBlock) (later : 0 < n) :
    Gives (emptyFrom k x (fs.entries x) left n) (fun out fs' => Same fs fs' ∧ (out = true → ∀ j, 2 ≤ j → fs.live x j = none)) fs₁ := by
  induction left generalizing n fs₁ with
  | zero =>
    refine ⟨same, fun _ j place => ?_⟩
    cases there : fs.live x j with
    | none => rfl
    | some e =>
      have inside := (live_eq_some.mp there).2.1
      have before : j / dirEntriesPerBlock < n := Nat.div_lt_of_lt_mul (inside.trans_le (enough.trans_eq (Nat.mul_comm _ _)))
      rw [passed j place before] at there
      cases there
  | succ left ih =>
    have onwards {fs₂ : FileSystem σ} (same₂ : Same fs fs₂) (dead : ∀ j, j / dirEntriesPerBlock = n → fs.live x j = none) :
        Gives (emptyFrom k x (fs.entries x) left (n + 1))
          (fun out fs' => Same fs fs' ∧ (out = true → ∀ j, 2 ≤ j → fs.live x j = none)) fs₂ := by
      refine ih (n + 1) same₂ (fun j place before => ?_) (by rw [Nat.add_right_comm]; exact enough) n.succ_pos
      rcases Nat.lt_succ_iff_lt_or_eq.mp before with before | here
      · exact passed j place before
      · exact dead j here
    rw [emptyFrom]
    apply (serves.bmap x n fs₁).bind
    rintro b fs₂ ⟨rfl, same₂⟩
    have same₂ := same.trans same₂
    rw [same.inode]
    split
    next none =>
      refine onwards same₂ fun j here => ?_
      cases there : fs.live x j with
      | none => rfl
      | some e => exact absurd (here ▸ none) (live_eq_some.mp there).2.2.1
    next mapped =>
      apply (serves.bread x.dev _ fs₂).bind
      rintro read fs₃ ⟨rfl, same₃⟩
      have same₃ := same₂.trans same₃
      simp only [Bool.not_true, Bool.false_eq_true, if_false]
      rw [gives_get, same₃.block]
      split
      next => exact ⟨same₃, nofun⟩
      next empty =>
        refine onwards same₃ fun j here => none_live (fun index inside => ?_) here
        by_contra some'
        exact empty ⟨index, inside, some'⟩

theorem emptyDir_empties (x : Ino) : Gives (emptyDir k x)
    (fun out fs' => Same fs fs' ∧ (out = true → Emptied fs x)) fs := by
  rw [emptyDir, gives_inodeOf]
  have refl : Same fs fs := ⟨rfl, rfl, rfl, rfl⟩
  dsimp only
  split
  next => exact ⟨refl, nofun⟩
  next room =>
    rw [not_or] at room
    apply (serves.bread x.dev _ fs).bind
    rintro read fs₁ ⟨rfl, same⟩
    simp only [Bool.not_true, Bool.false_eq_true, if_false]
    rw [gives_get, same.block]
    split
    next => exact ⟨same, nofun⟩
    next =>
      split
      next => exact ⟨same, nofun⟩
      next empty =>
        have first (j : Nat) (place : 2 ≤ j) (before : j / dirEntriesPerBlock < 1) : fs.live x j = none := by
          cases there : fs.live x j with
          | none => rfl
          | some e =>
            rcases live_eq_some.mp there with ⟨-, inside, -, some', entry⟩
            have zero : j / dirEntriesPerBlock = 0 := Nat.lt_one_iff.mp before
            have small : j < dirEntriesPerBlock := (Nat.div_eq_zero_iff_lt (by decide)).mp zero
            refine absurd ⟨⟨j, small⟩, place, inside, ?_⟩ empty
            have slot : fs.slotAt x j = ⟨x.dev, (fs.inode x).zone 0, ⟨j, small⟩⟩ := by
              have place := slotAt_place fs x 0 ⟨j, small⟩
              rw [Nat.zero_mul, Nat.zero_add] at place
              exact place
            rw [slot] at entry
            have entry : fs.block x.dev ((fs.inode x).zone 0) ⟨j, small⟩ = e := entry
            rw [entry]
            exact some'
        have enough : fs.entries x ≤ (1 + (fs.entries x - 1) / dirEntriesPerBlock) * dirEntriesPerBlock := by
          unfold dirEntriesPerBlock
          omega
        apply (emptyFrom_empties serves _ 1 same first enough Nat.one_pos).imp
        exact fun out fs' both => ⟨both.1, fun yes => ⟨room.2, both.2 yes⟩⟩

end Emptying

section RemovingDirectories

/-- What `sys_rmdir` leaves behind. -/
def Tree.Removes (T : Tree) (current : Process) (pathname : List (BitVec 8)) (T' : Tree) : Except Errno Unit → Prop
  | .error _ => T' = T
  | .ok _ => ∃ d i x, T.Denotes current pathname d i x ∧ T.Removable d i x ∧ T' = T.remove d i x

/-- The entry is cleared, and the links of the directory and of its parent are counted down. -/
def unhook (fs : FileSystem σ) (d : Ino) (i : Nat) (x : Ino) : FileSystem σ :=
  ((fs.setEntry (fs.slotAt d i) { fs.entry (fs.slotAt d i) with inode := 0 }).modifyInode x
    fun inode => { inode with nlinks := 0 }).modifyInode d fun inode => { inode with nlinks := inode.nlinks - 1 }

theorem unhook_self (apart : x ≠ d) : (unhook fs d i x).inode x = { fs.inode x with nlinks := 0 } := by
  unfold unhook
  rw [modifyInode_other _ apart, modifyInode_self, setEntry_inode]

theorem unhook_parent (apart : x ≠ d) : (unhook fs d i x).inode d = { fs.inode d with nlinks := (fs.inode d).nlinks - 1 } := by
  unfold unhook
  rw [modifyInode_self, modifyInode_other _ apart.symm, setEntry_inode]

theorem unhook_other {y : Ino} (child : y ≠ x) (parent : y ≠ d) : (unhook fs d i x).inode y = fs.inode y := by
  unfold unhook
  rw [modifyInode_other _ parent, modifyInode_other _ child, setEntry_inode]

variable (consistent : Consistent fs) (goes : fs.tree.Removable d i x)

include consistent goes

omit consistent goes in
theorem unhook_eq (apart : x ≠ d) : unhook fs d i x =
    ((fs.setEntry (fs.slotAt d i) { fs.entry (fs.slotAt d i) with inode := 0 }).modifyInode x
      fun inode => { inode with nlinks := 0 }).modifyInode d fun inode => { inode with nlinks := (fs.inode d).nlinks - 1 } := by
  unfold unhook FileSystem.modifyInode
  dsimp only
  rw [show ∀ (fs : FileSystem σ) inode, (fs.setInode x inode).inode = Function.update fs.inode x inode from fun _ _ => rfl,
    Function.update_of_ne apart.symm, setEntry_inode]

theorem unhook_sound : (unhook fs d i x).Sound := by
  rw [unhook_eq goes.apart]
  exact ((clear_sound consistent.sound _ _).setLinks x _).setLinks d _

theorem unhook_tree : (unhook fs d i x).tree = { fs.tree with
    live := fs.tree.setLive d i none
    nlinks := Function.update (Function.update fs.tree.nlinks x 0) d (fs.tree.nlinks d - 1) } := by
  rcases goes.names with ⟨e, there, -⟩
  have parent : fs.inodeMap d = true := consistent.sane.used (consistent.sane.inDir d i e there)
  have used : fs.inodeMap x = true := consistent.sane.used goes.isDir
  have two := goes.links consistent.sane
  have fewer : ((fs.inode d).nlinks - 1).toNat = fs.tree.nlinks d - 1 := by
    rw [tree_nlinks parent] at two ⊢
    bv_omega
  have parent₁ : ((fs.setEntry (fs.slotAt d i) { fs.entry (fs.slotAt d i) with inode := 0 }).modifyInode x
    fun inode => { inode with nlinks := 0 }).inodeMap d = true := parent
  have used₁ : (fs.setEntry (fs.slotAt d i) { fs.entry (fs.slotAt d i) with inode := 0 }).inodeMap x = true := used
  rw [unhook_eq goes.apart, setLinks_tree parent₁, setLinks_tree used₁, clear_tree consistent.sound there, fewer]
  rfl

theorem Consistent.rmdir (near : Near (unhook fs d i x) fs₁) (freed : Freed x fs₁ fs') :
    Consistent fs' ∧ fs'.tree = fs.tree.remove d i x := by
  have sound₁ := near.sound (unhook_sound consistent goes)
  have used : fs₁.inodeMap x = true := by
    rw [near.inodeMap]
    exact consistent.sane.used goes.isDir
  have tree : fs'.tree = fs.tree.remove d i x := by
    rw [freed.tree sound₁ used, near.tree, unhook_tree consistent goes]
    refine Tree.ext rfl rfl rfl ?_
    show Function.update (Function.update (Function.update fs.tree.nlinks x 0) d _) x 0 =
      Function.update (Function.update fs.tree.nlinks d _) x 0
    rw [Function.update_comm goes.apart, Function.update_idem, Function.update_comm goes.apart.symm]
  have place := goes.place consistent.sane
  refine ⟨⟨freed.sound sound₁ used, tree ▸ consistent.sane.remove goes, fun y dir mapped => ?_⟩, tree⟩
  have here : y ∈ fs'.tree.dir := dir
  rw [tree] at here
  have other : y ≠ x := here.2
  have kept : fs'.live y 0 = fs.live y 0 := by
    show fs'.tree.live y 0 = fs.tree.live y 0
    rw [tree]
    exact (if_neg other).trans (if_neg (Tree.low_place place Nat.two_pos))
  have zone : (fs'.inode y).zone = (fs.inode y).zone := by
    rw [freed.inode y other, near.inode y]
    by_cases above : y = d
    · rw [above, unhook_parent goes.apart]
    · rw [unhook_other other above]
  rw [kept]
  exact consistent.filled y here.1 (zone ▸ mapped)

omit consistent goes in
theorem directory_goes (serves : k.Serves) (consistent : Consistent fs) (goes : fs.tree.Removable d i x) (disk : x.dev ≠ 0)
    (one : (fs.inode x).count = 1) :
    Gives
      (do
        clearEntry (fs.slotAt d i)
        changeInode x fun inode => { inode with nlinks := 0 }
        changeInode d fun inode => { inode with nlinks := inode.nlinks - 1 }
        k.iput d
        k.iput x
        return (Except.ok () : Except Errno Unit))
      (fun out fs' => Consistent fs' ∧ out = .ok () ∧ fs'.tree = fs.tree.remove d i x) fs := by
  have parent : (fs.inode d).nlinks - 1 ≠ 0 := by
    rcases goes.names with ⟨e, there, -⟩
    have two := goes.links consistent.sane
    rw [tree_nlinks (consistent.sane.used (consistent.sane.inDir d i e there))] at two
    bv_omega
  unfold clearEntry
  rw [gives_changeEntry, gives_changeInode, gives_changeInode]
  have lives : ¬ Dies d ((unhook fs d i x).inode d) := by
    rw [unhook_parent goes.apart]
    exact lives_of_links fun _ => parent
  apply (iput_others serves (unhook_sound consistent goes) lives).bind
  rintro - fs₁ ⟨near, others⟩
  have dies : Dies x (fs₁.inode x) := by
    rw [others _ goes.apart, unhook_self goes.apart]
    exact ⟨disk, rfl, one⟩
  apply (iput_frees serves dies).bind
  intro _ fs₂ freed
  have both := consistent.rmdir goes near freed
  exact ⟨both.1, rfl, both.2⟩

omit consistent goes in
theorem sysRmdir_removes (serves : k.Serves) (consistent : Consistent fs) (pathname : List (BitVec 8)) :
    Gives (sysRmdir k current pathname)
      (fun out fs' => Consistent fs' ∧ fs.tree.Removes current pathname fs'.tree out) fs := by
  rw [sysRmdir]
  split
  next => exact ⟨consistent, rfl⟩
  next =>
  apply (parentOf_leads serves consistent pathname).bind
  rintro out fs₁ ⟨near₁, leads⟩
  cases out with
  | error e => exact ⟨near₁.consistent consistent, near₁.tree⟩
  | ok place =>
    rcases place with ⟨d, base⟩
    rcases leads d base rfl with ⟨entered, directory, rfl, some'⟩
    dsimp only
    apply (findEntry_finds serves (near₁.sound consistent.sound) (entered.near near₁) _).bind
    rintro ⟨d', found⟩ fs₂ ⟨near₂, same, finds⟩
    dsimp only at same finds ⊢
    rw [if_neg some', near₁.finds] at finds
    rw [same]
    have near := near₁.trans near₂
    have consistent₂ := near.consistent consistent
    cases found with
    | none =>
      apply (iput_near serves consistent₂.sound (entered.lives near)).bind
      exact fun _ fs₃ near₃ => ⟨near₃.consistent consistent₂, near₃.tree.trans near.tree⟩
    | some slot =>
      rcases finds with ⟨i, e, rfl, there, named⟩
      have names : fs.tree.Names d i (Tree.target d e) := ⟨e, there, rfl⟩
      have used := consistent.sane.named d i _ names
      dsimp only
      rw [gives_entryInode, found_entry near there]
      apply (iget_near serves consistent₂.sound (near.inodeMap ▸ used)).bind
      rintro got fs₃ ⟨near₃, got_⟩
      have near₃ := near.trans near₃
      have consistent₃ := near₃.consistent consistent
      cases got with
      | none =>
        apply (iput_near serves consistent₃.sound (entered.lives near₃)).bind
        exact fun _ fs₄ near₄ => ⟨near₄.consistent consistent₃, near₄.tree.trans near₃.tree⟩
      | some x =>
        have here : x = Tree.target d e := (got_ x rfl).1
        subst here
        rcases got_ _ rfl with ⟨-, disk, held⟩
        have links := consistent.links names
        have upFirst {er : Errno} {fs₄ : FileSystem σ} (near₄ : Near fs fs₄) :
            Gives (do k.iput d; k.iput (Tree.target d e); return (Except.error er : Except Errno Unit))
              (fun out fs' => Consistent fs' ∧ fs.tree.Removes current pathname fs'.tree out) fs₄ := by
          apply (refused serves consistent near₄ entered.links fun _ => links).imp
          rintro out fs' ⟨kept, rfl⟩
          exact kept
        have downFirst {er : Errno} {fs₄ : FileSystem σ} (near₄ : Near fs fs₄) :
            Gives (do k.iput (Tree.target d e); k.iput d; return (Except.error er : Except Errno Unit))
              (fun out fs' => Consistent fs' ∧ fs.tree.Removes current pathname fs'.tree out) fs₄ := by
          apply (refused serves consistent near₄ (fun _ => links) entered.links).imp
          rintro out fs' ⟨kept, rfl⟩
          exact kept
        dsimp only
        rw [gives_inodeOf, gives_inodeOf]
        split
        next => exact upFirst near₃
        next =>
          split
          next => exact upFirst near₃
          next alone =>
            rw [not_or, Nat.not_lt] at alone
            split
            next => exact downFirst near₃
            next apart =>
              split
              next => exact downFirst near₃
              next isDir =>
                rw [Bool.not_eq_true', Bool.not_eq_false] at isDir
                apply (emptyDir_empties serves (Tree.target d e)).bind
                rintro empties fs₄ ⟨same₄, emptied⟩
                have near₄ := near₃.trans (same₄.near consistent₃.sound)
                split
                next => exact downFirst near₄
                next yes =>
                  rw [Bool.not_eq_true', Bool.not_eq_false] at yes
                  have consistent₄ := near₄.consistent consistent
                  have isDir₃ : fs₃.IsDir (Tree.target d e) := ⟨near₃.inodeMap ▸ used, isDir⟩
                  have goes : fs.tree.Removable d i (Tree.target d e) := by
                    refine ⟨names, (near₃.isDir _).mp isDir₃, apart, ?_, fun j place => ?_⟩
                    · exact near₃.tree ▸ consistent₃.made isDir₃ (emptied yes).mapped
                    · rw [← near₃.tree]
                      exact (emptied yes).empty j place
                  have goes₄ : fs₄.tree.Removable d i (Tree.target d e) := near₄.tree ▸ goes
                  have one : (fs₄.inode (Tree.target d e)).count = 1 := by
                    rw [same₄.inode]
                    omega
                  rw [← near₄.slotAt d i]
                  apply (directory_goes serves consistent₄ goes₄ disk one).imp
                  rintro out fs' ⟨kept, rfl, gone⟩
                  rw [near₄.tree] at gone
                  exact ⟨kept, d, i, Tree.target d e, ⟨directory, some', e, there, named, rfl⟩, goes, gone⟩

end RemovingDirectories

end Linux011.Fs

import Linux011.Fs.Jail
import Linux011.Fs.Removing
import Linux011.Library.Machine

namespace Linux011.Fs

open Linux011.Library

variable {σ : Type} {k : Kernel σ} {fs fs' : FileSystem σ} {T : Tree}

section Calls

/-- The system calls of `namei.c`, a lookup, and the end of a use of a file. -/
inductive Call
  | openNamei (pathname : List (BitVec 8)) (flag : OpenFlags) (mode : BitVec 16)
  | sysMknod (filename : List (BitVec 8)) (mode : BitVec 16) (dev : Nat)
  | sysMkdir (pathname : List (BitVec 8)) (mode : BitVec 16)
  | sysRmdir (name : List (BitVec 8))
  | sysUnlink (name : List (BitVec 8))
  | sysLink (oldname newname : List (BitVec 8))
  | namei (pathname : List (BitVec 8))
  | iput (x : Ino)

abbrev Answer := Except Errno (Option Ino)

def Call.run (k : Kernel σ) (current : Process) : Call → FsM σ Answer
  | .openNamei pathname flag mode => do return (← Fs.openNamei k current pathname flag mode).map some
  | .sysMknod filename mode dev => do return (← Fs.sysMknod k current filename mode dev).map fun _ => none
  | .sysMkdir pathname mode => do return (← Fs.sysMkdir k current pathname mode).map fun _ => none
  | .sysRmdir name => do return (← Fs.sysRmdir k current name).map fun _ => none
  | .sysUnlink name => do return (← Fs.sysUnlink k current name).map fun _ => none
  | .sysLink oldname newname => do return (← Fs.sysLink k current oldname newname).map fun _ => none
  | .namei pathname => do return .ok (← Fs.namei k current pathname)
  | .iput x => do
    k.iput x
    return .ok none

def Tree.Does (T : Tree) (current : Process) (answer : Answer) (T' : Tree) : Call → Prop
  | .openNamei pathname _ _ => ∃ out, answer = out.map some ∧ T.Opens current pathname T' out
  | .sysMknod filename mode _ => ∃ out : Except Errno Unit, answer = out.map (fun _ => none) ∧
    T.Creates current filename (sIsDir mode = true) T' out
  | .sysMkdir pathname _ => ∃ out, answer = out.map (fun _ => none) ∧ T.Makes current pathname T' out
  | .sysRmdir name => ∃ out, answer = out.map (fun _ => none) ∧ T.Removes current name T' out
  | .sysUnlink name => ∃ out, answer = out.map (fun _ => none) ∧ T.Unlinks current name T' out
  | .sysLink oldname newname => ∃ out, answer = out.map (fun _ => none) ∧ T.Links current oldname newname T' out
  | .namei pathname => T' = T ∧ ∀ x, answer = .ok (some x) → T.PathTo current pathname x
  | .iput x => T' = T ∨ T.nlinks x = 0 ∧ T' = T.free x

/-- The byte that counts the links has room, and what is let go of is a file. -/
def Tree.Allows (T : Tree) : Call → Prop
  | .sysMkdir .. | .sysLink .. => ∀ x, T.nlinks x ≠ 255
  | .iput x => x ∈ T.used ∧ x ∉ T.dir
  | _ => True

theorem Call.does (serves : k.Serves) (consistent : Consistent fs) (current : Process) (call : Call)
    (allowed : fs.tree.Allows call) :
    Gives (call.run k current) (fun answer fs' => Consistent fs' ∧ fs.tree.Does current answer fs'.tree call) fs := by
  have named {α : Type} {x : FsM σ (Except Errno α)} {f : α → Option Ino} {R : Tree → Except Errno α → Prop}
      (gives : Gives x (fun out fs' => Consistent fs' ∧ R fs'.tree out) fs) :
      Gives (do return (← x).map f) (fun answer fs' => Consistent fs' ∧ ∃ out, answer = out.map f ∧ R fs'.tree out) fs := by
    apply gives.bind
    rintro out fs' ⟨kept, does⟩
    exact ⟨kept, out, rfl, does⟩
  cases call with
  | openNamei pathname flag mode => exact named (openNamei_opens serves consistent pathname flag mode)
  | sysMknod filename mode dev =>
    exact named (R := fun T' out => fs.tree.Creates current filename (sIsDir mode = true) T' out)
      (sysMknod_makes serves consistent filename mode dev)
  | sysMkdir pathname mode => exact named (sysMkdir_makes serves consistent allowed pathname mode)
  | sysRmdir name => exact named (sysRmdir_removes serves consistent name)
  | sysUnlink name => exact named (sysUnlink_unlinks serves consistent name)
  | sysLink oldname newname => exact named (sysLink_links serves consistent allowed oldname newname)
  | namei pathname =>
    apply (namei_leads serves consistent pathname).bind
    rintro found fs' ⟨near, leads⟩
    refine ⟨near.consistent consistent, near.tree, fun x same => ?_⟩
    cases same
    exact (leads x rfl).1
  | iput x =>
    apply (iput_file serves consistent allowed.1 allowed.2).bind
    rintro - fs' ⟨kept, ⟨tree, -⟩ | ⟨last, tree, -⟩⟩
    · exact ⟨kept, .inl tree⟩
    · refine ⟨kept, .inr ⟨?_, tree⟩⟩
      rw [tree_nlinks allowed.1, last]
      rfl

end Calls

section Runs

structure Event where
  current : Process
  call : Call
  answer : Answer

/-- The processes make one call after another. -/
def fileSystem (k : Kernel σ) : Machine (FileSystem σ) Event where
  init := Consistent
  step fs event fs' := fs.tree.Allows event.call ∧ event.call.run k event.current fs = .ok event.answer fs'

def treeSystem : Machine Tree Event where
  init := Tree.Sane
  step T event T' := T.Does event.current event.answer T' event.call

theorem step_refines (serves : k.Serves) {event : Event} (consistent : Consistent fs) (step : (fileSystem k).step fs event fs') :
    Consistent fs' ∧ treeSystem.step fs.tree event fs'.tree := by
  rcases step with ⟨allowed, ran⟩
  have gives := event.call.does serves consistent event.current allowed
  rw [Gives, Leaves, ran] at gives
  exact gives

end Runs

section Example

/-- A kernel whose buffers hold every block; directories have no room for a second block. -/
def plainKernel : Kernel Unit where
  bread _ _ := return true
  bmap x n := return (← inodeOf x).zone n
  createBlock x n := return (← inodeOf x).zone n
  iget dev nr := do
    if dev = 0 then return none
    else
      hold ⟨dev, nr⟩
      return some ⟨dev, nr⟩
  iput x := do
    let inode ← inodeOf x
    if x.dev ≠ 0 ∧ inode.nlinks = 0 ∧ inode.count = 1 then
      modify fun fs => { fs.setInode x { inode with count := 0 } with inodeMap := Function.update fs.inodeMap x false }
    else changeInode x fun inode => { inode with count := inode.count - 1 }
  imount _ := return none
  newInode dev := do
    let fs ← get
    match (List.range 8).find? fun nr => dev ≠ 0 ∧ nr ≠ 0 ∧ fs.inodeMap ⟨dev, nr⟩ = false with
    | none => return none
    | some nr =>
      modify fun fs => { fs.setInode ⟨dev, nr⟩
        { mode := 0, uid := 0, gid := 0, size := 0, nlinks := 1, zone := fun _ => 0, indirect := [], count := 1 } with
        inodeMap := Function.update fs.inodeMap ⟨dev, nr⟩ true }
      return some ⟨dev, nr⟩
  newBlock dev := do
    let fs ← get
    match (List.range 16).find? fun b => b ≠ 0 ∧ fs.zoneMap dev b = false with
    | none => return 0
    | some b =>
      modify fun fs => fs.claim dev b
      return b
  freeBlock dev b := modify fun fs =>
    { fs with zoneMap := Function.update fs.zoneMap dev (Function.update (fs.zoneMap dev) b false) }
  truncate x := do
    let inode ← inodeOf x
    if sIsReg inode.mode = true ∨ sIsDir inode.mode = true then
      changeInode x fun inode => { inode with size := 0, zone := fun _ => 0, indirect := [] }

theorem same_refl (fs : FileSystem σ) : Same fs fs := ⟨rfl, rfl, rfl, rfl⟩

theorem plainKernel_serves : plainKernel.Serves where
  bread _ _ fs := ⟨rfl, same_refl fs⟩
  bmap _ _ fs := ⟨rfl, same_refl fs⟩
  createBlock x n fs := by
    show if (fs.inode x).zone n = 0 then Grown x n ((fs.inode x).zone n) fs fs else _
    split
    next none =>
      refine ⟨?_, rfl, fun _ there => there, fun c there new => absurd there new, fun some' => absurd none some',
        fun some' => absurd none some', fun dev c => ?_, fun _ _ _ => rfl⟩
      · rw [Function.update_eq_self, Function.update_eq_self]
      · rw [none]
        tauto
    next => exact ⟨rfl, same_refl fs⟩
  iget dev nr fs := by
    unfold plainKernel
    dsimp only
    split
    next => exact same_refl fs
    next disk => exact ⟨disk, rfl, same_refl _⟩
  iput x fs := by
    unfold plainKernel
    dsimp only
    rw [gives_inodeOf]
    split
    next dies =>
      refine ⟨fun _ => ⟨⟨fun _ _ _ => rfl, fun _ _ _ => rfl⟩, ?_, fun y other => ?_, rfl⟩, fun lives => absurd dies lives⟩
      · show (Function.update fs.inode x _ x).count = 0
        rw [Function.update_self]
      · exact Function.update_of_ne other ..
    next lives => exact ⟨fun dies => absurd dies lives, fun _ => same_refl _⟩
  imount _ fs := ⟨fun _ nowhere => absurd nowhere (Option.some_ne_none _).symm, same_refl fs⟩
  newInode dev fs := by
    unfold plainKernel
    dsimp only
    rw [gives_get]
    split
    next => exact same_refl fs
    next nr found =>
      have free := List.find?_some found
      rw [decide_eq_true_iff] at free
      exact ⟨free.1, rfl, free.2.1, free.2.2, ⟨0, 0, rfl⟩, rfl, rfl, rfl⟩
  newBlock dev fs := by
    unfold plainKernel
    dsimp only
    rw [gives_get]
    split
    next => exact same_refl fs
    next b found =>
      have free := List.find?_some found
      rw [decide_eq_true_iff] at free
      rw [gives_modify, gives_pure, if_neg free.1]
      exact ⟨free.2, same_refl _⟩
  freeBlock dev b fs := by
    refine ⟨rfl, rfl, fun dev' c other => ⟨?_, rfl⟩⟩
    show Function.update fs.zoneMap dev (Function.update (fs.zoneMap dev) b false) dev' c = fs.zoneMap dev' c
    by_cases here : dev' = dev
    · rw [here, Function.update_self, Function.update_of_ne fun same => other ⟨here, same⟩]
    · rw [Function.update_of_ne here]
  truncate x fs := by
    unfold plainKernel
    dsimp only
    rw [gives_inodeOf]
    split
    next stores => exact ⟨fun _ => ⟨⟨fun _ _ _ => rfl, fun _ _ _ => rfl⟩, rfl, rfl⟩, fun none => absurd stores none⟩
    next none => exact ⟨fun stores => absurd stores none, fun _ => same_refl fs⟩

def emptyDisk : FileSystem Unit where
  inode x :=
    if x = ⟨1, 1⟩ then
      { mode := 0o040755, uid := 0, gid := 0, size := 32, nlinks := 2, zone := fun n => if n = 0 then 11 else 0, indirect := [],
        count := 1 }
    else { mode := 0, uid := 0, gid := 0, size := 0, nlinks := 0, zone := fun _ => 0, indirect := [], count := 0 }
  inodeMap x := x = ⟨1, 1⟩
  zoneMap dev b := dev = 1 ∧ b = 11
  block _ b := if b = 11 then blockOf [(1, dot), (1, dotDot)] else blank
  searched := []
  rest := ()

theorem emptyDisk_used {x : Ino} : emptyDisk.inodeMap x = true ↔ x = ⟨1, 1⟩ := decide_eq_true_iff

theorem emptyDisk_dir {d : Ino} : emptyDisk.IsDir d ↔ d = ⟨1, 1⟩ := by
  constructor
  · exact fun isDir => emptyDisk_used.mp isDir.1
  · rintro rfl
    decide

theorem emptyDisk_live {d : Ino} {i : Nat} {e : DirEntry} : emptyDisk.live d i = some e ↔
    d = ⟨1, 1⟩ ∧ (i = 0 ∧ e = ⟨1, padded dot⟩ ∨ i = 1 ∧ e = ⟨1, padded dotDot⟩) := by
  rw [live_eq_some]
  constructor
  · rintro ⟨isDir, inside, -, -, rfl⟩
    have root := emptyDisk_dir.mp isDir
    subst root
    have few : i < 2 := inside
    match i, few with
    | 0, _ => exact ⟨rfl, .inl ⟨rfl, rfl⟩⟩
    | 1, _ => exact ⟨rfl, .inr ⟨rfl, rfl⟩⟩
  · rintro ⟨rfl, ⟨rfl, rfl⟩ | ⟨rfl, rfl⟩⟩
    · exact ⟨by decide, by decide, by decide, by decide, rfl⟩
    · exact ⟨by decide, by decide, by decide, by decide, rfl⟩

theorem emptyDisk_owns {x : Ino} {b : Nat} : emptyDisk.Owns x b ↔ x = ⟨1, 1⟩ ∧ b = 11 := by
  constructor
  · rintro ⟨used, -, nonzero, ⟨n, here⟩ | here⟩
    · have root := emptyDisk_used.mp used
      subst root
      have here : (if n = 0 then 11 else 0) = b := here
      split at here
      · exact ⟨rfl, here.symm⟩
      · exact absurd here.symm nonzero
    · have root := emptyDisk_used.mp used
      subst root
      cases here
  · rintro ⟨rfl, rfl⟩
    exact ⟨by decide, .inr (by decide), by decide, .inl ⟨0, rfl⟩⟩

theorem emptyDisk_sound : emptyDisk.Sound := by
  have zone (n : Nat) : (emptyDisk.inode ⟨1, 1⟩).zone n = if n = 0 then 11 else 0 := rfl
  have first {n : Nat} (mapped : (emptyDisk.inode ⟨1, 1⟩).zone n ≠ 0) : n = 0 := by
    by_contra later
    exact mapped ((zone n).trans (if_neg later))
  refine ⟨?_, ?_, ?_, ?_, ?_, ?_, ?_⟩
  · intro d isDir
    rw [emptyDisk_dir.mp isDir]
    exact ⟨2, rfl⟩
  · intro d isDir absent
    rw [emptyDisk_dir.mp isDir] at absent
    cases absent
  · intro x b owns
    rcases emptyDisk_owns.mp owns with ⟨rfl, rfl⟩
    rfl
  · intro x y b owns owns' _
    exact (emptyDisk_owns.mp owns).1.trans (emptyDisk_owns.mp owns').1.symm
  · intro d m n isDir same mapped
    rw [emptyDisk_dir.mp isDir] at same mapped
    have left := first mapped
    have right := first (same ▸ mapped)
    rw [left, right]
  · intro d n isDir _
    rw [emptyDisk_dir.mp isDir]
    exact List.not_mem_nil
  · intro x count
    rw [emptyDisk_used]
    by_contra other
    have none : (emptyDisk.inode x).count = 0 := congrArg MInode.count (if_neg other)
    rw [none] at count
    exact absurd count (Nat.lt_irrefl 0)

theorem emptyDisk_named {d : Ino} {i : Nat} {x : Ino} : emptyDisk.tree.Names d i x ↔ d = ⟨1, 1⟩ ∧ i < 2 ∧ x = ⟨1, 1⟩ := by
  constructor
  · rintro ⟨e, there, rfl⟩
    rcases emptyDisk_live.mp there with ⟨rfl, ⟨rfl, rfl⟩ | ⟨rfl, rfl⟩⟩
    · exact ⟨rfl, Nat.two_pos, rfl⟩
    · exact ⟨rfl, Nat.one_lt_two, rfl⟩
  · rintro ⟨rfl, low, rfl⟩
    match i, low with
    | 0, _ => exact ⟨_, emptyDisk_live.mpr ⟨rfl, .inl ⟨rfl, rfl⟩⟩, rfl⟩
    | 1, _ => exact ⟨_, emptyDisk_live.mpr ⟨rfl, .inr ⟨rfl, rfl⟩⟩, rfl⟩

theorem emptyDisk_sane : emptyDisk.tree.Sane := by
  refine ⟨fun d isDir => isDir.1, ?_, ?_, ?_, ?_, ?_, ?_, ?_, ?_⟩
  · exact fun d i e there => emptyDisk_dir.mpr (emptyDisk_live.mp there).1
  · exact fun d i x names => emptyDisk_used.mpr (emptyDisk_named.mp names).2.2
  · intro d i j e f name there there' plain named named'
    have apart (dotNamed : entryMatches name ⟨1, padded dot⟩ = true)
        (dotDotNamed : entryMatches name ⟨1, padded dotDot⟩ = true) : False := by
      have first := entryMatches_unique plain (by decide) dotNamed (by decide : entryMatches dot ⟨1, padded dot⟩ = true)
      rw [first] at dotDotNamed
      revert dotDotNamed
      decide
    rcases emptyDisk_live.mp there with ⟨-, ⟨rfl, rfl⟩ | ⟨rfl, rfl⟩⟩
    · rcases emptyDisk_live.mp there' with ⟨-, ⟨rfl, rfl⟩ | ⟨rfl, rfl⟩⟩
      · rfl
      · exact (apart named named').elim
    · rcases emptyDisk_live.mp there' with ⟨-, ⟨rfl, rfl⟩ | ⟨rfl, rfl⟩⟩
      · exact (apart named' named).elim
      · rfl
  · intro d isDir
    have root := emptyDisk_dir.mp isDir
    subst root
    exact .inr ⟨⟨_, emptyDisk_live.mpr ⟨rfl, .inl ⟨rfl, rfl⟩⟩, by decide, rfl⟩,
      _, ⟨1, 1⟩, emptyDisk_live.mpr ⟨rfl, .inr ⟨rfl, rfl⟩⟩, by decide, rfl, rfl⟩
  · intro d _ p q names _ high
    exact absurd (emptyDisk_named.mp names).2.1 (Nat.not_lt.mpr high)
  · intro d isDir
    rw [emptyDisk_dir.mp isDir]
    exact emptyDisk_dir.mpr rfl
  · exact fun d _ _ p names => (emptyDisk_named.mp names).2.1
  · intro x used
    have root := emptyDisk_used.mp used
    subst root
    have both : emptyDisk.tree.namers ⟨1, 1⟩ = {(⟨1, 1⟩, 0), (⟨1, 1⟩, 1)} := by
      ext ⟨d, i⟩
      show emptyDisk.tree.Names d i ⟨1, 1⟩ ↔ _
      rw [emptyDisk_named]
      constructor
      · rintro ⟨rfl, low, -⟩
        match i, low with
        | 0, _ => exact .inl rfl
        | 1, _ => exact .inr rfl
      · rintro (same | same)
        · cases same
          exact ⟨rfl, Nat.two_pos, rfl⟩
        · cases same
          exact ⟨rfl, Nat.one_lt_two, rfl⟩
    rw [both, Set.encard_pair (by decide)]
    rfl

theorem emptyDisk_consistent : Consistent emptyDisk where
  sound := emptyDisk_sound
  sane := emptyDisk_sane
  filled d isDir _ := by
    rw [emptyDisk_live.mpr ⟨emptyDisk_dir.mp isDir, .inl ⟨rfl, rfl⟩⟩]
    rfl

def superuser : Process where
  euid := 0
  egid := 0
  umask := 0o022
  suser := true
  root := some ⟨1, 1⟩
  pwd := some ⟨1, 1⟩

def makeA : Call := .sysMkdir [0x2f, 0x61] 0o777

def stateAfter {α : Type} : EStateM.Result String (FileSystem Unit) α → FileSystem Unit
  | .ok _ fs => fs
  | .error _ fs => fs

def diskWithA : FileSystem Unit := stateAfter (makeA.run plainKernel superuser emptyDisk)

theorem makeA_runs : (fileSystem plainKernel).Run emptyDisk [⟨superuser, makeA, .ok none⟩] diskWithA := by
  have room (x : Ino) : emptyDisk.tree.nlinks x ≠ 255 := by
    by_cases root : x = ⟨1, 1⟩
    · rw [root]
      decide
    · have unused : emptyDisk.tree.nlinks x = 0 := if_neg fun used => root (emptyDisk_used.mp used)
      rw [unused]
      decide
  have made : (match makeA.run plainKernel superuser emptyDisk with | .ok (.ok none) _ => true | _ => false) = true := by
    decide +kernel
  refine .one ⟨room, ?_⟩
  show makeA.run plainKernel superuser emptyDisk = .ok (.ok none) diskWithA
  unfold diskWithA
  split at made
  next same =>
    rw [same]
    rfl
  next => cases made

end Example

/-- Whatever the processes call, every answer and every change is that of the tree. -/
theorem calls_refine_tree (serves : k.Serves) (consistent : Consistent fs) {events : List Event} (run : (fileSystem k).Run fs events fs') :
    Consistent fs' ∧ treeSystem.Run fs.tree events fs'.tree :=
  run.refines (fun _ _ _ consistent step => step_refines serves consistent step) consistent

theorem makeA_refines_tree : Consistent diskWithA ∧ treeSystem.Run emptyDisk.tree [⟨superuser, makeA, .ok none⟩] diskWithA.tree :=
  calls_refine_tree plainKernel_serves emptyDisk_consistent makeA_runs

end Linux011.Fs

import Linux011.Fs.FileSystem

namespace Linux011.Fs

open Linux011.Library

variable {σ : Type}

/-- What a computation leaves behind if it returns. -/
abbrev Gives {α : Type} (x : FsM σ α) (returns : α → FileSystem σ → Prop) (fs : FileSystem σ) : Prop :=
  Leaves x returns (fun _ _ => True) fs

section Rules

variable {α β : Type} {x : FsM σ α} {f : α → FsM σ β} {returns : α → FileSystem σ → Prop} {then_ : β → FileSystem σ → Prop}
  {fs : FileSystem σ}

theorem Gives.bind (first : Gives x returns fs) (second : ∀ a fs', returns a fs' → Gives (f a) then_ fs') :
    Gives (x >>= f) then_ fs :=
  Leaves.bind first second

theorem gives_pure {a : α} : Gives (pure a) returns fs ↔ returns a fs := Iff.rfl

theorem gives_throw {e : String} : Gives (throw e) returns fs := trivial

theorem gives_get {f : FileSystem σ → FsM σ β} : Gives (get >>= f) then_ fs ↔ Gives (f fs) then_ fs := Leaves.bind_iff

theorem gives_inodeOf {f : MInode → FsM σ β} (ino : Ino) :
    Gives (inodeOf ino >>= f) then_ fs ↔ Gives (f (fs.inode ino)) then_ fs := Leaves.bind_iff

theorem gives_entryInode {f : Nat → FsM σ β} (slot : Slot) :
    Gives (entryInode slot >>= f) then_ fs ↔ Gives (f (fs.entry slot).inode) then_ fs := Leaves.bind_iff

theorem gives_modify {f : PUnit → FsM σ β} (g : FileSystem σ → FileSystem σ) :
    Gives (modify g >>= f) then_ fs ↔ Gives (f ⟨⟩) then_ (g fs) := Leaves.bind_iff

theorem gives_changeInode {f : Unit → FsM σ β} (ino : Ino) (g : MInode → MInode) :
    Gives (changeInode ino g >>= f) then_ fs ↔ Gives (f ⟨⟩) then_ (fs.modifyInode ino g) := Leaves.bind_iff

theorem gives_hold {f : Unit → FsM σ β} (ino : Ino) : Gives (hold ino >>= f) then_ fs ↔
    Gives (f ⟨⟩) then_ (fs.modifyInode ino fun inode => { inode with count := inode.count + 1 }) := Leaves.bind_iff

theorem gives_changeEntry {f : Unit → FsM σ β} (slot : Slot) (g : DirEntry → DirEntry) :
    Gives (changeEntry slot g >>= f) then_ fs ↔ Gives (f ⟨⟩) then_ (fs.setEntry slot (g (fs.entry slot))) := Leaves.bind_iff

theorem gives_lastEntry {returns : Unit → FileSystem σ → Prop} (slot : Slot) (g : DirEntry → DirEntry) :
    Gives (changeEntry slot g) returns fs ↔ returns ⟨⟩ (fs.setEntry slot (g (fs.entry slot))) := Iff.rfl

end Rules

/-- The disks and the inodes are as before. -/
structure Same (fs fs' : FileSystem σ) : Prop where
  inode : fs'.inode = fs.inode
  inodeMap : fs'.inodeMap = fs.inodeMap
  zoneMap : fs'.zoneMap = fs.zoneMap
  block : fs'.block = fs.block

def blank : Block := fun _ => ⟨0, fun _ => 0⟩

def MInode.Lists (inode : MInode) (b : Nat) : Prop := b ≠ 0 ∧ ((∃ n, inode.zone n = b) ∨ b ∈ inode.indirect)

/-- `create_block` where an inode has no block yet: it gets a new one of zeros, or 0, and perhaps new indirect blocks. -/
structure Grown (x : Ino) (n b : Nat) (fs fs' : FileSystem σ) : Prop where
  inode : fs'.inode = Function.update fs.inode x
    { fs.inode x with zone := Function.update (fs.inode x).zone n b, indirect := (fs'.inode x).indirect }
  inodeMap : fs'.inodeMap = fs.inodeMap
  kept : ∀ c ∈ (fs.inode x).indirect, c ∈ (fs'.inode x).indirect
  fresh : ∀ c ∈ (fs'.inode x).indirect, c ∉ (fs.inode x).indirect → c ≠ b ∧ fs.zoneMap x.dev c = false
  free : b ≠ 0 → fs.zoneMap x.dev b = false
  blank : b ≠ 0 → fs'.block x.dev b = blank
  zoneMap : ∀ dev c, fs'.zoneMap dev c = true ↔
    fs.zoneMap dev c = true ∨ dev = x.dev ∧ (b ≠ 0 ∧ c = b ∨ c ∈ (fs'.inode x).indirect ∧ c ∉ (fs.inode x).indirect)
  block : ∀ dev c, (dev = x.dev → c ≠ b ∧ c ∉ (fs'.inode x).indirect) → fs'.block dev c = fs.block dev c

structure Fresh (dev : Nat) (x : Ino) (fs fs' : FileSystem σ) : Prop where
  disk : dev ≠ 0
  dev : x.dev = dev
  num : x.num ≠ 0
  free : fs.inodeMap x = false
  inode : ∃ uid gid, fs'.inode = Function.update fs.inode x
    { mode := 0, uid := uid, gid := gid, size := 0, nlinks := 1, zone := fun _ => 0, indirect := [], count := 1 }
  inodeMap : fs'.inodeMap = Function.update fs.inodeMap x true
  zoneMap : fs'.zoneMap = fs.zoneMap
  block : fs'.block = fs.block

/-- A regular file or a directory, which has blocks of its own. -/
def MInode.Stores (inode : MInode) : Prop := sIsReg inode.mode = true ∨ sIsDir inode.mode = true

/-- Nothing but the blocks of an inode is touched. -/
structure Spares (x : Ino) (fs fs' : FileSystem σ) : Prop where
  zoneMap : ∀ dev b, ¬ (dev = x.dev ∧ (fs.inode x).Stores ∧ (fs.inode x).Lists b) → fs'.zoneMap dev b = fs.zoneMap dev b
  block : ∀ dev b, ¬ (dev = x.dev ∧ (fs.inode x).Stores ∧ (fs.inode x).Lists b) → fs'.block dev b = fs.block dev b

structure Freed (x : Ino) (fs fs' : FileSystem σ) : Prop extends Spares x fs fs' where
  count : (fs'.inode x).count = 0
  inode : ∀ y, y ≠ x → fs'.inode y = fs.inode y
  inodeMap : fs'.inodeMap = Function.update fs.inodeMap x false

def Dies (x : Ino) (inode : MInode) : Prop := x.dev ≠ 0 ∧ inode.nlinks = 0 ∧ inode.count = 1

structure Truncated (x : Ino) (fs fs' : FileSystem σ) : Prop extends Spares x fs fs' where
  inode : fs'.inode = Function.update fs.inode x { fs.inode x with size := 0, zone := fun _ => 0, indirect := [] }
  inodeMap : fs'.inodeMap = fs.inodeMap

def FileSystem.claim (fs : FileSystem σ) (dev b : Nat) : FileSystem σ :=
  { fs.setBlock dev b blank with zoneMap := Function.update fs.zoneMap dev (Function.update (fs.zoneMap dev) b true) }

/-- What the other parts of the kernel do where every block can be read and nothing but the root is mounted, on itself. -/
structure Kernel.Serves (k : Kernel σ) : Prop where
  bread : ∀ dev b fs, Gives (k.bread dev b) (fun read fs' => read = true ∧ Same fs fs') fs
  bmap : ∀ x n fs, Gives (k.bmap x n) (fun b fs' => b = (fs.inode x).zone n ∧ Same fs fs') fs
  createBlock : ∀ x n fs, Gives (k.createBlock x n)
    (fun b fs' => if (fs.inode x).zone n = 0 then Grown x n b fs fs' else b = (fs.inode x).zone n ∧ Same fs fs') fs
  iget : ∀ dev nr fs, Gives (k.iget dev nr) (fun found fs' => match found with
    | none => Same fs fs'
    | some x => dev ≠ 0 ∧ x = ⟨dev, nr⟩ ∧ Same (fs.modifyInode x fun inode => { inode with count := inode.count + 1 }) fs') fs
  iput : ∀ x fs, Gives (k.iput x) (fun _ fs' => (Dies x (fs.inode x) → Freed x fs fs') ∧ (¬ Dies x (fs.inode x) →
    Same (fs.modifyInode x fun inode => { inode with count := inode.count - 1 }) fs')) fs
  imount : ∀ dev fs, Gives (k.imount dev) (fun mounted fs' => (∀ x, mounted = some x → x = ⟨dev, rootIno⟩) ∧ Same fs fs') fs
  newInode : ∀ dev fs, Gives (k.newInode dev) (fun new fs' => match new with
    | none => Same fs fs'
    | some x => Fresh dev x fs fs') fs
  newBlock : ∀ dev fs, Gives (k.newBlock dev) (fun b fs' => if b = 0 then Same fs fs' else
    fs.zoneMap dev b = false ∧ Same (fs.claim dev b) fs') fs
  freeBlock : ∀ dev b fs, Gives (k.freeBlock dev b) (fun _ fs' => fs'.inode = fs.inode ∧ fs'.inodeMap = fs.inodeMap ∧
    ∀ dev' c, ¬ (dev' = dev ∧ c = b) → fs'.zoneMap dev' c = fs.zoneMap dev' c ∧ fs'.block dev' c = fs.block dev' c) fs
  truncate : ∀ x fs, Gives (k.truncate x) (fun _ fs' => ((fs.inode x).Stores → Truncated x fs fs') ∧
    (¬ (fs.inode x).Stores → Same fs fs')) fs

end Linux011.Fs

import Linux011.Fs.Namei

namespace Linux011.Fs

inductive Errno
  | eperm
  | enoent
  | eacces
  | eexist
  | enotdir
  | eisdir
  | enospc
  | exdev
  | enotempty
  | error
  deriving DecidableEq

/-- The bits of the flag that `open_namei` reads. -/
structure OpenFlags where
  accmode : BitVec 2
  creat : Bool
  excl : Bool
  trunc : Bool

/-- `ACC_MODE`; the last byte is signed. -/
def accMode (accmode : BitVec 2) : BitVec 32 :=
  if accmode = 0 then 0o004 else if accmode = 1 then 0o002 else if accmode = 2 then 0o006 else -1

variable {σ : Type} (k : Kernel σ) (current : Process)

section Opening

/-- The opening of `sys_mknod`, `sys_mkdir`, `sys_rmdir` and `sys_unlink`. -/
def parentOf (pathname : List (BitVec 8)) : FsM σ (Except Errno (Ino × Name)) := do
  match ← dirNamei k current pathname with
  | none => return .error .enoent
  | some (dir, basename) =>
    if basename = [] then
      k.iput dir
      return .error .enoent
    else if !permission current dir (← inodeOf dir) mayWrite then
      k.iput dir
      return .error .eperm
    else return .ok (dir, basename)

/-- What follows in `sys_mknod` and `sys_mkdir`: the name is new, and an inode is free. -/
def freshInode (dir : Ino) (basename : Name) : FsM σ (Except Errno (Ino × Ino)) := do
  let (dir, found) ← findEntry k current dir basename
  match found with
  | some _ =>
    k.iput dir
    return .error .eexist
  | none =>
    match ← k.newInode dir.dev with
    | none =>
      k.iput dir
      return .error .enospc
    | some inode => return .ok (dir, inode)

/-- `de->inode = inode->i_num` -/
def nameInode (slot : Slot) (inode : Ino) : FsM σ Unit := changeEntry slot fun de => { de with inode := inode.num }

end Opening

section Creating

/-- `open_namei` where the name is new. -/
def openNew (dir : Ino) (basename : Name) (mode : BitVec 16) : FsM σ (Except Errno Ino) := do
  match ← k.newInode dir.dev with
  | none =>
    k.iput dir
    return .error .enospc
  | some inode =>
    changeInode inode fun inode => { inode with uid := current.euid, mode := mode }
    match ← addEntry k dir basename with
    | none =>
      changeInode inode fun inode => { inode with nlinks := inode.nlinks - 1 }
      k.iput inode
      k.iput dir
      return .error .enospc
    | some de =>
      nameInode de inode
      k.iput dir
      return .ok inode

/-- `open_namei` where the name was found. -/
def openFound (dir : Ino) (de : Slot) (flag : OpenFlags) : FsM σ (Except Errno Ino) := do
  let inr ← entryInode de
  k.iput dir
  if flag.excl then return .error .eexist
  else
    match ← k.iget dir.dev inr with
    | none => return .error .eacces
    | some inode =>
      let found ← inodeOf inode
      if sIsDir found.mode && flag.accmode ≠ 0 || !permission current inode found (accMode flag.accmode) then
        k.iput inode
        return .error .eperm
      else
        if flag.trunc then k.truncate inode
        return .ok inode

def openNamei (pathname : List (BitVec 8)) (flag : OpenFlags) (mode : BitVec 16) : FsM σ (Except Errno Ino) := do
  let flag := if flag.trunc && flag.accmode = 0 then { flag with accmode := 1 } else flag
  let mode := mode &&& (0o0777 &&& ~~~current.umask) ||| iRegular
  match ← dirNamei k current pathname with
  | none => return .error .enoent
  | some (dir, basename) =>
    if basename = [] then
      if flag.accmode = 0 && !flag.creat && !flag.trunc then return .ok dir
      else
        k.iput dir
        return .error .eisdir
    else
      let (dir, found) ← findEntry k current dir basename
      match found with
      | none =>
        if !flag.creat then
          k.iput dir
          return .error .enoent
        else if !permission current dir (← inodeOf dir) mayWrite then
          k.iput dir
          return .error .eacces
        else openNew k current dir basename mode
      | some de => openFound k current dir de flag

def sysMknod (filename : List (BitVec 8)) (mode : BitVec 16) (dev : Nat) : FsM σ (Except Errno Unit) := do
  if !current.suser then return .error .eperm
  else
    match ← parentOf k current filename with
    | .error e => return .error e
    | .ok (dir, basename) =>
      match ← freshInode k current dir basename with
      | .error e => return .error e
      | .ok (dir, inode) =>
        changeInode inode fun inode => { inode with
          mode := mode
          zone := if sIsBlk mode || sIsChr mode || sIsProc mode then Function.update inode.zone 0 dev else inode.zone }
        match ← addEntry k dir basename with
        | none =>
          k.iput dir
          changeInode inode fun inode => { inode with nlinks := 0 }
          k.iput inode
          return .error .enospc
        | some de =>
          nameInode de inode
          k.iput dir
          k.iput inode
          return .ok ()

/-- The new inode made into a directory of '.' and '..', in `sys_mkdir`. -/
def newDirectory (dir inode : Ino) (mode : BitVec 16) : FsM σ (Except Errno Unit) := do
  changeInode inode fun inode => { inode with size := 32 }
  let zone ← k.newBlock inode.dev
  changeInode inode fun inode => { inode with zone := Function.update inode.zone 0 zone }
  if zone = 0 then
    k.iput dir
    changeInode inode fun inode => { inode with nlinks := inode.nlinks - 1 }
    k.iput inode
    return .error .enospc
  else if !(← k.bread inode.dev zone) then
    k.iput dir
    k.freeBlock inode.dev zone
    changeInode inode fun inode => { inode with nlinks := inode.nlinks - 1 }
    k.iput inode
    return .error .error
  else
    changeEntry ⟨inode.dev, zone, 0⟩ fun de => DirEntry.strcpy { de with inode := inode.num } dot
    changeEntry ⟨inode.dev, zone, 1⟩ fun de => DirEntry.strcpy { de with inode := dir.num } dotDot
    changeInode inode fun inode => { inode with
      nlinks := 2
      mode := iDirectory ||| mode &&& 0o0777 &&& ~~~current.umask }
    return .ok ()

/-- `sys_mkdir` up to the entry in the parent. -/
def mkdirEntry (pathname : List (BitVec 8)) (mode : BitVec 16) : FsM σ (Except Errno (Ino × Ino × Option Slot)) := do
  if !current.suser then return .error .eperm
  else
    match ← parentOf k current pathname with
    | .error e => return .error e
    | .ok (dir, basename) =>
      match ← freshInode k current dir basename with
      | .error e => return .error e
      | .ok (dir, inode) =>
        match ← newDirectory k current dir inode mode with
        | .error e => return .error e
        | .ok () => return .ok (dir, inode, ← addEntry k dir basename)

def sysMkdir (pathname : List (BitVec 8)) (mode : BitVec 16) : FsM σ (Except Errno Unit) := do
  match ← mkdirEntry k current pathname mode with
  | .error e => return .error e
  | .ok (dir, inode, none) =>
    k.iput dir
    k.freeBlock inode.dev ((← inodeOf inode).zone 0)
    changeInode inode fun inode => { inode with nlinks := 0 }
    k.iput inode
    return .error .enospc
  | .ok (dir, inode, some de) =>
    nameInode de inode
    changeInode dir fun dir => { dir with nlinks := dir.nlinks + 1 }
    k.iput dir
    k.iput inode
    return .ok ()

end Creating

section Removing

/-- The loop of `empty_dir` from the second block on, `left` blocks before the end. -/
def emptyFrom (inode : Ino) (len : Nat) : Nat → Nat → FsM σ Bool
  | 0, _ => return true
  | left + 1, n => do
    let block ← k.bmap inode n
    if block = 0 then emptyFrom inode len left (n + 1)
    else if !(← k.bread inode.dev block) then return false
    else
      let contents := (← get).block inode.dev block
      if ∃ i : Fin dirEntriesPerBlock, n * dirEntriesPerBlock + i.val < len ∧ (contents i).inode ≠ 0 then return false
      else emptyFrom inode len left (n + 1)

/-- `strcmp` of a name in an entry, which ends at the first null byte. -/
def nameIs (name : Name) (de : DirEntry) : Bool :=
  decide (∀ i : Fin nameLen, (i.val < name.length → name[i.val]? = some (de.name i)) ∧ (i.val = name.length → de.name i = 0))

def emptyDir (inode : Ino) : FsM σ Bool := do
  let found ← inodeOf inode
  let len := found.size / dirEntrySize
  let block := found.zone 0
  if len < 2 ∨ block = 0 then return false
  else if !(← k.bread inode.dev block) then return false
  else
    let contents := (← get).block inode.dev block
    if (contents 0).inode ≠ inode.num ∨ (contents 1).inode = 0 ∨ !nameIs dot (contents 0) ∨ !nameIs dotDot (contents 1) then
      return false
    else if ∃ i : Fin dirEntriesPerBlock, 2 ≤ i.val ∧ i.val < len ∧ (contents i).inode ≠ 0 then return false
    else emptyFrom k inode len ((len - 1) / dirEntriesPerBlock) 1

/-- `de->inode = 0` -/
def clearEntry (slot : Slot) : FsM σ Unit := changeEntry slot fun de => { de with inode := 0 }

def sysRmdir (name : List (BitVec 8)) : FsM σ (Except Errno Unit) := do
  if !current.suser then return .error .eperm
  else
    match ← parentOf k current name with
    | .error e => return .error e
    | .ok (dir, basename) =>
      let (dir, found) ← findEntry k current dir basename
      match found with
      | none =>
        k.iput dir
        return .error .enoent
      | some de =>
        match ← k.iget dir.dev (← entryInode de) with
        | none =>
          k.iput dir
          return .error .eperm
        | some inode =>
          let parent ← inodeOf dir
          let child ← inodeOf inode
          if parent.mode &&& sIsvtx ≠ 0 ∧ current.euid ≠ 0 ∧ child.uid ≠ current.euid then
            k.iput dir
            k.iput inode
            return .error .eperm
          else if inode.dev ≠ dir.dev ∨ 1 < child.count then
            k.iput dir
            k.iput inode
            return .error .eperm
          else if inode = dir then
            k.iput inode
            k.iput dir
            return .error .eperm
          else if !sIsDir child.mode then
            k.iput inode
            k.iput dir
            return .error .enotdir
          else if !(← emptyDir k inode) then
            k.iput inode
            k.iput dir
            return .error .enotempty
          else
            clearEntry de
            changeInode inode fun inode => { inode with nlinks := 0 }
            changeInode dir fun dir => { dir with nlinks := dir.nlinks - 1 }
            k.iput dir
            k.iput inode
            return .ok ()

def sysUnlink (name : List (BitVec 8)) : FsM σ (Except Errno Unit) := do
  match ← parentOf k current name with
  | .error e => return .error e
  | .ok (dir, basename) =>
    let (dir, found) ← findEntry k current dir basename
    match found with
    | none =>
      k.iput dir
      return .error .enoent
    | some de =>
      match ← k.iget dir.dev (← entryInode de) with
      | none =>
        k.iput dir
        return .error .enoent
      | some inode =>
        let parent ← inodeOf dir
        let file ← inodeOf inode
        if parent.mode &&& sIsvtx ≠ 0 ∧ !current.suser ∧ current.euid ≠ file.uid ∧ current.euid ≠ parent.uid then
          k.iput dir
          k.iput inode
          return .error .eperm
        else if sIsDir file.mode then
          k.iput inode
          k.iput dir
          return .error .eperm
        else
          if file.nlinks = 0 then changeInode inode fun inode => { inode with nlinks := 1 }
          clearEntry de
          changeInode inode fun inode => { inode with nlinks := inode.nlinks - 1 }
          k.iput inode
          k.iput dir
          return .ok ()

end Removing

section Linking

/-- `sys_link` up to the entry of the new name. -/
def linkEntry (oldname newname : List (BitVec 8)) : FsM σ (Except Errno (Ino × Ino × Slot)) := do
  match ← namei k current oldname with
  | none => return .error .enoent
  | some oldinode =>
    if sIsDir (← inodeOf oldinode).mode then
      k.iput oldinode
      return .error .eperm
    else
      match ← dirNamei k current newname with
      | none =>
        k.iput oldinode
        return .error .eacces
      | some (dir, basename) =>
        if basename = [] then
          k.iput oldinode
          k.iput dir
          return .error .eperm
        else if dir.dev ≠ oldinode.dev then
          k.iput dir
          k.iput oldinode
          return .error .exdev
        else if !permission current dir (← inodeOf dir) mayWrite then
          k.iput dir
          k.iput oldinode
          return .error .eacces
        else
          let (dir, found) ← findEntry k current dir basename
          match found with
          | some _ =>
            k.iput dir
            k.iput oldinode
            return .error .eexist
          | none =>
            match ← addEntry k dir basename with
            | none =>
              k.iput dir
              k.iput oldinode
              return .error .enospc
            | some de => return .ok (oldinode, dir, de)

def sysLink (oldname newname : List (BitVec 8)) : FsM σ (Except Errno Unit) := do
  match ← linkEntry k current oldname newname with
  | .error e => return .error e
  | .ok (oldinode, dir, de) =>
    nameInode de oldinode
    k.iput dir
    changeInode oldinode fun oldinode => { oldinode with nlinks := oldinode.nlinks + 1 }
    k.iput oldinode
    return .ok ()

end Linking

end Linux011.Fs

import Linux011.Fs.Entries

namespace Linux011.Fs

variable {σ : Type} (k : Kernel σ) (current : Process)

def slash : BitVec 8 := 0x2f

/-- The test that `get_dir` makes of each directory. -/
def enterable (current : Process) (dir : Ino) (inode : MInode) : Bool :=
  sIsDir inode.mode && permission current dir inode mayExec

/-- The loop of `get_dir`, within a component of the path: `thisname` is what has been read of it. -/
def getDirFrom : List (BitVec 8) → Name → Ino → FsM σ (Option Ino)
  | [], _, inode => return some inode
  | c :: pathname, thisname, inode =>
    if c = 0 then return some inode
    else if c ≠ slash then getDirFrom pathname (thisname ++ [c]) inode
    else do
      let (inode, found) ← findEntry k current inode thisname
      match found with
      | none =>
        k.iput inode
        return none
      | some de =>
        let inr ← entryInode de
        let idev := inode.dev
        k.iput inode
        match ← k.iget idev inr with
        | none => return none
        | some inode =>
          if enterable current inode (← inodeOf inode) then getDirFrom pathname [] inode
          else
            k.iput inode
            return none

/-- Where `get_dir` begins, and the path that is left. -/
def startOf (pathname : List (BitVec 8)) (root pwd : Ino) : Option (Ino × List (BitVec 8)) :=
  match pathname with
  | [] => none
  | c :: rest => if c = slash then some (root, rest) else if c ≠ 0 then some (pwd, pathname) else none

def getDir (pathname : List (BitVec 8)) : FsM σ (Option Ino) := do
  match current.root with
  | none => throw "No root inode"
  | some root =>
    if (← inodeOf root).count = 0 then throw "No root inode"
    match current.pwd with
    | none => throw "No cwd inode"
    | some pwd =>
      if (← inodeOf pwd).count = 0 then throw "No cwd inode"
      match startOf pathname root pwd with
      | none => return none
      | some (inode, pathname) =>
        hold inode
        if enterable current inode (← inodeOf inode) then getDirFrom k current pathname [] inode
        else
          k.iput inode
          return none

/-- The loop of `dir_namei`: what comes after the last slash. -/
def basenameFrom : List (BitVec 8) → Name → Name
  | [], basename => basename
  | c :: pathname, basename =>
    if c = 0 then basename
    else if c = slash then basenameFrom pathname []
    else basenameFrom pathname (basename ++ [c])

def dirNamei (pathname : List (BitVec 8)) : FsM σ (Option (Ino × Name)) := do
  match ← getDir k current pathname with
  | none => return none
  | some dir => return some (dir, basenameFrom pathname [])

def namei (pathname : List (BitVec 8)) : FsM σ (Option Ino) := do
  match ← dirNamei k current pathname with
  | none => return none
  | some (dir, basename) =>
    if basename = [] then return some dir
    else
      let (dir, found) ← findEntry k current dir basename
      match found with
      | none =>
        k.iput dir
        return none
      | some de =>
        let inr ← entryInode de
        let dev := dir.dev
        k.iput dir
        k.iget dev inr

end Linux011.Fs

import Linux011.Library.Machine
import Linux011.Proc.Text
import Mathlib.Logic.Function.Basic

namespace Linux011.Proc

open Linux011.Library

def EINVAL : Int := 22

def EBADF : Int := 9

/-- Where the linker put the two static buffers of 1024 bytes. -/
structure Layout where
  psinfoBuf : BitVec 32
  hdinfoBuf : BitVec 32
  apart : ∀ i < 1024, ∀ j < 1024, psinfoBuf + BitVec.ofNat 32 i ≠ hdinfoBuf + BitVec.ofNat 32 j

inductive Node
  | psinfo
  | hdinfo
  deriving DecidableEq

/-- `PSINFO` and `HDINFO` -/
def nodeOf : Nat → Option Node
  | 0 => some .psinfo
  | 1 => some .hdinfo
  | _ => none

abbrev Memory := BitVec 32 → Byte

/-- The memory of the kernel, and `psinfoPid` and `hdinfoPid`. -/
structure Device where
  memory : Memory
  pid : Node → Int

def Memory.store (memory : Memory) (address : BitVec 32) (text : List Byte) : Memory :=
  fun a => text[(a - address).toNat]?.getD (memory a)

/-- What a format printed, with the byte 0 behind it, and its length. -/
def sprintf (memory : Memory) (buf : BitVec 32) (text : List Byte) : Memory × Nat :=
  (memory.store buf (text ++ [0]), text.length)

def psinfoRow (buf : BitVec 32) (task : Fin 64 → Option Task) (so : Memory × Nat) (i : Fin 64) : Memory × Nat :=
  match task i with
  | none => so
  | some t =>
    let (memory, length) := sprintf so.1 (buf + BitVec.ofNat 32 so.2) t.line
    (memory, so.2 + length)

def refreshPsinfo (memory : Memory) (buf : BitVec 32) (task : Fin 64 → Option Task) : Memory × Nat :=
  let (memory, write) := (List.finRange 64).tail.foldl (psinfoRow buf task) (sprintf memory buf psinfoHeader)
  (memory.store (buf + BitVec.ofNat 32 write) [0], write)

def refreshHdinfo (memory : Memory) (buf : BitVec 32) (root : Option SuperBlock) : Memory × Nat :=
  let (memory, write) :=
    match root with
    | none => (memory, 0)
    | some p => sprintf memory buf p.summary
  (memory.store (buf + BitVec.ofNat 32 write) [0], write)

/-- What the loop of `proc_read` does: the bytes it gives to the user, the indexes it uses, where it leaves
    the position, and whether it met the end. -/
structure Scan where
  bytes : List Byte
  indexes : List (BitVec 32)
  pos : BitVec 32
  ended : Bool

def scan (buf : BitVec 32 → Byte) : Nat → BitVec 32 → Scan
  | 0, pos => ⟨[], [], pos, false⟩
  | count + 1, pos =>
    if buf pos = 0 then ⟨[], [pos], pos, true⟩
    else
      let rest := scan buf count (pos + 1)
      ⟨buf pos :: rest.bytes, pos :: rest.indexes, rest.pos, rest.ended⟩

/-- What a call gives back: with its result the bytes given to the user, the indexes used in the buffer, and
    the text of a refresh it made. -/
structure Reply where
  result : Int
  bytes : List Byte
  indexes : List (BitVec 32)
  produced : Option (Node × List Byte)
  deriving DecidableEq

def Reply.plain (result : Int) : Reply := ⟨result, [], [], none⟩

structure File where
  dev : Nat
  size : BitVec 32
  pos : BitVec 32

structure State where
  device : Device
  system : System
  files : Nat → Option File

section Calls

variable (L : Layout)

def Layout.buf : Node → BitVec 32
  | .psinfo => L.psinfoBuf
  | .hdinfo => L.hdinfoBuf

def refresh (system : System) (memory : Memory) : Node → Memory × Nat
  | .psinfo => refreshPsinfo memory L.psinfoBuf system.task
  | .hdinfo => refreshHdinfo memory L.hdinfoBuf system.root

def printed (buf : BitVec 32) (text : Memory × Nat) : List Byte :=
  (List.range text.2).map fun i => text.1 (buf + BitVec.ofNat 32 i)

/-- One branch of `proc_read`, with the variables of its node. -/
def readNode (device : Device) (system : System) (pid : Int) (node : Node) (pos : BitVec 32) (count : Nat) :
    Device × BitVec 32 × Reply :=
  if device.pid node ≠ -1 ∧ pid ≠ device.pid node then (device, pos, .plain (-EINVAL))
  else
    let (memory, produced) :=
      if pos = 0 then
        ((refresh L system device.memory node).1,
          some (node, printed (L.buf node) (refresh L system device.memory node)))
      else (device.memory, none)
    let loop := scan (fun pos => memory (L.buf node + pos)) count pos
    (⟨memory, if loop.ended then Function.update device.pid node (-1) else device.pid⟩, loop.pos,
      ⟨loop.bytes.length, loop.bytes, loop.indexes, produced⟩)

def procRead (device : Device) (system : System) (pid : Int) (dev : Nat) (pos : BitVec 32) (count : Nat) :
    Device × BitVec 32 × Reply :=
  match nodeOf dev with
  | some node => readNode L device system pid node pos count
  | none => (device, pos, .plain 0)

namespace State

variable (s : State)

/-- `sys_read` on an open file whose inode is `S_ISPROC`. -/
def sysRead (pid : Int) (fd : Nat) (count : Int) : State × Reply :=
  match s.files fd with
  | none => (s, .plain (-EINVAL))
  | some file =>
    if count < 0 then (s, .plain (-EINVAL))
    else if count = 0 then (s, .plain 0)
    else
      let (device, pos, reply) := procRead L s.device s.system pid file.dev file.pos count.toNat
      (⟨device, s.system, Function.update s.files fd (some { file with pos := pos })⟩, reply)

def seek (fd : Nat) (file : File) (pos : BitVec 32) : State × Reply :=
  if pos.slt 0 then (s, .plain (-EINVAL))
  else ({ s with files := Function.update s.files fd (some { file with pos := pos }) }, .plain pos.toInt)

/-- `sys_lseek` on such a file: it is on the root device, which is seekable. -/
def sysLseek (fd : Nat) (offset : BitVec 32) (origin : Int) : State × Reply :=
  match s.files fd with
  | none => (s, .plain (-EBADF))
  | some file =>
    if origin = 0 then s.seek fd file offset
    else if origin = 1 then s.seek fd file (file.pos + offset)
    else if origin = 2 then s.seek fd file (file.size + offset)
    else (s, .plain (-EINVAL))

end State

inductive Call
  | read (fd : Nat) (count : Int)
  | lseek (fd : Nat) (offset : BitVec 32) (origin : Int)
  | change (system : System)

/-- An open file stands for its descriptors, in one process or in several. -/
structure Event where
  pid : Int
  call : Call
  reply : Reply

def State.perform (s : State) (pid : Int) : Call → State × Reply
  | .read fd count => s.sysRead L pid fd count
  | .lseek fd offset origin => s.sysLseek fd offset origin
  | .change system => ({ s with system := system }, .plain 0)

structure Booted (s : State) : Prop where
  pid : ∀ node, s.device.pid node = -1
  clear : ∀ node, ∀ i < 1024, s.device.memory (L.buf node + BitVec.ofNat 32 i) = 0
  start : ∀ fd file, s.files fd = some file → file.pos = 0

def procfs : Machine State Event where
  init := Booted L
  step s e t := s.perform L e.pid e.call = (t, e.reply)

end Calls

end Linux011.Proc

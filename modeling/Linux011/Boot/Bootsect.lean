import Mathlib.Data.BitVec
import Mathlib.Logic.Function.Iterate

namespace Linux011.Boot

abbrev Memory := Nat → BitVec 8

namespace Memory

variable (m : Memory)

/-- The first `n` bytes from address `a` on become those of `bytes`. -/
def fill (a n : Nat) (bytes : Nat → BitVec 8) : Memory :=
  fun x => if a ≤ x ∧ x < a + n then bytes (x - a) else m x

/-- The low byte comes first. -/
def word (a : Nat) : BitVec 16 := m (a + 1) ++ m a

def storeWord (a : Nat) (w : BitVec 16) : Memory :=
  fun x => if x = a + 1 then w.extractLsb' 8 8 else if x = a then w.extractLsb' 0 8 else m x

/-- `rep movw` with the direction flag clear. -/
def movw : Nat → Nat → Nat → Memory → Memory
  | 0, _, _, m => m
  | n + 1, source, target, m => movw n (source + 2) (target + 2) (m.storeWord target (m.word source))

end Memory

/-- The first floppy disk and its drive: the bytes of the disk in the order of its sectors, and for each read the BIOS
    is asked for whether it fails, with what it has left in the buffer by then. `scratch` is what the BIOS leaves below
    the stack of its caller. -/
structure Floppy where
  sectors : Nat
  tracks : Nat
  bytes : Nat → BitVec 8
  fault : Nat → Option (Nat → BitVec 8)
  scratch : Nat → Nat → BitVec 8

/-- The parameters of an `int 0x13` that reads sectors, taken out of the registers. -/
structure Request where
  count : Nat
  cylinder : Nat
  sector : Nat
  head : Nat
  drive : Nat
  buffer : Nat
  deriving DecidableEq

/-- The place of its first sector on a disk with two heads; sectors are counted from 1 on a track. -/
def Request.place (f : Floppy) (r : Request) : Nat := (r.cylinder * 2 + r.head) * f.sectors + (r.sector - 1)

/-- A read stays on one track of the first disk, and its buffer within one 64 kB block, as the DMA controller needs. -/
structure Request.Valid (f : Floppy) (r : Request) : Prop where
  drive : r.drive = 0
  some : 0 < r.count
  first : 1 ≤ r.sector
  track : r.sector - 1 + r.count ≤ f.sectors
  head : r.head < 2
  cylinder : r.cylinder < f.tracks
  block : r.buffer % 65536 + 512 * r.count ≤ 65536

instance (f : Floppy) (r : Request) : Decidable (r.Valid f) :=
  decidable_of_iff (r.drive = 0 ∧ 0 < r.count ∧ 1 ≤ r.sector ∧ r.sector - 1 + r.count ≤ f.sectors ∧ r.head < 2 ∧
      r.cylinder < f.tracks ∧ r.buffer % 65536 + 512 * r.count ≤ 65536)
    ⟨fun ⟨a, b, c, d, e, g, h⟩ => ⟨a, b, c, d, e, g, h⟩, fun ⟨a, b, c, d, e, g, h⟩ => ⟨a, b, c, d, e, g, h⟩⟩

/-- Service 2 of `int 0x13`: the carry flag, and what memory holds then. -/
def Floppy.read (f : Floppy) (calls : Nat) (r : Request) (m : Memory) : Bool × Memory :=
  match f.fault calls with
  | some left => (true, m.fill r.buffer (512 * r.count) left)
  | none =>
    if r.Valid f then (false, m.fill r.buffer (512 * r.count) fun i => f.bytes (512 * r.place f + i))
    else (true, m)

/-- The `%cx` of service 8: the sectors of a track, and the highest track number. -/
def Floppy.parameters (f : Floppy) : BitVec 16 :=
  BitVec.ofNat 8 (f.tracks - 1) ++ (BitVec.ofNat 2 ((f.tracks - 1) / 256) ++ BitVec.ofNat 6 f.sectors)

def SETUPLEN : BitVec 16 := 4

def BOOTSEG : BitVec 16 := 0x07c0

def INITSEG : BitVec 16 := 0x9000

def SETUPSEG : BitVec 16 := 0x9020

def SYSSEG : BitVec 16 := 0x1000

def SYSSIZE : BitVec 16 := 0x3000

def ENDSEG : BitVec 16 := SYSSEG + SYSSIZE

def linear (segment offset : BitVec 16) : Nat := segment.toNat * 16 + offset.toNat

/-- Where `root_dev` is, in the copy of the boot sector. -/
def rootDevAt : Nat := linear INITSEG 508

/-- Where setup ends, and what is left for the stack begins. -/
def setupEnd : Nat := linear SETUPSEG 0x0800

/-- Where the assembler puts the words of the boot sector, `head` and `track` right behind `sread`, and where its calls
    return to, by their offsets in it. -/
class Assembled where
  sread : Nat
  sectors : Nat
  readItBack : BitVec 16
  killMotorBack : BitVec 16
  readTrackBack : BitVec 16
  ordered : sread + 6 ≤ sectors
  inside : sectors + 2 ≤ 508
  killMotor_ne : killMotorBack ≠ readItBack
  readTrack_ne : readTrackBack ≠ readItBack ∧ readTrackBack ≠ killMotorBack

/-- The labels control passes through, and where the routine the boot sector calls or jumps to takes over. A return
    address that is none of its own leads nowhere. -/
inductive Label where
  | start
  | loadSetup
  | okLoadSetup
  | readIt
  | die
  | rpRead
  | ok1Read
  | readTrack
  | badRt
  | readDone
  | readItDone
  | killMotor
  | rootDev
  | rootDefined
  | undefRoot
  | setup
  | lost
  deriving DecidableEq

/-- The machine while the boot sector has it; its code, its words and its stack are in INITSEG. -/
structure Computer where
  label : Label
  ax : BitVec 16
  bx : BitVec 16
  cx : BitVec 16
  dx : BitVec 16
  es : BitVec 16
  sp : BitVec 16
  memory : Memory
  calls : Nat

def high (w : BitVec 16) : BitVec 8 := w.extractLsb' 8 8

def low (w : BitVec 16) : BitVec 8 := w.extractLsb' 0 8

section Words

variable [Assembled]

def sreadAt : Nat := linear INITSEG 0 + Assembled.sread

def headAt : Nat := sreadAt + 2

def trackAt : Nat := sreadAt + 4

def sectorsAt : Nat := linear INITSEG 0 + Assembled.sectors

end Words

namespace Computer

section Machine

variable [Assembled] (f : Floppy) (b : Computer)

def store (a : Nat) (w : BitVec 16) : Computer := { b with memory := b.memory.storeWord a w }

def push (w : BitVec 16) : Computer :=
  let sp := b.sp - 2
  { b with sp, memory := b.memory.storeWord (linear INITSEG sp) w }

def top : BitVec 16 := b.memory.word (linear INITSEG b.sp)

/-- The registers `read_track` changes. -/
def save : Computer := (((b.push b.ax).push b.bx).push b.cx).push b.dx

def restore : Computer :=
  let b := { b with dx := b.top, sp := b.sp + 2 }
  let b := { b with cx := b.top, sp := b.sp + 2 }
  let b := { b with bx := b.top, sp := b.sp + 2 }
  { b with ax := b.top, sp := b.sp + 2 }

/-- A call pushes the offset it is to return to. -/
def call (back : BitVec 16) (label : Label) : Computer := { b.push back with label }

/-- What `int 0x13` reads out of the registers. -/
def request : Request where
  count := (low b.ax).toNat
  cylinder := (high b.cx).toNat + 256 * ((low b.cx).toNat / 64)
  sector := (low b.cx).toNat % 64
  head := (high b.dx).toNat
  drive := (low b.dx).toNat
  buffer := linear b.es b.bx

/-- An interrupt uses the stack below its caller's. -/
def interrupted (n : Nat) : Memory :=
  b.memory.fill setupEnd (linear INITSEG b.sp - setupEnd) (f.scratch n)

/-- `int 0x13` with service 2: the carry flag comes first. -/
def int13 : Bool × Computer :=
  let (failed, memory) := f.read b.calls b.request (b.interrupted f (2 * b.calls))
  (failed, { b with memory, calls := b.calls + 1 })

/-- From `_start` to `load_setup`: the boot sector moves to INITSEG and goes on there, with its stack at 0x9ff00. -/
def start : Computer :=
  let memory := b.memory.movw 256 (linear BOOTSEG 0) (linear INITSEG 0)
  { b with memory, es := INITSEG, sp := 0xff00, label := .loadSetup }

/-- Where the read fails the drive is reset, and the same read tried again. -/
def loadSetup : Computer :=
  let (failed, b) := int13 f { b with dx := 0x0000, cx := 0x0002, bx := 0x0200, ax := 0x0200 + SETUPLEN }
  { b with label := if failed then .loadSetup else .okLoadSetup }

def sectors : BitVec 16 := b.memory.word sectorsAt

def sread : BitVec 16 := b.memory.word sreadAt

def head : BitVec 16 := b.memory.word headAt

def track : BitVec 16 := b.memory.word trackAt

/-- Control goes on where the return address says. -/
def ret : Computer :=
  let ip := b.top
  let label :=
    if ip = Assembled.readItBack then .readItDone
    else if ip = Assembled.killMotorBack then .rootDev
    else if ip = Assembled.readTrackBack then .readDone
    else .lost
  { b with sp := b.sp + 2, label }

/-- The drive parameters are asked for and a message is printed. -/
def okLoadSetup : Computer :=
  let cx := (0 : BitVec 8) ++ low f.parameters
  let b := { b with memory := b.interrupted f (2 * b.calls + 1) }
  let b := b.store sectorsAt cx
  let b := { b with ax := SYSSEG, bx := 0x08c, cx := 36, es := SYSSEG }
  b.call Assembled.readItBack .readIt

def readIt : Computer :=
  if b.es &&& 0x0fff ≠ 0 then { b with ax := b.es, label := .die } else { b with ax := b.es, bx := 0, label := .rpRead }

def rpRead : Computer :=
  let b := { b with ax := b.es }
  if b.es < ENDSEG then { b with label := .ok1Read } else b.ret

/-- The sectors left of the track, or those the segment has room for. -/
def ok1Read : Computer :=
  let ax := b.sectors - b.sread
  let cx := ax <<< 9
  let carry := 65536 ≤ cx.toNat + b.bx.toNat
  let cx := cx + b.bx
  let ax := if carry ∧ cx ≠ 0 then (0 - b.bx) >>> 9 else ax
  call { b with ax, cx } Assembled.readTrackBack .readTrack

/-- `read_track` up to its read: it saves the registers and sets up those for the BIOS. -/
def atRead : Computer :=
  let b := b.save
  let dx := b.track
  let cx := b.sread + 1
  let cx := low dx ++ low cx
  let dx := b.head
  let dx := low dx ++ (0 : BitVec 8)
  let dx := dx &&& 0x0100
  { b with ax := (2 : BitVec 8) ++ low b.ax, cx, dx }

def readTrack : Computer :=
  let (failed, b) := b.atRead.int13 f
  if failed then { b with label := .badRt } else b.restore.ret

/-- The drive is reset and the same read tried again. -/
def badRt : Computer :=
  let b := { b with ax := 0, dx := 0, memory := b.interrupted f (2 * b.calls + 1) }
  { b.restore with label := .readTrack }

/-- What has been read of the track so far, up to `ok3_read`. -/
def okTrack : Computer :=
  let ax := b.ax + b.sread
  if ax ≠ b.sectors then b.store sreadAt ax
  else
    let ax := 1 - b.head
    let b := if ax ≠ 0 then b else b.store trackAt (b.track + 1)
    (b.store headAt ax).store sreadAt 0

/-- From the return of `read_track` to the next round. -/
def readDone : Computer :=
  let cx := b.ax <<< 9
  let b := b.okTrack
  if 65536 ≤ b.bx.toNat + cx.toNat then { b with cx, bx := 0, es := b.es + 0x1000, label := .rpRead }
  else { b with cx, bx := b.bx + cx, label := .rpRead }

def readItDone : Computer := b.call Assembled.killMotorBack .killMotor

/-- `outb` to the port of the motor has no effect on the rest. -/
def killMotor : Computer :=
  let b := b.push b.dx
  let b := { b with dx := 0x3f2, ax := high b.ax ++ (0 : BitVec 8) }
  ret { b with dx := b.top, sp := b.sp + 2 }

/-- Which root device to use. -/
def rootDev : Computer :=
  let ax := b.memory.word rootDevAt
  if ax ≠ 0 then { b with ax, label := .rootDefined }
  else if b.sectors = 15 then { b with ax := 0x0208, bx := b.sectors, label := .rootDefined }
  else if b.sectors = 18 then { b with ax := 0x021c, bx := b.sectors, label := .rootDefined }
  else { b with ax := 0x021c, bx := b.sectors, label := .undefRoot }

def rootDefined : Computer := { b.store rootDevAt b.ax with label := .setup }

def step : Computer :=
  match b.label with
  | .start => b.start
  | .loadSetup => b.loadSetup f
  | .okLoadSetup => b.okLoadSetup f
  | .readIt => b.readIt
  | .rpRead => b.rpRead
  | .ok1Read => b.ok1Read
  | .readTrack => b.readTrack f
  | .badRt => b.badRt f
  | .readDone => b.readDone
  | .readItDone => b.readItDone
  | .killMotor => b.killMotor
  | .rootDev => b.rootDev
  | .rootDefined => b.rootDefined
  | .die | .undefRoot | .setup | .lost => b

/-- The BIOS has loaded the boot sector, whose words are as assembled. -/
structure Fresh (f : Floppy) (b : Computer) : Prop where
  label : b.label = .start
  loaded : ∀ i < 512, b.memory (linear BOOTSEG 0 + i) = f.bytes i
  sread : Memory.word f.bytes Assembled.sread = 1 + SETUPLEN
  head : Memory.word f.bytes (Assembled.sread + 2) = 0
  track : Memory.word f.bytes (Assembled.sread + 4) = 0

end Machine

section Memory

variable (b : Computer)

theorem readIt_memory : b.readIt.memory = b.memory := by
  unfold readIt
  split <;> rfl

theorem rootDev_memory [Assembled] : b.rootDev.memory = b.memory := by
  unfold rootDev
  dsimp only
  split
  · rfl
  · split
    · rfl
    · split <;> rfl

end Memory

end Computer

end Linux011.Boot

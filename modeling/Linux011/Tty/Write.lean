import Linux011.Tty.Screen

namespace Linux011.Tty

open Linux011.Library

def nPar : Nat := 16

def isalpha (c : BitVec 8) : Bool :=
  (0x41 ≤ c.toNat && c.toNat ≤ 0x5a) || (0x61 ≤ c.toNat && c.toNat ≤ 0x7a)

namespace Console

variable (d : Display) (s : Console)

/-- The wrap put off until the next character. -/
def wrap : Console :=
  if d.videoNumColumns ≤ s.x then
    ({ s with x := s.x - d.videoNumColumns, pos := s.pos - d.videoSizeRow } : Console).lf d
  else s

def shown (c : BitVec 8) : BitVec 8 := if s.f12Flag && isalpha c then 0x2a else c

def print (c : BitVec 8) : Console :=
  { s with video := s.video.storeWord s.pos (s.attr ++ s.shown c), pos := s.pos + 2, x := s.x + 1 }

def tab : Console :=
  let c := 8 - (s.x &&& 7)
  let s := { s with x := s.x + c, pos := s.pos + c <<< 1 }
  if d.videoNumColumns < s.x then
    ({ s with x := s.x - d.videoNumColumns, pos := s.pos - d.videoSizeRow } : Console).lf d
  else s

/-- State 0. The character is signed; `eraseChar` is `ERASE_CHAR(tty)`. -/
def ground (c eraseChar : BitVec 8) : Console :=
  if 31 < c.toInt ∧ c.toInt < 127 then (s.wrap d).print c
  else if c = 27 then { s with state := 1 }
  else if c = 10 ∨ c = 11 ∨ c = 12 then s.lf d
  else if c = 13 then s.cr
  else if c.toInt = eraseChar.toNat then s.del d
  else if c = 8 then if s.x ≠ 0 then { s with x := s.x - 1, pos := s.pos - 2 } else s
  else if c = 9 then s.tab d
  else if c = 7 then { s with beeps := s.beeps + 1 }
  else s

/-- State 1. The last two tests of the source read `x` where they mean the character. -/
def escape (c : BitVec 8) : Console :=
  let s := { s with state := 0 }
  if c = 0x5b then { s with state := 2 }
  else if c = 0x45 then s.gotoxy d 0 (s.y + 1)
  else if c = 0x4d then s.ri d
  else if c = 0x44 then s.lf d
  else if c = 0x5a then { s with answers := s.answers + 1 }
  else if s.x = 0x37 then s.saveCur
  else if s.x = 0x38 then s.restoreCur d
  else s

/-- `par[i]` given another value. -/
def setPar (i : Nat) (n : BitVec 32) : Console := { s with par := Function.update s.par i n }

/-- `if (!par[0]) par[0]++` -/
def atLeastOne : Console := if s.par 0 = 0 then s.setPar 0 (s.par 0 + 1) else s

/-- `if (par[i]) par[i]--` -/
def countFromZero (i : Nat) : Console := if s.par i ≠ 0 then s.setPar i (s.par i - 1) else s

/-- `if (!par[1]) par[1] = video_num_lines` -/
def defaultBottom : Console := if s.par 1 = 0 then s.setPar 1 d.videoNumLines else s

/-- `case 'r'` -/
def setRegion : Console :=
  let s := (s.countFromZero 0).defaultBottom d
  if s.par 0 < s.par 1 ∧ s.par 1 ≤ d.videoNumLines then { s with top := s.par 0, bottom := s.par 1 } else s

/-- State 4. -/
def final (c : BitVec 8) : Console :=
  let s := { s with state := 0 }
  match c.toNat with
  | 0x47 | 0x60 =>
    let s := s.countFromZero 0
    s.gotoxy d (s.par 0) s.y
  | 0x41 =>
    let s := s.atLeastOne
    s.gotoxy d s.x (s.y - s.par 0)
  | 0x42 | 0x65 =>
    let s := s.atLeastOne
    s.gotoxy d s.x (s.y + s.par 0)
  | 0x43 | 0x61 =>
    let s := s.atLeastOne
    s.gotoxy d (s.x + s.par 0) s.y
  | 0x44 =>
    let s := s.atLeastOne
    s.gotoxy d (s.x - s.par 0) s.y
  | 0x45 =>
    let s := s.atLeastOne
    s.gotoxy d 0 (s.y + s.par 0)
  | 0x46 =>
    let s := s.atLeastOne
    s.gotoxy d 0 (s.y - s.par 0)
  | 0x64 =>
    let s := s.countFromZero 0
    s.gotoxy d s.x (s.par 0)
  | 0x48 | 0x66 =>
    let s := (s.countFromZero 0).countFromZero 1
    s.gotoxy d (s.par 1) (s.par 0)
  | 0x4a => s.csiJ d (s.par 0)
  | 0x4b => s.csiK d (s.par 0)
  | 0x4c => s.csiL d (s.par 0)
  | 0x4d => s.csiM d (s.par 0)
  | 0x50 => s.csiP d (s.par 0)
  | 0x40 => s.csiAt d (s.par 0)
  | 0x6d => s.csim
  | 0x72 => s.setRegion d
  | 0x73 => s.saveCur
  | 0x75 => s.restoreCur d
  | _ => s

def parameter (c : BitVec 8) : Console :=
  if c = 0x3b ∧ s.npar < nPar - 1 then { s with npar := s.npar + 1 }
  else if 0x30 ≤ c.toInt ∧ c.toInt ≤ 0x39 then
    s.setPar s.npar (10 * s.par s.npar + c.signExtend 32 - 0x30)
  else s.final d c

def bracket (c : BitVec 8) : Console :=
  let s := { s with par := fun i => if i < nPar then 0 else s.par i, npar := 0, state := 3, ques := c = 0x3f }
  if c = 0x3f then s else s.parameter d c

/-- One round of the loop of `con_write`. -/
def writeChar (c eraseChar : BitVec 8) : Console :=
  match s.state with
  | 0 => s.ground d c eraseChar
  | 1 => s.escape d c
  | 2 => s.bracket d c
  | 3 => s.parameter d c
  | 4 => s.final d c
  | _ => s

/-- `con_write` of the characters in the queue, each with the erase character of its time. -/
def conWrite (chars : List (BitVec 8 × BitVec 8)) : Console :=
  chars.foldl (fun s c => s.writeChar d c.1 c.2) s

end Console

/-- What the console is given: a character to write, with the erase character of the time, or the F12
    key. -/
inductive Input
  | char (c eraseChar : BitVec 8)
  | f12

def Console.input (d : Display) (s : Console) : Input → Console
  | .char c eraseChar => s.writeChar d c eraseChar
  | .f12 => s.f12Trigger

/-- What the setup routine left for `con_init`. -/
structure Setup where
  origX : BitVec 8
  origY : BitVec 8
  origVideoMode : BitVec 8
  origVideoCols : BitVec 8
  origVideoEgaBx : BitVec 8

def origVideoLines : BitVec 32 := 25

/-- The display type with its memory: start and end. -/
def Setup.detect (setup : Setup) : VideoType × BitVec 32 × BitVec 32 :=
  if setup.origVideoMode = 7 then
    if setup.origVideoEgaBx ≠ 0x10 then (.egam, 0xb0000, 0xb8000) else (.mda, 0xb0000, 0xb2000)
  else
    if setup.origVideoEgaBx ≠ 0x10 then (.egac, 0xb8000, 0xbc000) else (.cga, 0xb8000, 0xba000)

/-- `display_desc` -/
def VideoType.description : VideoType → List (BitVec 8)
  | .egam => [0x45, 0x47, 0x41, 0x6d]
  | .mda => [0x2a, 0x4d, 0x44, 0x41]
  | .egac => [0x45, 0x47, 0x41, 0x63]
  | .cga => [0x2a, 0x43, 0x47, 0x41]

def Setup.display (setup : Setup) : Display where
  videoType := setup.detect.1
  videoNumColumns := setup.origVideoCols.setWidth 32
  videoSizeRow := setup.origVideoCols.setWidth 32 * 2
  videoNumLines := origVideoLines
  videoMemStart := setup.detect.2.1
  videoMemEnd := setup.detect.2.2
  videoEraseChar := 0x0720

/-- Every second byte from an address on. -/
def describe (m : ByteMemory) : BitVec 32 → List (BitVec 8) → ByteMemory
  | _, [] => m
  | p, c :: cs => describe (m.store p c) (p + 2) cs

/-- `con_init`, with the bytes of memory before it and the erased variables of the console. -/
def conInit (setup : Setup) (bytes : BitVec 32 → BitVec 8) : Console :=
  let d := setup.display
  Console.gotoxy d
    { origin := d.videoMemStart
      scrEnd := d.videoMemStart + d.videoNumLines * d.videoSizeRow
      pos := 0
      x := 0
      y := 0
      top := 0
      bottom := d.videoNumLines
      state := 0
      npar := 0
      par := fun _ => 0
      ques := false
      attr := 0x07
      savedX := 0
      savedY := 0
      f12Flag := false
      beeps := 0
      answers := 0
      video := describe ⟨bytes, []⟩ (d.videoMemStart + d.videoSizeRow - 8) d.videoType.description }
    (setup.origX.setWidth 32) (setup.origY.setWidth 32)

end Linux011.Tty

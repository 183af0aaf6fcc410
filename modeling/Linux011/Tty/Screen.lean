import Linux011.Library.ByteMemory

namespace Linux011.Tty

open Linux011.Library

inductive VideoType
  | mda
  | cga
  | egam
  | egac
  deriving DecidableEq

/-- What `con_init` finds out about the display and nothing changes later. -/
structure Display where
  videoType : VideoType
  videoNumColumns : BitVec 32
  videoSizeRow : BitVec 32
  videoNumLines : BitVec 32
  videoMemStart : BitVec 32
  videoMemEnd : BitVec 32
  videoEraseChar : BitVec 16

/-- The variables of the console and the video memory. `beeps` and `answers` count the calls of
    `sysbeep` and `respond`. -/
structure Console where
  origin : BitVec 32
  scrEnd : BitVec 32
  pos : BitVec 32
  x : BitVec 32
  y : BitVec 32
  top : BitVec 32
  bottom : BitVec 32
  state : Nat
  npar : Nat
  par : Nat → BitVec 32
  ques : Bool
  attr : BitVec 8
  savedX : BitVec 32
  savedY : BitVec 32
  f12Flag : Bool
  beeps : Nat
  answers : Nat
  video : ByteMemory

variable (d : Display) (s : Console)

namespace Console

def gotoxy (newX newY : BitVec 32) : Console :=
  if d.videoNumColumns < newX ∨ d.videoNumLines ≤ newY then s
  else { s with x := newX, y := newY, pos := s.origin + newY * d.videoSizeRow + newX <<< 1 }

/-- The double words in the scroll region less one row. -/
def regionLongs : Nat := (((s.bottom - s.top - 1) * d.videoNumColumns) >>> 1).toNat

/-- Move the scroll region up in memory and erase its last row. -/
def moveUp : Console :=
  let edi := s.origin + d.videoSizeRow * s.top
  let esi := s.origin + d.videoSizeRow * (s.top + 1)
  let count := s.regionLongs d
  let moved := ByteMemory.movsl 4 count edi esi s.video
  { s with
    video := ByteMemory.stosw 2 d.videoEraseChar d.videoNumColumns.toNat
      (edi + 4 * BitVec.ofNat 32 count) moved }

/-- The fast scroll of the whole screen: the origin moves a row on, back to the start of the video memory
    where the screen would leave it. -/
def moveOrigin : Console :=
  let s := { s with
    origin := s.origin + d.videoSizeRow
    pos := s.pos + d.videoSizeRow
    scrEnd := s.scrEnd + d.videoSizeRow }
  if d.videoMemEnd < s.scrEnd then
    let count := (((d.videoNumLines - 1) * d.videoNumColumns) >>> 1).toNat
    let moved := ByteMemory.movsl 4 count d.videoMemStart s.origin s.video
    { s with
      video := ByteMemory.stosw 2 d.videoEraseChar d.videoNumColumns.toNat
        (d.videoMemStart + 4 * BitVec.ofNat 32 count) moved
      scrEnd := s.scrEnd - (s.origin - d.videoMemStart)
      pos := s.pos - (s.origin - d.videoMemStart)
      origin := d.videoMemStart }
  else
    { s with
      video := ByteMemory.stosw 2 d.videoEraseChar d.videoNumColumns.toNat (s.scrEnd - d.videoSizeRow) s.video }

def scrup : Console :=
  if d.videoType = .egac ∨ d.videoType = .egam then
    if s.top = 0 ∧ s.bottom = d.videoNumLines then s.moveOrigin d else s.moveUp d
  else s.moveUp d

/-- Both branches of the source are the same. -/
def scrdown : Console :=
  let edi := s.origin + d.videoSizeRow * s.bottom - 4
  let esi := s.origin + d.videoSizeRow * (s.bottom - 1) - 4
  let count := s.regionLongs d
  let moved := ByteMemory.movsl (-4) count edi esi s.video
  { s with
    video := ByteMemory.stosw (-2) d.videoEraseChar d.videoNumColumns.toNat
      (edi - 4 * BitVec.ofNat 32 count + 2) moved }

def lf : Console :=
  if s.y + 1 < s.bottom then { s with y := s.y + 1, pos := s.pos + d.videoSizeRow } else s.scrup d

def ri : Console :=
  if s.top < s.y then { s with y := s.y - 1, pos := s.pos - d.videoSizeRow } else s.scrdown d

def cr : Console := { s with pos := s.pos - s.x <<< 1, x := 0 }

def del : Console :=
  if s.x ≠ 0 then
    { s with pos := s.pos - 2, x := s.x - 1, video := s.video.storeWord (s.pos - 2) d.videoEraseChar }
  else s

/-- `rep stosw` of the erase character. -/
def erase (start count : BitVec 32) : Console :=
  { s with video := ByteMemory.stosw 2 d.videoEraseChar count.toNat start s.video }

def csiJ (par : BitVec 32) : Console :=
  if par = 0 then s.erase d s.pos ((s.scrEnd - s.pos) >>> 1)
  else if par = 1 then s.erase d s.origin ((s.pos - s.origin) >>> 1)
  else if par = 2 then s.erase d s.origin (d.videoNumColumns * d.videoNumLines)
  else s

def csiK (par : BitVec 32) : Console :=
  if par = 0 then
    if d.videoNumColumns ≤ s.x then s else s.erase d s.pos (d.videoNumColumns - s.x)
  else if par = 1 then
    s.erase d (s.pos - s.x <<< 1) (if s.x < d.videoNumColumns then s.x else d.videoNumColumns)
  else if par = 2 then s.erase d (s.pos - s.x <<< 1) d.videoNumColumns
  else s

def attrAfter (attr : BitVec 8) (par : BitVec 32) : BitVec 8 :=
  if par = 0 then 0x07
  else if par = 1 then 0x0f
  else if par = 4 then 0x0f
  else if par = 7 then 0x70
  else if par = 27 then 0x07
  else attr

/-- `csi_m` -/
def csim : Console :=
  { s with attr := (List.range (s.npar + 1)).foldl (fun attr i => attrAfter attr (s.par i)) s.attr }

/-- The loop of `insert_char`. -/
def insertFrom : Nat → BitVec 32 → BitVec 16 → ByteMemory → ByteMemory
  | 0, _, _, m => m
  | n + 1, p, old, m => insertFrom n (p + 2) (m.word p) (m.storeWord p old)

def insertChar : Console :=
  { s with video := insertFrom (d.videoNumColumns.toNat - s.x.toNat) s.pos d.videoEraseChar s.video }

def insertLine : Console :=
  { ({ s with top := s.y, bottom := d.videoNumLines } : Console).scrdown d with top := s.top, bottom := s.bottom }

/-- The loop of `delete_char`, and the erased last cell. -/
def deleteFrom (erased : BitVec 16) : Nat → BitVec 32 → ByteMemory → ByteMemory
  | 0, p, m => m.storeWord p erased
  | n + 1, p, m => deleteFrom erased n (p + 2) (m.storeWord p (m.word (p + 2)))

def deleteChar : Console :=
  if d.videoNumColumns ≤ s.x then s
  else
    { s with
      video := deleteFrom d.videoEraseChar (d.videoNumColumns.toNat - s.x.toNat - 1) s.pos s.video }

def deleteLine : Console :=
  { ({ s with top := s.y, bottom := d.videoNumLines } : Console).scrup d with top := s.top, bottom := s.bottom }

/-- A count taken from a parameter: at most a bound, and 1 for none. -/
def rounds (nr bound : BitVec 32) : Nat := if bound < nr then bound.toNat else if nr = 0 then 1 else nr.toNat

def csiAt (nr : BitVec 32) : Console := (insertChar d)^[rounds nr d.videoNumColumns] s

def csiL (nr : BitVec 32) : Console := (insertLine d)^[rounds nr d.videoNumLines] s

def csiP (nr : BitVec 32) : Console := (deleteChar d)^[rounds nr d.videoNumColumns] s

/-- `csi_M` -/
def csiM (nr : BitVec 32) : Console := (deleteLine d)^[rounds nr d.videoNumLines] s

def saveCur : Console := { s with savedX := s.x, savedY := s.y }

def restoreCur : Console := s.gotoxy d s.savedX s.savedY

def f12Trigger : Console := { s with f12Flag := !s.f12Flag }

end Console

end Linux011.Tty

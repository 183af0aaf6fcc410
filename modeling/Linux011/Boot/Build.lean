import Linux011.Boot.Start
import Linux011.Library.Loop
import Mathlib.Tactic.Linarith

namespace Linux011.Boot

open Linux011.Library

abbrev Bytes := List (BitVec 8)

def MINIX_HEADER : Nat := 32

def SYS_SIZE : Nat := 0x3000

def DEFAULT_MAJOR_ROOT : BitVec 8 := 3

def DEFAULT_MINOR_ROOT : BitVec 8 := 1

def SETUP_SECTS : Nat := 4

def bufSize : Nat := 1024

def usage : String := "Usage: build bootsect setup system [rootdev] [> image]"

def dieIf (condition : Prop) [Decidable condition] (message : String) : Except String Unit :=
  if condition then .error message else .ok ()

/-- `((long *) buf)[k]`, with longs of four bytes. -/
def long (buf : Bytes) (k : Nat) : BitVec 32 :=
  buf.getD (4 * k + 3) 0 ++ buf.getD (4 * k + 2) 0 ++ buf.getD (4 * k + 1) 0 ++ buf.getD (4 * k) 0

/-- `*(unsigned short *)(buf+k)`. -/
def short (buf : Bytes) (k : Nat) : BitVec 16 := buf.getD (k + 1) 0 ++ buf.getD k 0

/-- `write` to a file that can take so many bytes, and the death of the program where it takes fewer than it is given. -/
def write (room : Nat) (out buf : Bytes) : Except String Bytes := do
  dieIf (room < out.length + buf.length) "Write call failed"
  return out ++ buf

/-- The root device of the fourth argument, as major and minor number. -/
def rootDevice (stat : String → Option (BitVec 32)) : Option String → Except String (BitVec 8 × BitVec 8)
  | some argument =>
    if argument ≠ "FLOPPY" then
      match stat argument with
      | none => .error "Couldn't stat root device."
      | some rdev => .ok ((rdev >>> 8).setWidth 8, (rdev &&& 0xff).setWidth 8)
    else .ok (0, 0)
  | none => .ok (DEFAULT_MAJOR_ROOT, DEFAULT_MINOR_ROOT)

/-- The checks of the header of 'boot' and of that of 'setup'. -/
def checkHeader (name : String) (buf : Bytes) : Except String Unit := do
  dieIf (long buf 0 ≠ 0x04100301) ("Non-Minix header of " ++ name)
  dieIf (long buf 1 ≠ BitVec.ofNat 32 MINIX_HEADER) ("Non-Minix header of " ++ name)
  dieIf (long buf 3 ≠ 0) ("Illegal data segment in " ++ name)
  dieIf (long buf 4 ≠ 0) ("Illegal bss in " ++ name)
  dieIf (long buf 5 ≠ 0) ("Non-Minix header of " ++ name)
  dieIf (long buf 7 ≠ 0) ("Illegal symbol table in " ++ name)

/-- `open` for reading. -/
def openFile (files : String → Option Bytes) (path name : String) : Except String Bytes :=
  match files path with
  | none => .error ("Unable to open " ++ name)
  | some file => .ok file

/-- A file is opened and its header read and checked; the rest of the file is left. -/
def openMinix (files : String → Option Bytes) (path name : String) : Except String Bytes := do
  let file ← openFile files path name
  dieIf ((file.take MINIX_HEADER).length ≠ MINIX_HEADER) ("Unable to read header of " ++ name)
  checkHeader name (file.take MINIX_HEADER)
  return file.drop MINIX_HEADER

/-- Read and write in turn, to the end of the file; with the bytes there were. -/
def copyFile (room : Nat) (out file : Bytes) : Except String (Bytes × Nat) :=
  if file = [] then .ok (out, 0)
  else do
    let out ← write room out (file.take bufSize)
    let (out, i) ← copyFile room out (file.drop bufSize)
    return (out, i + (file.take bufSize).length)
termination_by file.length
decreasing_by
  have some := List.length_pos_iff.mpr ‹file ≠ []›
  rw [List.length_drop]
  unfold bufSize
  omega

/-- Zeroes, up to the end of the sectors of setup. -/
def pad (room : Nat) (out : Bytes) (i : Nat) : Except String Bytes :=
  if i < SETUP_SECTS * 512 then do
    let c := min (SETUP_SECTS * 512 - i) bufSize
    let out ← write room out (List.replicate c 0)
    pad room out (i + c)
  else .ok out
termination_by SETUP_SECTS * 512 - i
decreasing_by
  unfold bufSize
  omega

/-- The boot sector, with the root device in it. -/
def buildBoot (files : String → Option Bytes) (room : Nat) (path : String) (major minor : BitVec 8) : Except String Bytes := do
  let file ← openMinix files path "'boot'"
  let buf := file.take bufSize
  dieIf (buf.length ≠ 512) "Boot block must be exactly 512 bytes"
  dieIf (short buf 510 ≠ 0xAA55) "Boot block hasn't got boot flag (0xAA55)"
  write room [] ((buf.set 508 minor).set 509 major)

def buildSetup (files : String → Option Bytes) (room : Nat) (path : String) (out : Bytes) : Except String Bytes := do
  let file ← openMinix files path "'setup'"
  let (out, i) ← copyFile room out file
  dieIf (SETUP_SECTS * 512 < i) "Setup exceeds SETUP_SECTS sectors - rewrite build/boot/setup"
  pad room out i

def buildSystem (files : String → Option Bytes) (room : Nat) (path : String) (out : Bytes) : Except String Bytes :=
  if "none" ≠ path then do
    let file ← openFile files path "'system'"
    let (out, i) ← copyFile room out file
    dieIf (SYS_SIZE * 16 < i) "System is too big"
    return out
  else .ok out

/-- `main`: the files by their names, the devices by theirs, and what standard output can take. -/
def build (files : String → Option Bytes) (stat : String → Option (BitVec 32)) (room : Nat) (argv : List String) :
    Except String Bytes := do
  dieIf (argv.length ≠ 4 ∧ argv.length ≠ 5) usage
  let (major, minor) ← rootDevice stat argv[4]?
  dieIf (major ≠ 2 ∧ major ≠ 3 ∧ major ≠ 0) "Bad root device --- major #"
  let out ← buildBoot files room (argv.getD 1 "") major minor
  let out ← buildSetup files room (argv.getD 2 "") out
  buildSystem files room (argv.getD 3 "") out

section Results

variable {files : String → Option Bytes} {stat : String → Option (BitVec 32)} {room i : Nat} {path name message : String}
  {argv : List String} {out out' file buf rest image boot setup system : Bytes} {major minor : BitVec 8}

theorem dieIf_ok {condition : Prop} [Decidable condition] {u : Unit} : dieIf condition message = .ok u ↔ ¬ condition := by
  unfold dieIf
  split
  · rename_i dies
    refine ⟨?_, fun lives => absurd dies lives⟩
    intro same
    cases same
  · rename_i lives
    exact ⟨fun _ => lives, fun _ => rfl⟩

theorem bind_ok {α β : Type} {x : Except String α} {g : α → Except String β} {r : β} :
    x >>= g = .ok r ↔ ∃ a, x = .ok a ∧ g a = .ok r := by
  constructor
  · exact returned_bind
  · rintro ⟨a, rfl, returned⟩
    exact returned

theorem write_ok : write room out buf = .ok out' ↔ out' = out ++ buf ∧ out.length + buf.length ≤ room := by
  unfold write
  rw [bind_ok]
  constructor
  · rintro ⟨u, lives, same⟩
    rw [dieIf_ok] at lives
    exact ⟨(Except.ok.inj same).symm, by omega⟩
  · rintro ⟨rfl, enough⟩
    exact ⟨(), dieIf_ok.mpr (by omega), rfl⟩

/-- The header of an executable without data, symbols and the like. -/
structure Minix (buf : Bytes) : Prop where
  magic : long buf 0 = 0x04100301
  size : long buf 1 = 32
  data : long buf 3 = 0
  bss : long buf 4 = 0
  entry : long buf 5 = 0
  symbols : long buf 7 = 0

theorem checkHeader_ok {u : Unit} : checkHeader name buf = .ok u ↔ Minix buf := by
  unfold checkHeader
  simp only [bind_ok, dieIf_ok, not_not]
  constructor
  · rintro ⟨_, magic, _, size, _, data, _, bss, _, entry, symbols⟩
    exact ⟨magic, size, data, bss, entry, symbols⟩
  · rintro ⟨magic, size, data, bss, entry, symbols⟩
    exact ⟨(), magic, (), size, (), data, (), bss, (), entry, symbols⟩

theorem openFile_ok : openFile files path name = .ok file ↔ files path = some file := by
  unfold openFile
  cases files path with
  | none => simp
  | some other => simp

def Headed (files : String → Option Bytes) (path : String) (rest : Bytes) : Prop :=
  ∃ header, files path = some (header ++ rest) ∧ header.length = 32 ∧ Minix header

theorem openMinix_ok : openMinix files path name = .ok rest ↔ Headed files path rest := by
  unfold openMinix
  simp only [bind_ok, openFile_ok, dieIf_ok, checkHeader_ok, not_not]
  constructor
  · rintro ⟨file, there, _, size, _, header, same⟩
    refine ⟨file.take MINIX_HEADER, ?_, size, header⟩
    rw [← Except.ok.inj same, List.take_append_drop]
    exact there
  · rintro ⟨header, there, size, minix⟩
    have first : (header ++ rest).take MINIX_HEADER = header := List.take_left' size
    refine ⟨_, there, (), ?_, (), ?_, congrArg _ (List.drop_left' size)⟩
    · rw [first]
      exact size
    · rw [first]
      exact minix

theorem copyFile_ok (enough : out.length ≤ room) : copyFile room out file = .ok (out', i) ↔
    out' = out ++ file ∧ i = file.length ∧ out.length + file.length ≤ room := by
  induction out, file using copyFile.induct generalizing i out' with
  | case1 out => 
    rw [copyFile, if_pos rfl, List.append_nil]
    simp only [Except.ok.injEq, Prod.mk.injEq, List.length_nil]
    constructor
    · rintro ⟨rfl, rfl⟩
      exact ⟨rfl, rfl, enough⟩
    · rintro ⟨rfl, rfl, -⟩
      exact ⟨rfl, rfl⟩
  | case2 out file some ih => 
    rw [copyFile, if_neg some]
    have parts : file.length = (file.take bufSize).length + (file.drop bufSize).length := by
      rw [← List.length_append, List.take_append_drop]
    have whole : out ++ file.take bufSize ++ file.drop bufSize = out ++ file := by
      rw [List.append_assoc, List.take_append_drop]
    simp only [bind_ok, write_ok, Prod.exists]
    constructor
    · rintro ⟨_, ⟨rfl, fits⟩, out₁, i₁, copied, same⟩
      rw [ih _ (by rw [List.length_append]; exact fits), whole, List.length_append] at copied
      rcases copied with ⟨rfl, rfl, fits'⟩
      rcases Prod.mk.inj (Except.ok.inj same) with ⟨rfl, rfl⟩
      exact ⟨rfl, by omega, by omega⟩
    · rintro ⟨rfl, rfl, fits⟩
      have first : out.length + (file.take bufSize).length ≤ room := by omega
      have copied : copyFile room (out ++ file.take bufSize) (file.drop bufSize) = .ok (out ++ file, (file.drop bufSize).length) :=
        (ih _ (by rw [List.length_append]; exact first)).mpr ⟨whole.symm, rfl, by rw [List.length_append]; omega⟩
      refine ⟨_, ⟨rfl, first⟩, _, _, copied, ?_⟩
      rw [parts, Nat.add_comm]
      rfl

theorem pad_ok (enough : out.length ≤ room) : pad room out i = .ok out' ↔
    out' = out ++ List.replicate (2048 - i) 0 ∧ out.length + (2048 - i) ≤ room := by
  induction out, i using pad.induct with
  | case1 out i below c ih =>
    have most : c ≤ SETUP_SECTS * 512 - i := Nat.min_le_left _ _
    have sectors : SETUP_SECTS * 512 = 2048 := rfl
    have whole : out ++ List.replicate c 0 ++ List.replicate (2048 - (i + c)) 0 =
        out ++ List.replicate (2048 - i) (0 : BitVec 8) := by
      rw [List.append_assoc, List.replicate_append_replicate, show c + (2048 - (i + c)) = 2048 - i by omega]
    rw [pad, if_pos below]
    simp only [bind_ok, write_ok]
    constructor
    · rintro ⟨_, ⟨rfl, fits⟩, padded⟩
      rw [List.length_replicate] at fits
      have size : (out ++ List.replicate c (0 : BitVec 8)).length = out.length + c := by
        rw [List.length_append, List.length_replicate]
      rw [ih _ (by rw [size]; exact fits), whole, size] at padded
      exact ⟨padded.1, by omega⟩
    · rintro ⟨rfl, fits⟩
      have size : (out ++ List.replicate c (0 : BitVec 8)).length = out.length + c := by
        rw [List.length_append, List.length_replicate]
      refine ⟨_, ⟨rfl, by rw [List.length_replicate]; omega⟩, ?_⟩
      exact (ih _ (by rw [size]; omega)).mpr ⟨whole.symm, by rw [size]; omega⟩
  | case2 out i above =>
    have sectors : SETUP_SECTS * 512 = 2048 := rfl
    rw [pad, if_neg above, show 2048 - i = 0 by omega, List.replicate_zero, List.append_nil, Except.ok.injEq]
    exact ⟨fun same => ⟨same.symm, by omega⟩, fun same => same.1.symm⟩

/-- What the image is made of, and from which arguments. -/
structure Parts (files : String → Option Bytes) (stat : String → Option (BitVec 32)) (argv : List String)
    (major minor : BitVec 8) (boot setup system : Bytes) : Prop where
  arguments : argv.length = 4 ∨ argv.length = 5
  root : rootDevice stat argv[4]? = .ok (major, minor)
  known : major = 2 ∨ major = 3 ∨ major = 0
  bootFile : Headed files (argv.getD 1 "") boot
  sector : boot.length = 512
  flag : short boot 510 = 0xAA55
  setupFile : Headed files (argv.getD 2 "") setup
  sectors : setup.length ≤ 2048
  systemFile : argv.getD 3 "" = "none" ∧ system = [] ∨ argv.getD 3 "" ≠ "none" ∧ files (argv.getD 3 "") = some system
  size : system.length ≤ 0x30000

/-- The image: the boot sector with the root device, setup and zeroes in four sectors, the system. -/
def layout (major minor : BitVec 8) (boot setup system : Bytes) : Bytes :=
  (boot.set 508 minor).set 509 major ++ (setup ++ List.replicate (2048 - setup.length) 0) ++ system

theorem buildBoot_ok : buildBoot files room path major minor = .ok out ↔ ∃ boot, Headed files path boot ∧
    boot.length = 512 ∧ short boot 510 = 0xAA55 ∧ out = (boot.set 508 minor).set 509 major ∧ 512 ≤ room := by
  unfold buildBoot
  simp only [bind_ok, openMinix_ok, dieIf_ok, write_ok, not_not, List.nil_append, List.length_nil, Nat.zero_add]
  constructor
  · rintro ⟨boot, headed, _, sector, _, flag, rfl, fits⟩
    have all : boot.length = 512 := by
      rw [List.length_take, bufSize] at sector
      omega
    rw [List.take_of_length_le (by rw [all]; decide)] at flag fits ⊢
    rw [List.length_set, List.length_set, all] at fits
    exact ⟨boot, headed, all, flag, rfl, fits⟩
  · rintro ⟨boot, headed, sector, flag, rfl, fits⟩
    have all : boot.take bufSize = boot := List.take_of_length_le (by rw [sector]; decide)
    refine ⟨boot, headed, (), ?_, (), ?_, ?_, ?_⟩
    all_goals rw [all]
    · exact sector
    · exact flag
    · rw [List.length_set, List.length_set, sector]
      exact fits

theorem buildSetup_ok (enough : out.length ≤ room) : buildSetup files room path out = .ok out' ↔ ∃ setup,
    Headed files path setup ∧ setup.length ≤ 2048 ∧ out' = out ++ (setup ++ List.replicate (2048 - setup.length) 0) ∧
      out.length + 2048 ≤ room := by
  have sectors : SETUP_SECTS * 512 = 2048 := rfl
  unfold buildSetup
  simp only [bind_ok, openMinix_ok, dieIf_ok, Prod.exists, copyFile_ok enough, Nat.not_lt, sectors]
  constructor
  · rintro ⟨setup, headed, _, _, ⟨rfl, rfl, fits⟩, _, few, padded⟩
    rw [pad_ok (by rw [List.length_append]; exact fits), List.length_append] at padded
    exact ⟨setup, headed, few, by rw [padded.1, List.append_assoc], by omega⟩
  · rintro ⟨setup, headed, few, rfl, fits⟩
    refine ⟨setup, headed, _, _, ⟨rfl, rfl, by omega⟩, (), few, ?_⟩
    rw [pad_ok (by rw [List.length_append]; omega), List.length_append, List.append_assoc]
    exact ⟨rfl, by omega⟩

theorem buildSystem_ok (enough : out.length ≤ room) : buildSystem files room path out = .ok out' ↔ ∃ system,
    (path = "none" ∧ system = [] ∨ path ≠ "none" ∧ files path = some system) ∧ system.length ≤ 0x30000 ∧
      out' = out ++ system ∧ out.length + system.length ≤ room := by
  have limit : SYS_SIZE * 16 = 0x30000 := rfl
  unfold buildSystem
  by_cases none : path = "none"
  · rw [if_neg (not_not.mpr none.symm), Except.ok.injEq]
    constructor
    · rintro rfl
      exact ⟨[], .inl ⟨none, rfl⟩, by decide, (List.append_nil _).symm, enough⟩
    · rintro ⟨system, ⟨-, rfl⟩ | ⟨other, -⟩, -, rfl, -⟩
      · exact (List.append_nil _).symm
      · exact absurd none other
  · rw [if_pos (Ne.symm none)]
    simp only [bind_ok, openFile_ok, dieIf_ok, Prod.exists, copyFile_ok enough, Nat.not_lt, limit]
    constructor
    · rintro ⟨system, there, _, _, ⟨rfl, rfl, fits⟩, _, small, same⟩
      exact ⟨system, .inr ⟨none, there⟩, small, (Except.ok.inj same).symm, fits⟩
    · rintro ⟨system, ⟨same, -⟩ | ⟨-, there⟩, small, rfl, fits⟩
      · exact absurd same none
      · exact ⟨system, there, _, _, ⟨rfl, rfl, fits⟩, (), small, rfl⟩

theorem build_ok_iff : build files stat room argv = .ok image ↔ ∃ major minor boot setup system,
    Parts files stat argv major minor boot setup system ∧ image = layout major minor boot setup system ∧
      image.length ≤ room := by
  unfold build
  simp only [bind_ok, dieIf_ok, buildBoot_ok, Prod.exists]
  constructor
  · rintro ⟨_, arguments, major, minor, root, _, known, _, ⟨boot, headed, sector, flag, rfl, room₁⟩, _, rest, ends⟩
    have size : ((boot.set 508 minor).set 509 major).length = 512 := by rw [List.length_set, List.length_set, sector]
    rcases (buildSetup_ok (by rw [size]; exact room₁)).mp rest with ⟨setup, headed', sectors, rfl, room₂⟩
    have padded : (setup ++ List.replicate (2048 - setup.length) (0 : BitVec 8)).length = 2048 := by
      rw [List.length_append, List.length_replicate]
      omega
    rcases (buildSystem_ok (by rw [List.length_append, padded]; exact room₂)).mp ends with
      ⟨system, there, small, rfl, room₃⟩
    refine ⟨major, minor, boot, setup, system, ⟨by omega, root, by tauto, headed, sector, flag, headed', sectors, there,
      small⟩, rfl, ?_⟩
    rw [List.length_append]
    exact room₃
  · rintro ⟨major, minor, boot, setup, system, parts, rfl, fits⟩
    have size : ((boot.set 508 minor).set 509 major).length = 512 := by
      rw [List.length_set, List.length_set, parts.sector]
    have few := parts.sectors
    have padded : (setup ++ List.replicate (2048 - setup.length) (0 : BitVec 8)).length = 2048 := by
      rw [List.length_append, List.length_replicate]
      omega
    rw [layout, List.length_append, List.length_append, size, padded] at fits
    have arguments := parts.arguments
    have known := parts.known
    refine ⟨(), by omega, major, minor, parts.root, (), by tauto, _, ⟨boot, parts.bootFile, parts.sector, parts.flag, rfl,
      by omega⟩, _, (buildSetup_ok (by omega)).mpr ⟨setup, parts.setupFile, few, rfl, by omega⟩, ?_⟩
    rw [buildSystem_ok (by rw [List.length_append]; omega)]
    exact ⟨system, parts.systemFile, parts.size, rfl, by rw [List.length_append]; omega⟩

section Layout

variable (sector : boot.length = 512) (few : setup.length ≤ 2048)

include sector

theorem layout_boot (i : Nat) (inside : i < 512) : (layout major minor boot setup system)[i]? =
    ((boot.set 508 minor).set 509 major)[i]? := by
  have size : ((boot.set 508 minor).set 509 major).length = 512 := by rw [List.length_set, List.length_set, sector]
  rw [layout, List.append_assoc, List.getElem?_append_left (by omega)]

theorem layout_rest (i : Nat) : (layout major minor boot setup system)[512 + i]? =
    (setup ++ List.replicate (2048 - setup.length) 0 ++ system)[i]? := by
  have size : ((boot.set 508 minor).set 509 major).length = 512 := by rw [List.length_set, List.length_set, sector]
  rw [layout, List.append_assoc, List.getElem?_append_right (by omega), size, Nat.add_sub_cancel_left]

include few

theorem layout_setup (i : Nat) (inside : i < 2048) : (layout major minor boot setup system)[512 + i]? =
    some (setup.getD i 0) := by
  rw [layout_rest sector, List.getElem?_append_left (by rw [List.length_append, List.length_replicate]; omega)]
  by_cases given : i < setup.length
  · rw [List.getElem?_append_left given, List.getD_eq_getElem?_getD, List.getElem?_eq_getElem given]
    rfl
  · rw [List.getElem?_append_right (by omega), List.getElem?_replicate_of_lt (by omega),
      List.getD_eq_getElem?_getD, List.getElem?_eq_none (by omega)]
    rfl

theorem layout_system (i : Nat) : (layout major minor boot setup system)[2560 + i]? = system[i]? := by
  have size : (setup ++ List.replicate (2048 - setup.length) (0 : BitVec 8)).length = 2048 := by
    rw [List.length_append, List.length_replicate]
    omega
  rw [show 2560 + i = 512 + (2048 + i) by omega, layout_rest sector, List.getElem?_append_right (by omega), size,
    Nat.add_sub_cancel_left]

theorem layout_length : (layout major minor boot setup system).length = 2560 + system.length := by
  rw [layout, List.length_append, List.length_append, List.length_append, List.length_set, List.length_set,
    List.length_replicate, sector]
  omega

end Layout

/-- The setup and the system of an image, loaded from a disk it has been written to, are those of the files. -/
theorem image_boots [Assembled] {f : Floppy} {b : Computer} (fits : f.Fits) (recovers : f.Recovers) (fresh : Computer.Fresh f b)
    (built : build files stat room argv = .ok image) (written : ∀ i < image.length, image[i]? = some (f.bytes i)) :
    ∃ major minor boot setup system, Parts files stat argv major minor boot setup system ∧ ∃ t,
      let c := (Computer.step f)^[t] b
      (∀ root, resolve (major ++ minor) f.sectors = some root → c.label = .setup ∧ c.memory.word rootDevAt = root ∧
        (∀ i < 2048, c.memory (linear SETUPSEG 0 + i) = setup.getD i 0) ∧
        ∀ i (h : i < system.length), c.memory (linear SYSSEG 0 + i) = system[i]) ∧
      (resolve (major ++ minor) f.sectors = none → c.label = .undefRoot) := by
  rcases build_ok_iff.mp built with ⟨major, minor, boot, setup, system, parts, rfl, -⟩
  have sector := parts.sector
  have few := parts.sectors
  have length : (layout major minor boot setup system).length = 2560 + system.length := layout_length sector few
  have byte (i : Nat) (inside : i < 2560 + system.length) {v : BitVec 8}
      (holds : (layout major minor boot setup system)[i]? = some v) : f.bytes i = v :=
    Option.some.inj ((written i (by omega)).symm.trans holds)
  have high : f.bytes 509 = major := by
    apply byte 509 (by omega)
    rw [layout_boot sector 509 (by decide), List.getElem?_set_self (by rw [List.length_set, sector]; decide)]
  have low : f.bytes 508 = minor := by
    apply byte 508 (by omega)
    rw [layout_boot sector 508 (by decide), List.getElem?_set_ne (by decide), List.getElem?_set_self (by rw [sector]; decide)]
  rcases boots fits recovers fresh with ⟨t, known, unknown⟩
  rw [Floppy.root, high, low] at known unknown
  refine ⟨major, minor, boot, setup, system, parts, t, ?_, unknown⟩
  intro root same
  rcases known root same with ⟨label, handed⟩
  have segment : linear SETUPSEG 0 = 0x90200 := rfl
  have segment' : linear SYSSEG 0 = 0x10000 := rfl
  have small := parts.size
  refine ⟨label, handed.root, ?_, ?_⟩
  · intro i inside
    rw [segment, handed.setup i inside]
    exact byte _ (by omega) (layout_setup sector few i inside)
  · intro i inside
    rw [segment', handed.system i (by omega)]
    apply byte _ (by omega)
    rw [layout_system sector few, List.getElem?_eq_getElem inside]

end Results

section Example

def demoHeader : Bytes := [1, 3, 0x10, 4, 32, 0, 0, 0] ++ List.replicate 24 0

/-- It has no code, but `sread` is in its place. -/
def demoBoot : Bytes := (List.replicate 510 0).set 152 5 ++ [0x55, 0xAA]

def demoFiles : String → Option Bytes
  | "bootsect" => some (demoHeader ++ demoBoot)
  | "setup" => some (demoHeader ++ [0xB8, 0x20, 0x90])
  | "system" => some [0xEA, 0xFE]
  | _ => none

def demoImage : Bytes := layout 0 0 demoBoot [0xB8, 0x20, 0x90] [0xEA, 0xFE]

/-- The image on a floppy whose first read fails. -/
def demoFloppy : Floppy where
  sectors := 18
  tracks := 80
  bytes i := demoImage.getD i 0
  fault calls := if calls = 0 then some fun _ => 0xFF else none
  scratch _ _ := 0xCC

def demoComputer : Computer := ⟨.start, 0, 0, 0, 0, 0, 0, fun x => demoFloppy.bytes (x - 0x7c00), 0⟩

theorem demo_built : build demoFiles (fun _ => none) 4096 ["build", "bootsect", "setup", "system", "FLOPPY"] = .ok demoImage := by
  have headed (path : String) (rest : Bytes) (there : demoFiles path = some (demoHeader ++ rest)) : Headed demoFiles path rest :=
    ⟨demoHeader, there, rfl, ⟨rfl, rfl, rfl, rfl, rfl, rfl⟩⟩
  have sector : demoBoot.length = 512 := by decide +kernel
  apply build_ok_iff.mpr
  exact ⟨0, 0, demoBoot, [0xB8, 0x20, 0x90], [0xEA, 0xFE], ⟨.inr rfl, rfl, by decide, headed _ _ rfl, sector, by decide +kernel,
    headed _ _ rfl, by decide, .inr ⟨by decide, rfl⟩, by decide⟩, rfl, by rw [demoImage, layout_length sector (by decide)]; decide⟩

theorem demo_boots : ∃ major minor boot setup system,
    Parts demoFiles (fun _ => none) ["build", "bootsect", "setup", "system", "FLOPPY"] major minor boot setup system ∧ ∃ t,
      let c := (Computer.step demoFloppy)^[t] demoComputer
      (∀ root, resolve (major ++ minor) 18 = some root → c.label = .setup ∧ c.memory.word rootDevAt = root ∧
        (∀ i < 2048, c.memory (linear SETUPSEG 0 + i) = setup.getD i 0) ∧
        ∀ i (h : i < system.length), c.memory (linear SYSSEG 0 + i) = system[i]) ∧
      (resolve (major ++ minor) 18 = none → c.label = .undefRoot) := by
  have recovers : demoFloppy.Recovers := fun calls => ⟨1, by simp [demoFloppy]⟩
  have fresh : Computer.Fresh demoFloppy demoComputer := by
    refine ⟨rfl, ?_, by decide +kernel, by decide +kernel, by decide +kernel⟩
    intro i _
    have source : linear BOOTSEG 0 = 0x7c00 := rfl
    unfold demoComputer
    dsimp only
    rw [source, Nat.add_sub_cancel_left]
  have written : ∀ i < demoImage.length, demoImage[i]? = some (demoFloppy.bytes i) := by
    intro i inside
    show demoImage[i]? = some (demoImage.getD i 0)
    rw [List.getD_eq_getElem?_getD, List.getElem?_eq_getElem inside]
    rfl
  exact image_boots ⟨by decide, by decide, by decide, by decide⟩ recovers fresh demo_built written

end Example

end Linux011.Boot

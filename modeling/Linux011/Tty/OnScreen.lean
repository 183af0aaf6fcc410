import Linux011.Tty.Bounds

namespace Linux011.Tty

open Linux011.Library

variable {d : Display} {s : Console}

section Editing

theorem insertFrom_within {lo hi : Nat} (small : hi < 2 ^ 32) {n : Nat} {p : BitVec 32} {old : BitVec 16}
    {m : ByteMemory} (within : m.Within lo hi) (low : lo ≤ p.toNat) (high : p.toNat + 2 * n ≤ hi) :
    (Console.insertFrom n p old m).Within lo hi := by
  induction n generalizing p old m with
  | zero => exact within
  | succ n ih =>
    have next : (p + 2).toNat = p.toNat + 2 :=
      BitVec.toNat_add_of_lt (show p.toNat + 2 < 2 ^ 32 by omega)
    exact ih (within.storeWord small low (by omega) old) (by omega) (by omega)

theorem deleteFrom_within {lo hi : Nat} (small : hi < 2 ^ 32) {erased : BitVec 16} {n : Nat} {p : BitVec 32}
    {m : ByteMemory} (within : m.Within lo hi) (low : lo ≤ p.toNat) (high : p.toNat + 2 * (n + 1) ≤ hi) :
    (Console.deleteFrom erased n p m).Within lo hi := by
  induction n generalizing p m with
  | zero => exact within.storeWord small low high erased
  | succ n ih =>
    have next : (p + 2).toNat = p.toNat + 2 :=
      BitVec.toNat_add_of_lt (show p.toNat + 2 < 2 ^ 32 by omega)
    exact ih (within.storeWord small low (by omega) _) (by omega) (by omega)

variable (fits : d.Fits) (inside : Inside d s)

include fits inside

theorem Inside.insertChar : Inside d (s.insertChar d) := by
  have finish := inside.line_end fits
  have screen := inside.screen_in_memory
  exact inside.draw (insertFrom_within d.videoMemEnd.isLt inside.writes
    (inside.low.trans (inside.pos_low fits)) (finish.trans screen))

theorem Inside.deleteChar : Inside d (s.deleteChar d) := by
  have finish := inside.line_end fits
  have screen := inside.screen_in_memory
  rw [Console.deleteChar]
  split
  · exact inside
  · next before =>
    rw [BitVec.not_le, BitVec.lt_def] at before
    exact inside.draw (deleteFrom_within d.videoMemEnd.isLt inside.writes
      (inside.low.trans (inside.pos_low fits)) (by omega))

omit fits in
theorem Inside.below : Inside d { s with top := s.y, bottom := d.videoNumLines } :=
  inside.window inside.line le_rfl

theorem Inside.insertLine : Inside d (s.insertLine d) :=
  (inside.below.scrdown fits).window inside.region inside.regionEnd

theorem Inside.deleteLine : Inside d (s.deleteLine d) :=
  (inside.below.scrup fits).window inside.region inside.regionEnd

theorem Inside.csiAt (nr : BitVec 32) : Inside d (s.csiAt d nr) :=
  Function.Iterate.rec (Inside d) inside (fun _ inside => inside.insertChar fits) _

theorem Inside.csiP (nr : BitVec 32) : Inside d (s.csiP d nr) :=
  Function.Iterate.rec (Inside d) inside (fun _ inside => inside.deleteChar fits) _

theorem Inside.csiL (nr : BitVec 32) : Inside d (s.csiL d nr) :=
  Function.Iterate.rec (Inside d) inside (fun _ inside => inside.insertLine fits) _

theorem Inside.csiM (nr : BitVec 32) : Inside d (s.csiM d nr) :=
  Function.Iterate.rec (Inside d) inside (fun _ inside => inside.deleteLine fits) _

end Editing

section Characters

theorem scrup_x (d : Display) (s : Console) : (s.scrup d).x = s.x := by
  rw [Console.scrup, Console.moveOrigin]
  dsimp only
  split
  · split
    · split <;> rfl
    · rfl
  · rfl

theorem lf_x (d : Display) (s : Console) : (s.lf d).x = s.x := by
  rw [Console.lf]
  split
  · rfl
  · exact scrup_x d s

theorem Inside.along (inside : Inside d s) {x pos : BitVec 32} (column : x.toNat ≤ d.videoNumColumns.toNat)
    (position : pos = s.origin + s.y * d.videoSizeRow + 2 * x) : Inside d { s with x := x, pos := pos } :=
  { inside with column := column, position := position }

variable (fits : d.Fits) (inside : Inside d s)

include fits inside

theorem Inside.wrap : Inside d (s.wrap d) ∧ (s.wrap d).x.toNat < d.videoNumColumns.toNat := by
  have columns := fits.columns
  have column := inside.column
  rw [Console.wrap]
  split
  · next full =>
    rw [BitVec.le_def] at full
    have first : (s.x - d.videoNumColumns).toNat = 0 := by bv_omega
    have there : Inside d { s with x := s.x - d.videoNumColumns, pos := s.pos - d.videoSizeRow } := by
      apply inside.along (by omega)
      rw [inside.position, fits.row]
      ring
    rw [lf_x]
    exact ⟨there.lf fits, by dsimp only; omega⟩
  · next room =>
    rw [BitVec.not_le, BitVec.lt_def] at room
    exact ⟨inside, room⟩

theorem Inside.print (room : s.x.toNat < d.videoNumColumns.toNat) (c : BitVec 8) : Inside d (s.print c) := by
  have columns := fits.columns
  have finish := inside.line_end fits
  have screen := inside.screen_in_memory
  have low := inside.low.trans (inside.pos_low fits)
  have next : (s.x + 1).toNat = s.x.toNat + 1 :=
    BitVec.toNat_add_of_lt (show s.x.toNat + 1 < 2 ^ 32 by omega)
  have moved : Inside d { s with x := s.x + 1, pos := s.pos + 2 } := by
    apply inside.along (by omega)
    rw [inside.position]
    ring
  exact moved.draw (inside.writes.storeWord d.videoMemEnd.isLt low (by omega) _)

theorem Inside.tab : Inside d (s.tab d) := by
  have columns := fits.columns
  have column := inside.column
  have low : (s.x &&& 7).toNat = s.x.toNat % 8 := by
    rw [BitVec.toNat_and]
    exact Nat.and_two_pow_sub_one_eq_mod s.x.toNat 3
  have step : (8 - (s.x &&& 7)).toNat = 8 - s.x.toNat % 8 := by bv_omega
  have next : (s.x + (8 - (s.x &&& 7))).toNat = s.x.toNat + (8 - s.x.toNat % 8) := by bv_omega
  rw [Console.tab]
  dsimp only
  split
  · next overrun =>
    rw [BitVec.lt_def] at overrun
    have there : Inside d
        { s with
          x := s.x + (8 - (s.x &&& 7)) - d.videoNumColumns
          pos := s.pos + (8 - (s.x &&& 7)) <<< 1 - d.videoSizeRow } := by
      apply inside.along
      · rw [BitVec.toNat_sub_of_le overrun.le, next]
        omega
      · rw [inside.position, fits.row, shift_one]
        ring
    exact there.lf fits
  · next room =>
    rw [BitVec.not_lt, BitVec.le_def] at room
    apply inside.along room
    rw [inside.position, shift_one]
    ring

theorem Inside.ground (c eraseChar : BitVec 8) : Inside d (s.ground d c eraseChar) := by
  rw [Console.ground]
  split
  · have wrapped := inside.wrap fits
    exact wrapped.1.print fits wrapped.2 c
  split
  · exact { inside with }
  split
  · exact inside.lf fits
  split
  · exact inside.cr
  split
  · exact inside.del fits
  split
  · split
    · next moved => exact inside.back moved
    · exact inside
  split
  · exact inside.tab fits
  split
  · exact { inside with }
  · exact inside

theorem Inside.escape (c : BitVec 8) : Inside d (s.escape d c) := by
  have back : Inside d { s with state := 0 } := { inside with }
  rw [Console.escape]
  split
  · exact { inside with }
  split
  · exact back.gotoxy _ _
  split
  · exact back.ri fits
  split
  · exact back.lf fits
  split
  · exact { inside with }
  split
  · exact { inside with }
  split
  · exact back.gotoxy _ _
  · exact back

end Characters

section Parameters

theorem Inside.setPar (inside : Inside d s) (i : Nat) (n : BitVec 32) : Inside d (s.setPar i n) := { inside with }

theorem Inside.atLeastOne (inside : Inside d s) : Inside d s.atLeastOne := by
  rw [Console.atLeastOne]
  split
  · exact inside.setPar _ _
  · exact inside

theorem Inside.countFromZero (inside : Inside d s) (i : Nat) : Inside d (s.countFromZero i) := by
  rw [Console.countFromZero]
  split
  · exact inside.setPar _ _
  · exact inside

theorem Inside.defaultBottom (inside : Inside d s) : Inside d (s.defaultBottom d) := by
  rw [Console.defaultBottom]
  split
  · exact inside.setPar _ _
  · exact inside

theorem Inside.setRegion (inside : Inside d s) : Inside d (s.setRegion d) := by
  have counted := (inside.countFromZero 0).defaultBottom
  rw [Console.setRegion]
  split
  · next valid => exact counted.window valid.1 valid.2
  · exact counted

variable (fits : d.Fits) (inside : Inside d s)

include fits inside

theorem Inside.final (c : BitVec 8) : Inside d (s.final d c) := by
  have back : Inside d { s with state := 0 } := { inside with }
  rw [Console.final]
  split
  · exact (back.countFromZero 0).gotoxy _ _
  · exact (back.countFromZero 0).gotoxy _ _
  · exact back.atLeastOne.gotoxy _ _
  · exact back.atLeastOne.gotoxy _ _
  · exact back.atLeastOne.gotoxy _ _
  · exact back.atLeastOne.gotoxy _ _
  · exact back.atLeastOne.gotoxy _ _
  · exact back.atLeastOne.gotoxy _ _
  · exact back.atLeastOne.gotoxy _ _
  · exact back.atLeastOne.gotoxy _ _
  · exact (back.countFromZero 0).gotoxy _ _
  · exact ((back.countFromZero 0).countFromZero 1).gotoxy _ _
  · exact ((back.countFromZero 0).countFromZero 1).gotoxy _ _
  · exact back.csiJ fits _
  · exact back.csiK fits _
  · exact back.csiL fits _
  · exact back.csiM fits _
  · exact back.csiP fits _
  · exact back.csiAt fits _
  · exact { inside with }
  · exact back.setRegion
  · exact { inside with }
  · exact back.gotoxy _ _
  · exact back

theorem Inside.parameter (c : BitVec 8) : Inside d (s.parameter d c) := by
  rw [Console.parameter]
  split
  · exact { inside with }
  split
  · exact inside.setPar _ _
  · exact inside.final fits c

theorem Inside.bracket (c : BitVec 8) : Inside d (s.bracket d c) := by
  rw [Console.bracket]
  split
  · exact { inside with }
  · apply Inside.parameter fits
    exact { inside with }

theorem Inside.writeChar (c eraseChar : BitVec 8) : Inside d (s.writeChar d c eraseChar) := by
  rw [Console.writeChar]
  split
  · exact inside.ground fits c eraseChar
  · exact inside.escape fits c
  · exact inside.bracket fits c
  · exact inside.parameter fits c
  · exact inside.final fits c
  · exact inside

theorem Inside.input (i : Input) : Inside d (s.input d i) := by
  cases i with
  | char c eraseChar => exact inside.writeChar fits c eraseChar
  | f12 => exact { inside with }

theorem Inside.inputs (is : List Input) : Inside d (is.foldl (Console.input d) s) := by
  induction is generalizing s with
  | nil => exact inside
  | cons i is ih => exact ih (inside.input fits i)

end Parameters

section Start

theorem describe_within {lo hi : Nat} (small : hi < 2 ^ 32) {p : BitVec 32} {cs : List (BitVec 8)}
    {m : ByteMemory} (within : m.Within lo hi) (low : lo ≤ p.toNat) (high : p.toNat + 2 * cs.length ≤ hi) :
    (describe m p cs).Within lo hi := by
  induction cs generalizing p m with
  | nil => exact within
  | cons c cs ih =>
    rw [List.length_cons] at high
    have next : (p + 2).toNat = p.toNat + 2 :=
      BitVec.toNat_add_of_lt (show p.toNat + 2 < 2 ^ 32 by omega)
    exact ih (within.store low (by omega) c) (by omega) (by omega)

/-- The columns are even in number and at least 8, and the video memory holds a screen. -/
structure Setup.Usable (setup : Setup) : Prop where
  even : setup.origVideoCols.toNat % 2 = 0
  enough : 8 ≤ setup.origVideoCols.toNat
  memory : setup.display.videoMemStart.toNat + 25 * (2 * setup.origVideoCols.toNat) ≤
    setup.display.videoMemEnd.toNat

/-- `gotoxy` accepts the cursor the setup routine left. -/
def Setup.Accepted (setup : Setup) : Prop :=
  setup.origX.toNat ≤ setup.origVideoCols.toNat ∧ setup.origY.toNat < 25

theorem Setup.columns_toNat (setup : Setup) :
    setup.display.videoNumColumns.toNat = setup.origVideoCols.toNat :=
  BitVec.toNat_setWidth_of_le (by decide)

theorem Setup.row (setup : Setup) : setup.display.videoSizeRow = 2 * setup.display.videoNumColumns :=
  mul_comm _ _

theorem Setup.row_toNat (setup : Setup) : setup.display.videoSizeRow.toNat = 2 * setup.origVideoCols.toNat := by
  have small := setup.origVideoCols.isLt
  rw [setup.row, BitVec.toNat_mul, setup.columns_toNat]
  exact Nat.mod_eq_of_lt (show 2 * setup.origVideoCols.toNat < 2 ^ 32 by omega)

theorem Setup.memory_small (setup : Setup) : setup.display.videoMemEnd.toNat < 2 ^ 20 := by
  rw [Setup.display, Setup.detect]
  dsimp only
  split <;> split <;> decide

theorem Setup.Usable.fits {setup : Setup} (usable : setup.Usable) : setup.display.Fits where
  row := setup.row
  columns := by
    rw [setup.columns_toNat]
    exact ⟨usable.enough, setup.origVideoCols.isLt⟩
  even := by
    rw [setup.columns_toNat]
    exact usable.even
  lines := rfl
  memory := by
    rw [setup.row_toNat]
    exact usable.memory
  memoryEnd := setup.memory_small

theorem conInit_inside {setup : Setup} (usable : setup.Usable) (accepted : setup.Accepted)
    (bytes : BitVec 32 → BitVec 8) : Inside setup.display (conInit setup bytes) := by
  have memory := usable.memory
  have enough := usable.enough
  have row := setup.row_toNat
  have small := setup.memory_small
  have limit := setup.display.videoMemEnd.isLt
  have column : (setup.origX.setWidth 32).toNat = setup.origX.toNat := BitVec.toNat_setWidth_of_le (by decide)
  have line : (setup.origY.setWidth 32).toNat = setup.origY.toNat := BitVec.toNat_setWidth_of_le (by decide)
  have columns := setup.columns_toNat
  have accepts : ¬ (setup.display.videoNumColumns < setup.origX.setWidth 32 ∨
      setup.display.videoNumLines ≤ setup.origY.setWidth 32) := by
    rw [not_or, BitVec.not_lt, BitVec.not_le, BitVec.le_def, BitVec.lt_def, column, line, columns]
    exact accepted
  have title : (setup.display.videoMemStart + setup.display.videoSizeRow - 8).toNat =
      setup.display.videoMemStart.toNat + setup.display.videoSizeRow.toNat - 8 := by bv_omega
  have four : setup.display.videoType.description.length = 4 := by
    cases setup.display.videoType <;> rfl
  rw [conInit, Console.gotoxy, if_neg accepts]
  exact {
    column := by
      rw [columns, column]
      exact accepted.1
    line := line.trans_lt accepted.2
    region := (show 0 < origVideoLines.toNat by decide)
    regionEnd := le_rfl
    position := by rw [shift_one]
    screenEnd := rfl
    low := le_rfl
    high := usable.fits.memory
    writes := describe_within limit (fun a none => absurd none List.not_mem_nil) (by omega) (by omega) }

end Start

/-- What is right about the console between any two characters. -/
structure OnScreen (d : Display) (s : Console) : Prop where
  column : s.x ≤ d.videoNumColumns
  line : s.y < d.videoNumLines
  region : s.top < s.bottom ∧ s.bottom ≤ d.videoNumLines
  position : s.pos.toNat = s.origin.toNat + s.y.toNat * d.videoSizeRow.toNat + 2 * s.x.toNat
  screenEnd : s.scrEnd.toNat = s.origin.toNat + d.videoNumLines.toNat * d.videoSizeRow.toNat
  writes : ∀ a ∈ s.video.written, d.videoMemStart ≤ a ∧ a < d.videoMemEnd

theorem Inside.onScreen (fits : d.Fits) (inside : Inside d s) : OnScreen d s where
  column := inside.column
  line := inside.line
  region := ⟨inside.region, inside.regionEnd⟩
  position := inside.pos_toNat fits
  screenEnd := inside.scrEnd_toNat
  writes := inside.writes

/-- The console stays on its screen, whatever is written to it. -/
theorem stays_on_screen {setup : Setup} (usable : setup.Usable) (accepted : setup.Accepted)
    (bytes : BitVec 32 → BitVec 8) (inputs : List Input) :
    OnScreen setup.display (inputs.foldl (Console.input setup.display) (conInit setup bytes)) :=
  ((conInit_inside usable accepted bytes).inputs usable.fits inputs).onScreen usable.fits

section Example

/-- A colour EGA display of 80 columns, the cursor in its last line. -/
def egaColour : Setup := ⟨0, 24, 3, 80, 3⟩

theorem egaColour_stays : OnScreen egaColour.display
    ([Input.char 0x0a 0x7f, .char 0x41 0x7f].foldl (Console.input egaColour.display) (conInit egaColour fun _ => 0)) :=
  stays_on_screen ⟨by decide, by decide, by decide⟩ ⟨by decide, by decide⟩ _ _

end Example

end Linux011.Tty

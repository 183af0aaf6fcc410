import Linux011.Tty.Write
import Mathlib.Tactic.Ring

namespace Linux011.Tty

open Linux011.Library

/-- A display whose screen fits into the video memory. -/
structure Display.Fits (d : Display) : Prop where
  row : d.videoSizeRow = 2 * d.videoNumColumns
  columns : 8 ≤ d.videoNumColumns.toNat ∧ d.videoNumColumns.toNat < 256
  even : d.videoNumColumns.toNat % 2 = 0
  lines : d.videoNumLines.toNat = 25
  memory : d.videoMemStart.toNat + d.videoNumLines.toNat * d.videoSizeRow.toNat ≤ d.videoMemEnd.toNat
  memoryEnd : d.videoMemEnd.toNat < 2 ^ 20

structure Inside (d : Display) (s : Console) : Prop where
  column : s.x.toNat ≤ d.videoNumColumns.toNat
  line : s.y.toNat < d.videoNumLines.toNat
  region : s.top.toNat < s.bottom.toNat
  regionEnd : s.bottom.toNat ≤ d.videoNumLines.toNat
  position : s.pos = s.origin + s.y * d.videoSizeRow + 2 * s.x
  screenEnd : s.scrEnd = s.origin + d.videoNumLines * d.videoSizeRow
  low : d.videoMemStart.toNat ≤ s.origin.toNat
  high : s.origin.toNat + d.videoNumLines.toNat * d.videoSizeRow.toNat ≤ d.videoMemEnd.toNat
  writes : s.video.Within d.videoMemStart.toNat d.videoMemEnd.toNat

variable {d : Display} {s : Console}

section Addresses

theorem shift_one (x : BitVec 32) : x <<< 1 = 2 * x := by
  apply BitVec.eq_of_toNat_eq
  rw [BitVec.toNat_shiftLeft, BitVec.toNat_mul, Nat.shiftLeft_eq, Nat.mul_comm]
  rfl

theorem Display.Fits.row_toNat (fits : d.Fits) : d.videoSizeRow.toNat = 2 * d.videoNumColumns.toNat := by
  have columns := fits.columns
  rw [fits.row, BitVec.toNat_mul]
  exact Nat.mod_eq_of_lt (show 2 * d.videoNumColumns.toNat < 2 ^ 32 by omega)

theorem Inside.rows_le (inside : Inside d s) {r : Nat} (below : r ≤ d.videoNumLines.toNat) :
    s.origin.toNat + r * d.videoSizeRow.toNat ≤ d.videoMemEnd.toNat :=
  (Nat.add_le_add_left (Nat.mul_le_mul_right _ below) _).trans inside.high

theorem Inside.row_toNat (inside : Inside d s) {r : BitVec 32} (below : r.toNat ≤ d.videoNumLines.toNat) :
    (s.origin + r * d.videoSizeRow).toNat = s.origin.toNat + r.toNat * d.videoSizeRow.toNat := by
  have room := inside.rows_le below
  have limit := d.videoMemEnd.isLt
  have product : (r * d.videoSizeRow).toNat = r.toNat * d.videoSizeRow.toNat :=
    BitVec.toNat_mul_of_lt (by omega)
  rw [BitVec.toNat_add_of_lt (by omega), product]

theorem Inside.pos_toNat (fits : d.Fits) (inside : Inside d s) :
    s.pos.toNat = s.origin.toNat + s.y.toNat * d.videoSizeRow.toNat + 2 * s.x.toNat := by
  have row := fits.row_toNat
  have columns := fits.columns
  have column := inside.column
  have room := inside.rows_le (r := s.y.toNat + 1) inside.line
  have limit := d.videoMemEnd.isLt
  rw [Nat.succ_mul] at room
  have start := inside.row_toNat inside.line.le
  have double : (2 * s.x).toNat = 2 * s.x.toNat :=
    BitVec.toNat_mul_of_lt (show 2 * s.x.toNat < 2 ^ 32 by omega)
  rw [inside.position, BitVec.toNat_add_of_lt (by omega), start, double]

theorem Inside.scrEnd_toNat (inside : Inside d s) :
    s.scrEnd.toNat = s.origin.toNat + d.videoNumLines.toNat * d.videoSizeRow.toNat := by
  rw [inside.screenEnd, inside.row_toNat le_rfl]

theorem Inside.line_end (fits : d.Fits) (inside : Inside d s) :
    s.pos.toNat + 2 * (d.videoNumColumns.toNat - s.x.toNat) ≤ s.scrEnd.toNat := by
  have room := Nat.mul_le_mul_right d.videoSizeRow.toNat (Nat.succ_le_of_lt inside.line)
  have row := fits.row_toNat
  have column := inside.column
  rw [Nat.succ_mul] at room
  rw [inside.pos_toNat fits, inside.scrEnd_toNat]
  omega

theorem Inside.screen_in_memory (inside : Inside d s) : s.scrEnd.toNat ≤ d.videoMemEnd.toNat := by
  rw [inside.scrEnd_toNat]
  exact inside.high

end Addresses

section Cursor

theorem Inside.draw (inside : Inside d s) {m : ByteMemory}
    (within : m.Within d.videoMemStart.toNat d.videoMemEnd.toNat) : Inside d { s with video := m } :=
  { inside with writes := within }

theorem Inside.window (inside : Inside d s) {top bottom : BitVec 32} (region : top.toNat < bottom.toNat)
    (regionEnd : bottom.toNat ≤ d.videoNumLines.toNat) : Inside d { s with top := top, bottom := bottom } :=
  { inside with region := region, regionEnd := regionEnd }

theorem Inside.gotoxy (inside : Inside d s) (newX newY : BitVec 32) : Inside d (s.gotoxy d newX newY) := by
  rw [Console.gotoxy]
  split
  · exact inside
  · next accepted =>
    rw [not_or, BitVec.not_lt, BitVec.not_le] at accepted
    exact { inside with
      column := accepted.1
      line := accepted.2
      position := by rw [shift_one] }

theorem Inside.cr (inside : Inside d s) : Inside d s.cr :=
  { inside with
    column := Nat.zero_le _
    position := by
      rw [Console.cr, shift_one, inside.position]
      ring }

theorem Inside.back (inside : Inside d s) (moved : s.x ≠ 0) : Inside d { s with x := s.x - 1, pos := s.pos - 2 } :=
  { inside with
    column := by
      have column := inside.column
      have positive : s.x.toNat ≠ 0 := fun zero => moved (BitVec.eq_of_toNat_eq zero)
      have : (s.x - 1).toNat = s.x.toNat - 1 := BitVec.toNat_sub_of_le (by bv_omega)
      dsimp only
      omega
    position := by
      dsimp only
      rw [inside.position]
      ring }

end Cursor

section Scrolling

theorem longs_toNat (n : Nat) (room : 4 * n < 2 ^ 32) : (4 * BitVec.ofNat 32 n).toNat = 4 * n := by
  have count : (BitVec.ofNat 32 n).toNat = n := Nat.mod_eq_of_lt (by omega)
  rw [BitVec.toNat_mul, count]
  exact Nat.mod_eq_of_lt room

theorem advance (edi : BitVec 32) (n : Nat) (room : edi.toNat + 4 * n < 2 ^ 32) :
    (edi + 4 * BitVec.ofNat 32 n).toNat = edi.toNat + 4 * n := by
  have step := longs_toNat n (by omega)
  rw [BitVec.toNat_add_of_lt (by omega), step]

theorem retreat (edi : BitVec 32) (n : Nat) (below : 4 * n ≤ edi.toNat) (room : edi.toNat + 2 < 2 ^ 32) :
    (edi - 4 * BitVec.ofNat 32 n + 2).toNat = edi.toNat - 4 * n + 2 := by
  have step := longs_toNat n (by omega)
  have back : (edi - 4 * BitVec.ofNat 32 n).toNat = edi.toNat - 4 * n := by
    rw [BitVec.toNat_sub_of_le (by rw [BitVec.le_def, step]; exact below), step]
  exact (BitVec.toNat_add_of_lt (show (edi - 4 * BitVec.ofNat 32 n).toNat + 2 < 2 ^ 32 by omega)).trans
    (congrArg (· + 2) back)

/-- `rows * video_num_columns >> 1` double words are the rows exactly, the columns being even. -/
theorem longs_of_even {rows columns : BitVec 32} (few : rows.toNat ≤ 25) (small : columns.toNat < 256)
    (even : columns.toNat % 2 = 0) : 4 * ((rows * columns) >>> 1).toNat = rows.toNat * (2 * columns.toNat) := by
  have limit := Nat.mul_le_mul few small.le
  have product : (rows * columns).toNat = rows.toNat * columns.toNat := BitVec.toNat_mul_of_lt (by omega)
  obtain ⟨half, twice⟩ : 2 ∣ columns.toNat := Nat.dvd_of_mod_eq_zero even
  rw [BitVec.toNat_ushiftRight, product, Nat.shiftRight_eq_div_pow, twice, Nat.mul_left_comm rows.toNat 2 half,
    pow_one, Nat.mul_div_cancel_left _ (by decide)]
  ring

theorem Display.Fits.longs (fits : d.Fits) {rows : BitVec 32} (few : rows.toNat ≤ 25) :
    4 * ((rows * d.videoNumColumns) >>> 1).toNat = rows.toNat * d.videoSizeRow.toNat := by
  rw [longs_of_even few fits.columns.2 fits.even, fits.row_toNat]

variable (fits : d.Fits) (inside : Inside d s)

include fits inside

theorem Inside.regionLongs :
    4 * s.regionLongs d = (s.bottom.toNat - (s.top.toNat + 1)) * d.videoSizeRow.toNat := by
  have region := inside.region
  have regionEnd := inside.regionEnd
  have lines := fits.lines
  have rows : (s.bottom - s.top - 1).toNat = s.bottom.toNat - (s.top.toNat + 1) := by bv_omega
  rw [Console.regionLongs, fits.longs (by omega), rows]

theorem Inside.region_rows :
    s.top.toNat * d.videoSizeRow.toNat + 4 * s.regionLongs d + d.videoSizeRow.toNat =
      s.bottom.toNat * d.videoSizeRow.toNat := by
  have region := inside.region
  obtain ⟨more, height⟩ := Nat.exists_eq_add_of_lt region
  have gap : s.bottom.toNat - (s.top.toNat + 1) = more := by omega
  rw [inside.regionLongs fits, gap, height]
  ring

theorem Inside.moveUp : Inside d (s.moveUp d) := by
  have rows := inside.region_rows fits
  have room := inside.rows_le inside.regionEnd
  have row := fits.row_toNat
  have low := inside.low
  have limit := d.videoMemEnd.isLt
  have start : (s.origin + d.videoSizeRow * s.top).toNat =
      s.origin.toNat + s.top.toNat * d.videoSizeRow.toNat := by
    rw [mul_comm]
    exact inside.row_toNat (inside.region.le.trans inside.regionEnd)
  have next := advance (s.origin + d.videoSizeRow * s.top) (s.regionLongs d) (by omega)
  apply inside.draw
  apply ByteMemory.Within.stosw_up limit _ (by omega) (by omega)
  exact inside.writes.movsl_up limit (by omega) (by omega)

theorem Inside.scrdown : Inside d (s.scrdown d) := by
  have rows := inside.region_rows fits
  have room := inside.rows_le inside.regionEnd
  have row := fits.row_toNat
  have columns := fits.columns
  have low := inside.low
  have limit := d.videoMemEnd.isLt
  have last : (s.origin + d.videoSizeRow * s.bottom).toNat =
      s.origin.toNat + s.bottom.toNat * d.videoSizeRow.toNat := by
    rw [mul_comm]
    exact inside.row_toNat inside.regionEnd
  have start : (s.origin + d.videoSizeRow * s.bottom - 4).toNat =
      s.origin.toNat + s.bottom.toNat * d.videoSizeRow.toNat - 4 := by
    rw [BitVec.toNat_sub_of_le (by rw [BitVec.le_def, last]; show 4 ≤ _; omega), last]
    rfl
  have next := retreat (s.origin + d.videoSizeRow * s.bottom - 4) (s.regionLongs d) (by omega) (by omega)
  apply inside.draw
  apply ByteMemory.Within.stosw_down limit _ (by omega) (by omega)
  exact inside.writes.movsl_down limit (by omega) (by omega)

theorem Inside.atStart {m : ByteMemory} (within : m.Within d.videoMemStart.toNat d.videoMemEnd.toNat) :
    Inside d
      { s with
        origin := d.videoMemStart
        pos := s.pos + d.videoSizeRow - (s.origin + d.videoSizeRow - d.videoMemStart)
        scrEnd := s.scrEnd + d.videoSizeRow - (s.origin + d.videoSizeRow - d.videoMemStart)
        video := m } :=
  { inside with
    position := by
      dsimp only
      rw [inside.position]
      ring
    screenEnd := by
      dsimp only
      rw [inside.screenEnd]
      ring
    low := le_rfl
    high := fits.memory
    writes := within }

omit fits in
theorem Inside.rowOn (room : s.scrEnd.toNat + d.videoSizeRow.toNat ≤ d.videoMemEnd.toNat) {m : ByteMemory}
    (within : m.Within d.videoMemStart.toNat d.videoMemEnd.toNat) :
    Inside d
      { s with
        origin := s.origin + d.videoSizeRow
        pos := s.pos + d.videoSizeRow
        scrEnd := s.scrEnd + d.videoSizeRow
        video := m } := by
  have limit := d.videoMemEnd.isLt
  have low := inside.low
  rw [inside.scrEnd_toNat] at room
  have next : (s.origin + d.videoSizeRow).toNat = s.origin.toNat + d.videoSizeRow.toNat :=
    BitVec.toNat_add_of_lt (by omega)
  exact { inside with
    position := by
      dsimp only
      rw [inside.position]
      ring
    screenEnd := by
      dsimp only
      rw [inside.screenEnd]
      ring
    low := by
      dsimp only
      omega
    high := by
      dsimp only
      omega
    writes := within }

theorem Inside.moveOrigin : Inside d (s.moveOrigin d) := by
  have row := fits.row_toNat
  have columns := fits.columns
  have low := inside.low
  have lines := fits.lines
  have memory := fits.memory
  have memoryEnd := fits.memoryEnd
  have screenEnd := inside.screen_in_memory
  have start := inside.scrEnd_toNat
  have limit := d.videoMemEnd.isLt
  have next : (s.scrEnd + d.videoSizeRow).toNat = s.scrEnd.toNat + d.videoSizeRow.toNat :=
    BitVec.toNat_add_of_lt (by omega)
  rw [Console.moveOrigin]
  dsimp only
  split
  · apply inside.atStart fits
    have others : (d.videoNumLines - 1).toNat = 24 := by bv_omega
    have longs := fits.longs (show (d.videoNumLines - 1).toNat ≤ 25 by omega)
    rw [others] at longs
    rw [lines] at memory
    have there := advance d.videoMemStart (((d.videoNumLines - 1) * d.videoNumColumns) >>> 1).toNat (by omega)
    apply ByteMemory.Within.stosw_up limit _ (by omega) (by omega)
    exact inside.writes.movsl_up limit le_rfl (by omega)
  · next stays =>
    rw [BitVec.not_lt, BitVec.le_def, next] at stays
    apply inside.rowOn stays
    rw [show s.scrEnd + d.videoSizeRow - d.videoSizeRow = s.scrEnd by ring]
    exact inside.writes.stosw_up limit (by omega) (by omega)

theorem Inside.scrup : Inside d (s.scrup d) := by
  rw [Console.scrup]
  split
  · split
    · exact inside.moveOrigin fits
    · exact inside.moveUp fits
  · exact inside.moveUp fits

theorem Inside.lf : Inside d (s.lf d) := by
  have regionEnd := inside.regionEnd
  have lines := fits.lines
  rw [Console.lf]
  split
  · next room =>
    rw [BitVec.lt_def] at room
    exact { inside with
      line := by
        dsimp only
        omega
      position := by
        dsimp only
        rw [inside.position]
        ring }
  · exact inside.scrup fits

theorem Inside.ri : Inside d (s.ri d) := by
  have line := inside.line
  rw [Console.ri]
  split
  · next room =>
    have up : (s.y - 1).toNat = s.y.toNat - 1 := by bv_omega
    exact { inside with
      line := by
        dsimp only
        omega
      position := by
        dsimp only
        rw [inside.position]
        ring }
  · exact inside.scrdown fits

end Scrolling

section Erasing

variable (fits : d.Fits) (inside : Inside d s)

include inside

theorem Inside.erase {start count : BitVec 32} (low : d.videoMemStart.toNat ≤ start.toNat)
    (high : start.toNat + 2 * count.toNat ≤ d.videoMemEnd.toNat) : Inside d (s.erase d start count) :=
  inside.draw (inside.writes.stosw_up d.videoMemEnd.isLt low high)

include fits

theorem Inside.pos_low : s.origin.toNat ≤ s.pos.toNat := by
  rw [inside.pos_toNat fits]
  omega

theorem Inside.line_start :
    (s.pos - s.x <<< 1).toNat + 2 * s.x.toNat = s.pos.toNat ∧ s.origin.toNat ≤ (s.pos - s.x <<< 1).toNat := by
  have start : s.pos - s.x <<< 1 = s.origin + s.y * d.videoSizeRow := by
    rw [shift_one, inside.position]
    ring
  rw [start, inside.row_toNat inside.line.le, inside.pos_toNat fits]
  omega

theorem Inside.csiJ (par : BitVec 32) : Inside d (s.csiJ d par) := by
  have low := inside.low
  have high := inside.screen_in_memory
  have begin := inside.pos_low fits
  have finish := inside.line_end fits
  have limit := d.videoMemEnd.isLt
  rw [Console.csiJ]
  split
  · have rest : (s.scrEnd - s.pos).toNat = s.scrEnd.toNat - s.pos.toNat := by bv_omega
    apply inside.erase (by omega)
    rw [BitVec.toNat_ushiftRight, rest, Nat.shiftRight_eq_div_pow]
    omega
  · split
    · have before : (s.pos - s.origin).toNat = s.pos.toNat - s.origin.toNat := by bv_omega
      apply inside.erase low
      rw [BitVec.toNat_ushiftRight, before, Nat.shiftRight_eq_div_pow]
      omega
    · split
      · apply inside.erase low
        have screen := inside.scrEnd_toNat
        have columns := fits.columns
        have lines := fits.lines
        have whole : (d.videoNumColumns * d.videoNumLines).toNat =
            d.videoNumColumns.toNat * d.videoNumLines.toNat :=
          BitVec.toNat_mul_of_lt (by rw [lines]; omega)
        rw [fits.row_toNat, lines] at screen
        rw [whole, lines]
        omega
      · exact inside

theorem Inside.csiK (par : BitVec 32) : Inside d (s.csiK d par) := by
  have low := inside.low
  have high := inside.screen_in_memory
  have begin := inside.pos_low fits
  have finish := inside.line_end fits
  have column := inside.column
  have start := inside.line_start fits
  rw [Console.csiK]
  split
  · split
    · exact inside
    · next before =>
      have rest : (d.videoNumColumns - s.x).toNat = d.videoNumColumns.toNat - s.x.toNat := by bv_omega
      exact inside.erase (by omega) (by omega)
  · split
    · apply inside.erase (by omega)
      split <;> omega
    · split
      · exact inside.erase (by omega) (by omega)
      · exact inside

theorem Inside.del : Inside d (s.del d) := by
  have low := inside.low
  have high := inside.screen_in_memory
  have finish := inside.line_end fits
  have start := inside.line_start fits
  have limit := d.videoMemEnd.isLt
  rw [Console.del]
  split
  · next moved =>
    have positive : s.x.toNat ≠ 0 := fun zero => moved (BitVec.eq_of_toNat_eq zero)
    have back : (s.pos - 2).toNat = s.pos.toNat - 2 := by bv_omega
    exact (inside.back moved).draw (inside.writes.storeWord limit (by omega) (by omega) _)
  · exact inside

end Erasing

end Linux011.Tty

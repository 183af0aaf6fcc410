import Linux011.Tty.OnScreen

namespace Linux011.Tty

open Linux011.Library ByteMemory

/-- An EGA or VGA display of even columns. -/
structure Display.Fast (d : Display) : Prop where
  type : d.videoType = .egac ∨ d.videoType = .egam
  row : d.videoSizeRow = 2 * d.videoNumColumns
  columns : d.videoNumColumns.toNat < 256
  even : d.videoNumColumns.toNat % 2 = 0
  lines : d.videoNumLines = 25
  memory : d.videoMemStart.toNat + 25 * d.videoSizeRow.toNat ≤ d.videoMemEnd.toNat
  memoryEnd : d.videoMemEnd.toNat < 2 ^ 20

/-- A display that differs in its type and its memory, and does not scroll fast. -/
def Display.Beside (d d' : Display) : Prop :=
  ∃ t a b, t ≠ .egac ∧ t ≠ .egam ∧ d' = { d with videoType := t, videoMemStart := a, videoMemEnd := b }

namespace Display

variable (d : Display)

def size : Nat := 25 * d.videoSizeRow.toNat

def cell (x y : BitVec 32) : BitVec 32 := y * d.videoSizeRow + 2 * x

end Display

/-- What separates the cursor's cell from `pos`: nothing, or that `pos` was never set and lies below the
    video memory. -/
def Gap (gap : BitVec 32) : Prop := 2 ^ 31 ≤ gap.toNat ∧ gap.toNat + 2 ^ 19 ≤ 2 ^ 32 ∧ gap.toNat % 2 = 0

/-- Two consoles that show the same; the origin, the screen end, the cursor's place in memory and the video
    memory of the second are given. -/
structure Twin (d : Display) (s : Console) (origin scrEnd pos : BitVec 32) (video : ByteMemory) : Prop where
  line : s.y.toNat < 25
  column : 2 ≤ d.videoNumColumns.toNat → s.x.toNat ≤ max d.videoNumColumns.toNat 7
  region : s.top.toNat < s.bottom.toNat
  regionEnd : s.bottom.toNat ≤ 25
  low : d.videoMemStart.toNat ≤ s.origin.toNat
  high : s.origin.toNat + d.size ≤ d.videoMemEnd.toNat
  screenEnd : s.scrEnd = s.origin + 25 * d.videoSizeRow
  screenEnd' : scrEnd = origin + 25 * d.videoSizeRow
  cursor : ∃ gap gap', (gap = 0 ∧ gap' = 0 ∨ Gap gap ∧ Gap gap') ∧
    s.pos = s.origin + (gap + d.cell s.x s.y) ∧ pos = origin + (gap' + d.cell s.x s.y)
  shows : Shows d.size s.video s.origin video origin

def Mirrors (d : Display) (s s' : Console) : Prop :=
  ∃ o e p m, s' = { s with origin := o, scrEnd := e, pos := p, video := m } ∧ Twin d s o e p m

variable {d d' : Display} {s s' : Console} {o e p : BitVec 32} {m : ByteMemory}

section Addresses

variable (fast : d.Fast)

include fast

theorem Display.Fast.row_toNat : d.videoSizeRow.toNat = 2 * d.videoNumColumns.toNat := by
  have columns := fast.columns
  rw [fast.row, BitVec.toNat_mul]
  exact Nat.mod_eq_of_lt (show 2 * d.videoNumColumns.toNat < 2 ^ 32 by omega)

theorem Display.Fast.size_small : d.size ≤ 12750 := by
  have columns := fast.columns
  have row := fast.row_toNat
  rw [Display.size]
  omega

theorem Display.Fast.rows_toNat {r : BitVec 32} (few : r.toNat ≤ 25) :
    (d.videoSizeRow * r).toNat = r.toNat * d.videoSizeRow.toNat := by
  have columns := fast.columns
  have row := fast.row_toNat
  have limit : d.videoSizeRow.toNat * r.toNat ≤ 510 * 25 := Nat.mul_le_mul (by omega) few
  rw [BitVec.toNat_mul_of_lt (by omega), Nat.mul_comm]

theorem Display.Fast.size_toNat : (25 * d.videoSizeRow).toNat = d.size := by
  rw [BitVec.mul_comm, fast.rows_toNat (show (25 : BitVec 32).toNat ≤ 25 by decide)]
  rfl

theorem Display.Fast.cell_toNat {x y : BitVec 32} (line : y.toNat < 25) (column : x.toNat ≤ 255) :
    (d.cell x y).toNat = y.toNat * d.videoSizeRow.toNat + 2 * x.toNat := by
  have rows := fast.rows_toNat line.le
  have columns := fast.columns
  have row := fast.row_toNat
  have limit : y.toNat * d.videoSizeRow.toNat ≤ 25 * 510 := Nat.mul_le_mul line.le (by omega)
  have double : (2 * x).toNat = 2 * x.toNat := BitVec.toNat_mul_of_lt (show 2 * x.toNat < 2 ^ 32 by omega)
  rw [Display.cell, BitVec.mul_comm y, BitVec.toNat_add_of_lt (by omega), rows, double]

theorem Display.Fast.rest_of_line {x y : BitVec 32} (line : y.toNat < 25)
    (column : x.toNat ≤ d.videoNumColumns.toNat) :
    (d.cell x y).toNat + 2 * (d.videoNumColumns.toNat - x.toNat) ≤ d.size := by
  have columns := fast.columns
  have row := fast.row_toNat
  have room := Nat.mul_le_mul_right d.videoSizeRow.toNat (Nat.succ_le_of_lt line)
  rw [Nat.succ_mul] at room
  rw [fast.cell_toNat line (by omega), Display.size]
  omega

end Addresses

section Cursor

theorem Twin.draw (twin : Twin d s o e p m) {m1 m1' : ByteMemory} (shows : Shows d.size m1 s.origin m1' o) :
    Mirrors d { s with video := m1 } { s with origin := o, scrEnd := e, pos := p, video := m1' } :=
  ⟨o, e, p, m1', rfl, { twin with shows := shows }⟩

theorem Twin.moved (twin : Twin d s o e p m) {x y pos pos' : BitVec 32} (line : y.toNat < 25)
    (column : 2 ≤ d.videoNumColumns.toNat → x.toNat ≤ max d.videoNumColumns.toNat 7)
    (here : pos = s.pos + (d.cell x y - d.cell s.x s.y)) (there : pos' = p + (d.cell x y - d.cell s.x s.y)) :
    Twin d { s with x := x, y := y, pos := pos } o e pos' m := by
  rcases twin.cursor with ⟨gap, gap', gaps, cursor, cursor'⟩
  exact { twin with
    line := line
    column := column
    cursor := ⟨gap, gap', gaps, by
      rw [here, cursor]
      ring, by
      rw [there, cursor']
      ring⟩ }

theorem Twin.along (twin : Twin d s o e p m) {x y pos pos' : BitVec 32} (line : y.toNat < 25)
    (column : 2 ≤ d.videoNumColumns.toNat → x.toNat ≤ max d.videoNumColumns.toNat 7)
    (here : pos = s.pos + (d.cell x y - d.cell s.x s.y)) (there : pos' = p + (d.cell x y - d.cell s.x s.y)) :
    Mirrors d { s with x := x, y := y, pos := pos }
      { s with x := x, y := y, origin := o, scrEnd := e, pos := pos', video := m } :=
  ⟨o, e, pos', m, rfl, twin.moved line column here there⟩

theorem Twin.window (twin : Twin d s o e p m) {top bottom : BitVec 32} (region : top.toNat < bottom.toNat)
    (regionEnd : bottom.toNat ≤ 25) : Twin d { s with top := top, bottom := bottom } o e p m :=
  { twin with region := region, regionEnd := regionEnd }

theorem Mirrors.gotoxy (fast : d.Fast) (beside : d.Beside d') (mirrors : Mirrors d s s') (newX newY : BitVec 32) :
    Mirrors d (s.gotoxy d newX newY) (s'.gotoxy d' newX newY) := by
  rcases beside with ⟨t, a, b, slow, slow', rfl⟩
  rcases mirrors with ⟨o, e, p, m, rfl, twin⟩
  rw [Console.gotoxy, Console.gotoxy]
  dsimp only
  split
  · exact ⟨o, e, p, m, rfl, twin⟩
  · next accepted =>
    rw [not_or, BitVec.not_lt, BitVec.not_le, fast.lines] at accepted
    have column : newX.toNat ≤ d.videoNumColumns.toNat := accepted.1
    exact ⟨o, e, _, m, rfl, { twin with
      line := accepted.2
      column := fun _ => column.trans (le_max_left _ _)
      cursor := ⟨0, 0, .inl ⟨rfl, rfl⟩, by
        rw [shift_one, Display.cell]
        ring, by
        rw [shift_one, Display.cell]
        ring⟩ }⟩

theorem Mirrors.cr (mirrors : Mirrors d s s') : Mirrors d s.cr s'.cr := by
  rcases mirrors with ⟨o, e, p, m, rfl, twin⟩
  have back : d.cell 0 s.y - d.cell s.x s.y = -(s.x <<< 1) := by
    rw [Display.cell, Display.cell, shift_one]
    ring
  apply twin.along twin.line fun _ => Nat.zero_le _
  · rw [back, sub_eq_add_neg]
  · rw [back, sub_eq_add_neg]

end Cursor

section Scrolling

/-- What is shown moved up a row, and the last row erased. -/
def Scrolled (d : Display) (m : ByteMemory) (o : BitVec 32) (m1 : ByteMemory) (o1 : BitVec 32) : Prop :=
  ∀ i : BitVec 32, i.toNat < d.size → m1.bytes (o1 + i) =
    if i.toNat + d.videoSizeRow.toNat < d.size then m.bytes (o + (d.videoSizeRow + i))
    else fill d.videoEraseChar i.toNat

theorem Scrolled.shows {m m' m1 m1' : ByteMemory} {o1 o1' : BitVec 32} (fast : d.Fast)
    (shows : Shows d.size m o m' p) (scrolled : Scrolled d m o m1 o1) (scrolled' : Scrolled d m' p m1' o1') :
    Shows d.size m1 o1 m1' o1' := by
  intro i inside
  rw [scrolled i inside, scrolled' i inside]
  split
  · next room =>
    have small := fast.size_small
    have next : (d.videoSizeRow + i).toNat = d.videoSizeRow.toNat + i.toNat :=
      BitVec.toNat_add_of_lt (by omega)
    rw [shows _ (by omega)]
  · rfl

theorem scrolled_copy (fast : d.Fast) {n : Nat} {gap : BitVec 32} (rows : 4 * n + d.videoSizeRow.toNat = d.size)
    (source : p + gap = o + d.videoSizeRow) (room : d.size + gap.toNat ≤ 2 ^ 32) :
    Scrolled d m o (stosw 2 d.videoEraseChar d.videoNumColumns.toNat (p + 4 * BitVec.ofNat 32 n)
      (movsl 4 n p (p + gap) m)) p := by
  intro i inside
  have small := fast.size_small
  have columns := fast.columns
  have row := fast.row_toNat
  have copied := longs_toNat n (by omega)
  have there : p + i + gap = o + (d.videoSizeRow + i) := by
    rw [add_right_comm, source, add_assoc]
  rw [stosw_bytes (by omega), movsl_bytes (by omega), add_sub_add_left_eq_sub, add_sub_cancel_left, there]
  by_cases last : 4 * n ≤ i.toNat
  · have offset : (i - 4 * BitVec.ofNat 32 n).toNat = i.toNat - 4 * n := by
      rw [BitVec.toNat_sub_of_le (by rw [BitVec.le_def, copied]; exact last), copied]
    have whole : i.toNat = 4 * n + (i.toNat - 4 * n) := by omega
    rw [if_pos (by omega), if_neg (by omega), offset]
    conv_rhs => rw [whole]
    rw [fill_add_even _ (by omega)]
  · have offset : (i - 4 * BitVec.ofNat 32 n).toNat = 2 ^ 32 - 4 * n + i.toNat := by
      rw [BitVec.toNat_sub, copied]
      omega
    have before : ¬ (i - 4 * BitVec.ofNat 32 n).toNat < 2 * d.videoNumColumns.toNat := by
      rw [offset]
      omega
    rw [if_neg before, if_pos (by omega), if_pos (by omega)]

theorem scrolled_origin (fast : d.Fast) (m : ByteMemory) (o : BitVec 32) :
    Scrolled d m o (stosw 2 d.videoEraseChar d.videoNumColumns.toNat (o + 25 * d.videoSizeRow) m)
      (o + d.videoSizeRow) := by
  intro i inside
  have small := fast.size_small
  have columns := fast.columns
  have row := fast.row_toNat
  have size := fast.size_toNat
  have even : d.size % 2 = 0 := by
    rw [Display.size]
    omega
  have next : (d.videoSizeRow + i).toNat = d.videoSizeRow.toNat + i.toNat := BitVec.toNat_add_of_lt (by omega)
  rw [stosw_bytes (by omega), add_assoc, add_sub_add_left_eq_sub]
  by_cases room : i.toNat + d.videoSizeRow.toNat < d.size
  · have before : ¬ (d.videoSizeRow + i - 25 * d.videoSizeRow).toNat < 2 * d.videoNumColumns.toNat := by
      bv_omega
    rw [if_pos room, if_neg before]
  · have last : (d.videoSizeRow + i - 25 * d.videoSizeRow).toNat = d.videoSizeRow.toNat + i.toNat - d.size := by
      rw [BitVec.toNat_sub_of_le (by rw [BitVec.le_def, size, next]; omega), size, next]
    have whole : d.size + (d.videoSizeRow.toNat + i.toNat - d.size) = d.videoSizeRow.toNat + i.toNat := by omega
    rw [if_neg room, last, if_pos (by omega), ← fill_add_even _ even, whole, fill_add_even _ (by omega)]

variable (fast : d.Fast)

include fast

theorem Twin.regionLongs (twin : Twin d s o e p m) :
    4 * s.regionLongs d = (s.bottom.toNat - (s.top.toNat + 1)) * d.videoSizeRow.toNat := by
  have region := twin.region
  have regionEnd := twin.regionEnd
  have rows : (s.bottom - s.top - 1).toNat = s.bottom.toNat - (s.top.toNat + 1) := by bv_omega
  rw [Console.regionLongs, longs_of_even (by omega) fast.columns fast.even, rows, fast.row_toNat]

theorem Twin.moveUp (beside : d.Beside d') (twin : Twin d s o e p m) :
    Mirrors d (s.moveUp d) (({ s with origin := o, scrEnd := e, pos := p, video := m } : Console).moveUp d') := by
  rcases beside with ⟨t, a, b, slow, slow', rfl⟩
  have small := fast.size_small
  have region := twin.region
  have regionEnd := twin.regionEnd
  have next : (s.top + 1).toNat = s.top.toNat + 1 :=
    BitVec.toNat_add_of_lt (show s.top.toNat + 1 < 2 ^ 32 by omega)
  have below := fast.rows_toNat (r := s.top + 1) (by omega)
  have room : (d.videoSizeRow * (s.top + 1)).toNat + 4 * s.regionLongs d ≤ d.size := by
    have rows := Nat.mul_le_mul_right d.videoSizeRow.toNat regionEnd
    rw [twin.regionLongs fast, below, next, ← Nat.add_mul, Nat.add_sub_cancel' region]
    exact rows
  have moved := twin.shows.movsl_up (d.videoSizeRow * s.top) room (by omega)
  have erased := moved.stosw 2 d.videoEraseChar d.videoNumColumns.toNat
    (d.videoSizeRow * s.top + 4 * BitVec.ofNat 32 (s.regionLongs d))
  rw [← add_assoc, ← add_assoc] at erased
  exact twin.draw erased

theorem Twin.scrdown (beside : d.Beside d') (twin : Twin d s o e p m) :
    Mirrors d (s.scrdown d) (({ s with origin := o, scrEnd := e, pos := p, video := m } : Console).scrdown d') := by
  rcases beside with ⟨t, a, b, slow, slow', rfl⟩
  have small := fast.size_small
  have region := twin.region
  have regionEnd := twin.regionEnd
  have longs := twin.regionLongs fast
  have moved : Shows d.size
      (movsl (-4) (s.regionLongs d) (s.origin + (d.videoSizeRow * s.bottom - 4))
        (s.origin + (d.videoSizeRow * (s.bottom - 1) - 4)) s.video) s.origin
      (movsl (-4) (s.regionLongs d) (o + (d.videoSizeRow * s.bottom - 4))
        (o + (d.videoSizeRow * (s.bottom - 1) - 4)) m) o := by
    by_cases none : s.regionLongs d = 0
    · rw [none]
      exact twin.shows
    · have even := fast.even
      have row := fast.row_toNat
      have above : (s.bottom - 1).toNat = s.bottom.toNat - 1 := by bv_omega
      have last := fast.rows_toNat (r := s.bottom - 1) (by omega)
      have rows : (s.bottom.toNat - (s.top.toNat + 1)) * d.videoSizeRow.toNat ≤
          (s.bottom.toNat - 1) * d.videoSizeRow.toNat := Nat.mul_le_mul_right _ (by omega)
      have screen : (s.bottom.toNat - 1) * d.videoSizeRow.toNat ≤ d.size := Nat.mul_le_mul_right _ (by omega)
      rw [above] at last
      have source : (d.videoSizeRow * (s.bottom - 1) - 4).toNat =
          (s.bottom.toNat - 1) * d.videoSizeRow.toNat - 4 := by
        rw [BitVec.toNat_sub_of_le (by rw [BitVec.le_def, last]; show 4 ≤ _; omega), last]
        rfl
      exact twin.shows.movsl_down _ (by omega) (by omega) (by omega)
  have erased := moved.stosw (-2) d.videoEraseChar d.videoNumColumns.toNat
    (d.videoSizeRow * s.bottom - 4 - 4 * BitVec.ofNat 32 (s.regionLongs d) + 2)
  rw [← add_assoc, ← add_assoc, ← add_sub_assoc, ← add_sub_assoc, ← add_sub_assoc, ← add_sub_assoc,
    ← add_sub_assoc, ← add_sub_assoc] at erased
  exact twin.draw erased

theorem Twin.moveUp_scrolled (beside : d.Beside d') (twin : Twin d s o e p m) (top : s.top = 0)
    (bottom : s.bottom = d.videoNumLines) :
    Scrolled d m o (({ s with origin := o, scrEnd := e, pos := p, video := m } : Console).moveUp d').video o := by
  rcases beside with ⟨t, a, b, slow, slow', rfl⟩
  have small := fast.size_small
  have longs := twin.regionLongs fast
  have others : (25 : BitVec 32).toNat - ((0 : BitVec 32).toNat + 1) = 24 := rfl
  rw [top, bottom, fast.lines, others] at longs
  have rows : 4 * s.regionLongs d + d.videoSizeRow.toNat = d.size := by
    rw [Display.size]
    omega
  have first : o + d.videoSizeRow * s.top = o := by
    rw [top]
    ring
  have second : o + d.videoSizeRow * (s.top + 1) = o + d.videoSizeRow := by
    rw [top]
    ring
  have copied := scrolled_copy (m := m) fast rows (p := o) rfl (by omega)
  rw [Console.moveUp]
  dsimp only
  rw [first, second]
  exact copied

theorem Twin.moveOrigin (beside : d.Beside d') (twin : Twin d s o e p m) (top : s.top = 0)
    (bottom : s.bottom = d.videoNumLines) :
    Mirrors d (s.moveOrigin d)
      (({ s with origin := o, scrEnd := e, pos := p, video := m } : Console).moveUp d') := by
  have up := twin.moveUp_scrolled fast beside top bottom
  have small := fast.size_small
  have columns := fast.columns
  have row := fast.row_toNat
  have size := fast.size_toNat
  have low := twin.low
  have high := twin.high
  have memoryEnd := fast.memoryEnd
  rcases twin.cursor with ⟨gap, gap', gaps, cursor, cursor'⟩
  have next : (s.origin + d.videoSizeRow).toNat = s.origin.toNat + d.videoSizeRow.toNat :=
    BitVec.toNat_add_of_lt (by omega)
  have screenEnd : s.scrEnd + d.videoSizeRow = s.origin + d.videoSizeRow + 25 * d.videoSizeRow := by
    rw [twin.screenEnd]
    ring
  rw [Console.moveOrigin]
  dsimp only
  split
  · have rows : 4 * (((d.videoNumLines - 1) * d.videoNumColumns) >>> 1).toNat + d.videoSizeRow.toNat = d.size := by
      have others : (25 - 1 : BitVec 32).toNat = 24 := rfl
      rw [fast.lines, longs_of_even (by decide) columns fast.even, others, Display.size]
      omega
    have distance : (s.origin + d.videoSizeRow - d.videoMemStart).toNat =
        s.origin.toNat + d.videoSizeRow.toNat - d.videoMemStart.toNat := by
      rw [BitVec.toNat_sub_of_le (by rw [BitVec.le_def]; omega), next]
    have source : d.videoMemStart + (s.origin + d.videoSizeRow - d.videoMemStart) = s.origin + d.videoSizeRow :=
      add_sub_cancel _ _
    have back := scrolled_copy (m := s.video) fast rows source (by omega)
    rw [source] at back
    exact ⟨o, e, p, _, rfl, { twin with
      low := le_rfl
      high := fast.memory
      screenEnd := by
        dsimp only
        rw [screenEnd]
        ring
      cursor := ⟨gap, gap', gaps, by
        dsimp only
        rw [cursor]
        ring, cursor'⟩
      shows := Scrolled.shows fast twin.shows back up }⟩
  · next stays =>
    have finish : (s.origin + d.videoSizeRow + 25 * d.videoSizeRow).toNat =
        s.origin.toNat + d.videoSizeRow.toNat + d.size := by
      rw [BitVec.toNat_add_of_lt (by omega), next, size]
    rw [BitVec.not_lt, BitVec.le_def, screenEnd, finish] at stays
    have on := scrolled_origin fast s.video s.origin
    rw [← twin.screenEnd, ← add_sub_cancel_right s.scrEnd d.videoSizeRow] at on
    exact ⟨o, e, p, _, rfl, { twin with
      low := by
        dsimp only
        omega
      high := by
        dsimp only
        omega
      screenEnd := screenEnd
      cursor := ⟨gap, gap', gaps, by
        dsimp only
        rw [cursor]
        ring, cursor'⟩
      shows := Scrolled.shows fast twin.shows on up }⟩

theorem Mirrors.scrup (beside : d.Beside d') (mirrors : Mirrors d s s') : Mirrors d (s.scrup d) (s'.scrup d') := by
  rcases mirrors with ⟨o, e, p, m, rfl, twin⟩
  have up := twin.moveUp fast beside
  have origin := twin.moveOrigin fast beside
  rcases beside with ⟨t, a, b, slow, slow', rfl⟩
  rw [Console.scrup, Console.scrup, if_pos fast.type, if_neg (not_or.mpr ⟨slow, slow'⟩)]
  split
  · next whole => exact origin whole.1 whole.2
  · exact up

theorem Mirrors.lf (beside : d.Beside d') (mirrors : Mirrors d s s') : Mirrors d (s.lf d) (s'.lf d') := by
  have scrolled := mirrors.scrup fast beside
  rcases mirrors with ⟨o, e, p, m, rfl, twin⟩
  rcases beside with ⟨t, a, b, slow, slow', rfl⟩
  have regionEnd := twin.regionEnd
  have down : d.cell s.x (s.y + 1) - d.cell s.x s.y = d.videoSizeRow := by
    rw [Display.cell, Display.cell]
    ring
  rw [Console.lf, Console.lf]
  dsimp only
  split
  · next room =>
    rw [BitVec.lt_def] at room
    apply twin.along (by omega) twin.column
    · rw [down]
    · rw [down]
  · exact scrolled

theorem Mirrors.ri (beside : d.Beside d') (mirrors : Mirrors d s s') : Mirrors d (s.ri d) (s'.ri d') := by
  rcases mirrors with ⟨o, e, p, m, rfl, twin⟩
  have scrolled := twin.scrdown fast beside
  rcases beside with ⟨t, a, b, slow, slow', rfl⟩
  have line := twin.line
  have up : d.cell s.x (s.y - 1) - d.cell s.x s.y = -d.videoSizeRow := by
    rw [Display.cell, Display.cell]
    ring
  rw [Console.ri, Console.ri]
  dsimp only
  split
  · next room =>
    have above : (s.y - 1).toNat = s.y.toNat - 1 := by bv_omega
    apply twin.along (by omega) twin.column
    · rw [up, sub_eq_add_neg]
    · rw [up, sub_eq_add_neg]
  · exact scrolled

end Scrolling

section Editing

theorem shows_nothing (none : d.size = 0) (m m' : ByteMemory) (o o' : BitVec 32) : Shows d.size m o m' o' := by
  intro i inside
  omega

variable (fast : d.Fast)

include fast

/-- Off the screen, and far from where the addresses come round to it. -/
def Beyond (k : BitVec 32) : Prop := 2 ^ 30 ≤ k.toNat ∧ k.toNat + 2 ^ 18 ≤ 2 ^ 32 ∧ k.toNat % 2 = 0

theorem Gap.beyond {gap x y : BitVec 32} (far : Gap gap) (line : y.toNat < 25) (column : x.toNat ≤ 255) :
    Beyond (gap + d.cell x y) := by
  have columns := fast.columns
  have row := fast.row_toNat
  have cell := fast.cell_toNat line column
  have limit : y.toNat * d.videoSizeRow.toNat ≤ 25 * 510 := Nat.mul_le_mul line.le (by omega)
  have even : y.toNat * d.videoSizeRow.toNat % 2 = 0 := by
    rw [row, Nat.mul_left_comm, Nat.mul_mod_right]
  rcases far with ⟨low, high, parity⟩
  have sum : (gap + d.cell x y).toNat = gap.toNat + (d.cell x y).toNat := BitVec.toNat_add_of_lt (by omega)
  rw [Beyond, sum]
  omega

/-- The cursor is at its cell on both screens, or there is no screen, or it is off both. -/
theorem Twin.place (twin : Twin d s o e p m) :
    (s.pos = s.origin + d.cell s.x s.y ∧ p = o + d.cell s.x s.y) ∨ d.size = 0 ∨
      ∃ k k', Beyond k ∧ Beyond k' ∧ s.x.toNat ≤ 255 ∧ s.pos = s.origin + k ∧ p = o + k' := by
  rcases twin.cursor with ⟨gap, gap', ⟨rfl, rfl⟩ | ⟨far, far'⟩, cursor, cursor'⟩
  · rw [zero_add] at cursor cursor'
    exact .inl ⟨cursor, cursor'⟩
  · by_cases wide : 2 ≤ d.videoNumColumns.toNat
    · have columns := fast.columns
      have column : s.x.toNat ≤ 255 := (twin.column wide).trans (max_le (by omega) (by decide))
      exact .inr (.inr ⟨_, _, far.beyond fast twin.line column, far'.beyond fast twin.line column, column,
        cursor, cursor'⟩)
    · have even := fast.even
      have row := fast.row_toNat
      rw [Display.size]
      omega

theorem Twin.near (twin : Twin d s o e p m) (f : BitVec 32 → ByteMemory → ByteMemory)
    (same : ∀ m o m' o', Shows d.size m o m' o' →
      Shows d.size (f (o + d.cell s.x s.y) m) o (f (o' + d.cell s.x s.y) m') o')
    (away : ∀ m o k, s.x.toNat ≤ 255 → Beyond k → Shows d.size m o (f (o + k) m) o) :
    Shows d.size (f s.pos s.video) s.origin (f p m) o := by
  rcases twin.place fast with ⟨cursor, cursor'⟩ | none | ⟨k, k', far, far', column, cursor, cursor'⟩
  · rw [cursor, cursor']
    exact same _ _ _ _ twin.shows
  · exact shows_nothing none _ _ _ _
  · rw [cursor, cursor']
    exact twin.shows.through (away _ _ _ column far) (away _ _ _ column far')

theorem Mirrors.del (beside : d.Beside d') (mirrors : Mirrors d s s') : Mirrors d (s.del d) (s'.del d') := by
  rcases beside with ⟨t, a, b, slow, slow', rfl⟩
  rcases mirrors with ⟨o, e, p, m, rfl, twin⟩
  have small := fast.size_small
  rw [Console.del, Console.del]
  dsimp only
  split
  · next moved =>
    have positive : s.x.toNat ≠ 0 := fun zero => moved (BitVec.eq_of_toNat_eq zero)
    have left : (s.x - 1).toNat = s.x.toNat - 1 := BitVec.toNat_sub_of_le (by bv_omega)
    have back : d.cell (s.x - 1) s.y - d.cell s.x s.y = -2 := by
      rw [Display.cell, Display.cell]
      ring
    have there : Twin d { s with x := s.x - 1, y := s.y, pos := s.pos - 2 } o e (p - 2) m := by
      apply twin.moved twin.line
      · intro wide
        have column := twin.column wide
        omega
      · rw [back, sub_eq_add_neg]
      · rw [back, sub_eq_add_neg]
    apply there.draw
    apply twin.near fast fun pos m => m.storeWord (pos - 2) d.videoEraseChar
    · intro m o m' o' shows
      rw [add_sub_assoc, add_sub_assoc]
      exact shows.storeWord _ _
    · intro m o k column far
      rcases far with ⟨low, high, even⟩
      have before : (k - 2).toNat = k.toNat - 2 := by bv_omega
      rw [add_sub_assoc]
      exact storeWord_hidden m o (by omega) (by omega) _
  · exact ⟨o, e, p, m, rfl, twin⟩

theorem Twin.erase_rest (twin : Twin d s o e p m) :
    Shows d.size (stosw 2 d.videoEraseChar ((s.scrEnd - s.pos) >>> 1).toNat s.pos s.video) s.origin
      (stosw 2 d.videoEraseChar ((e - p) >>> 1).toNat p m) o := by
  have small := fast.size_small
  have size := fast.size_toNat
  have row := fast.row_toNat
  have even : d.size % 2 = 0 := by
    rw [Display.size]
    omega
  have rest : ∀ {k : BitVec 32}, Beyond k → 2 * ((25 * d.videoSizeRow - k) >>> 1).toNat = d.size + 2 ^ 32 - k.toNat := by
    intro k far
    rcases far with ⟨low, high, parity⟩
    rw [BitVec.toNat_ushiftRight, BitVec.toNat_sub, size, Nat.shiftRight_eq_div_pow]
    omega
  have overrun : ∀ {k : BitVec 32}, Beyond k → ∀ i : BitVec 32, i.toNat < d.size →
      (i - k).toNat < 2 * ((25 * d.videoSizeRow - k) >>> 1).toNat := by
    intro k far i inside
    rw [rest far, BitVec.toNat_sub]
    rcases far with ⟨low, high, parity⟩
    omega
  rw [twin.screenEnd, twin.screenEnd']
  rcases twin.place fast with ⟨cursor, cursor'⟩ | none | ⟨k, k', far, far', column, cursor, cursor'⟩
  · rw [cursor, cursor', add_sub_add_left_eq_sub, add_sub_add_left_eq_sub]
    exact twin.shows.stosw _ _ _ _
  · exact shows_nothing none _ _ _ _
  · rw [cursor, cursor', add_sub_add_left_eq_sub, add_sub_add_left_eq_sub]
    apply twin.shows.fill
    · rw [rest far]
      have low := far.1
      omega
    · rw [rest far']
      have low := far'.1
      omega
    · exact far.2.2
    · exact far'.2.2
    · exact fun i inside => iff_of_true (overrun far i inside) (overrun far' i inside)

theorem Twin.erase_before (twin : Twin d s o e p m) :
    Shows d.size (stosw 2 d.videoEraseChar ((s.pos - s.origin) >>> 1).toNat s.origin s.video) s.origin
      (stosw 2 d.videoEraseChar ((p - o) >>> 1).toNat o m) o := by
  have small := fast.size_small
  have half : ∀ {k : BitVec 32}, Beyond k → 2 * (k >>> 1).toNat = k.toNat := by
    intro k far
    rcases far with ⟨low, high, parity⟩
    rw [BitVec.toNat_ushiftRight, Nat.shiftRight_eq_div_pow]
    omega
  have overrun : ∀ {k : BitVec 32}, Beyond k → ∀ i : BitVec 32, i.toNat < d.size →
      (i - 0).toNat < 2 * (k >>> 1).toNat := by
    intro k far i inside
    rw [half far, sub_zero]
    have low := far.1
    omega
  rcases twin.place fast with ⟨cursor, cursor'⟩ | none | ⟨k, k', far, far', column, cursor, cursor'⟩
  · have erased := twin.shows.stosw 2 d.videoEraseChar (d.cell s.x s.y >>> 1).toNat 0
    rw [add_zero, add_zero] at erased
    rw [cursor, cursor', add_sub_cancel_left, add_sub_cancel_left]
    exact erased
  · exact shows_nothing none _ _ _ _
  · have erased : Shows d.size (stosw 2 d.videoEraseChar (k >>> 1).toNat (s.origin + 0) s.video) s.origin
        (stosw 2 d.videoEraseChar (k' >>> 1).toNat (o + 0) m) o := by
      apply twin.shows.fill
      · rw [half far]
        exact k.isLt.le
      · rw [half far']
        exact k'.isLt.le
      · rfl
      · rfl
      · exact fun i inside => iff_of_true (overrun far i inside) (overrun far' i inside)
    rw [add_zero, add_zero] at erased
    rw [cursor, cursor', add_sub_cancel_left, add_sub_cancel_left]
    exact erased

theorem Mirrors.csiJ (beside : d.Beside d') (mirrors : Mirrors d s s') (par : BitVec 32) :
    Mirrors d (s.csiJ d par) (s'.csiJ d' par) := by
  rcases beside with ⟨t, a, b, slow, slow', rfl⟩
  rcases mirrors with ⟨o, e, p, m, rfl, twin⟩
  rw [Console.csiJ, Console.csiJ]
  dsimp only
  split
  · exact twin.draw (twin.erase_rest fast)
  split
  · exact twin.draw (twin.erase_before fast)
  split
  · have erased := twin.shows.stosw 2 d.videoEraseChar (d.videoNumColumns * d.videoNumLines).toNat 0
    rw [add_zero, add_zero] at erased
    exact twin.draw erased
  · exact ⟨o, e, p, m, rfl, twin⟩

theorem Mirrors.csiK (beside : d.Beside d') (mirrors : Mirrors d s s') (par : BitVec 32) :
    Mirrors d (s.csiK d par) (s'.csiK d' par) := by
  rcases beside with ⟨t, a, b, slow, slow', rfl⟩
  rcases mirrors with ⟨o, e, p, m, rfl, twin⟩
  have columns := fast.columns
  have small := fast.size_small
  have whole : ∀ {count : BitVec 32}, count.toNat ≤ 255 →
      Shows d.size (stosw 2 d.videoEraseChar count.toNat (s.pos - s.x <<< 1) s.video) s.origin
        (stosw 2 d.videoEraseChar count.toNat (p - s.x <<< 1) m) o := by
    intro count few
    apply twin.near fast fun pos m => stosw 2 d.videoEraseChar count.toNat (pos - s.x <<< 1) m
    · intro m o m' o' shows
      rw [add_sub_assoc, add_sub_assoc]
      exact shows.stosw _ _ _ _
    · intro m o k column far
      rcases far with ⟨low, high, even⟩
      have double : (2 * s.x).toNat = 2 * s.x.toNat := BitVec.toNat_mul_of_lt (show 2 * s.x.toNat < 2 ^ 32 by omega)
      have before : (k - s.x <<< 1).toNat = k.toNat - 2 * s.x.toNat := by
        rw [shift_one, BitVec.toNat_sub_of_le (by rw [BitVec.le_def, double]; omega), double]
      rw [add_sub_assoc]
      exact stosw_hidden m o (by omega) (by omega)
  rw [Console.csiK, Console.csiK]
  dsimp only
  split
  · split
    · exact ⟨o, e, p, m, rfl, twin⟩
    · apply twin.draw
      apply twin.near fast fun pos m => stosw 2 d.videoEraseChar (d.videoNumColumns - s.x).toNat pos m
      · intro m o m' o' shows
        exact shows.stosw _ _ _ _
      · intro m o k column far
        rcases far with ⟨low, high, even⟩
        have few : (d.videoNumColumns - s.x).toNat ≤ d.videoNumColumns.toNat := by bv_omega
        exact stosw_hidden m o (by omega) (by omega)
  split
  · apply twin.draw
    apply whole
    split
    · next before =>
      rw [BitVec.lt_def] at before
      omega
    · omega
  split
  · exact twin.draw (whole (by omega))
  · exact ⟨o, e, p, m, rfl, twin⟩

omit fast in
theorem insertFrom_shows {size n : Nat} {k : BitVec 32} {old : BitVec 16} {m m' : ByteMemory} {o o' : BitVec 32}
    (shows : Shows size m o m' o') (inside : k.toNat + 2 * n ≤ size) (small : size < 2 ^ 32) :
    Shows size (Console.insertFrom n (o + k) old m) o (Console.insertFrom n (o' + k) old m') o' := by
  induction n generalizing k old m m' with
  | zero => exact shows
  | succ n ih =>
    have next : (k + 2).toNat = k.toNat + 2 := BitVec.toNat_add_of_lt (show k.toNat + 2 < 2 ^ 32 by omega)
    rw [Console.insertFrom, Console.insertFrom, add_assoc, add_assoc, shows.word (by omega) small.le]
    exact ih (shows.storeWord k old) (by omega)

omit fast in
theorem deleteFrom_shows {size n : Nat} {k : BitVec 32} {erased : BitVec 16} {m m' : ByteMemory} {o o' : BitVec 32}
    (shows : Shows size m o m' o') (inside : k.toNat + 2 * (n + 1) ≤ size) (small : size < 2 ^ 32) :
    Shows size (Console.deleteFrom erased n (o + k) m) o (Console.deleteFrom erased n (o' + k) m') o' := by
  induction n generalizing k m m' with
  | zero => exact shows.storeWord k erased
  | succ n ih =>
    have next : (k + 2).toNat = k.toNat + 2 := BitVec.toNat_add_of_lt (show k.toNat + 2 < 2 ^ 32 by omega)
    rw [Console.deleteFrom, Console.deleteFrom, add_assoc, add_assoc, shows.word (by omega) small.le]
    exact ih (shows.storeWord k _) (by omega)

omit fast in
theorem insertFrom_hidden {size n : Nat} {k o : BitVec 32} {old : BitVec 16} {m : ByteMemory}
    (away : size ≤ k.toNat) (finish : k.toNat + 2 * n < 2 ^ 32) :
    Shows size m o (Console.insertFrom n (o + k) old m) o := by
  induction n generalizing k old m with
  | zero => exact fun i _ => rfl
  | succ n ih =>
    have next : (k + 2).toNat = k.toNat + 2 := BitVec.toNat_add_of_lt (show k.toNat + 2 < 2 ^ 32 by omega)
    have first := storeWord_hidden m o away (by omega) old
    rw [Console.insertFrom, add_assoc]
    intro i inside
    rw [ih (k := k + 2) (by omega) (by omega) i inside, first i inside]

omit fast in
theorem deleteFrom_hidden {size n : Nat} {k o : BitVec 32} {erased : BitVec 16} {m : ByteMemory}
    (away : size ≤ k.toNat) (finish : k.toNat + 2 * (n + 1) < 2 ^ 32) :
    Shows size m o (Console.deleteFrom erased n (o + k) m) o := by
  induction n generalizing k m with
  | zero => exact storeWord_hidden m o away finish.le erased
  | succ n ih =>
    have next : (k + 2).toNat = k.toNat + 2 := BitVec.toNat_add_of_lt (show k.toNat + 2 < 2 ^ 32 by omega)
    have first := storeWord_hidden m o away (by omega) (m.word (o + (k + 2)))
    rw [Console.deleteFrom, add_assoc]
    intro i inside
    rw [ih (k := k + 2) (by omega) (by omega) i inside, first i inside]

theorem Mirrors.insertChar (beside : d.Beside d') (mirrors : Mirrors d s s') :
    Mirrors d (s.insertChar d) (s'.insertChar d') := by
  rcases beside with ⟨t, a, b, slow, slow', rfl⟩
  rcases mirrors with ⟨o, e, p, m, rfl, twin⟩
  have columns := fast.columns
  have small := fast.size_small
  apply twin.draw
  by_cases room : s.x.toNat ≤ d.videoNumColumns.toNat
  · have rest := fast.rest_of_line twin.line room
    apply twin.near fast
      fun pos m => Console.insertFrom (d.videoNumColumns.toNat - s.x.toNat) pos d.videoEraseChar m
    · intro m o m' o' shows
      exact insertFrom_shows shows rest (by omega)
    · intro m o k column far
      rcases far with ⟨low, high, even⟩
      exact insertFrom_hidden (by omega) (by omega)
  · dsimp only
    rw [Nat.sub_eq_zero_of_le (Nat.le_of_not_le room)]
    exact twin.shows

theorem Mirrors.deleteChar (beside : d.Beside d') (mirrors : Mirrors d s s') :
    Mirrors d (s.deleteChar d) (s'.deleteChar d') := by
  rcases beside with ⟨t, a, b, slow, slow', rfl⟩
  rcases mirrors with ⟨o, e, p, m, rfl, twin⟩
  have columns := fast.columns
  have small := fast.size_small
  rw [Console.deleteChar, Console.deleteChar]
  dsimp only
  split
  · exact ⟨o, e, p, m, rfl, twin⟩
  · next before =>
    rw [BitVec.not_le, BitVec.lt_def] at before
    have rest := fast.rest_of_line twin.line before.le
    apply twin.draw
    apply twin.near fast
      fun pos m => Console.deleteFrom d.videoEraseChar (d.videoNumColumns.toNat - s.x.toNat - 1) pos m
    · intro m o m' o' shows
      exact deleteFrom_shows shows (by omega) (by omega)
    · intro m o k column far
      rcases far with ⟨low, high, even⟩
      exact deleteFrom_hidden (by omega) (by omega)

theorem Twin.below (twin : Twin d s o e p m) : Twin d { s with top := s.y, bottom := d.videoNumLines } o e p m := by
  apply twin.window
  · rw [fast.lines]
    exact twin.line
  · rw [fast.lines]
    rfl

omit fast in
theorem Mirrors.window (mirrors : Mirrors d s s') {top bottom : BitVec 32} (region : top.toNat < bottom.toNat)
    (regionEnd : bottom.toNat ≤ 25) :
    Mirrors d { s with top := top, bottom := bottom } { s' with top := top, bottom := bottom } := by
  rcases mirrors with ⟨o, e, p, m, rfl, twin⟩
  exact ⟨o, e, p, m, rfl, twin.window region regionEnd⟩

theorem Mirrors.insertLine (beside : d.Beside d') (mirrors : Mirrors d s s') :
    Mirrors d (s.insertLine d) (s'.insertLine d') := by
  rcases mirrors with ⟨o, e, p, m, rfl, twin⟩
  have lines := ((twin.below fast).scrdown fast beside).window twin.region twin.regionEnd
  rcases beside with ⟨t, a, b, slow, slow', rfl⟩
  exact lines

theorem Mirrors.deleteLine (beside : d.Beside d') (mirrors : Mirrors d s s') :
    Mirrors d (s.deleteLine d) (s'.deleteLine d') := by
  rcases mirrors with ⟨o, e, p, m, rfl, twin⟩
  have below : Mirrors d { s with top := s.y, bottom := d.videoNumLines }
      { s with top := s.y, bottom := d.videoNumLines, origin := o, scrEnd := e, pos := p, video := m } :=
    ⟨o, e, p, m, rfl, twin.below fast⟩
  have lines := (below.scrup fast beside).window twin.region twin.regionEnd
  rcases beside with ⟨t, a, b, slow, slow', rfl⟩
  exact lines

omit fast in
theorem Mirrors.iterate {g g' : Console → Console}
    (keeps : ∀ s s', Mirrors d s s' → Mirrors d (g s) (g' s')) (mirrors : Mirrors d s s') (n : Nat) :
    Mirrors d (g^[n] s) (g'^[n] s') := by
  induction n generalizing s s' with
  | zero => exact mirrors
  | succ n ih => exact ih (keeps _ _ mirrors)

section Counts

variable (beside : d.Beside d') (mirrors : Mirrors d s s')

include beside mirrors

omit fast mirrors in
theorem Display.Beside.columns : d'.videoNumColumns = d.videoNumColumns := by
  rcases beside with ⟨t, a, b, slow, slow', rfl⟩
  rfl

omit fast mirrors in
theorem Display.Beside.lines : d'.videoNumLines = d.videoNumLines := by
  rcases beside with ⟨t, a, b, slow, slow', rfl⟩
  rfl

theorem Mirrors.csiAt (nr : BitVec 32) : Mirrors d (s.csiAt d nr) (s'.csiAt d' nr) := by
  rw [Console.csiAt, Console.csiAt, beside.columns]
  exact mirrors.iterate (fun _ _ mirrors => mirrors.insertChar fast beside) _

theorem Mirrors.csiP (nr : BitVec 32) : Mirrors d (s.csiP d nr) (s'.csiP d' nr) := by
  rw [Console.csiP, Console.csiP, beside.columns]
  exact mirrors.iterate (fun _ _ mirrors => mirrors.deleteChar fast beside) _

theorem Mirrors.csiL (nr : BitVec 32) : Mirrors d (s.csiL d nr) (s'.csiL d' nr) := by
  rw [Console.csiL, Console.csiL, beside.lines]
  exact mirrors.iterate (fun _ _ mirrors => mirrors.insertLine fast beside) _

theorem Mirrors.csiM (nr : BitVec 32) : Mirrors d (s.csiM d nr) (s'.csiM d' nr) := by
  rw [Console.csiM, Console.csiM, beside.lines]
  exact mirrors.iterate (fun _ _ mirrors => mirrors.deleteLine fast beside) _

end Counts

omit fast in
theorem Mirrors.csim (mirrors : Mirrors d s s') : Mirrors d s.csim s'.csim := by
  rcases mirrors with ⟨o, e, p, m, rfl, twin⟩
  exact ⟨o, e, p, m, rfl, { twin with }⟩

omit fast in
theorem Mirrors.saveCur (mirrors : Mirrors d s s') : Mirrors d s.saveCur s'.saveCur := by
  rcases mirrors with ⟨o, e, p, m, rfl, twin⟩
  exact ⟨o, e, p, m, rfl, { twin with }⟩

theorem Mirrors.restoreCur (beside : d.Beside d') (mirrors : Mirrors d s s') :
    Mirrors d (s.restoreCur d) (s'.restoreCur d') := by
  have moved := mirrors.gotoxy fast beside s.savedX s.savedY
  rcases mirrors with ⟨o, e, p, m, rfl, twin⟩
  exact moved

end Editing

section Characters

variable (fast : d.Fast) (beside : d.Beside d')

include fast beside

theorem Mirrors.wrap (mirrors : Mirrors d s s') :
    Mirrors d (s.wrap d) (s'.wrap d') ∧
      (2 ≤ d.videoNumColumns.toNat → (s.wrap d).x.toNat < max d.videoNumColumns.toNat 7) := by
  rcases mirrors with ⟨o, e, p, m, rfl, twin⟩
  have first : d.cell (s.x - d.videoNumColumns) s.y - d.cell s.x s.y = -d.videoSizeRow := by
    rw [Display.cell, Display.cell, fast.row]
    ring
  have less : 2 ≤ d.videoNumColumns.toNat → d.videoNumColumns ≤ s.x →
      (s.x - d.videoNumColumns).toNat < max d.videoNumColumns.toNat 7 := by
    intro wide full
    have column := twin.column wide
    rw [BitVec.toNat_sub_of_le full]
    omega
  have next : d.videoNumColumns ≤ s.x →
      Mirrors d { s with x := s.x - d.videoNumColumns, y := s.y, pos := s.pos - d.videoSizeRow }
        { s with
          x := s.x - d.videoNumColumns
          y := s.y
          origin := o
          scrEnd := e
          pos := p - d.videoSizeRow
          video := m } := by
    intro full
    apply twin.along twin.line
    · exact fun wide => (less wide full).le
    · rw [first, sub_eq_add_neg]
    · rw [first, sub_eq_add_neg]
  have down := fun full => (next full).lf fast beside
  rcases beside with ⟨t, a, b, slow, slow', rfl⟩
  rw [Console.wrap, Console.wrap]
  dsimp only
  split
  · next full =>
    rw [lf_x]
    exact ⟨down full, fun wide => less wide full⟩
  · next room =>
    rw [BitVec.not_le, BitVec.lt_def] at room
    exact ⟨⟨o, e, p, m, rfl, twin⟩, fun _ => by omega⟩

omit beside in
theorem Mirrors.print (mirrors : Mirrors d s s')
    (room : 2 ≤ d.videoNumColumns.toNat → s.x.toNat < max d.videoNumColumns.toNat 7) (c : BitVec 8) :
    Mirrors d (s.print c) (s'.print c) := by
  rcases mirrors with ⟨o, e, p, m, rfl, twin⟩
  have small := fast.size_small
  have columns := fast.columns
  have right : d.cell (s.x + 1) s.y - d.cell s.x s.y = 2 := by
    rw [Display.cell, Display.cell]
    ring
  have there : Twin d { s with x := s.x + 1, y := s.y, pos := s.pos + 2 } o e (p + 2) m := by
    apply twin.moved twin.line
    · intro wide
      have before := room wide
      rw [BitVec.toNat_add_of_lt (show s.x.toNat + 1 < 2 ^ 32 by omega)]
      exact before
    · rw [right]
    · rw [right]
  apply there.draw
  apply twin.near fast fun pos m => m.storeWord pos (s.attr ++ s.shown c)
  · intro m o m' o' shows
    exact shows.storeWord _ _
  · intro m o k column far
    rcases far with ⟨low, high, even⟩
    exact storeWord_hidden m o (by omega) (by omega) _

theorem Mirrors.tab (mirrors : Mirrors d s s') : Mirrors d (s.tab d) (s'.tab d') := by
  rcases mirrors with ⟨o, e, p, m, rfl, twin⟩
  have columns := fast.columns
  have low : (s.x &&& 7).toNat = s.x.toNat % 8 := by
    rw [BitVec.toNat_and]
    exact Nat.and_two_pow_sub_one_eq_mod s.x.toNat 3
  have step : (8 - (s.x &&& 7)).toNat = 8 - s.x.toNat % 8 := by bv_omega
  have stop : 2 ≤ d.videoNumColumns.toNat →
      (s.x + (8 - (s.x &&& 7))).toNat = s.x.toNat + (8 - s.x.toNat % 8) := by
    intro wide
    have column := twin.column wide
    rw [BitVec.toNat_add_of_lt (by omega), step]
  have right : d.cell (s.x + (8 - (s.x &&& 7))) s.y - d.cell s.x s.y = (8 - (s.x &&& 7)) <<< 1 := by
    rw [Display.cell, Display.cell, shift_one]
    ring
  have first : d.cell (s.x + (8 - (s.x &&& 7)) - d.videoNumColumns) s.y - d.cell s.x s.y =
      (8 - (s.x &&& 7)) <<< 1 - d.videoSizeRow := by
    rw [Display.cell, Display.cell, shift_one, fast.row]
    ring
  have next : d.videoNumColumns < s.x + (8 - (s.x &&& 7)) →
      Mirrors d
        { s with
          x := s.x + (8 - (s.x &&& 7)) - d.videoNumColumns
          y := s.y
          pos := s.pos + (8 - (s.x &&& 7)) <<< 1 - d.videoSizeRow }
        { s with
          x := s.x + (8 - (s.x &&& 7)) - d.videoNumColumns
          y := s.y
          origin := o
          scrEnd := e
          pos := p + (8 - (s.x &&& 7)) <<< 1 - d.videoSizeRow
          video := m } := by
    intro overrun
    apply twin.along twin.line
    · intro wide
      have column := twin.column wide
      rw [BitVec.toNat_sub_of_le (BitVec.le_of_lt overrun), stop wide]
      rw [BitVec.lt_def, stop wide] at overrun
      omega
    · rw [first, add_sub_assoc]
    · rw [first, add_sub_assoc]
  have down := fun overrun => (next overrun).lf fast beside
  rcases beside with ⟨t, a, b, slow, slow', rfl⟩
  rw [Console.tab, Console.tab]
  dsimp only
  split
  · next overrun => exact down overrun
  · next room =>
    rw [BitVec.not_lt, BitVec.le_def] at room
    apply twin.along twin.line
    · exact fun _ => room.trans (le_max_left _ _)
    · rw [right]
    · rw [right]

theorem Mirrors.ground (mirrors : Mirrors d s s') (c eraseChar : BitVec 8) :
    Mirrors d (s.ground d c eraseChar) (s'.ground d' c eraseChar) := by
  have wrapped := mirrors.wrap fast beside
  have printed := wrapped.1.print fast wrapped.2 c
  have down := mirrors.lf fast beside
  have left := mirrors.cr
  have rubbed := mirrors.del fast beside
  have tabbed := mirrors.tab fast beside
  rw [Console.ground, Console.ground]
  split
  · exact printed
  rcases mirrors with ⟨o, e, p, m, rfl, twin⟩
  split
  · exact ⟨o, e, p, m, rfl, { twin with }⟩
  split
  · exact down
  split
  · exact left
  split
  · exact rubbed
  split
  · dsimp only
    split
    · next moved =>
      have positive : s.x.toNat ≠ 0 := fun zero => moved (BitVec.eq_of_toNat_eq zero)
      have before : (s.x - 1).toNat = s.x.toNat - 1 := BitVec.toNat_sub_of_le (by bv_omega)
      have back : d.cell (s.x - 1) s.y - d.cell s.x s.y = -2 := by
        rw [Display.cell, Display.cell]
        ring
      apply twin.along twin.line
      · intro wide
        have column := twin.column wide
        omega
      · rw [back, sub_eq_add_neg]
      · rw [back, sub_eq_add_neg]
    · exact ⟨o, e, p, m, rfl, twin⟩
  split
  · exact tabbed
  split
  · exact ⟨o, e, p, m, rfl, { twin with }⟩
  · exact ⟨o, e, p, m, rfl, twin⟩

omit fast beside in
theorem Mirrors.inState (mirrors : Mirrors d s s') (n : Nat) :
    Mirrors d { s with state := n } { s' with state := n } := by
  rcases mirrors with ⟨o, e, p, m, rfl, twin⟩
  exact ⟨o, e, p, m, rfl, { twin with }⟩

theorem Mirrors.escape (mirrors : Mirrors d s s') (c : BitVec 8) : Mirrors d (s.escape d c) (s'.escape d' c) := by
  have here := mirrors.inState 0
  have opened := mirrors.inState 2
  have first := here.gotoxy fast beside 0 (s.y + 1)
  have up := here.ri fast beside
  have down := here.lf fast beside
  have saved := here.saveCur
  have restored := here.restoreCur fast beside
  rcases mirrors with ⟨o, e, p, m, rfl, twin⟩
  rw [Console.escape, Console.escape]
  dsimp only
  split
  · exact opened
  split
  · exact first
  split
  · exact up
  split
  · exact down
  split
  · exact ⟨o, e, p, m, rfl, { twin with }⟩
  split
  · exact saved
  split
  · exact restored
  · exact here

end Characters

section Parameters

theorem Mirrors.setPar (mirrors : Mirrors d s s') (i : Nat) (n : BitVec 32) :
    Mirrors d (s.setPar i n) (s'.setPar i n) := by
  rcases mirrors with ⟨o, e, p, m, rfl, twin⟩
  exact ⟨o, e, p, m, rfl, { twin with }⟩

theorem Mirrors.par_eq (mirrors : Mirrors d s s') : s'.par = s.par := by
  rcases mirrors with ⟨o, e, p, m, rfl, twin⟩
  rfl

theorem Mirrors.atLeastOne (mirrors : Mirrors d s s') : Mirrors d s.atLeastOne s'.atLeastOne := by
  rw [Console.atLeastOne, Console.atLeastOne, mirrors.par_eq]
  split
  · exact mirrors.setPar _ _
  · exact mirrors

theorem Mirrors.countFromZero (mirrors : Mirrors d s s') (i : Nat) :
    Mirrors d (s.countFromZero i) (s'.countFromZero i) := by
  rw [Console.countFromZero, Console.countFromZero, mirrors.par_eq]
  split
  · exact mirrors.setPar _ _
  · exact mirrors

variable (fast : d.Fast) (beside : d.Beside d')

include beside

theorem Mirrors.defaultBottom (mirrors : Mirrors d s s') : Mirrors d (s.defaultBottom d) (s'.defaultBottom d') := by
  rw [Console.defaultBottom, Console.defaultBottom, mirrors.par_eq, beside.lines]
  split
  · exact mirrors.setPar _ _
  · exact mirrors

include fast

theorem Mirrors.setRegion (mirrors : Mirrors d s s') : Mirrors d (s.setRegion d) (s'.setRegion d') := by
  have counted := (mirrors.countFromZero 0).defaultBottom beside
  have first := congrFun counted.par_eq 0
  have last := congrFun counted.par_eq 1
  rw [Console.setRegion, Console.setRegion]
  generalize (s.countFromZero 0).defaultBottom d = t at *
  generalize (s'.countFromZero 0).defaultBottom d' = t' at *
  rw [first, last, beside.lines, fast.lines]
  split
  · next valid => exact counted.window valid.1 valid.2
  · exact counted

theorem Mirrors.goto (mirrors : Mirrors d s s') (newX newY : Console → BitVec 32)
    (same : ∀ (s : Console) o e p m, newX { s with origin := o, scrEnd := e, pos := p, video := m } = newX s ∧
      newY { s with origin := o, scrEnd := e, pos := p, video := m } = newY s) :
    Mirrors d (s.gotoxy d (newX s) (newY s)) (s'.gotoxy d' (newX s') (newY s')) := by
  have moved := mirrors.gotoxy fast beside (newX s) (newY s)
  rcases mirrors with ⟨o, e, p, m, rfl, twin⟩
  rw [(same s o e p m).1, (same s o e p m).2]
  exact moved

theorem Mirrors.final (mirrors : Mirrors d s s') (c : BitVec 8) : Mirrors d (s.final d c) (s'.final d' c) := by
  have here := mirrors.inState 0
  have less := here.countFromZero 0
  have one := here.atLeastOne
  have both := less.countFromZero 1
  have same := congrFun mirrors.par_eq 0
  rw [Console.final, Console.final]
  split
  · exact less.goto fast beside (·.par 0) (·.y) fun _ _ _ _ _ => ⟨rfl, rfl⟩
  · exact less.goto fast beside (·.par 0) (·.y) fun _ _ _ _ _ => ⟨rfl, rfl⟩
  · exact one.goto fast beside (·.x) (fun s => s.y - s.par 0) fun _ _ _ _ _ => ⟨rfl, rfl⟩
  · exact one.goto fast beside (·.x) (fun s => s.y + s.par 0) fun _ _ _ _ _ => ⟨rfl, rfl⟩
  · exact one.goto fast beside (·.x) (fun s => s.y + s.par 0) fun _ _ _ _ _ => ⟨rfl, rfl⟩
  · exact one.goto fast beside (fun s => s.x + s.par 0) (·.y) fun _ _ _ _ _ => ⟨rfl, rfl⟩
  · exact one.goto fast beside (fun s => s.x + s.par 0) (·.y) fun _ _ _ _ _ => ⟨rfl, rfl⟩
  · exact one.goto fast beside (fun s => s.x - s.par 0) (·.y) fun _ _ _ _ _ => ⟨rfl, rfl⟩
  · exact one.goto fast beside (fun _ => 0) (fun s => s.y + s.par 0) fun _ _ _ _ _ => ⟨rfl, rfl⟩
  · exact one.goto fast beside (fun _ => 0) (fun s => s.y - s.par 0) fun _ _ _ _ _ => ⟨rfl, rfl⟩
  · exact less.goto fast beside (·.x) (·.par 0) fun _ _ _ _ _ => ⟨rfl, rfl⟩
  · exact both.goto fast beside (·.par 1) (·.par 0) fun _ _ _ _ _ => ⟨rfl, rfl⟩
  · exact both.goto fast beside (·.par 1) (·.par 0) fun _ _ _ _ _ => ⟨rfl, rfl⟩
  · dsimp only
    rw [same]
    exact here.csiJ fast beside _
  · dsimp only
    rw [same]
    exact here.csiK fast beside _
  · dsimp only
    rw [same]
    exact here.csiL fast beside _
  · dsimp only
    rw [same]
    exact here.csiM fast beside _
  · dsimp only
    rw [same]
    exact here.csiP fast beside _
  · dsimp only
    rw [same]
    exact here.csiAt fast beside _
  · exact here.csim
  · exact here.setRegion fast beside
  · exact here.saveCur
  · exact here.restoreCur fast beside
  · exact here

theorem Mirrors.parameter (mirrors : Mirrors d s s') (c : BitVec 8) :
    Mirrors d (s.parameter d c) (s'.parameter d' c) := by
  have digit := mirrors.setPar s.npar (10 * s.par s.npar + c.signExtend 32 - 0x30)
  have last := mirrors.final fast beside c
  rcases mirrors with ⟨o, e, p, m, rfl, twin⟩
  rw [Console.parameter, Console.parameter]
  dsimp only
  split
  · exact ⟨o, e, p, m, rfl, { twin with }⟩
  split
  · exact digit
  · exact last

theorem Mirrors.bracket (mirrors : Mirrors d s s') (c : BitVec 8) :
    Mirrors d (s.bracket d c) (s'.bracket d' c) := by
  rcases mirrors with ⟨o, e, p, m, rfl, twin⟩
  have cleared : Mirrors d
      { s with par := fun i => if i < nPar then 0 else s.par i, npar := 0, state := 3, ques := c = 0x3f }
      { s with
        par := fun i => if i < nPar then 0 else s.par i, npar := 0, state := 3, ques := c = 0x3f
        origin := o, scrEnd := e, pos := p, video := m } :=
    ⟨o, e, p, m, rfl, { twin with }⟩
  rw [Console.bracket, Console.bracket]
  split
  · exact cleared
  · exact cleared.parameter fast beside c

theorem Mirrors.writeChar (mirrors : Mirrors d s s') (c eraseChar : BitVec 8) :
    Mirrors d (s.writeChar d c eraseChar) (s'.writeChar d' c eraseChar) := by
  have same : s'.state = s.state := by
    rcases mirrors with ⟨o, e, p, m, rfl, twin⟩
    rfl
  rw [Console.writeChar, Console.writeChar, same]
  split
  · exact mirrors.ground fast beside c eraseChar
  · exact mirrors.escape fast beside c
  · exact mirrors.bracket fast beside c
  · exact mirrors.parameter fast beside c
  · exact mirrors.final fast beside c
  · exact mirrors

theorem Mirrors.input (mirrors : Mirrors d s s') (i : Input) : Mirrors d (s.input d i) (s'.input d' i) := by
  cases i with
  | char c eraseChar => exact mirrors.writeChar fast beside c eraseChar
  | f12 =>
    rcases mirrors with ⟨o, e, p, m, rfl, twin⟩
    exact ⟨o, e, p, m, rfl, { twin with }⟩

theorem Mirrors.inputs (mirrors : Mirrors d s s') (is : List Input) :
    Mirrors d (is.foldl (Console.input d) s) (is.foldl (Console.input d') s') := by
  induction is generalizing s s' with
  | nil => exact mirrors
  | cons i is ih => exact ih (mirrors.input fast beside i)

end Parameters

section Start

/-- The character and attribute in a row and column of the visible screen. -/
def Console.screen (d : Display) (s : Console) (row column : Nat) : BitVec 16 :=
  s.video.word (s.origin + d.cell (BitVec.ofNat 32 column) (BitVec.ofNat 32 row))

def SameScreen (d : Display) (s : Console) (d' : Display) (s' : Console) : Prop :=
  ∀ row column, row < d.videoNumLines.toNat → column < d.videoNumColumns.toNat →
    s'.screen d' row column = s.screen d row column

/-- The console after `con_init` and some input, with given contents of the video memory and a given F12
    flag to begin with. -/
def Setup.run (setup : Setup) (bytes : BitVec 32 → BitVec 8) (video : ByteMemory) (f12Flag : Bool)
    (inputs : List Input) : Console :=
  inputs.foldl (Console.input setup.display) { conInit setup bytes with video := video, f12Flag := f12Flag }

theorem Display.Fast.cell_ofNat (fast : d.Fast) {row column : Nat} (line : row < 25)
    (inside : column < d.videoNumColumns.toNat) :
    (d.cell (BitVec.ofNat 32 column) (BitVec.ofNat 32 row)).toNat = row * d.videoSizeRow.toNat + 2 * column := by
  have columns := fast.columns
  have there : (BitVec.ofNat 32 column).toNat = column := Nat.mod_eq_of_lt (by omega)
  have down : (BitVec.ofNat 32 row).toNat = row := Nat.mod_eq_of_lt (by omega)
  rw [fast.cell_toNat (by omega) (by omega), there, down]

theorem Display.Fast.cell_of_byte (fast : d.Fast) {i : BitVec 32} (inside : i.toNat < d.size) :
    ∃ row column k, row < 25 ∧ column < d.videoNumColumns.toNat ∧ k < 2 ∧
      i = d.cell (BitVec.ofNat 32 column) (BitVec.ofNat 32 row) + BitVec.ofNat 32 k := by
  have small := fast.size_small
  have width := fast.row_toNat
  rw [Display.size] at inside
  have wide : 0 < d.videoSizeRow.toNat := by omega
  have line : i.toNat / d.videoSizeRow.toNat < 25 := Nat.div_lt_of_lt_mul (by rwa [Nat.mul_comm])
  have column : i.toNat % d.videoSizeRow.toNat / 2 < d.videoNumColumns.toNat := by
    have rest := Nat.mod_lt i.toNat wide
    omega
  have cell := fast.cell_ofNat line column
  have whole := Nat.div_add_mod' i.toNat d.videoSizeRow.toNat
  have half : (BitVec.ofNat 32 (i.toNat % d.videoSizeRow.toNat % 2)).toNat =
      i.toNat % d.videoSizeRow.toNat % 2 := Nat.mod_eq_of_lt (by omega)
  refine ⟨_, _, i.toNat % d.videoSizeRow.toNat % 2, line, column, Nat.mod_lt _ (by decide), ?_⟩
  apply BitVec.eq_of_toNat_eq
  rw [BitVec.toNat_add_of_lt (by omega), cell, half]
  omega

theorem SameScreen.shows (fast : d.Fast) (beside : d.Beside d') (same : SameScreen d s d' s') :
    Shows d.size s.video s.origin s'.video s'.origin := by
  rcases beside with ⟨t, a, b, slow, slow', rfl⟩
  intro i inside
  rcases fast.cell_of_byte inside with ⟨row, column, k, line, there, two, rfl⟩
  have cell := same row column (by rw [fast.lines]; exact line) there
  rw [← add_assoc, ← add_assoc, ← word_fill _ _ two, ← word_fill _ _ two]
  exact congrArg (fill · k) cell

theorem Mirrors.sameScreen (fast : d.Fast) (beside : d.Beside d') (mirrors : Mirrors d s s') :
    SameScreen d s d' s' := by
  rcases beside with ⟨t, a, b, slow, slow', rfl⟩
  rcases mirrors with ⟨o, e, p, m, rfl, twin⟩
  intro row column line there
  rw [fast.lines] at line
  have cell := fast.cell_ofNat line there
  have small := fast.size_small
  have columns := fast.columns
  have rest := fast.rest_of_line (x := BitVec.ofNat 32 column) (y := BitVec.ofNat 32 row)
    (by rw [BitVec.toNat_ofNat]; exact (Nat.mod_le _ _).trans_lt line)
    (by rw [BitVec.toNat_ofNat]; exact (Nat.mod_le _ _).trans there.le)
  have same : (BitVec.ofNat 32 column).toNat = column := Nat.mod_eq_of_lt (by omega)
  rw [same] at rest
  exact twin.shows.word (k := d.cell (BitVec.ofNat 32 column) (BitVec.ofNat 32 row)) (by omega) (by omega)

theorem Setup.fast {setup : Setup} (type : setup.display.videoType = .egac ∨ setup.display.videoType = .egam)
    (even : setup.origVideoCols.toNat % 2 = 0) : setup.display.Fast where
  type := type
  row := setup.row
  columns := by
    rw [setup.columns_toNat]
    exact setup.origVideoCols.isLt
  even := by
    rw [setup.columns_toNat]
    exact even
  lines := rfl
  memory := by
    have small := setup.origVideoCols.isLt
    have room : setup.display.videoMemStart.toNat + 16384 ≤ setup.display.videoMemEnd.toNat := by
      rw [Setup.display, Setup.detect] at *
      dsimp only at *
      split at type <;> split at type <;> simp_all
    rw [setup.row_toNat]
    omega
  memoryEnd := setup.memory_small

theorem Setup.beside {setup setup' : Setup}
    (slow : setup'.display.videoType = .mda ∨ setup'.display.videoType = .cga)
    (columns : setup'.origVideoCols = setup.origVideoCols) : setup.display.Beside setup'.display := by
  refine ⟨setup'.display.videoType, setup'.display.videoMemStart, setup'.display.videoMemEnd, ?_, ?_, ?_⟩
  · rcases slow with slow | slow <;> rw [slow] <;> nofun
  · rcases slow with slow | slow <;> rw [slow] <;> nofun
  · rw [Setup.display, Setup.display, columns]

theorem Setup.gap (setup : Setup) : Gap (-setup.display.videoMemStart) := by
  rw [Setup.display, Setup.detect]
  dsimp only
  split <;> split <;> exact ⟨by decide, by decide, by decide⟩

theorem Setup.run_origin (setup : Setup) (bytes : BitVec 32 → BitVec 8) (video : ByteMemory) (f12Flag : Bool) :
    (setup.run bytes video f12Flag []).origin = setup.display.videoMemStart := by
  rw [Setup.run, List.foldl_nil, conInit, Console.gotoxy]
  split <;> rfl

theorem conInit_mirrors {setup setup' : Setup} (fast : setup.display.Fast)
    (beside : setup.display.Beside setup'.display) (cursor : setup'.origX = setup.origX ∧ setup'.origY = setup.origY)
    {bytes bytes' : BitVec 32 → BitVec 8} {video video' : ByteMemory} {f12Flag : Bool}
    (same : SameScreen setup.display (setup.run bytes video f12Flag []) setup'.display
      (setup'.run bytes' video' f12Flag [])) :
    Mirrors setup.display (setup.run bytes video f12Flag []) (setup'.run bytes' video' f12Flag []) := by
  have shows := same.shows fast beside
  rw [setup.run_origin, setup'.run_origin] at shows
  have gap := setup.gap
  have gap' := setup'.gap
  rw [Setup.run, Setup.run, List.foldl_nil, List.foldl_nil, conInit, conInit, Console.gotoxy, Console.gotoxy,
    cursor.1, cursor.2]
  rcases beside with ⟨t, a, b, slow, slow', display⟩
  rw [display] at shows gap' ⊢
  dsimp only at shows gap' ⊢
  split
  · exact ⟨_, _, _, video', rfl, {
      line := (by decide : (0 : BitVec 32).toNat < 25)
      column := fun _ => Nat.zero_le _
      region := (by decide : (0 : BitVec 32).toNat < (25 : BitVec 32).toNat)
      regionEnd := le_rfl
      low := le_rfl
      high := fast.memory
      screenEnd := rfl
      screenEnd' := rfl
      cursor := ⟨_, _, .inr ⟨gap, gap'⟩, by
        rw [Display.cell]
        ring, by
        rw [Display.cell]
        ring⟩
      shows := shows }⟩
  · next accepted =>
    rw [not_or, BitVec.not_lt, BitVec.not_le] at accepted
    have column : (setup.origX.setWidth 32).toNat ≤ setup.display.videoNumColumns.toNat := accepted.1
    exact ⟨_, _, _, video', rfl, {
      line := accepted.2
      column := fun _ => column.trans (le_max_left _ _)
      region := (by decide : (0 : BitVec 32).toNat < (25 : BitVec 32).toNat)
      regionEnd := le_rfl
      low := le_rfl
      high := fast.memory
      screenEnd := rfl
      screenEnd' := rfl
      cursor := ⟨0, 0, .inl ⟨rfl, rfl⟩, by
        rw [shift_one, Display.cell]
        ring, by
        rw [shift_one, Display.cell]
        ring⟩
      shows := shows }⟩

theorem Mirrors.cursor (mirrors : Mirrors d s s') : s'.x = s.x ∧ s'.y = s.y := by
  rcases mirrors with ⟨o, e, p, m, rfl, twin⟩
  exact ⟨rfl, rfl⟩

/-- The fast scroll shows what the slow scroll shows, whatever is written. -/
theorem fast_scroll_shows_slow {setup setup' : Setup}
    (fast : setup.display.videoType = .egac ∨ setup.display.videoType = .egam)
    (slow : setup'.display.videoType = .mda ∨ setup'.display.videoType = .cga)
    (columns : setup'.origVideoCols = setup.origVideoCols) (even : setup.origVideoCols.toNat % 2 = 0)
    (cursor : setup'.origX = setup.origX ∧ setup'.origY = setup.origY) (bytes bytes' : BitVec 32 → BitVec 8)
    (video video' : ByteMemory) (f12Flag : Bool)
    (same : SameScreen setup.display (setup.run bytes video f12Flag []) setup'.display
      (setup'.run bytes' video' f12Flag []))
    (inputs : List Input) :
    let s := setup.run bytes video f12Flag inputs
    let s' := setup'.run bytes' video' f12Flag inputs
    s'.x = s.x ∧ s'.y = s.y ∧ SameScreen setup.display s setup'.display s' := by
  have beside := Setup.beside slow columns
  have kept := (conInit_mirrors (Setup.fast fast even) beside cursor same).inputs (Setup.fast fast even) beside inputs
  exact ⟨kept.cursor.1, kept.cursor.2, kept.sameScreen (Setup.fast fast even) beside⟩

/-- A colour display of 80 columns without the fast scroll. -/
def cgaColour : Setup := { egaColour with origVideoEgaBx := 0x10 }

def blanks : ByteMemory := ⟨fun _ => 0x20, []⟩

theorem blanks_same (setup setup' : Setup) (bytes bytes' : BitVec 32 → BitVec 8) (f12Flag : Bool) :
    SameScreen setup.display (setup.run bytes blanks f12Flag []) setup'.display
      (setup'.run bytes' blanks f12Flag []) := by
  intro row column line there
  have blank : ∀ a, blanks.word a = (0x20 : BitVec 8) ++ (0x20 : BitVec 8) := fun _ => rfl
  rw [Console.screen, Console.screen]
  exact (blank _).trans (blank _).symm

theorem egaColour_shows_cgaColour :
    let s := egaColour.run (fun _ => 0) blanks false [.char 0x0a 0x7f, .f12, .char 0x41 0x7f]
    let s' := cgaColour.run (fun _ => 0) blanks false [.char 0x0a 0x7f, .f12, .char 0x41 0x7f]
    s'.x = s.x ∧ s'.y = s.y ∧ SameScreen egaColour.display s cgaColour.display s' := by
  have same := blanks_same egaColour cgaColour (fun _ => 0) (fun _ => 0) false
  have fast : egaColour.display.videoType = .egac ∨ egaColour.display.videoType = .egam := .inl rfl
  have slow : cgaColour.display.videoType = .mda ∨ cgaColour.display.videoType = .cga := .inr rfl
  exact fast_scroll_shows_slow fast slow rfl rfl ⟨rfl, rfl⟩ _ _ _ _ _ same _

end Start

end Linux011.Tty

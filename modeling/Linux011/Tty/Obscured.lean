import Linux011.Tty.OnScreen

namespace Linux011.Tty

open Linux011.Library ByteMemory

/-- Cells begin at even addresses: the character first, then its attribute. -/
structure Aligned (d : Display) (s : Console) : Prop where
  row : EvenAddress d.videoSizeRow
  memory : EvenAddress d.videoMemStart
  origin : EvenAddress s.origin
  scrEnd : EvenAddress s.scrEnd
  pos : EvenAddress s.pos

/-- Two consoles that differ in the F12 flag and the characters on the screen at most; the flag of the
    second is given. -/
def Veiled (d : Display) (f : Bool) (s s' : Console) : Prop :=
  Aligned d s ∧ ∃ m, s' = { s with f12Flag := f, video := m } ∧ Alike s.video m

variable {d : Display} {f : Bool} {s s' : Console}

section Evenness

theorem even_two_mul (x : BitVec 32) : EvenAddress (2 * x) := by
  rw [mul_comm]
  exact EvenAddress.mul even_two

theorem even_shift (x : BitVec 32) : EvenAddress (x <<< 1) := by
  rw [shift_one]
  exact even_two_mul x

theorem even_four_mul (x : BitVec 32) : EvenAddress (4 * x) := by
  rw [mul_comm]
  exact EvenAddress.mul even_four

end Evenness

section Operations

theorem Veiled.draw (aligned : Aligned d s) {m m' : ByteMemory} (alike : Alike m m') :
    Veiled d f { s with video := m } { s with f12Flag := f, video := m' } :=
  ⟨{ aligned with }, m', rfl, alike⟩

theorem Veiled.gotoxy (veiled : Veiled d f s s') (newX newY : BitVec 32) :
    Veiled d f (s.gotoxy d newX newY) (s'.gotoxy d newX newY) := by
  rcases veiled with ⟨aligned, m, rfl, alike⟩
  rw [Console.gotoxy, Console.gotoxy]
  split
  · exact ⟨aligned, m, rfl, alike⟩
  · have there : EvenAddress (s.origin + newY * d.videoSizeRow + newX <<< 1) :=
      (aligned.origin.add aligned.row.mul).add (even_shift newX)
    exact ⟨{ aligned with pos := there }, m, rfl, alike⟩

theorem Veiled.moveUp (veiled : Veiled d f s s') : Veiled d f (s.moveUp d) (s'.moveUp d) := by
  rcases veiled with ⟨aligned, m, rfl, alike⟩
  have row : ∀ r, EvenAddress (s.origin + d.videoSizeRow * r) := fun r => by
    rw [mul_comm]
    exact aligned.origin.add aligned.row.mul
  exact .draw aligned ((alike.movsl even_four (row _) (row _)).stosw even_two ((row _).add (even_four_mul _)))

theorem Veiled.scrdown (veiled : Veiled d f s s') : Veiled d f (s.scrdown d) (s'.scrdown d) := by
  rcases veiled with ⟨aligned, m, rfl, alike⟩
  have row : ∀ r, EvenAddress (s.origin + d.videoSizeRow * r - 4) := fun r => by
    rw [mul_comm]
    exact (aligned.origin.add aligned.row.mul).sub even_four
  exact .draw aligned
    ((alike.movsl even_neg_four (row _) (row _)).stosw even_neg_two (((row _).sub (even_four_mul _)).add even_two))

theorem Veiled.moveOrigin (veiled : Veiled d f s s') : Veiled d f (s.moveOrigin d) (s'.moveOrigin d) := by
  rcases veiled with ⟨aligned, m, rfl, alike⟩
  have origin := aligned.origin.add aligned.row
  have back := origin.sub aligned.memory
  rw [Console.moveOrigin, Console.moveOrigin]
  dsimp only
  split
  · exact ⟨{ aligned with
        origin := aligned.memory
        scrEnd := (aligned.scrEnd.add aligned.row).sub back
        pos := (aligned.pos.add aligned.row).sub back }, _, rfl,
      (alike.movsl even_four aligned.memory origin).stosw even_two (aligned.memory.add (even_four_mul _))⟩
  · exact ⟨{ aligned with
        origin := origin
        scrEnd := aligned.scrEnd.add aligned.row
        pos := aligned.pos.add aligned.row }, _, rfl,
      alike.stosw even_two ((aligned.scrEnd.add aligned.row).sub aligned.row)⟩

theorem Veiled.scrup (veiled : Veiled d f s s') : Veiled d f (s.scrup d) (s'.scrup d) := by
  have up := veiled.moveUp
  have fast := veiled.moveOrigin
  rcases veiled with ⟨aligned, m, rfl, alike⟩
  rw [Console.scrup, Console.scrup]
  dsimp only
  split
  · split
    · exact fast
    · exact up
  · exact up

theorem Veiled.lf (veiled : Veiled d f s s') : Veiled d f (s.lf d) (s'.lf d) := by
  have scrolled := veiled.scrup
  rcases veiled with ⟨aligned, m, rfl, alike⟩
  rw [Console.lf, Console.lf]
  dsimp only
  split
  · exact ⟨{ aligned with pos := aligned.pos.add aligned.row }, m, rfl, alike⟩
  · exact scrolled

theorem Veiled.ri (veiled : Veiled d f s s') : Veiled d f (s.ri d) (s'.ri d) := by
  have scrolled := veiled.scrdown
  rcases veiled with ⟨aligned, m, rfl, alike⟩
  rw [Console.ri, Console.ri]
  dsimp only
  split
  · exact ⟨{ aligned with pos := aligned.pos.sub aligned.row }, m, rfl, alike⟩
  · exact scrolled

theorem Veiled.cr (veiled : Veiled d f s s') : Veiled d f s.cr s'.cr := by
  rcases veiled with ⟨aligned, m, rfl, alike⟩
  exact ⟨{ aligned with pos := aligned.pos.sub (even_shift _) }, m, rfl, alike⟩

theorem Veiled.del (veiled : Veiled d f s s') : Veiled d f (s.del d) (s'.del d) := by
  rcases veiled with ⟨aligned, m, rfl, alike⟩
  have back : EvenAddress (s.pos - 2) := aligned.pos.sub even_two
  rw [Console.del, Console.del]
  dsimp only
  split
  · exact ⟨{ aligned with pos := back }, _, rfl, alike.storeWord back rfl⟩
  · exact ⟨aligned, m, rfl, alike⟩

theorem Veiled.erase (veiled : Veiled d f s s') {start : BitVec 32} (even : EvenAddress start) (count : BitVec 32) :
    Veiled d f (s.erase d start count) (s'.erase d start count) := by
  rcases veiled with ⟨aligned, m, rfl, alike⟩
  exact .draw aligned (alike.stosw even_two even)

theorem Veiled.csiJ (veiled : Veiled d f s s') (par : BitVec 32) : Veiled d f (s.csiJ d par) (s'.csiJ d par) := by
  have erases := @veiled.erase
  have same := veiled
  rcases veiled with ⟨aligned, m, rfl, alike⟩
  rw [Console.csiJ, Console.csiJ]
  dsimp only
  split
  · exact erases aligned.pos _
  split
  · exact erases aligned.origin _
  split
  · exact erases aligned.origin _
  · exact same

theorem Veiled.csiK (veiled : Veiled d f s s') (par : BitVec 32) : Veiled d f (s.csiK d par) (s'.csiK d par) := by
  have erases := @veiled.erase
  have same := veiled
  rcases veiled with ⟨aligned, m, rfl, alike⟩
  have start : EvenAddress (s.pos - s.x <<< 1) := aligned.pos.sub (even_shift _)
  rw [Console.csiK, Console.csiK]
  dsimp only
  split
  · split
    · exact same
    · exact erases aligned.pos _
  split
  · exact erases start _
  split
  · exact erases start _
  · exact same

theorem insertFrom_alike {n : Nat} {p : BitVec 32} {old old' : BitVec 16} {m m' : ByteMemory}
    (alike : Alike m m') (even : EvenAddress p) (high : old'.extractLsb' 8 8 = old.extractLsb' 8 8) :
    Alike (Console.insertFrom n p old m) (Console.insertFrom n p old' m') := by
  induction n generalizing p old old' m m' with
  | zero => exact alike
  | succ n ih => exact ih (alike.storeWord even high) (even.add even_two) (alike.word even)

theorem deleteFrom_alike {erased : BitVec 16} {n : Nat} {p : BitVec 32} {m m' : ByteMemory}
    (alike : Alike m m') (even : EvenAddress p) :
    Alike (Console.deleteFrom erased n p m) (Console.deleteFrom erased n p m') := by
  induction n generalizing p m m' with
  | zero => exact alike.storeWord even rfl
  | succ n ih =>
    have next := even.add even_two
    exact ih (alike.storeWord even (alike.word next)) next

theorem Veiled.insertChar (veiled : Veiled d f s s') : Veiled d f (s.insertChar d) (s'.insertChar d) := by
  rcases veiled with ⟨aligned, m, rfl, alike⟩
  exact .draw aligned (insertFrom_alike alike aligned.pos rfl)

theorem Veiled.deleteChar (veiled : Veiled d f s s') : Veiled d f (s.deleteChar d) (s'.deleteChar d) := by
  rcases veiled with ⟨aligned, m, rfl, alike⟩
  rw [Console.deleteChar, Console.deleteChar]
  dsimp only
  split
  · exact ⟨aligned, m, rfl, alike⟩
  · exact .draw aligned (deleteFrom_alike alike aligned.pos)

theorem Veiled.window (veiled : Veiled d f s s') (top bottom : BitVec 32) :
    Veiled d f { s with top := top, bottom := bottom } { s' with top := top, bottom := bottom } := by
  rcases veiled with ⟨aligned, m, rfl, alike⟩
  exact ⟨{ aligned with }, m, rfl, alike⟩

theorem Veiled.insertLine (veiled : Veiled d f s s') : Veiled d f (s.insertLine d) (s'.insertLine d) := by
  have lines := (veiled.window s.y d.videoNumLines).scrdown.window s.top s.bottom
  rcases veiled with ⟨aligned, m, rfl, alike⟩
  exact lines

theorem Veiled.deleteLine (veiled : Veiled d f s s') : Veiled d f (s.deleteLine d) (s'.deleteLine d) := by
  have lines := (veiled.window s.y d.videoNumLines).scrup.window s.top s.bottom
  rcases veiled with ⟨aligned, m, rfl, alike⟩
  exact lines

theorem Veiled.iterate {g : Console → Console} (keeps : ∀ s s', Veiled d f s s' → Veiled d f (g s) (g s'))
    (veiled : Veiled d f s s') (n : Nat) : Veiled d f (g^[n] s) (g^[n] s') := by
  induction n generalizing s s' with
  | zero => exact veiled
  | succ n ih => exact ih (keeps _ _ veiled)

theorem Veiled.csiAt (veiled : Veiled d f s s') (nr : BitVec 32) : Veiled d f (s.csiAt d nr) (s'.csiAt d nr) :=
  veiled.iterate (fun _ _ veiled => veiled.insertChar) _

theorem Veiled.csiP (veiled : Veiled d f s s') (nr : BitVec 32) : Veiled d f (s.csiP d nr) (s'.csiP d nr) :=
  veiled.iterate (fun _ _ veiled => veiled.deleteChar) _

theorem Veiled.csiL (veiled : Veiled d f s s') (nr : BitVec 32) : Veiled d f (s.csiL d nr) (s'.csiL d nr) :=
  veiled.iterate (fun _ _ veiled => veiled.insertLine) _

theorem Veiled.csiM (veiled : Veiled d f s s') (nr : BitVec 32) : Veiled d f (s.csiM d nr) (s'.csiM d nr) :=
  veiled.iterate (fun _ _ veiled => veiled.deleteLine) _

theorem Veiled.csim (veiled : Veiled d f s s') : Veiled d f s.csim s'.csim := by
  rcases veiled with ⟨aligned, m, rfl, alike⟩
  exact ⟨{ aligned with }, m, rfl, alike⟩

theorem Veiled.saveCur (veiled : Veiled d f s s') : Veiled d f s.saveCur s'.saveCur := by
  rcases veiled with ⟨aligned, m, rfl, alike⟩
  exact ⟨{ aligned with }, m, rfl, alike⟩

theorem Veiled.restoreCur (veiled : Veiled d f s s') : Veiled d f (s.restoreCur d) (s'.restoreCur d) := by
  have moved := veiled.gotoxy s.savedX s.savedY
  rcases veiled with ⟨aligned, m, rfl, alike⟩
  exact moved

end Operations

section Characters

theorem Veiled.along (veiled : Veiled d f s s') (x : BitVec 32) {pos : BitVec 32} (even : EvenAddress pos) :
    Veiled d f { s with x := x, pos := pos } { s' with x := x, pos := pos } := by
  rcases veiled with ⟨aligned, m, rfl, alike⟩
  exact ⟨{ aligned with pos := even }, m, rfl, alike⟩

theorem Veiled.wrap (veiled : Veiled d f s s') : Veiled d f (s.wrap d) (s'.wrap d) := by
  have next := (veiled.along (s.x - d.videoNumColumns) (veiled.1.pos.sub veiled.1.row)).lf
  have same := veiled
  rcases veiled with ⟨aligned, m, rfl, alike⟩
  rw [Console.wrap, Console.wrap]
  dsimp only
  split
  · exact next
  · exact same

theorem Veiled.print (veiled : Veiled d f s s') (c : BitVec 8) : Veiled d f (s.print c) (s'.print c) := by
  rcases veiled with ⟨aligned, m, rfl, alike⟩
  have attributes : ∀ a b : BitVec 8, (s.attr ++ a).extractLsb' 8 8 = (s.attr ++ b).extractLsb' 8 8 := by
    intro a b
    rw [extract_append, extract_append]
  exact ⟨{ aligned with pos := aligned.pos.add even_two }, _, rfl,
    alike.storeWord aligned.pos (attributes _ _)⟩

theorem Veiled.tab (veiled : Veiled d f s s') : Veiled d f (s.tab d) (s'.tab d) := by
  have even := veiled.1.pos.add (even_shift (8 - (s.x &&& 7)))
  have moved := veiled.along (s.x + (8 - (s.x &&& 7))) even
  have next := (veiled.along (s.x + (8 - (s.x &&& 7)) - d.videoNumColumns) (even.sub veiled.1.row)).lf
  rcases veiled with ⟨aligned, m, rfl, alike⟩
  rw [Console.tab, Console.tab]
  dsimp only
  split
  · exact next
  · exact moved

theorem Veiled.ground (veiled : Veiled d f s s') (c eraseChar : BitVec 8) :
    Veiled d f (s.ground d c eraseChar) (s'.ground d c eraseChar) := by
  have printed := veiled.wrap.print c
  have down := veiled.lf
  have left := veiled.cr
  have rubbed := veiled.del
  have tabbed := veiled.tab
  have back := veiled.along (s.x - 1) (veiled.1.pos.sub even_two)
  rcases veiled with ⟨aligned, m, rfl, alike⟩
  rw [Console.ground, Console.ground]
  split
  · exact printed
  split
  · exact ⟨{ aligned with }, m, rfl, alike⟩
  split
  · exact down
  split
  · exact left
  split
  · exact rubbed
  split
  · dsimp only
    split
    · exact back
    · exact ⟨aligned, m, rfl, alike⟩
  split
  · exact tabbed
  split
  · exact ⟨{ aligned with }, m, rfl, alike⟩
  · exact ⟨aligned, m, rfl, alike⟩

theorem Veiled.inState (veiled : Veiled d f s s') (n : Nat) : Veiled d f { s with state := n } { s' with state := n } := by
  rcases veiled with ⟨aligned, m, rfl, alike⟩
  exact ⟨{ aligned with }, m, rfl, alike⟩

theorem Veiled.escape (veiled : Veiled d f s s') (c : BitVec 8) : Veiled d f (s.escape d c) (s'.escape d c) := by
  have here := veiled.inState 0
  have opened := veiled.inState 2
  have first := here.gotoxy 0 (s.y + 1)
  have up := here.ri
  have down := here.lf
  have saved := here.saveCur
  have restored := here.restoreCur
  rcases veiled with ⟨aligned, m, rfl, alike⟩
  rw [Console.escape, Console.escape]
  dsimp only
  split
  · exact opened
  split
  · exact first
  split
  · exact up
  split
  · exact down
  split
  · exact ⟨{ aligned with }, m, rfl, alike⟩
  split
  · exact saved
  split
  · exact restored
  · exact here

end Characters

section Parameters

theorem Veiled.setPar (veiled : Veiled d f s s') (i : Nat) (n : BitVec 32) :
    Veiled d f (s.setPar i n) (s'.setPar i n) := by
  rcases veiled with ⟨aligned, m, rfl, alike⟩
  exact ⟨{ aligned with }, m, rfl, alike⟩

theorem Veiled.atLeastOne (veiled : Veiled d f s s') : Veiled d f s.atLeastOne s'.atLeastOne := by
  have one := veiled.setPar 0 (s.par 0 + 1)
  have same := veiled
  rcases veiled with ⟨aligned, m, rfl, alike⟩
  rw [Console.atLeastOne, Console.atLeastOne]
  dsimp only
  split
  · exact one
  · exact same

theorem Veiled.countFromZero (veiled : Veiled d f s s') (i : Nat) :
    Veiled d f (s.countFromZero i) (s'.countFromZero i) := by
  have less := veiled.setPar i (s.par i - 1)
  have same := veiled
  rcases veiled with ⟨aligned, m, rfl, alike⟩
  rw [Console.countFromZero, Console.countFromZero]
  dsimp only
  split
  · exact less
  · exact same

theorem Veiled.defaultBottom (veiled : Veiled d f s s') : Veiled d f (s.defaultBottom d) (s'.defaultBottom d) := by
  have whole := veiled.setPar 1 d.videoNumLines
  have same := veiled
  rcases veiled with ⟨aligned, m, rfl, alike⟩
  rw [Console.defaultBottom, Console.defaultBottom]
  dsimp only
  split
  · exact whole
  · exact same

theorem Veiled.setRegion (veiled : Veiled d f s s') : Veiled d f (s.setRegion d) (s'.setRegion d) := by
  have counted := (veiled.countFromZero 0).defaultBottom
  have region := counted.window (((s.countFromZero 0).defaultBottom d).par 0)
    (((s.countFromZero 0).defaultBottom d).par 1)
  rw [Console.setRegion, Console.setRegion]
  generalize (s.countFromZero 0).defaultBottom d = t at *
  generalize (s'.countFromZero 0).defaultBottom d = t' at *
  have same := counted
  rcases counted with ⟨aligned, m, rfl, alike⟩
  dsimp only
  split
  · exact region
  · exact same

theorem Veiled.goto (veiled : Veiled d f s s') (newX newY : Console → BitVec 32)
    (same : ∀ s f m, newX { s with f12Flag := f, video := m } = newX s ∧
      newY { s with f12Flag := f, video := m } = newY s) :
    Veiled d f (s.gotoxy d (newX s) (newY s)) (s'.gotoxy d (newX s') (newY s')) := by
  have moved := veiled.gotoxy (newX s) (newY s)
  rcases veiled with ⟨aligned, m, rfl, alike⟩
  rw [(same s f m).1, (same s f m).2]
  exact moved

theorem Veiled.par_eq (veiled : Veiled d f s s') : s'.par = s.par := by
  rcases veiled with ⟨aligned, m, rfl, alike⟩
  rfl

theorem Veiled.final (veiled : Veiled d f s s') (c : BitVec 8) : Veiled d f (s.final d c) (s'.final d c) := by
  have here := veiled.inState 0
  have less := here.countFromZero 0
  have one := here.atLeastOne
  have both := less.countFromZero 1
  have same := congrFun veiled.par_eq 0
  rw [Console.final, Console.final]
  split
  · exact less.goto (·.par 0) (·.y) fun _ _ _ => ⟨rfl, rfl⟩
  · exact less.goto (·.par 0) (·.y) fun _ _ _ => ⟨rfl, rfl⟩
  · exact one.goto (·.x) (fun s => s.y - s.par 0) fun _ _ _ => ⟨rfl, rfl⟩
  · exact one.goto (·.x) (fun s => s.y + s.par 0) fun _ _ _ => ⟨rfl, rfl⟩
  · exact one.goto (·.x) (fun s => s.y + s.par 0) fun _ _ _ => ⟨rfl, rfl⟩
  · exact one.goto (fun s => s.x + s.par 0) (·.y) fun _ _ _ => ⟨rfl, rfl⟩
  · exact one.goto (fun s => s.x + s.par 0) (·.y) fun _ _ _ => ⟨rfl, rfl⟩
  · exact one.goto (fun s => s.x - s.par 0) (·.y) fun _ _ _ => ⟨rfl, rfl⟩
  · exact one.goto (fun _ => 0) (fun s => s.y + s.par 0) fun _ _ _ => ⟨rfl, rfl⟩
  · exact one.goto (fun _ => 0) (fun s => s.y - s.par 0) fun _ _ _ => ⟨rfl, rfl⟩
  · exact less.goto (·.x) (·.par 0) fun _ _ _ => ⟨rfl, rfl⟩
  · exact both.goto (·.par 1) (·.par 0) fun _ _ _ => ⟨rfl, rfl⟩
  · exact both.goto (·.par 1) (·.par 0) fun _ _ _ => ⟨rfl, rfl⟩
  · dsimp only
    rw [same]
    exact here.csiJ _
  · dsimp only
    rw [same]
    exact here.csiK _
  · dsimp only
    rw [same]
    exact here.csiL _
  · dsimp only
    rw [same]
    exact here.csiM _
  · dsimp only
    rw [same]
    exact here.csiP _
  · dsimp only
    rw [same]
    exact here.csiAt _
  · exact here.csim
  · exact here.setRegion
  · exact here.saveCur
  · exact here.restoreCur
  · exact here

theorem Veiled.parameter (veiled : Veiled d f s s') (c : BitVec 8) :
    Veiled d f (s.parameter d c) (s'.parameter d c) := by
  have digit := veiled.setPar s.npar (10 * s.par s.npar + c.signExtend 32 - 0x30)
  have last := veiled.final c
  rcases veiled with ⟨aligned, m, rfl, alike⟩
  rw [Console.parameter, Console.parameter]
  dsimp only
  split
  · exact ⟨{ aligned with }, m, rfl, alike⟩
  split
  · exact digit
  · exact last

theorem Veiled.bracket (veiled : Veiled d f s s') (c : BitVec 8) : Veiled d f (s.bracket d c) (s'.bracket d c) := by
  rcases veiled with ⟨aligned, m, rfl, alike⟩
  have cleared : Veiled d f
      { s with par := fun i => if i < nPar then 0 else s.par i, npar := 0, state := 3, ques := c = 0x3f }
      { s with
        par := fun i => if i < nPar then 0 else s.par i, npar := 0, state := 3, ques := c = 0x3f
        f12Flag := f, video := m } :=
    ⟨{ aligned with }, m, rfl, alike⟩
  rw [Console.bracket, Console.bracket]
  split
  · exact cleared
  · exact cleared.parameter c

theorem Veiled.writeChar (veiled : Veiled d f s s') (c eraseChar : BitVec 8) :
    Veiled d f (s.writeChar d c eraseChar) (s'.writeChar d c eraseChar) := by
  have same : s'.state = s.state := by
    rcases veiled with ⟨aligned, m, rfl, alike⟩
    rfl
  rw [Console.writeChar, Console.writeChar, same]
  split
  · exact veiled.ground c eraseChar
  · exact veiled.escape c
  · exact veiled.bracket c
  · exact veiled.parameter c
  · exact veiled.final c
  · exact veiled

theorem Veiled.conWrite (veiled : Veiled d f s s') (cs : List (BitVec 8 × BitVec 8)) :
    Veiled d f (s.conWrite d cs) (s'.conWrite d cs) := by
  induction cs generalizing s s' with
  | nil => exact veiled
  | cons c cs ih => exact ih (veiled.writeChar c.1 c.2)

end Parameters

section Reached

theorem Veiled.refl (aligned : Aligned d s) : Veiled d s.f12Flag s s := ⟨aligned, s.video, rfl, .refl _⟩

theorem Veiled.flag (veiled : Veiled d f s s') : s'.f12Flag = f := by
  rcases veiled with ⟨aligned, m, rfl, alike⟩
  rfl

theorem Aligned.input (aligned : Aligned d s) (i : Input) : Aligned d (s.input d i) := by
  cases i with
  | char c eraseChar => exact ((Veiled.refl aligned).writeChar c eraseChar).1
  | f12 => exact { aligned with }

theorem Aligned.inputs (aligned : Aligned d s) (is : List Input) :
    Aligned d (is.foldl (Console.input d) s) := by
  induction is generalizing s with
  | nil => exact aligned
  | cons i is ih => exact ih (aligned.input i)

theorem aligned_of_inputs (setup : Setup) (bytes : BitVec 32 → BitVec 8) (is : List Input) :
    Aligned setup.display (is.foldl (Console.input setup.display) (conInit setup bytes)) := by
  have row : EvenAddress setup.display.videoSizeRow := EvenAddress.mul even_two
  have memory : EvenAddress setup.display.videoMemStart := by
    rw [Setup.display, Setup.detect]
    dsimp only
    split <;> split <;> decide
  apply Aligned.inputs
  rw [conInit, Console.gotoxy]
  split
  · exact ⟨row, memory, memory, memory.add row.mul, even_two.sub even_two⟩
  · exact ⟨row, memory, memory, memory.add row.mul, (memory.add row.mul).add (even_shift _)⟩

end Reached

section Letters

theorem isalpha_printable {c : BitVec 8} (letter : isalpha c = true) : 31 < c.toInt ∧ c.toInt < 127 := by
  have range : (0x41 ≤ c.toNat ∧ c.toNat ≤ 0x5a) ∨ (0x61 ≤ c.toNat ∧ c.toNat ≤ 0x7a) := by
    simpa [isalpha] using letter
  rw [BitVec.toInt_eq_toNat_of_lt (by omega)]
  omega

theorem writeChar_letter (aligned : Aligned d s) (on : s.f12Flag = true) (ground : s.state = 0)
    {c c' : BitVec 8} (letter : isalpha c = true) (letter' : isalpha c' = true) (eraseChar : BitVec 8) :
    s.writeChar d c eraseChar = s.writeChar d c' eraseChar := by
  have flag : (s.wrap d).f12Flag = true := (Veiled.refl aligned).wrap.flag.trans on
  rw [Console.writeChar, Console.writeChar, ground]
  rw [Console.ground, Console.ground, if_pos (isalpha_printable letter), if_pos (isalpha_printable letter'),
    Console.print, Console.print, Console.shown, Console.shown, flag, letter, letter']
  rfl

/-- Two strings that differ only where both hold a letter and the parser is in state 0. -/
def SameButLetters (d : Display) (s : Console) (cs cs' : List (BitVec 8 × BitVec 8)) : Prop :=
  cs.length = cs'.length ∧ ∀ k c c', cs[k]? = some c → cs'[k]? = some c' →
    c = c' ∨ isalpha c.1 = true ∧ isalpha c'.1 = true ∧ c.2 = c'.2 ∧ (s.conWrite d (cs.take k)).state = 0

theorem letters_unseen (aligned : Aligned d s) (on : s.f12Flag = true) {cs cs' : List (BitVec 8 × BitVec 8)}
    (same : SameButLetters d s cs cs') : s.conWrite d cs = s.conWrite d cs' := by
  induction cs generalizing s cs' with
  | nil =>
    rw [List.eq_nil_of_length_eq_zero same.1.symm]
  | cons c cs ih =>
    cases cs' with
    | nil => cases same.1
    | cons c' cs' =>
      have veiled := (Veiled.refl aligned).writeChar c.1 c.2
      have first : s.writeChar d c'.1 c'.2 = s.writeChar d c.1 c.2 := by
        rcases same.2 0 c c' rfl rfl with same | ⟨letter, letter', erases, ground⟩
        · rw [same]
        · rw [← erases]
          exact writeChar_letter aligned on ground letter' letter c.2
      have rest : SameButLetters d (s.writeChar d c.1 c.2) cs cs' :=
        ⟨Nat.succ.inj same.1, fun k => same.2 (k + 1)⟩
      have later := ih veiled.1 (veiled.flag.trans on) rest
      rw [Console.conWrite, Console.conWrite, List.foldl_cons, List.foldl_cons, first]
      exact later

/-- Obscured output does not show which letters were written, and obscuring changes nothing but the
    characters in the cells. -/
theorem leaks_no_letters (aligned : Aligned d s) (on : s.f12Flag = true) {cs cs' : List (BitVec 8 × BitVec 8)}
    (same : SameButLetters d s cs cs') :
    s.conWrite d cs = s.conWrite d cs' ∧
      ∀ ws, ws = cs ∨ ws = cs' → ∃ m,
        ({ s with f12Flag := false } : Console).conWrite d ws =
          { s.conWrite d ws with f12Flag := false, video := m } ∧
        Alike (s.conWrite d ws).video m := by
  constructor
  · exact letters_unseen aligned on same
  · intro ws either
    have veiled : Veiled d false s { s with f12Flag := false } := ⟨aligned, s.video, rfl, .refl _⟩
    exact (veiled.conWrite ws).2

/-- `A1`, a line feed and `b`, against `B1`, a line feed and `z`. -/
theorem leaks_no_A :
    let s := { conInit egaColour fun _ => 0 with f12Flag := true }
    let d := egaColour.display
    let cs := [(0x41, 0x7f), (0x31, 0x7f), (0x0a, 0x7f), (0x62, 0x7f)]
    let cs' := [(0x42, 0x7f), (0x31, 0x7f), (0x0a, 0x7f), (0x7a, 0x7f)]
    s.conWrite d cs = s.conWrite d cs' ∧
      ∀ ws, ws = cs ∨ ws = cs' → ∃ m,
        ({ s with f12Flag := false } : Console).conWrite d ws =
          { s.conWrite d ws with f12Flag := false, video := m } ∧
        Alike (s.conWrite d ws).video m :=
  leaks_no_letters (aligned_of_inputs egaColour _ [.f12]) rfl ⟨rfl, fun k c c' here here' => by
    rcases k with _ | _ | _ | _ | k
    · cases here
      cases here'
      exact .inr ⟨rfl, rfl, rfl, rfl⟩
    · cases here
      cases here'
      exact .inl rfl
    · cases here
      cases here'
      exact .inl rfl
    · cases here
      cases here'
      exact .inr ⟨rfl, rfl, rfl, rfl⟩
    · cases here⟩

end Letters

end Linux011.Tty

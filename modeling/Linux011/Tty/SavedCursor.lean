import Linux011.Tty.OnScreen
import Mathlib.Tactic.Common

namespace Linux011.Tty

namespace Console

/-- The console with another saved position. -/
def remember (s : Console) (x y : BitVec 32) : Console := { s with savedX := x, savedY := y }

variable (d : Display) (s : Console) (a b : BitVec 32)

section Frame

@[simp] theorem remember_x : (s.remember a b).x = s.x := rfl

@[simp] theorem remember_y : (s.remember a b).y = s.y := rfl

@[simp] theorem remember_par : (s.remember a b).par = s.par := rfl

theorem remember_ite (c : Prop) [Decidable c] (s t : Console) :
    (if c then s else t).remember a b = if c then s.remember a b else t.remember a b :=
  apply_ite (fun s : Console => s.remember a b) c s t

@[simp] theorem gotoxy_remember (newX newY : BitVec 32) :
    (s.remember a b).gotoxy d newX newY = (s.gotoxy d newX newY).remember a b := by
  rw [gotoxy, gotoxy, remember_ite]
  rfl

@[simp] theorem moveOrigin_remember : (s.remember a b).moveOrigin d = (s.moveOrigin d).remember a b := by
  rw [moveOrigin, moveOrigin]
  dsimp only
  rw [remember_ite]
  rfl

@[simp] theorem scrup_remember : (s.remember a b).scrup d = (s.scrup d).remember a b := by
  rw [scrup, scrup, moveOrigin_remember, remember_ite, remember_ite]
  rfl

@[simp] theorem lf_remember : (s.remember a b).lf d = (s.lf d).remember a b := by
  rw [lf, lf, scrup_remember, remember_ite]
  rfl

@[simp] theorem ri_remember : (s.remember a b).ri d = (s.ri d).remember a b := by
  rw [ri, ri, remember_ite]
  rfl

@[simp] theorem del_remember : (s.remember a b).del d = (s.del d).remember a b := by
  rw [del, del, remember_ite]
  rfl

@[simp] theorem csiJ_remember (par : BitVec 32) : (s.remember a b).csiJ d par = (s.csiJ d par).remember a b := by
  rw [csiJ, csiJ, remember_ite, remember_ite, remember_ite]
  rfl

@[simp] theorem csiK_remember (par : BitVec 32) : (s.remember a b).csiK d par = (s.csiK d par).remember a b := by
  rw [csiK, csiK, remember_ite, remember_ite, remember_ite, remember_ite]
  rfl

@[simp] theorem deleteChar_remember : (s.remember a b).deleteChar d = (s.deleteChar d).remember a b := by
  rw [deleteChar, deleteChar, remember_ite]
  rfl

@[simp] theorem deleteLine_remember : (s.remember a b).deleteLine d = (s.deleteLine d).remember a b := by
  have scrolled := scrup_remember d { s with top := s.y, bottom := d.videoNumLines } a b
  change { (({ s with top := s.y, bottom := d.videoNumLines } : Console).remember a b).scrup d with
    top := s.top, bottom := s.bottom } = _
  rw [scrolled]
  rfl

theorem iterate_remember {f : Console → Console} (once : ∀ s : Console, f (s.remember a b) = (f s).remember a b) (n : Nat) :
    f^[n] (s.remember a b) = (f^[n] s).remember a b := by
  induction n generalizing s with
  | zero => rfl
  | succ n ih => rw [Function.iterate_succ_apply, Function.iterate_succ_apply, once, ih]

@[simp] theorem wrap_remember : (s.remember a b).wrap d = (s.wrap d).remember a b := by
  have wrapped := lf_remember d { s with x := s.x - d.videoNumColumns, pos := s.pos - d.videoSizeRow } a b
  rw [wrap, wrap, remember_ite, ← wrapped]
  rfl

@[simp] theorem tab_remember : (s.remember a b).tab d = (s.tab d).remember a b := by
  have wrapped := lf_remember d
    { s with
      x := s.x + (8 - (s.x &&& 7)) - d.videoNumColumns
      pos := s.pos + (8 - (s.x &&& 7)) <<< 1 - d.videoSizeRow } a b
  rw [tab, tab]
  dsimp only
  rw [remember_ite, ← wrapped]
  rfl

theorem ground_remember (c eraseChar : BitVec 8) :
    (s.remember a b).ground d c eraseChar = (s.ground d c eraseChar).remember a b := by
  rw [ground, ground, wrap_remember, lf_remember, del_remember, tab_remember]
  simp only [remember_ite]
  rfl

@[simp] theorem countFromZero_remember (i : Nat) : (s.remember a b).countFromZero i = (s.countFromZero i).remember a b := by
  rw [countFromZero, countFromZero, remember_ite]
  rfl

@[simp] theorem atLeastOne_remember : (s.remember a b).atLeastOne = s.atLeastOne.remember a b := by
  rw [atLeastOne, atLeastOne, remember_ite]
  rfl

@[simp] theorem defaultBottom_remember : (s.remember a b).defaultBottom d = (s.defaultBottom d).remember a b := by
  rw [defaultBottom, defaultBottom, remember_ite]
  rfl

@[simp] theorem setRegion_remember : (s.remember a b).setRegion d = (s.setRegion d).remember a b := by
  rw [setRegion, setRegion, countFromZero_remember, defaultBottom_remember]
  rw [remember_ite]
  rfl

@[simp] theorem csiL_remember (nr : BitVec 32) : (s.remember a b).csiL d nr = (s.csiL d nr).remember a b :=
  iterate_remember s a b (fun _ => rfl) _

@[simp] theorem csiM_remember (nr : BitVec 32) : (s.remember a b).csiM d nr = (s.csiM d nr).remember a b :=
  iterate_remember s a b (fun s => deleteLine_remember d s a b) _

@[simp] theorem csiP_remember (nr : BitVec 32) : (s.remember a b).csiP d nr = (s.csiP d nr).remember a b :=
  iterate_remember s a b (fun s => deleteChar_remember d s a b) _

@[simp] theorem csiAt_remember (nr : BitVec 32) : (s.remember a b).csiAt d nr = (s.csiAt d nr).remember a b :=
  iterate_remember s a b (fun _ => rfl) _

@[simp] theorem csim_remember : (s.remember a b).csim = s.csim.remember a b := rfl

theorem final_remember {c : BitVec 8} (save : c ≠ 0x73) (restore : c ≠ 0x75) :
    (s.remember a b).final d c = (s.final d c).remember a b := by
  have ended : { s.remember a b with state := 0 } = ({ s with state := 0 } : Console).remember a b := rfl
  rw [final, final, ended]
  generalize ({ s with state := 0 } : Console) = s
  split
  case h_22 saved => exact absurd (BitVec.eq_of_toNat_eq saved) save
  case h_23 restored => exact absurd (BitVec.eq_of_toNat_eq restored) restore
  all_goals simp

theorem parameter_remember {c : BitVec 8} (save : c ≠ 0x73) (restore : c ≠ 0x75) :
    (s.remember a b).parameter d c = (s.parameter d c).remember a b := by
  rw [parameter, parameter, final_remember d s a b save restore, remember_ite, remember_ite]
  rfl

theorem bracket_remember {c : BitVec 8} (save : c ≠ 0x73) (restore : c ≠ 0x75) :
    (s.remember a b).bracket d c = (s.bracket d c).remember a b := by
  rw [bracket, bracket]
  rw [remember_ite, ← parameter_remember d _ a b save restore]
  rfl

end Frame

def cursor : BitVec 32 × BitVec 32 := (s.x, s.y)

def saved : BitVec 32 × BitVec 32 := (s.savedX, s.savedY)

/-- A byte that ends a save command: `ESC 7`, or `s` behind `ESC [`. -/
def Saves (c : BitVec 8) : Prop := s.state = 1 ∧ c = 0x37 ∨ (s.state = 2 ∨ s.state = 3 ∨ s.state = 4) ∧ c = 0x73

/-- A byte that ends a restore command: `ESC 8`, or `u` behind `ESC [`. -/
def Restores (c : BitVec 8) : Prop := s.state = 1 ∧ c = 0x38 ∨ (s.state = 2 ∨ s.state = 3 ∨ s.state = 4) ∧ c = 0x75

instance (c : BitVec 8) : Decidable (s.Saves c) := inferInstanceAs (Decidable (_ ∨ _))

instance (c : BitVec 8) : Decidable (s.Restores c) := inferInstanceAs (Decidable (_ ∨ _))

/-- Where the last two tests of state 1 are made, the column happens to be the character. -/
def Coincides (c : BitVec 8) : Prop :=
  s.state = 1 → c ∉ [0x5b, 0x45, 0x4d, 0x44, 0x5a] → (s.x = 0x37 ↔ c = 0x37) ∧ (s.x = 0x38 ↔ c = 0x38)

instance (c : BitVec 8) : Decidable (s.Coincides c) := inferInstanceAs (Decidable (_ → _ → _))

/-- What a byte should do with the saved position, whatever that is: only a save command sets it, and only a
    restore command goes there. -/
structure Heeds (c eraseChar : BitVec 8) : Prop where
  saved : ∀ a b, ((s.remember a b).writeChar d c eraseChar).saved = if s.Saves c then s.cursor else (a, b)
  restored : ∀ a b, ((s.remember a b).writeChar d c eraseChar).cursor =
    if s.Restores c then (s.gotoxy d a b).cursor else (s.writeChar d c eraseChar).cursor

variable {d s} {c eraseChar : BitVec 8}

section Byte

theorem gotoxy_cursor (newX newY : BitVec 32) : (s.gotoxy d newX newY).cursor =
    if d.videoNumColumns < newX ∨ d.videoNumLines ≤ newY then s.cursor else (newX, newY) := by
  rw [gotoxy]
  split <;> rfl

theorem Heeds.of_remember (save : ¬ s.Saves c) (restore : ¬ s.Restores c)
    (frame : ∀ a b, (s.remember a b).writeChar d c eraseChar = (s.writeChar d c eraseChar).remember a b) :
    s.Heeds d c eraseChar := by
  constructor
  · intro a b
    rw [frame, if_neg save]
    rfl
  · intro a b
    rw [frame, if_neg restore]
    rfl

theorem gotoxy_saved (newX newY : BitVec 32) : (s.gotoxy d newX newY).saved = s.saved := by
  rw [gotoxy]
  split <;> rfl

theorem restoreCur_cursor (t : Console) (same : t.cursor = s.cursor) :
    (t.restoreCur d).cursor = (s.gotoxy d t.savedX t.savedY).cursor := by
  rw [restoreCur, gotoxy_cursor, gotoxy_cursor, same]

theorem parameter_save : s.parameter d 0x73 = s.final d 0x73 := by
  rw [parameter, if_neg (fun both => absurd both.1 (by decide)), if_neg (by decide)]

theorem parameter_restore : s.parameter d 0x75 = s.final d 0x75 := by
  rw [parameter, if_neg (fun both => absurd both.1 (by decide)), if_neg (by decide)]

theorem escape_rest (other : c ∉ [0x5b, 0x45, 0x4d, 0x44, 0x5a]) : s.escape d c =
    if s.x = 0x37 then ({ s with state := 0 } : Console).saveCur
    else if s.x = 0x38 then ({ s with state := 0 } : Console).restoreCur d
    else { s with state := 0 } := by
  simp only [List.mem_cons, List.not_mem_nil, or_false, not_or] at other
  rw [escape, if_neg other.1, if_neg other.2.1, if_neg other.2.2.1, if_neg other.2.2.2.1, if_neg other.2.2.2.2]

theorem escape_remember (a b : BitVec 32) (early : c ∈ [0x5b, 0x45, 0x4d, 0x44, 0x5a]) :
    (s.remember a b).escape d c = (s.escape d c).remember a b := by
  simp only [List.mem_cons, List.not_mem_nil, or_false] at early
  rcases early with rfl | rfl | rfl | rfl | rfl
  · rfl
  · exact gotoxy_remember d { s with state := 0 } a b 0 (s.y + 1)
  · exact ri_remember d { s with state := 0 } a b
  · exact lf_remember d { s with state := 0 } a b
  · rfl

theorem writeChar_one (state : s.state = 1) : s.writeChar d c eraseChar = s.escape d c := by
  simp only [writeChar, state]

section Unknown

variable (state : s.state = 1) (other : c ∉ [0x5b, 0x45, 0x4d, 0x44, 0x5a])

include state other

theorem unknown : (s.writeChar d c eraseChar).saved = (if s.x = 0x37 then s.cursor else s.saved) ∧
    (s.writeChar d c eraseChar).cursor = if s.x = 0x38 then (s.gotoxy d s.savedX s.savedY).cursor else s.cursor := by
  rw [writeChar_one state, escape_rest other]
  by_cases seven : s.x = 0x37
  · have apart : s.x ≠ 0x38 := by
      rw [seven]
      decide
    rw [if_pos seven, if_pos seven, if_neg apart]
    exact ⟨rfl, rfl⟩
  · rw [if_neg seven, if_neg seven]
    by_cases eight : s.x = 0x38
    · rw [if_pos eight, if_pos eight]
      exact ⟨gotoxy_saved _ _, restoreCur_cursor _ rfl⟩
    · rw [if_neg eight, if_neg eight]
      exact ⟨rfl, rfl⟩

theorem unknown_saved (a b : BitVec 32) : ((s.remember a b).writeChar d c eraseChar).saved =
    if s.x = 0x37 then s.cursor else (a, b) := (unknown (s := s.remember a b) state other).1

theorem unknown_cursor (a b : BitVec 32) : ((s.remember a b).writeChar d c eraseChar).cursor =
    if s.x = 0x38 then (s.gotoxy d a b).cursor else s.cursor := by
  have here : ((s.remember a b).writeChar d c eraseChar).cursor =
      if s.x = 0x38 then ((s.remember a b).gotoxy d a b).cursor else s.cursor :=
    (unknown (s := s.remember a b) state other).2
  rw [gotoxy_remember] at here
  exact here

theorem heeds_escape (coincides : (s.x = 0x37 ↔ c = 0x37) ∧ (s.x = 0x38 ↔ c = 0x38)) : s.Heeds d c eraseChar := by
  have saves : s.Saves c ↔ s.x = 0x37 := by
    rw [coincides.1]
    simp [Saves, state]
  have restores : s.Restores c ↔ s.x = 0x38 := by
    rw [coincides.2]
    simp [Restores, state]
  constructor
  · intro a b
    rw [unknown_saved state other, if_congr saves rfl rfl]
  · intro a b
    have here : (s.writeChar d c eraseChar).cursor = _ := unknown_cursor state other s.savedX s.savedY
    rw [unknown_cursor state other, if_congr restores rfl rfl, here]
    split <;> rfl

end Unknown

theorem heeds_end {g : Console → Console} (later : s.state = 2 ∨ s.state = 3 ∨ s.state = 4)
    (cursor : ∀ t, (g t).cursor = t.cursor) (saved : ∀ t, (g t).saved = t.saved)
    (write : ∀ a b, (s.remember a b).writeChar d c eraseChar = (g (s.remember a b)).final d c)
    (last : c = 0x73 ∨ c = 0x75) : s.Heeds d c eraseChar := by
  have here : s.writeChar d c eraseChar = (g s).final d c := write s.savedX s.savedY
  rcases last with rfl | rfl
  · have save : s.Saves 0x73 := .inr ⟨later, rfl⟩
    have restore : ¬ s.Restores 0x73 := by simp [Restores]
    constructor
    · intro a b
      rw [write, if_pos save]
      exact cursor _
    · intro a b
      rw [write, if_neg restore, here]
      exact (cursor _).trans (cursor s).symm
  · have save : ¬ s.Saves 0x75 := by simp [Saves]
    have restore : s.Restores 0x75 := .inr ⟨later, rfl⟩
    constructor
    · intro a b
      rw [write, if_neg save]
      exact (gotoxy_saved _ _).trans (saved _)
    · intro a b
      have place := saved (s.remember a b)
      rw [write, if_pos restore]
      have moved : ((g (s.remember a b)).final d 0x75).cursor =
          (s.gotoxy d (g (s.remember a b)).savedX (g (s.remember a b)).savedY).cursor :=
        restoreCur_cursor { g (s.remember a b) with state := 0 } (cursor _)
      have x : (g (s.remember a b)).savedX = a := congrArg Prod.fst place
      have y : (g (s.remember a b)).savedY = b := congrArg Prod.snd place
      rw [x, y] at moved
      exact moved

theorem not_saves (elsewhere : s.state ≠ 1) (other : c ≠ 0x73) : ¬ s.Saves c := by
  intro saves
  rcases saves with here | last
  · exact elsewhere here.1
  · exact other last.2

theorem not_restores (elsewhere : s.state ≠ 1) (other : c ≠ 0x75) : ¬ s.Restores c := by
  intro restores
  rcases restores with here | last
  · exact elsewhere here.1
  · exact other last.2

theorem heeds_of_coincides (coincides : s.Coincides c) : s.Heeds d c eraseChar := by
  match state : s.state with
  | 0 =>
    have write (t : Console) (same : t.state = 0) : t.writeChar d c eraseChar = t.ground d c eraseChar := by
      simp only [writeChar, same]
    apply Heeds.of_remember
    · simp [Saves, state]
    · simp [Restores, state]
    · intro a b
      rw [write (s.remember a b) state, write s state, ground_remember]
  | 1 =>
    by_cases early : c ∈ [0x5b, 0x45, 0x4d, 0x44, 0x5a]
    · have known := early
      simp only [List.mem_cons, List.not_mem_nil, or_false] at known
      apply Heeds.of_remember
      · rcases known with rfl | rfl | rfl | rfl | rfl <;> simp [Saves, state]
      · rcases known with rfl | rfl | rfl | rfl | rfl <;> simp [Restores, state]
      · intro a b
        rw [writeChar_one state, writeChar_one (s := s.remember a b) state, escape_remember a b early]
    · exact heeds_escape state early (coincides state early)
  | 2 =>
    have write (t : Console) (same : t.state = 2) : t.writeChar d c eraseChar = t.bracket d c := by
      simp only [writeChar, same]
    by_cases last : c = 0x73 ∨ c = 0x75
    · apply heeds_end (g := fun t =>
        { t with par := fun i => if i < nPar then 0 else t.par i, npar := 0, state := 3, ques := c = 0x3f })
      · exact .inl state
      · exact fun _ => rfl
      · exact fun _ => rfl
      · intro a b
        rw [write (s.remember a b) state, bracket]
        rcases last with rfl | rfl
        · rw [if_neg (by decide), parameter_save]
        · rw [if_neg (by decide), parameter_restore]
      · exact last
    · have other := not_or.mp last
      apply Heeds.of_remember
      · exact not_saves (by omega) other.1
      · exact not_restores (by omega) other.2
      · intro a b
        rw [write (s.remember a b) state, write s state, bracket_remember d s a b other.1 other.2]
  | 3 =>
    have write (t : Console) (same : t.state = 3) : t.writeChar d c eraseChar = t.parameter d c := by
      simp only [writeChar, same]
    by_cases last : c = 0x73 ∨ c = 0x75
    · apply heeds_end (g := id)
      · exact .inr (.inl state)
      · exact fun _ => rfl
      · exact fun _ => rfl
      · intro a b
        rw [write (s.remember a b) state]
        rcases last with rfl | rfl
        · exact parameter_save
        · exact parameter_restore
      · exact last
    · have other := not_or.mp last
      apply Heeds.of_remember
      · exact not_saves (by omega) other.1
      · exact not_restores (by omega) other.2
      · intro a b
        rw [write (s.remember a b) state, write s state, parameter_remember d s a b other.1 other.2]
  | 4 =>
    have write (t : Console) (same : t.state = 4) : t.writeChar d c eraseChar = t.final d c := by
      simp only [writeChar, same]
    by_cases last : c = 0x73 ∨ c = 0x75
    · exact heeds_end (g := id) (.inr (.inr state)) (fun _ => rfl) (fun _ => rfl) (fun a b => write (s.remember a b) state) last
    · have other := not_or.mp last
      apply Heeds.of_remember
      · exact not_saves (by omega) other.1
      · exact not_restores (by omega) other.2
      · intro a b
        rw [write (s.remember a b) state, write s state, final_remember d s a b other.1 other.2]
  | n + 5 =>
    have write (t : Console) (same : t.state = n + 5) : t.writeChar d c eraseChar = t := by
      simp only [writeChar, same]
    apply Heeds.of_remember
    · simp [Saves, state]
    · simp [Restores, state]
    · intro a b
      rw [write (s.remember a b) state, write s state]

/-- A screen with a column and a line has two places a cursor can be told apart by. -/
theorem two_places (columns : 0 < d.videoNumColumns) (lines : 0 < d.videoNumLines) :
    (s.gotoxy d 0 0).cursor = (0, 0) ∧ (s.gotoxy d 1 0).cursor = (1, 0) := by
  rw [gotoxy_cursor, gotoxy_cursor]
  constructor
  · exact if_neg (by bv_omega)
  · exact if_neg (by bv_omega)

theorem coincides_of_heeds (columns : 0 < d.videoNumColumns) (lines : 0 < d.videoNumLines)
    (heeds : s.Heeds d c eraseChar) : s.Coincides c := by
  intro state other
  have saves : s.Saves c ↔ c = 0x37 := by simp [Saves, state]
  have restores : s.Restores c ↔ c = 0x38 := by simp [Restores, state]
  have places := two_places (s := s) columns lines
  have apart : ((0, 0) : BitVec 32 × BitVec 32) ≠ (1, 0) := by decide
  constructor
  · have moved : s.cursor ≠ (s.x + 1, s.y) := by
      intro same
      have column : s.x = s.x + 1 := congrArg Prod.fst same
      bv_omega
    have saved := heeds.saved (s.x + 1) s.y
    rw [unknown_saved state other, if_congr saves rfl rfl] at saved
    by_cases seven : s.x = 0x37 <;> by_cases save : c = 0x37
    · exact iff_of_true seven save
    · rw [if_pos seven, if_neg save] at saved
      exact absurd saved moved
    · rw [if_neg seven, if_pos save] at saved
      exact absurd saved.symm moved
    · exact iff_of_false seven save
  · have first := heeds.restored 0 0
    have second := heeds.restored 1 0
    rw [unknown_cursor state other, if_congr restores rfl rfl] at first second
    by_cases eight : s.x = 0x38 <;> by_cases restore : c = 0x38
    · exact iff_of_true eight restore
    · rw [if_pos eight, if_neg restore] at first second
      exact absurd (places.1.symm.trans (first.trans (second.symm.trans places.2))) apart
    · rw [if_neg eight, if_pos restore] at first second
      exact absurd (places.1.symm.trans (first.symm.trans (second.trans places.2))) apart
    · exact iff_of_false eight restore

end Byte

/-- Every byte of a stream meets a condition on the console as it comes to it. -/
def Throughout (d : Display) (condition : Console → BitVec 8 → Prop) :
    Console → List (BitVec 8 × BitVec 8) → Prop
  | _, [] => True
  | s, c :: cs => condition s c.1 ∧ Throughout d condition (s.writeChar d c.1 c.2) cs

instance instDecidableThroughout (d : Display) (condition : Console → BitVec 8 → Prop) [∀ s c, Decidable (condition s c)] :
    (s : Console) → (cs : List (BitVec 8 × BitVec 8)) → Decidable (Throughout d condition s cs)
  | _, [] => isTrue trivial
  | s, c :: cs => have := instDecidableThroughout d condition (s.writeChar d c.1 c.2) cs; inferInstanceAs (Decidable (_ ∧ _))

/-- `ESC 7` and `ESC [ s` -/
def saveCommands : List (List (BitVec 8)) := [[0x1b, 0x37], [0x1b, 0x5b, 0x73]]

/-- `ESC 8` and `ESC [ u` -/
def restoreCommands : List (List (BitVec 8)) := [[0x1b, 0x38], [0x1b, 0x5b, 0x75]]

section Stream

variable {condition : Console → BitVec 8 → Prop} {cs cs' : List (BitVec 8 × BitVec 8)}

theorem conWrite_cons (c : BitVec 8 × BitVec 8) : s.conWrite d (c :: cs) = (s.writeChar d c.1 c.2).conWrite d cs := rfl

theorem conWrite_append : s.conWrite d (cs ++ cs') = (s.conWrite d cs).conWrite d cs' := List.foldl_append ..

theorem throughout_append : Throughout d condition s (cs ++ cs') ↔
    Throughout d condition s cs ∧ Throughout d condition (s.conWrite d cs) cs' := by
  induction cs generalizing s with
  | nil => simp [Throughout, conWrite]
  | cons c cs ih =>
    rw [List.cons_append, Throughout, Throughout, ih, conWrite_cons, and_assoc]

theorem Heeds.kept (heeds : s.Heeds d c eraseChar) (save : ¬ s.Saves c) :
    (s.writeChar d c eraseChar).saved = s.saved := by
  have saved := heeds.saved s.savedX s.savedY
  rw [if_neg save] at saved
  exact saved

theorem saved_kept (quiet : Throughout d (fun s c => ¬ s.Saves c) s cs) (coincides : Throughout d Coincides s cs) :
    (s.conWrite d cs).saved = s.saved := by
  induction cs generalizing s with
  | nil => rfl
  | cons c cs ih =>
    rw [conWrite_cons, ih quiet.2 coincides.2]
    exact (heeds_of_coincides coincides.1).kept quiet.1

theorem escape_start (start : s.state = 0) : s.writeChar d 0x1b eraseChar = { s with state := 1 } := by
  simp only [writeChar, start]
  rw [ground, if_neg (by decide), if_pos rfl]

theorem conWrite_command {one two : BitVec 8} (start : s.state = 0)
    (form : cs.map Prod.fst ∈ [[0x1b, one], [0x1b, 0x5b, two]])
    (holds : Throughout d condition s cs) : ∃ n c e, (n = 1 ∧ c = one ∨ n = 2 ∧ c = two) ∧
      s.conWrite d cs = ({ s with state := n } : Console).writeChar d c e ∧ condition { s with state := n } c := by
  simp only [List.mem_cons, List.not_mem_nil, or_false, List.map_eq_cons_iff, List.map_eq_nil_iff] at form
  rcases form with ⟨⟨a, ea⟩, _, rfl, first, ⟨b, eb⟩, _, rfl, second, rfl⟩ |
    ⟨⟨a, ea⟩, _, rfl, first, ⟨b, eb⟩, _, rfl, second, ⟨c, ec⟩, _, rfl, third, rfl⟩
  · have escape : s.writeChar d 0x1b ea = { s with state := 1 } := escape_start start
    rw [← first] at escape
    have last := holds.2.1
    rw [escape] at last
    exact ⟨1, b, eb, .inl ⟨rfl, second⟩, by rw [conWrite_cons, escape]; rfl, last⟩
  · have escape : s.writeChar d 0x1b ea = { s with state := 1 } := escape_start start
    have bracket : ({ s with state := 1 } : Console).writeChar d 0x5b eb = { s with state := 2 } := rfl
    rw [← first] at escape
    rw [← second] at bracket
    have last := holds.2.2.1
    rw [escape, bracket] at last
    exact ⟨2, c, ec, .inr ⟨rfl, third⟩, by rw [conWrite_cons, escape, conWrite_cons, bracket]; rfl, last⟩

theorem save_command (start : s.state = 0) (form : cs.map Prod.fst ∈ saveCommands)
    (coincides : Throughout d Coincides s cs) : (s.conWrite d cs).saved = s.cursor := by
  rcases conWrite_command start form coincides with ⟨n, c, e, last, same, here⟩
  have save : ({ s with state := n } : Console).Saves c := by
    rcases last with ⟨rfl, rfl⟩ | ⟨rfl, rfl⟩
    · exact .inl ⟨rfl, rfl⟩
    · exact .inr ⟨.inl rfl, rfl⟩
  have heeds : ({ s with state := n } : Console).Heeds d c e := heeds_of_coincides here
  have saved := heeds.saved s.savedX s.savedY
  rw [if_pos save] at saved
  rw [same]
  exact saved

theorem restore_command (start : s.state = 0) (form : cs.map Prod.fst ∈ restoreCommands)
    (coincides : Throughout d Coincides s cs) :
    (s.conWrite d cs).cursor = (s.gotoxy d s.savedX s.savedY).cursor := by
  rcases conWrite_command start form coincides with ⟨n, c, e, last, same, here⟩
  have restore : ({ s with state := n } : Console).Restores c := by
    rcases last with ⟨rfl, rfl⟩ | ⟨rfl, rfl⟩
    · exact .inl ⟨rfl, rfl⟩
    · exact .inr ⟨.inl rfl, rfl⟩
  have heeds : ({ s with state := n } : Console).Heeds d c e := heeds_of_coincides here
  have restored := heeds.restored s.savedX s.savedY
  rw [if_pos restore, gotoxy_cursor] at restored
  rw [same, gotoxy_cursor]
  exact restored

theorem back {x y : BitVec 32} (columns : x ≤ d.videoNumColumns) (lines : y < d.videoNumLines)
    (kept : s.saved = (x, y)) : (s.gotoxy d s.savedX s.savedY).cursor = (x, y) := by
  rw [gotoxy_cursor]
  have savedX : s.savedX = x := congrArg Prod.fst kept
  have savedY : s.savedY = y := congrArg Prod.snd kept
  rw [savedX, savedY, if_neg (by bv_omega)]

/-- A byte does with the saved position what its sequence says exactly when, in the two tests that are made of the
    column, that is the character; a stream of such bytes between a save and a restore ends where it began. -/
theorem saves_and_restores {d : Display} (columns : 0 < d.videoNumColumns) (lines : 0 < d.videoNumLines) :
    (∀ (s : Console) (c eraseChar : BitVec 8), s.Heeds d c eraseChar ↔ s.Coincides c) ∧
    ∀ (s : Console) (save S restore : List (BitVec 8 × BitVec 8)), s.state = 0 →
      s.x ≤ d.videoNumColumns → s.y < d.videoNumLines →
      save.map Prod.fst ∈ saveCommands → restore.map Prod.fst ∈ restoreCommands →
      Throughout d (fun s c => ¬ s.Saves c) (s.conWrite d save) S → ((s.conWrite d save).conWrite d S).state = 0 →
      Throughout d Coincides s (save ++ S ++ restore) →
      (s.conWrite d (save ++ S ++ restore)).cursor = s.cursor := by
  constructor
  · intro s c eraseChar
    exact ⟨coincides_of_heeds columns lines, heeds_of_coincides⟩
  · intro s save S restore start onScreenX onScreenY saveForm restoreForm quiet idle coincides
    rw [throughout_append, throughout_append] at coincides
    rcases coincides with ⟨⟨saving, between⟩, restoring⟩
    have kept : ((s.conWrite d save).conWrite d S).saved = s.cursor := by
      rw [saved_kept quiet between]
      exact save_command start saveForm saving
    rw [conWrite_append] at restoring
    rw [conWrite_append, conWrite_append, restore_command idle restoreForm restoring]
    exact back onScreenX onScreenY kept

/-- In column 55 `ESC 7` saves, and behind one more letter `ESC 8` restores. -/
theorem column_seven :
    let d := egaColour.display
    let s := conInit { egaColour with origX := 0x37 } fun _ => 0
    s.Heeds d 0x41 0x20 ∧
      (s.conWrite d [(0x1b, 0x20), (0x37, 0x20), (0x41, 0x20), (0x1b, 0x20), (0x38, 0x20)]).cursor = s.cursor := by
  have heeds := saves_and_restores (d := egaColour.display) (by decide) (by decide)
  constructor
  · exact (heeds.1 _ _ _).mpr (by decide)
  · exact heeds.2 _ [(0x1b, 0x20), (0x37, 0x20)] [(0x41, 0x20)] [(0x1b, 0x20), (0x38, 0x20)] (by decide) (by decide)
      (by decide) (by decide) (by decide) (by decide) (by decide) (by decide)

/-- In column 0 neither command is seen: the letter between them moves the cursor for good. -/
theorem column_zero :
    let d := egaColour.display
    let s := conInit egaColour fun _ => 0
    let save := [(0x1b, 0x20), (0x37, 0x20)]
    let S := [(0x41, 0x20)]
    let restore := [(0x1b, 0x20), (0x38, 0x20)]
    s.state = 0 ∧ save.map Prod.fst ∈ saveCommands ∧ restore.map Prod.fst ∈ restoreCommands ∧
      Throughout d (fun s c => ¬ s.Saves c) (s.conWrite d save) S ∧ ((s.conWrite d save).conWrite d S).state = 0 ∧
      (s.conWrite d (save ++ S ++ restore)).cursor ≠ s.cursor := by
  decide

end Stream

end Console

end Linux011.Tty

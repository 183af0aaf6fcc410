import Linux011.Boot.Bootsect
import Linux011.Library.Leads
import Mathlib.Tactic.Ring

namespace Linux011.Boot

open Linux011.Library

/-- A disk the boot sector can load from: its tracks have more sectors than it and the setup need, and BIOS service 8
    can say how many. -/
structure Floppy.Fits (f : Floppy) : Prop where
  setup : 5 < f.sectors
  few : f.sectors < 64
  tracks : f.tracks ≤ 256
  enough : 389 ≤ f.tracks * 2 * f.sectors

def Floppy.Recovers (f : Floppy) : Prop := ∀ calls, ∃ more, f.fault (calls + more) = none

variable {f : Floppy} {b : Computer} {m : Memory} {r : Request} {n k : Nat}

section Memory

variable {a x : Nat} {bytes : Nat → BitVec 8}

theorem fill_inside {i : Nat} (inside : i < n) : m.fill a n bytes (a + i) = bytes i := by
  have here : a ≤ a + i ∧ a + i < a + n := by omega
  rw [Memory.fill, if_pos here, Nat.add_sub_cancel_left]

theorem fill_outside (outside : x < a ∨ a + n ≤ x) : m.fill a n bytes x = m x := if_neg (by omega)

theorem storeWord_word (m : Memory) (source target x : Nat) : m.storeWord target (m.word source) x =
    if x = target + 1 then m (source + 1) else if x = target then m source else m x := by
  have high : (m.word source).extractLsb' 8 8 = m (source + 1) := by
    unfold Memory.word
    exact BitVec.extractLsb'_append_eq_left
  have low : (m.word source).extractLsb' 0 8 = m source := by
    unfold Memory.word
    exact BitVec.extractLsb'_append_eq_right
  rw [Memory.storeWord, high, low]

theorem movw_apply (m : Memory) (n source target : Nat) (apart : source + 2 * n ≤ target) (x : Nat) :
    m.movw n source target x = if target ≤ x ∧ x < target + 2 * n then m (source + (x - target)) else m x := by
  induction n generalizing m source target with
  | zero => exact (if_neg (by omega)).symm
  | succ n ih =>
    rw [Memory.movw, ih _ _ _ (by omega)]
    by_cases later : target + 2 ≤ x ∧ x < target + 2 + 2 * n
    · rw [if_pos later, if_pos (by omega), storeWord_word, if_neg (by omega), if_neg (by omega)]
      congr 1
      omega
    · rw [if_neg later, storeWord_word]
      by_cases second : x = target + 1
      · rw [if_pos second, if_pos (by omega), second]
        congr 1
        omega
      · rw [if_neg second]
        by_cases first : x = target
        · rw [if_pos first, if_pos (by omega), first, Nat.sub_self]
          rfl
        · rw [if_neg first, if_neg (by omega)]

theorem storeWord_other {m : Memory} {a x : Nat} {w : BitVec 16} (below : x ≠ a) (above : x ≠ a + 1) :
    m.storeWord a w x = m x := by
  rw [Memory.storeWord, if_neg above, if_neg below]

theorem word_storeWord (m : Memory) (a : Nat) (w : BitVec 16) : (m.storeWord a w).word a = w := by
  unfold Memory.word Memory.storeWord
  rw [if_pos rfl, if_neg (by omega), if_pos rfl]
  exact BitVec.extractLsb'_append_extractLsb'_eq_extractLsb' (by decide) |>.trans (by simp)

theorem word_congr {m m' : Memory} {c : Nat} (first : m' c = m a) (second : m' (c + 1) = m (a + 1)) :
    m'.word c = m.word a := by
  rw [Memory.word, first, second, Memory.word]

theorem word_storeWord_apart {m : Memory} {c : Nat} {w : BitVec 16} (apart : a + 2 ≤ c ∨ c + 2 ≤ a) :
    (m.storeWord c w).word a = m.word a :=
  word_congr (storeWord_other (by omega) (by omega)) (storeWord_other (by omega) (by omega))

end Memory

section Registers

theorem high_append (a c : BitVec 8) : high (a ++ c) = a := BitVec.extractLsb'_append_eq_left

theorem low_append (a c : BitVec 8) : low (a ++ c) = c := BitVec.extractLsb'_append_eq_right

theorem low_toNat (w : BitVec 16) : (low w).toNat = w.toNat % 256 := by
  rw [low, BitVec.extractLsb'_toNat, Nat.shiftRight_zero]

theorem head_masked {h : BitVec 16} (two : h.toNat < 2) :
    (low h ++ (0 : BitVec 8) : BitVec 16) &&& 0x0100 = low h ++ (0 : BitVec 8) := by
  have cases : h = 0 ∨ h = 1 := by
    rcases (by omega : h.toNat = 0 ∨ h.toNat = 1) with zero | one
    · exact .inl (BitVec.eq_of_toNat_eq zero)
    · exact .inr (BitVec.eq_of_toNat_eq one)
  rcases cases with rfl | rfl <;> rfl

end Registers

section Stack

theorem push_other {w : BitVec 16} {x : Nat} (other : x ≠ linear INITSEG (b.sp - 2)) (next : x ≠ linear INITSEG (b.sp - 2) + 1) :
    (b.push w).memory x = b.memory x :=
  storeWord_other other next

theorem interrupted_other {x i : Nat} (outside : x < setupEnd ∨ linear INITSEG b.sp ≤ x) :
    b.interrupted f i x = b.memory x := by
  apply fill_outside
  omega

theorem save_spec (sp : b.sp = 0xfefc) : b.save.sp = 0xfef4 ∧ (b.save.memory.word 0x9fef4 = b.dx ∧
    b.save.memory.word 0x9fef6 = b.cx ∧ b.save.memory.word 0x9fef8 = b.bx ∧ b.save.memory.word 0x9fefa = b.ax) ∧
      ∀ x, x < 0x9fef4 ∨ 0x9fefc ≤ x → b.save.memory x = b.memory x := by
  have memory : b.save.memory = (((b.memory.storeWord 0x9fefa b.ax).storeWord 0x9fef8 b.bx).storeWord 0x9fef6
      b.cx).storeWord 0x9fef4 b.dx := by
    unfold Computer.save Computer.push
    dsimp only
    rw [sp]
    rfl
  refine ⟨?_, ?_, ?_⟩
  · show b.sp - 2 - 2 - 2 - 2 = _
    rw [sp]
    rfl
  · rw [memory]
    refine ⟨word_storeWord .., ?_, ?_, ?_⟩
    · rw [word_storeWord_apart (by omega), word_storeWord]
    · rw [word_storeWord_apart (by omega), word_storeWord_apart (by omega), word_storeWord]
    · rw [word_storeWord_apart (by omega), word_storeWord_apart (by omega), word_storeWord_apart (by omega),
        word_storeWord]
  · intro x outside
    rw [memory, storeWord_other (by omega) (by omega), storeWord_other (by omega) (by omega),
      storeWord_other (by omega) (by omega), storeWord_other (by omega) (by omega)]

theorem restore_spec (sp : b.sp = 0xfef4) : b.restore = { b with
    ax := b.memory.word 0x9fefa, bx := b.memory.word 0x9fef8, cx := b.memory.word 0x9fef6, dx := b.memory.word 0x9fef4
    sp := 0xfefc } := by
  unfold Computer.restore Computer.top
  dsimp only
  rw [sp]
  rfl

theorem restore_congr {c : Computer} (sp : b.sp = 0xfef4) (sp' : c.sp = 0xfef4)
    (kept : ∀ x, 0x9fef4 ≤ x → x < 0x9fefc → c.memory x = b.memory x) : c.restore = { c with
      ax := b.restore.ax, bx := b.restore.bx, cx := b.restore.cx, dx := b.restore.dx, sp := b.restore.sp } := by
  have word {a : Nat} (low : 0x9fef4 ≤ a) (high : a + 1 < 0x9fefc) : c.memory.word a = b.memory.word a :=
    word_congr (kept a low (by omega)) (kept (a + 1) (by omega) high)
  rw [restore_spec sp, restore_spec sp', word (by decide) (by decide), word (by decide) (by decide),
    word (by decide) (by decide), word (by decide) (by decide)]

theorem restore_save (sp : b.sp = 0xfefc) : b.save.restore = { b.save with
    ax := b.ax, bx := b.bx, cx := b.cx, dx := b.dx, sp := b.sp } := by
  obtain ⟨sp', ⟨dx, cx, bx, ax⟩, -⟩ := save_spec sp
  rw [restore_spec sp', dx, cx, bx, ax, sp]

end Stack

section Reads

theorem read_spec (valid : r.Valid f) (calls : Nat) :
    f.read calls r m = (false, m.fill r.buffer (512 * r.count) fun i => f.bytes (512 * r.place f + i)) ∧ f.fault calls = none ∨
      ∃ left, f.read calls r m = (true, m.fill r.buffer (512 * r.count) left) ∧ f.fault calls ≠ none := by
  unfold Floppy.read
  cases fault : f.fault calls with
  | none => exact .inl ⟨if_pos valid, rfl⟩
  | some left => exact .inr ⟨left, rfl, by simp⟩

theorem read_outside {r : Request} {m : Memory} {calls x : Nat} (outside : x < r.buffer ∨ r.buffer + 512 * r.count ≤ x) :
    (f.read calls r m).2 x = m x := by
  unfold Floppy.read
  split
  · exact fill_outside outside
  · split
    · dsimp only
      exact fill_outside outside
    · rfl

end Reads

variable [Assembled]

section Loaded

/-- A byte of the boot sector that is in none of its words. -/
def Fixed (i : Nat) : Prop :=
  (i < Assembled.sread ∨ Assembled.sread + 6 ≤ i) ∧ (i < Assembled.sectors ∨ Assembled.sectors + 2 ≤ i)

/-- What has been loaded: the boot sector, but for its words, setup, and so many sectors of the system. -/
structure Loaded (f : Floppy) (m : Memory) (n : Nat) : Prop where
  boot : ∀ i < 512, Fixed i → m (0x90000 + i) = f.bytes i
  setup : ∀ i < 2048, m (0x90200 + i) = f.bytes (512 + i)
  system : ∀ i < 512 * n, m (0x10000 + i) = f.bytes (2560 + i)

theorem Loaded.fill (loaded : Loaded f m n) (bound : n + k ≤ 384) (bytes : Nat → BitVec 8) :
    Loaded f (m.fill (0x10000 + 512 * n) (512 * k) bytes) n := by
  constructor
  case boot =>
    intro i inside fixed
    rw [fill_outside (by omega)]
    exact loaded.boot i inside fixed
  case setup =>
    intro i inside
    rw [fill_outside (by omega)]
    exact loaded.setup i inside
  case system =>
    intro i inside
    rw [fill_outside (by omega)]
    exact loaded.system i inside

theorem Loaded.more (loaded : Loaded f m n) (bound : n + k ≤ 384) :
    Loaded f (m.fill (0x10000 + 512 * n) (512 * k) fun i => f.bytes (2560 + 512 * n + i)) (n + k) := by
  have kept := loaded.fill bound fun i => f.bytes (2560 + 512 * n + i)
  refine ⟨kept.boot, kept.setup, ?_⟩
  intro i inside
  by_cases before : i < 512 * n
  · exact kept.system i before
  · have place : 0x10000 + i = 0x10000 + 512 * n + (i - 512 * n) := by omega
    rw [place, fill_inside (by omega)]
    congr 1
    omega

def Word (x : Nat) : Prop := sreadAt ≤ x ∧ x < sreadAt + 6 ∨ sectorsAt ≤ x ∧ x < sectorsAt + 2

theorem Loaded.congr {m' : Memory} (loaded : Loaded f m n) (bound : n ≤ 384)
    (same : ∀ x < 0x90a00, ¬ Word x → m' x = m x) : Loaded f m' n := by
  have base : linear INITSEG 0 = 0x90000 := rfl
  have inside := Assembled.inside
  have ordered := Assembled.ordered
  unfold Word sreadAt sectorsAt at same
  rw [base] at same
  constructor
  case boot =>
    intro i inside fixed
    unfold Fixed at fixed
    rw [same _ (by omega) (by omega)]
    exact loaded.boot i inside fixed
  case setup =>
    intro i inside
    rw [same _ (by omega) (by omega)]
    exact loaded.setup i inside
  case system =>
    intro i inside
    rw [same _ (by omega) (by omega)]
    exact loaded.system i inside

end Loaded

section Returns

theorem ret_readIt (back : b.top = Assembled.readItBack) : b.ret = { b with sp := b.sp + 2, label := .readItDone } := by
  unfold Computer.ret
  dsimp only
  rw [back, if_pos rfl]

theorem ret_killMotor (back : b.top = Assembled.killMotorBack) : b.ret = { b with sp := b.sp + 2, label := .rootDev } := by
  unfold Computer.ret
  dsimp only
  rw [back, if_neg Assembled.killMotor_ne, if_pos rfl]

theorem ret_readTrack (back : b.top = Assembled.readTrackBack) :
    b.ret = { b with sp := b.sp + 2, label := .readDone } := by
  unfold Computer.ret
  dsimp only
  rw [back, if_neg Assembled.readTrack_ne.1, if_neg Assembled.readTrack_ne.2, if_pos rfl]

end Returns

/-- The boot sector, and the return address of `read_it`. -/
def Held (x : Nat) : Prop := 0x90000 ≤ x ∧ x < 0x90200 ∨ 0x9fefe ≤ x ∧ x < 0x9ff00

/-- Where the loader is with so many sectors of the system read. -/
structure Loads (f : Floppy) (b : Computer) (n : Nat) : Prop where
  sectors : b.sectors.toNat = f.sectors
  es : b.es.toNat = 0x1000 * (1 + n / 128)
  bx : b.bx.toNat = 512 * (n % 128)
  place : (b.track.toNat * 2 + b.head.toNat) * f.sectors + b.sread.toNat = 5 + n
  head : b.head.toNat < 2
  sread : b.sread.toNat < f.sectors
  back : b.memory.word 0x9fefe = Assembled.readItBack
  loaded : Loaded f b.memory n

/-- It asks for so many more. -/
structure Asks (f : Floppy) (b : Computer) (n k : Nat) : Prop where
  loads : Loads f b n
  ax : b.ax.toNat = k
  some : 0 < k
  below : n < 384
  track : b.sread.toNat + k ≤ f.sectors
  block : n % 128 + k ≤ 128

/-- `read_track` has been called for them. -/
structure Pending (f : Floppy) (b : Computer) (n k : Nat) : Prop where
  asks : Asks f b n k
  sp : b.sp = 0xfefc
  back : b.memory.word 0x9fefc = Assembled.readTrackBack

structure Fetched (f : Floppy) (b : Computer) (n k : Nat) : Prop where
  asks : Asks f b n k
  sp : b.sp = 0xfefe
  loaded : Loaded f b.memory (n + k)

section Held

variable {c : Computer} (held : ∀ x, 0x90000 ≤ x ∧ x < 0x90200 → c.memory x = b.memory x)
include held

theorem words_held : c.sectors = b.sectors ∧ c.sread = b.sread ∧ c.head = b.head ∧ c.track = b.track := by
  have ordered := Assembled.ordered
  have inside := Assembled.inside
  have base : linear INITSEG 0 = 0x90000 := rfl
  have word {a : Nat} (low : 0x90000 ≤ a) (high : a + 1 < 0x90200) : c.memory.word a = b.memory.word a :=
    word_congr (held a ⟨low, by omega⟩) (held (a + 1) ⟨by omega, high⟩)
  unfold Computer.sectors Computer.sread Computer.head Computer.track sectorsAt headAt trackAt sreadAt
  rw [base]
  exact ⟨word (by omega) (by omega), word (by omega) (by omega), word (by omega) (by omega), word (by omega) (by omega)⟩

end Held

section Kept

variable {c : Computer} (held : ∀ x, Held x → c.memory x = b.memory x) (es : c.es = b.es) (bx : c.bx = b.bx)
include held es bx

theorem Loads.of_held (loads : Loads f b n) (loaded : Loaded f c.memory n) : Loads f c n := by
  obtain ⟨sectors, sread, head, track⟩ := words_held fun x inside => held x (.inl inside)
  have back : c.memory.word 0x9fefe = b.memory.word 0x9fefe :=
    word_congr (held _ (.inr ⟨by omega, by omega⟩)) (held _ (.inr ⟨by omega, by omega⟩))
  exact ⟨by rw [sectors, loads.sectors], by rw [es, loads.es], by rw [bx, loads.bx],
    by rw [track, head, sread, loads.place], by rw [head]; exact loads.head, by rw [sread]; exact loads.sread,
    by rw [back, loads.back], loaded⟩

theorem Asks.of_held (asks : Asks f b n k) (ax : c.ax = b.ax) (loaded : Loaded f c.memory n) : Asks f c n k := by
  have sread := (words_held fun x inside => held x (.inl inside)).2.1
  exact ⟨asks.loads.of_held held es bx loaded, by rw [ax, asks.ax], asks.some, asks.below, by rw [sread]; exact asks.track,
    asks.block⟩

end Kept

section Blocks

theorem Loads.linear (loads : Loads f b n) : Boot.linear b.es b.bx = 0x10000 + 512 * n := by
  have es := loads.es
  have bx := loads.bx
  unfold Boot.linear
  omega

theorem Loads.ok1Read_ax (fits : f.Fits) (loads : Loads f b n) : ∃ k, b.ok1Read.ax.toNat = k ∧ 0 < k ∧
    b.sread.toNat + k ≤ f.sectors ∧ n % 128 + k ≤ 128 := by
  have sectors := loads.sectors
  have sread := loads.sread
  have bx := loads.bx
  have few := fits.few
  have left : (b.sectors - b.sread).toNat = f.sectors - b.sread.toNat := by
    rw [BitVec.toNat_sub]
    omega
  have bytes : ((b.sectors - b.sread) <<< 9).toNat = 512 * (f.sectors - b.sread.toNat) := by
    rw [BitVec.toNat_shiftLeft, left, Nat.shiftLeft_eq]
    omega
  have sum : ((b.sectors - b.sread) <<< 9 + b.bx).toNat =
      (512 * (f.sectors - b.sread.toNat) + 512 * (n % 128)) % 65536 := by
    rw [BitVec.toNat_add, bytes, bx]
  show ∃ k, (if 65536 ≤ ((b.sectors - b.sread) <<< 9).toNat + b.bx.toNat ∧ (b.sectors - b.sread) <<< 9 + b.bx ≠ 0 then
      (0 - b.bx) >>> 9 else b.sectors - b.sread).toNat = k ∧ _
  split
  · rename_i beyond
    rcases beyond with ⟨carry, rest⟩
    have nonzero : ((b.sectors - b.sread) <<< 9 + b.bx).toNat ≠ 0 := fun zero => rest (BitVec.eq_of_toNat_eq zero)
    rw [bytes, bx] at carry
    rw [sum] at nonzero
    have room : ((0 - b.bx) >>> 9).toNat = 128 - n % 128 := by
      rw [BitVec.toNat_ushiftRight, BitVec.toNat_sub, bx, Nat.shiftRight_eq_div_pow]
      simp only [BitVec.ofNat_eq_ofNat, BitVec.toNat_ofNat]
      omega
    exact ⟨_, room, by omega, by omega, by omega⟩
  · rename_i within
    refine ⟨_, left, by omega, by omega, ?_⟩
    by_contra beyond
    have carry : 65536 ≤ ((b.sectors - b.sread) <<< 9).toNat + b.bx.toNat := by
      rw [bytes, bx]
      omega
    have zero : (b.sectors - b.sread) <<< 9 + b.bx = 0 := by
      by_contra nonzero
      exact within ⟨carry, nonzero⟩
    have total := congrArg BitVec.toNat zero
    rw [sum] at total
    have nothing : (0 : BitVec 16).toNat = 0 := rfl
    omega

theorem ok1Read_memory (sp : b.sp = 0xfefe) : b.ok1Read.memory = b.memory.storeWord 0x9fefc Assembled.readTrackBack := by
  unfold Computer.ok1Read Computer.call Computer.push
  dsimp only
  rw [sp]
  rfl

theorem Loads.ok1Read (fits : f.Fits) (loads : Loads f b n) (below : n < 384) (sp : b.sp = 0xfefe) :
    b.ok1Read.label = .readTrack ∧ ∃ k, Pending f b.ok1Read n k := by
  obtain ⟨k, ax, some, track, block⟩ := loads.ok1Read_ax fits
  have memory := ok1Read_memory sp
  have other (x : Nat) (outside : x < 0x9fefc ∨ 0x9fefe ≤ x) : b.ok1Read.memory x = b.memory x := by
    rw [memory, storeWord_other (by omega) (by omega)]
  have held (x : Nat) (inside : Held x) : b.ok1Read.memory x = b.memory x := by
    unfold Held at inside
    exact other x (by omega)
  have loaded := loads.loaded.congr (by omega) fun x low _ => other x (by omega)
  have sread := (words_held fun x inside => held x (.inl inside)).2.1
  refine ⟨rfl, k, ⟨loads.of_held held rfl rfl loaded, ax, some, below, by rw [sread]; exact track, block⟩, ?_, ?_⟩
  · show b.sp - 2 = _
    rw [sp]
    rfl
  · rw [memory]
    exact word_storeWord ..

theorem Loads.track (loads : Loads f b n) (fits : f.Fits) (below : n < 384) : b.track.toNat < f.tracks := by
  by_contra far
  have product : f.tracks * 2 * f.sectors ≤ (b.track.toNat * 2 + b.head.toNat) * f.sectors :=
    Nat.mul_le_mul_right _ (by omega)
  have place := loads.place
  have enough := fits.enough
  omega

theorem Pending.save_held (pending : Pending f b n k) : b.save.sectors = b.sectors ∧ b.save.sread = b.sread ∧
    b.save.head = b.head ∧ b.save.track = b.track :=
  words_held fun x inside => (save_spec pending.sp).2.2 x (by omega)

theorem Pending.request (pending : Pending f b n k) (fits : f.Fits) : b.atRead.request =
    ⟨k, b.track.toNat, b.sread.toNat + 1, b.head.toNat, 0, 0x10000 + 512 * n⟩ := by
  have asks := pending.asks
  have loads := asks.loads
  have track := loads.track fits asks.below
  have tracks := fits.tracks
  have few := fits.few
  have last := asks.track
  have ax := asks.ax
  have some := asks.some
  have head := loads.head
  have inner : (b.sread + 1).toNat = b.sread.toNat + 1 := BitVec.toNat_add_of_lt (by change _ + 1 < 65536; omega)
  obtain ⟨-, sread', head', track'⟩ := pending.save_held
  unfold Computer.request Computer.atRead
  dsimp only
  rw [sread', head', track', show b.save.ax = b.ax from rfl, show b.save.es = b.es from rfl,
    show b.save.bx = b.bx from rfl, head_masked head, low_append, low_append, high_append, high_append, low_append,
    low_toNat, low_toNat, low_toNat, low_toNat, inner, ax, loads.linear]
  rw [Nat.mod_eq_of_lt (by omega : k < 256), Nat.mod_eq_of_lt (by omega : b.track.toNat < 256),
    Nat.mod_eq_of_lt (by omega : b.sread.toNat + 1 < 256), Nat.mod_eq_of_lt (by omega : b.head.toNat < 256),
    Nat.mod_eq_of_lt (by omega : b.sread.toNat + 1 < 64), Nat.div_eq_of_lt (by omega : b.sread.toNat + 1 < 64)]
  rfl

/-- The read the loader asks for: on one track, within one 64 kB block, and from the next sector of the disk on. -/
structure Wanted (f : Floppy) (r : Request) (n : Nat) : Prop where
  valid : r.Valid f
  place : r.place f = 5 + n
  buffer : r.buffer = 0x10000 + 512 * n
  bound : n + r.count ≤ 384

theorem Pending.wanted (pending : Pending f b n k) (fits : f.Fits) : Wanted f b.atRead.request n := by
  have asks := pending.asks
  have track := asks.loads.track fits asks.below
  have last := asks.track
  have block := asks.block
  have some := asks.some
  have below := asks.below
  rw [pending.request fits]
  refine ⟨⟨rfl, some, Nat.succ_pos _, ?_, asks.loads.head, track, ?_⟩, asks.loads.place, rfl, ?_⟩
  all_goals dsimp only
  all_goals omega

/-- `read_track` is where it was before its registers were saved: nothing it needs has changed. -/
theorem Pending.congr {c : Computer} (pending : Pending f b n k) (held : ∀ x, 0x90000 ≤ x ∧ x < 0x90200 ∨ 0x9fefc ≤ x →
      c.memory x = b.memory x) (es : c.es = b.es) (bx : c.bx = b.bx) (ax : c.ax = b.ax) (sp : c.sp = b.sp)
    (loaded : Loaded f c.memory n) : Pending f c n k := by
  have held' (x : Nat) (inside : Held x) : c.memory x = b.memory x := by
    unfold Held at inside
    exact held x (by omega)
  have back : c.memory.word 0x9fefc = b.memory.word 0x9fefc :=
    word_congr (held _ (.inr (by omega))) (held _ (.inr (by omega)))
  exact ⟨pending.asks.of_held held' es bx ax loaded, sp.trans pending.sp, back.trans pending.back⟩

theorem Pending.interrupted_saved (pending : Pending f b n k) {i x : Nat} (outside : x < 0x90a00 ∨ 0x9fef4 ≤ x) :
    b.atRead.interrupted f i x = b.save.memory x := by
  have sp : linear INITSEG b.atRead.sp = 0x9fef4 := by
    rw [show b.atRead.sp = b.save.sp from rfl, (save_spec pending.sp).1]
    rfl
  have place : setupEnd = 0x90a00 := rfl
  rw [interrupted_other (by omega)]
  rfl

/-- Where the BIOS has put something in the buffer, the registers are restored. -/
theorem Pending.restore (pending : Pending f b n k) (bound : n + k ≤ 384) (i calls : Nat) (bytes : Nat → BitVec 8) :
    let memory := (b.atRead.interrupted f i).fill (0x10000 + 512 * n) (512 * k) bytes
    let c : Computer := { b.atRead with memory, calls }
    Loaded f (b.atRead.interrupted f i) n ∧ c.sp = 0xfef4 ∧ c.restore.memory = memory ∧ c.restore.calls = calls ∧
      Pending f c.restore n k := by
  intro memory c
  obtain ⟨sp, -, other⟩ := save_spec pending.sp
  have kept (x : Nat) (outside : x < 0x90a00 ∨ 0x9fef4 ≤ x) : b.atRead.interrupted f i x = b.save.memory x :=
    pending.interrupted_saved outside
  have filled (x : Nat) (outside : 0x40000 ≤ x) : memory x = b.atRead.interrupted f i x := fill_outside (by omega)
  have loaded : Loaded f (b.atRead.interrupted f i) n := by
    refine pending.asks.loads.loaded.congr (by omega) fun x low _ => ?_
    rw [kept x (by omega), other x (by omega)]
  have same : c.restore = { c with ax := b.ax, bx := b.bx, cx := b.cx, dx := b.dx, sp := b.sp } := by
    have saved := restore_congr (c := c) sp (by exact sp) fun x low high => by
      rw [show c.memory x = memory x from rfl, filled x (by omega), kept x (by omega)]
    rw [saved, restore_save pending.sp]
  refine ⟨loaded, sp, rfl, rfl, pending.congr ?_ rfl ?_ ?_ ?_ (loaded.fill bound bytes)⟩
  · intro x inside
    rw [show c.restore.memory x = memory x from rfl, filled x (by omega), kept x (by omega), other x (by omega)]
  · rw [same]
  · rw [same]
  · rw [same]

theorem Pending.top (pending : Pending f b n k) : b.top = Assembled.readTrackBack := by
  rw [Computer.top, pending.sp]
  exact pending.back

theorem Pending.ret (pending : Pending f b n k) (loaded : Loaded f b.memory (n + k)) :
    b.ret.label = .readDone ∧ b.ret.calls = b.calls ∧ Fetched f b.ret n k := by
  rw [ret_readTrack pending.top]
  refine ⟨rfl, rfl, ?_, ?_, loaded⟩
  · exact pending.asks.of_held (b := b) (fun _ _ => rfl) rfl rfl rfl
      pending.asks.loads.loaded
  · dsimp only
    rw [pending.sp]
    rfl

theorem Pending.readTrack (pending : Pending f b n k) (fits : f.Fits) : (b.readTrack f).calls = b.calls + 1 ∧
    ((b.readTrack f).label = .readDone ∧ Fetched f (b.readTrack f) n k ∨
      (b.readTrack f).label = .badRt ∧ ((b.readTrack f).sp = 0xfef4 ∧ Pending f (b.readTrack f).restore n k) ∧
        f.fault b.calls ≠ none) := by
  have wanted := pending.wanted fits
  have request := pending.request fits
  have bound := wanted.bound
  have count : b.atRead.request.count = k := by rw [request]
  rw [count] at bound
  unfold Computer.readTrack Computer.int13
  rw [show b.atRead.calls = b.calls from rfl]
  rcases read_spec (m := b.atRead.interrupted f (2 * b.calls)) wanted.valid b.calls with ⟨read, -⟩ | ⟨left, read, fault⟩
  · rw [read, wanted.place, wanted.buffer, count, show 512 * (5 + n) = 2560 + 512 * n by omega]
    dsimp only
    obtain ⟨loaded, sp, memory, calls, restored⟩ := pending.restore (f := f) bound (2 * b.calls) (b.calls + 1) fun i =>
      f.bytes (2560 + 512 * n + i)
    rw [if_neg Bool.false_ne_true]
    obtain ⟨label, calls', fetched⟩ := restored.ret (memory ▸ loaded.more bound)
    exact ⟨calls'.trans calls, .inl ⟨label, fetched⟩⟩
  · rw [read, wanted.buffer, count]
    dsimp only
    obtain ⟨-, sp, -, -, restored⟩ := pending.restore (f := f) bound (2 * b.calls) (b.calls + 1) left
    rw [if_pos rfl]
    refine ⟨rfl, .inr ⟨rfl, ⟨sp, ?_⟩, fault⟩⟩
    exact restored.congr (fun _ _ => rfl) rfl rfl rfl rfl restored.asks.loads.loaded

theorem Pending.readTrack_other (pending : Pending f b n k) (fits : f.Fits) {x : Nat} (buffer : x < 0x10000 ∨ 0x40000 ≤ x)
    (stack : x < 0x90a00 ∨ 0x9fefc ≤ x) : (b.readTrack f).memory x = b.memory x := by
  have wanted := pending.wanted fits
  have first := wanted.buffer
  have last := wanted.bound
  have memory : (b.readTrack f).memory =
      (f.read b.atRead.calls b.atRead.request (b.atRead.interrupted f (2 * b.atRead.calls))).2 := by
    unfold Computer.readTrack Computer.int13
    dsimp only
    split <;> rfl
  rw [memory, read_outside (by omega), pending.interrupted_saved (by omega)]
  exact (save_spec pending.sp).2.2 x (by omega)

/-- A track is read to its end: the other side of the disk comes next, or the next track. -/
theorem Fetched.turn (fetched : Fetched f b n k) (fits : f.Fits) (whole : b.sread.toNat + k = f.sectors)
    {track : BitVec 16} (next : track = if (1 : BitVec 16) - b.head ≠ 0 then b.track else b.track + 1) :
    ((1 : BitVec 16) - b.head).toNat < 2 ∧
      (track.toNat * 2 + ((1 : BitVec 16) - b.head).toNat) * f.sectors = 5 + (n + k) := by
  have loads := fetched.asks.loads
  have place := loads.place
  have bound := loads.track fits fetched.asks.below
  have tracks := fits.tracks
  have two := loads.head
  have swap : ((1 : BitVec 16) - b.head).toNat = 1 - b.head.toNat := by
    rw [BitVec.toNat_sub]
    simp only [BitVec.ofNat_eq_ofNat, BitVec.toNat_ofNat]
    omega
  have advance : (b.track.toNat * 2 + b.head.toNat + 1) * f.sectors = 5 + (n + k) := by
    rw [Nat.add_mul, Nat.one_mul]
    omega
  rw [swap]
  refine ⟨by omega, ?_⟩
  rcases (by omega : b.head.toNat = 0 ∨ b.head.toNat = 1) with zero | one
  · have stays : (1 : BitVec 16) - b.head ≠ 0 := by
      intro equal
      rw [equal, zero] at swap
      cases swap
    rw [next, if_pos stays, zero]
    rw [zero] at advance
    exact advance
  · have ends : (1 : BitVec 16) - b.head = 0 := by
      apply BitVec.eq_of_toNat_eq
      rw [swap, one]
      rfl
    have inc : (b.track + 1).toNat = b.track.toNat + 1 := BitVec.toNat_add_of_lt (by change _ + 1 < 65536; omega)
    rw [next, if_neg fun other => other ends, inc, one]
    rw [one] at advance
    rw [← advance, show (b.track.toNat + 1) * 2 + (1 - 1) = b.track.toNat * 2 + 1 + 1 by omega]

theorem okTrack_words (b : Computer) : (b.okTrack.sread = if b.ax + b.sread ≠ b.sectors then b.ax + b.sread else 0) ∧
    (b.okTrack.head = if b.ax + b.sread ≠ b.sectors then b.head else 1 - b.head) ∧
    b.okTrack.track = if b.ax + b.sread ≠ b.sectors then b.track else if 1 - b.head ≠ 0 then b.track else b.track + 1 := by
  have headAt_eq : headAt = sreadAt + 2 := rfl
  have trackAt_eq : trackAt = sreadAt + 4 := rfl
  unfold Computer.okTrack
  dsimp only
  by_cases part : b.ax + b.sread ≠ b.sectors
  · rw [if_pos part, if_pos part, if_pos part, if_pos part]
    exact ⟨word_storeWord .., word_storeWord_apart (by omega), word_storeWord_apart (by omega)⟩
  · rw [if_neg part, if_neg part, if_neg part, if_neg part]
    refine ⟨word_storeWord .., ?_, ?_⟩
    · exact (word_storeWord_apart (by omega)).trans (word_storeWord ..)
    · refine ((word_storeWord_apart (by omega)).trans (word_storeWord_apart (by omega))).trans ?_
      split
      · rfl
      · exact word_storeWord ..

theorem okTrack_other (b : Computer) : b.okTrack = { b with memory := b.okTrack.memory } ∧
    ∀ x, x < sreadAt ∨ sreadAt + 6 ≤ x → b.okTrack.memory x = b.memory x := by
  have headAt_eq : headAt = sreadAt + 2 := rfl
  have trackAt_eq : trackAt = sreadAt + 4 := rfl
  unfold Computer.okTrack Computer.store
  dsimp only
  split
  · exact ⟨rfl, fun x outside => storeWord_other (by omega) (by omega)⟩
  · split
    · exact ⟨rfl, fun x outside => (storeWord_other (by omega) (by omega)).trans (storeWord_other (by omega) (by omega))⟩
    · refine ⟨rfl, fun x outside => (storeWord_other (by omega) (by omega)).trans ?_⟩
      exact (storeWord_other (by omega) (by omega)).trans (storeWord_other (by omega) (by omega))

theorem Fetched.okTrack (fetched : Fetched f b n k) (fits : f.Fits) :
    (b.okTrack.track.toNat * 2 + b.okTrack.head.toNat) * f.sectors + b.okTrack.sread.toNat = 5 + (n + k) ∧
      b.okTrack.head.toNat < 2 ∧ b.okTrack.sread.toNat < f.sectors := by
  have loads := fetched.asks.loads
  have sectors := loads.sectors
  have few := fits.few
  have last := fetched.asks.track
  have place := loads.place
  have sum : (b.ax + b.sread).toNat = k + b.sread.toNat := by
    rw [BitVec.toNat_add, fetched.asks.ax]
    omega
  obtain ⟨sread, head, track⟩ := okTrack_words b
  by_cases whole : b.sread.toNat + k = f.sectors
  · have equal : ¬ b.ax + b.sread ≠ b.sectors := fun other => other (BitVec.eq_of_toNat_eq (by omega))
    rw [if_neg equal] at sread head track
    rcases fetched.turn fits whole track with ⟨two, turned⟩
    rw [head, sread]
    exact ⟨turned, two, Nat.zero_lt_of_lt loads.sread⟩
  · have other : b.ax + b.sread ≠ b.sectors := by
      intro equal
      rw [equal] at sum
      omega
    rw [if_pos other] at sread head track
    rw [head, sread, track]
    exact ⟨by omega, loads.head, by omega⟩

theorem Fetched.okTrack_kept (fetched : Fetched f b n k) (bound : n + k ≤ 384) :
    b.okTrack.sectors.toNat = f.sectors ∧ b.okTrack.memory.word 0x9fefe = Assembled.readItBack ∧
      Loaded f b.okTrack.memory (n + k) := by
  obtain ⟨-, other⟩ := okTrack_other b
  have base : sreadAt = 0x90000 + Assembled.sread := rfl
  have base' : sectorsAt = 0x90000 + Assembled.sectors := rfl
  have ordered := Assembled.ordered
  have inside := Assembled.inside
  have sectors : b.okTrack.sectors = b.sectors := word_congr (other _ (by omega)) (other _ (by omega))
  have back : b.okTrack.memory.word 0x9fefe = b.memory.word 0x9fefe :=
    word_congr (other _ (by omega)) (other _ (by omega))
  refine ⟨by rw [sectors, fetched.asks.loads.sectors], back.trans fetched.asks.loads.back, ?_⟩
  refine fetched.loaded.congr bound fun x _ apart => other x ?_
  unfold Word at apart
  omega

theorem Fetched.readDone (fetched : Fetched f b n k) (fits : f.Fits) :
    b.readDone.label = .rpRead ∧ (Loads f b.readDone (n + k) ∧ b.readDone.sp = 0xfefe) ∧ n + k ≤ 384 := by
  have asks := fetched.asks
  have es := asks.loads.es
  have bx := asks.loads.bx
  have few := fits.few
  have last := asks.track
  have block := asks.block
  have below := asks.below
  have bytes : (b.ax <<< 9).toNat = 512 * k := by
    rw [BitVec.toNat_shiftLeft, asks.ax, Nat.shiftLeft_eq]
    omega
  rcases fetched.okTrack fits with ⟨place, head, sread⟩
  rcases fetched.okTrack_kept (by omega) with ⟨sectors, back, loaded⟩
  have same := (okTrack_other b).1
  generalize track : b.okTrack = c at place head sread sectors back loaded same
  have segment : c.es = b.es := by rw [same]
  have offset : c.bx = b.bx := by rw [same]
  have sp : c.sp = 0xfefe := by rw [same]; exact fetched.sp
  unfold Computer.readDone
  dsimp only
  rw [track, offset, bytes, bx]
  split
  · have next : (c.es + 0x1000).toNat = 0x1000 * (1 + (n + k) / 128) := by
      rw [segment, BitVec.toNat_add, es]
      simp only [BitVec.ofNat_eq_ofNat, BitVec.toNat_ofNat]
      omega
    have zero : (0 : BitVec 16).toNat = 512 * ((n + k) % 128) := by
      have nothing : (0 : BitVec 16).toNat = 0 := rfl
      omega
    exact ⟨rfl, ⟨⟨sectors, next, zero, place, head, sread, back, loaded⟩, sp⟩, by omega⟩
  · have next : c.es.toNat = 0x1000 * (1 + (n + k) / 128) := by
      rw [segment, es]
      omega
    have forth : (b.bx + b.ax <<< 9).toNat = 512 * ((n + k) % 128) := by
      rw [BitVec.toNat_add, bytes, bx]
      omega
    exact ⟨rfl, ⟨⟨sectors, next, forth, place, head, sread, back, loaded⟩, sp⟩, by omega⟩

end Blocks

end Linux011.Boot

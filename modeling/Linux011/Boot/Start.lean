import Linux011.Boot.Loading

namespace Linux011.Boot

open Linux011.Library

variable {f : Floppy} {b c : Computer} {n k t : Nat}

/-- The root device named in the boot sector, or else the kind of floppy the system is loaded from. -/
def resolve (named : BitVec 16) (sectors : Nat) : Option (BitVec 16) :=
  if named ≠ 0 then some named
  else if sectors = 15 then some 0x0208
  else if sectors = 18 then some 0x021c
  else none

def Floppy.root (f : Floppy) : Option (BitVec 16) := resolve (f.bytes 509 ++ f.bytes 508) f.sectors

section Setup

theorem setup_request (initseg : b.es = INITSEG) :
    Computer.request { b with dx := 0x0000, cx := 0x0002, bx := 0x0200, ax := 0x0200 + SETUPLEN } =
      ⟨4, 0, 2, 0, 0, 0x90200⟩ := by
  unfold Computer.request
  dsimp only
  rw [initseg]
  decide

theorem setup_valid (fits : f.Fits) : Request.Valid f ⟨4, 0, 2, 0, 0, 0x90200⟩ := by
  have more := fits.setup
  have enough := fits.enough
  have tracks : 0 < f.tracks := by
    by_contra none
    rw [Nat.eq_zero_of_not_pos none] at enough
    omega
  exact ⟨rfl, by decide, by decide, by dsimp only; omega, by decide, tracks, by decide⟩

theorem parameters_sectors (fits : f.Fits) : ((0 : BitVec 8) ++ low f.parameters).toNat = f.sectors := by
  have few := fits.few
  have tracks := fits.tracks
  have none : (f.tracks - 1) / 256 = 0 := Nat.div_eq_of_lt (by omega)
  have sectors : low f.parameters = BitVec.ofNat 2 ((f.tracks - 1) / 256) ++ BitVec.ofNat 6 f.sectors := low_append _ _
  rw [sectors, none, BitVec.toNat_append, BitVec.toNat_append]
  simp
  omega

end Setup

section Loader

variable [Assembled]

/-- The words as they are assembled: the boot sector and setup come first on the disk. -/
structure Initial (b : Computer) : Prop where
  sread : b.sread = 5
  head : b.head = 0
  track : b.track = 0

structure Begun (f : Floppy) (b : Computer) : Prop where
  initial : Initial b
  boot : ∀ i < 512, Fixed i → b.memory (0x90000 + i) = f.bytes i
  sp : b.sp = 0xff00

structure SetUp (f : Floppy) (b : Computer) : Prop where
  initial : Initial b
  loaded : Loaded f b.memory 0

structure Ready (f : Floppy) (b : Computer) : Prop where
  setUp : SetUp f b
  es : b.es = SYSSEG
  sectors : b.sectors.toNat = f.sectors
  sp : b.sp = 0xfefe
  back : b.memory.word 0x9fefe = Assembled.readItBack

structure Whole (f : Floppy) (b : Computer) : Prop where
  loaded : Loaded f b.memory 384
  sectors : b.sectors.toNat = f.sectors

structure Handed (f : Floppy) (b : Computer) (root : BitVec 16) : Prop where
  root : b.memory.word rootDevAt = root
  setup : ∀ i < 2048, b.memory (0x90200 + i) = f.bytes (512 + i)
  system : ∀ i < 0x30000, b.memory (0x10000 + i) = f.bytes (2560 + i)

/-- What holds wherever control is. -/
def Bound (f : Floppy) (b : Computer) : Prop :=
  match b.label with
  | .start => Computer.Fresh f b
  | .loadSetup => Begun f b ∧ b.es = INITSEG
  | .okLoadSetup => SetUp f b ∧ b.sp = 0xff00
  | .readIt => Ready f b
  | .die | .lost => False
  | .rpRead => ∃ n, n ≤ 384 ∧ Loads f b n ∧ b.sp = 0xfefe
  | .ok1Read => ∃ n, n < 384 ∧ Loads f b n ∧ b.sp = 0xfefe
  | .readTrack => ∃ n k, Pending f b n k
  | .badRt => ∃ n k, b.sp = 0xfef4 ∧ Pending f b.restore n k
  | .readDone => ∃ n k, Fetched f b n k
  | .readItDone => Whole f b ∧ b.sp = 0xff00
  | .killMotor => Whole f b ∧ b.sp = 0xfefe ∧ b.top = Assembled.killMotorBack
  | .rootDev => Whole f b
  | .rootDefined => Loaded f b.memory 384 ∧ f.root = some b.ax
  | .undefRoot => Loaded f b.memory 384 ∧ f.root = none
  | .setup => ∃ root, f.root = some root ∧ Handed f b root

section Blocks

theorem Initial.congr (initial : Initial b) (held : ∀ x, 0x90000 ≤ x ∧ x < 0x90200 → c.memory x = b.memory x) :
    Initial c := by
  obtain ⟨-, sread, head, track⟩ := words_held held
  exact ⟨sread.trans initial.sread, head.trans initial.head, track.trans initial.track⟩

theorem Whole.congr (whole : Whole f b) (below : ∀ x < 0x90a00, c.memory x = b.memory x) : Whole f c :=
  ⟨whole.loaded.congr (Nat.le_refl _) fun x low _ => below x low, by
    rw [(words_held fun x inside => below x (by omega)).1, whole.sectors]⟩

theorem start_begun (fresh : Computer.Fresh f b) : Begun f b.start ∧ b.start.es = INITSEG := by
  have ordered := Assembled.ordered
  have inside := Assembled.inside
  have base : linear INITSEG 0 = 0x90000 := rfl
  have byte (i : Nat) (inside : i < 512) : b.start.memory (linear INITSEG 0 + i) = f.bytes i := by
    unfold Computer.start
    dsimp only
    rw [movw_apply _ _ _ _ (by decide), if_pos (by omega), Nat.add_sub_cancel_left]
    exact fresh.loaded i inside
  have word (i : Nat) (inside : i + 2 ≤ 512) : b.start.memory.word (linear INITSEG 0 + i) = Memory.word f.bytes i :=
    word_congr (byte i (by omega)) (byte (i + 1) (by omega))
  have initial : Initial b.start :=
    ⟨(word _ (by omega)).trans fresh.sread, (word (Assembled.sread + 2) (by omega)).trans fresh.head,
      (word (Assembled.sread + 4) (by omega)).trans fresh.track⟩
  exact ⟨⟨initial, fun i inside _ => byte i inside, rfl⟩, rfl⟩

theorem Begun.loadSetup (begun : Begun f b) (initseg : b.es = INITSEG) (fits : f.Fits) :
    (b.loadSetup f).calls = b.calls + 1 ∧
      ((b.loadSetup f).label = .okLoadSetup ∧ SetUp f (b.loadSetup f) ∧ (b.loadSetup f).sp = 0xff00 ∨
        (b.loadSetup f).label = .loadSetup ∧ Begun f (b.loadSetup f) ∧ (b.loadSetup f).es = INITSEG ∧
          f.fault b.calls ≠ none) := by
  refine ⟨rfl, ?_⟩
  -- the registers set up for the read are not among what is kept
  generalize asked : ({ b with dx := 0x0000, cx := 0x0002, bx := 0x0200, ax := 0x0200 + SETUPLEN } : Computer) = c
  have request : c.request = ⟨4, 0, 2, 0, 0, 0x90200⟩ := asked ▸ setup_request initseg
  have calls : c.calls = b.calls := by rw [← asked]
  have sp : c.sp = 0xff00 := by rw [← asked]; exact begun.sp
  have es : c.es = INITSEG := by rw [← asked]; exact initseg
  have memory : c.memory = b.memory := by rw [← asked]
  have place : (Request.mk 4 0 2 0 0 0x90200).place f = 1 := by simp [Request.place]
  have apart (i x : Nat) (low : x < 0x90200) (bytes : Nat → BitVec 8) :
      (c.interrupted f i).fill 0x90200 2048 bytes x = b.memory x := by
    rw [fill_outside (.inl low), interrupted_other (.inl (by change x < 0x90a00; omega)), memory]
  unfold Computer.loadSetup Computer.int13
  rw [asked, request, calls]
  rcases read_spec (m := c.interrupted f (2 * b.calls)) (setup_valid fits) b.calls with ⟨read, -⟩ | ⟨left, read, fault⟩
  · rw [place] at read
    dsimp only at read ⊢
    rw [read, show 512 * 4 = 2048 from rfl]
    have setup (i : Nat) (inside : i < 2048) : (c.interrupted f (2 * b.calls)).fill 0x90200 2048
        (fun i => f.bytes (512 * 1 + i)) (0x90200 + i) = f.bytes (512 + i) := by
      rw [fill_inside inside, Nat.mul_one]
    have below (x : Nat) (low : x < 0x90200) := apart (2 * b.calls) x low fun i => f.bytes (512 * 1 + i)
    generalize (c.interrupted f (2 * b.calls)).fill 0x90200 2048 (fun i => f.bytes (512 * 1 + i)) = m at setup below ⊢
    refine .inl ⟨if_neg Bool.false_ne_true, ⟨?_, ?_, setup, ?_⟩, sp⟩
    · exact begun.initial.congr fun x inside => below x inside.2
    · exact fun i inside fixed => (below _ (by omega)).trans (begun.boot i inside fixed)
    · intro i inside
      omega
  · dsimp only at read ⊢
    rw [read, show 512 * 4 = 2048 from rfl]
    have below (x : Nat) (low : x < 0x90200) := apart (2 * b.calls) x low left
    generalize (c.interrupted f (2 * b.calls)).fill 0x90200 2048 left = m at below ⊢
    refine .inr ⟨if_pos rfl, ⟨?_, ?_, sp⟩, es, fault⟩
    · exact begun.initial.congr fun x inside => below x inside.2
    · exact fun i inside fixed => (below _ (by omega)).trans (begun.boot i inside fixed)

theorem okLoadSetup_memory (sp : b.sp = 0xff00) : (b.okLoadSetup f).memory =
    ((b.interrupted f (2 * b.calls + 1)).storeWord sectorsAt ((0 : BitVec 8) ++ low f.parameters)).storeWord 0x9fefe
      Assembled.readItBack := by
  unfold Computer.okLoadSetup Computer.call Computer.push Computer.store
  dsimp only
  rw [sp]
  rfl

theorem SetUp.okLoadSetup (setUp : SetUp f b) (sp : b.sp = 0xff00) (fits : f.Fits) : Ready f (b.okLoadSetup f) := by
  have ordered := Assembled.ordered
  have inside := Assembled.inside
  have base : sreadAt = 0x90000 + Assembled.sread := rfl
  have base' : sectorsAt = 0x90000 + Assembled.sectors := rfl
  have memory := okLoadSetup_memory (f := f) sp
  have other (x : Nat) (low : x < 0x90a00) (apart : x < sectorsAt ∨ sectorsAt + 2 ≤ x) :
      (b.okLoadSetup f).memory x = b.memory x := by
    rw [memory, storeWord_other (by omega) (by omega), storeWord_other (by omega) (by omega)]
    exact interrupted_other (.inl low)
  have word {a : Nat} (high : a + 2 ≤ sectorsAt) : (b.okLoadSetup f).memory.word a = b.memory.word a :=
    word_congr (other _ (by omega) (by omega)) (other _ (by omega) (by omega))
  have initial : Initial (b.okLoadSetup f) :=
    ⟨(word (by omega)).trans setUp.initial.sread, (word (by unfold headAt; omega)).trans setUp.initial.head,
      (word (by unfold trackAt; omega)).trans setUp.initial.track⟩
  have sectors : (b.okLoadSetup f).sectors = (0 : BitVec 8) ++ low f.parameters := by
    unfold Computer.sectors
    rw [memory, word_storeWord_apart (by omega), word_storeWord]
  refine ⟨⟨initial, ?_⟩, rfl, by rw [sectors, parameters_sectors fits], ?_, ?_⟩
  · refine setUp.loaded.congr (by decide) fun x low apart => other x low ?_
    unfold Word at apart
    omega
  · show b.sp - 2 = _
    rw [sp]
    rfl
  · rw [memory, word_storeWord]

theorem Ready.readIt (ready : Ready f b) (fits : f.Fits) :
    b.readIt.label = .rpRead ∧ Loads f b.readIt 0 ∧ b.readIt.sp = 0xfefe := by
  have aligned : ¬ b.es &&& 0x0fff ≠ 0 := by
    rw [ready.es]
    decide
  have more := fits.setup
  have initial := ready.setUp.initial
  unfold Computer.readIt
  rw [if_neg aligned]
  have place : (b.track.toNat * 2 + b.head.toNat) * f.sectors + b.sread.toNat = 5 + 0 := by
    rw [initial.track, initial.head, initial.sread]
    show (0 * 2 + 0) * f.sectors + 5 = 5 + 0
    omega
  have head : b.head.toNat < 2 := by
    rw [initial.head]
    decide
  have sread : b.sread.toNat < f.sectors := by
    rw [initial.sread]
    exact more
  exact ⟨rfl, ⟨ready.sectors, by rw [ready.es]; rfl, rfl, place, head, sread, ready.back, ready.setUp.loaded⟩, ready.sp⟩

theorem Loads.rpRead (loads : Loads f b n) (bound : n ≤ 384) (sp : b.sp = 0xfefe) :
    n < 384 ∧ b.rpRead.label = .ok1Read ∧ Loads f b.rpRead n ∧ b.rpRead.sp = 0xfefe ∨
      n = 384 ∧ b.rpRead.label = .readItDone ∧ Whole f b.rpRead ∧ b.rpRead.sp = 0xff00 := by
  have es := loads.es
  have limit : ENDSEG.toNat = 0x4000 := rfl
  unfold Computer.rpRead
  dsimp only
  by_cases more : n < 384
  · have inside : b.es < ENDSEG := by
      rw [BitVec.lt_def]
      omega
    rw [if_pos inside]
    exact .inl ⟨more, rfl, loads.of_held (b := b) (fun _ _ => rfl) rfl rfl loads.loaded, sp⟩
  · have all : n = 384 := by omega
    have outside : ¬ b.es < ENDSEG := by
      rw [BitVec.lt_def]
      omega
    have back : Computer.top { b with ax := b.es } = Assembled.readItBack := by
      unfold Computer.top
      dsimp only
      rw [sp]
      exact loads.back
    rw [if_neg outside, ret_readIt back]
    refine .inr ⟨all, rfl, ⟨all ▸ loads.loaded, loads.sectors⟩, ?_⟩
    dsimp only
    rw [sp]
    rfl

theorem Whole.readItDone (whole : Whole f b) (sp : b.sp = 0xff00) :
    Whole f b.readItDone ∧ b.readItDone.sp = 0xfefe ∧ b.readItDone.top = Assembled.killMotorBack := by
  have memory : b.readItDone.memory = b.memory.storeWord 0x9fefe Assembled.killMotorBack := by
    unfold Computer.readItDone Computer.call Computer.push
    dsimp only
    rw [sp]
    rfl
  have sp' : b.readItDone.sp = 0xfefe := by
    show b.sp - 2 = _
    rw [sp]
    rfl
  refine ⟨whole.congr fun x low => ?_, sp', ?_⟩
  · rw [memory]
    exact storeWord_other (by omega) (by omega)
  · rw [Computer.top, sp', memory]
    exact word_storeWord ..

theorem killMotor_memory (sp : b.sp = 0xfefe) : b.killMotor.memory = b.memory.storeWord 0x9fefc b.dx := by
  unfold Computer.killMotor Computer.ret Computer.push
  dsimp only
  rw [sp]
  rfl

theorem Whole.killMotor (whole : Whole f b) (sp : b.sp = 0xfefe) (back : b.top = Assembled.killMotorBack) :
    b.killMotor.label = .rootDev ∧ Whole f b.killMotor := by
  have memory := killMotor_memory sp
  refine ⟨?_, whole.congr fun x low => ?_⟩
  · unfold Computer.killMotor
    dsimp only
    rw [ret_killMotor]
    unfold Computer.top at back ⊢
    rw [← back]
    unfold Computer.push
    dsimp only
    rw [sp]
    exact word_storeWord_apart (by decide)
  · rw [memory]
    exact storeWord_other (by omega) (by omega)

theorem Whole.rootDev (whole : Whole f b) : Loaded f b.rootDev.memory 384 ∧
    (b.rootDev.label = .rootDefined ∧ f.root = some b.rootDev.ax ∨ b.rootDev.label = .undefRoot ∧ f.root = none) := by
  have boot := whole.loaded.boot
  have word : b.memory.word rootDevAt = f.bytes 509 ++ f.bytes 508 := by
    have inside := Assembled.inside
    have fixed (i : Nat) (last : 508 ≤ i) : Fixed i := by
      have ordered := Assembled.ordered
      unfold Fixed
      omega
    unfold Memory.word
    rw [show rootDevAt + 1 = 0x90000 + 509 from rfl, show rootDevAt = 0x90000 + 508 from rfl,
      boot 509 (by decide) (fixed 509 (by decide)), boot 508 (by decide) (fixed 508 (by decide))]
  have sectors (v : BitVec 16) : b.sectors = v ↔ f.sectors = v.toNat := by
    rw [← whole.sectors]
    exact ⟨congrArg BitVec.toNat, BitVec.eq_of_toNat_eq⟩
  have fifteen : b.sectors = 15 ↔ f.sectors = 15 := sectors 15
  have eighteen : b.sectors = 18 ↔ f.sectors = 18 := sectors 18
  unfold Computer.rootDev Floppy.root resolve
  simp only [word, fifteen, eighteen]
  by_cases named : f.bytes 509 ++ f.bytes 508 ≠ (0 : BitVec 16)
  · rw [if_pos named, if_pos named]
    exact ⟨whole.loaded, .inl ⟨rfl, rfl⟩⟩
  · rw [if_neg named, if_neg named]
    by_cases five : f.sectors = 15
    · rw [if_pos five, if_pos five]
      exact ⟨whole.loaded, .inl ⟨rfl, rfl⟩⟩
    · rw [if_neg five, if_neg five]
      by_cases eight : f.sectors = 18
      · rw [if_pos eight, if_pos eight]
        exact ⟨whole.loaded, .inl ⟨rfl, rfl⟩⟩
      · rw [if_neg eight, if_neg eight]
        exact ⟨whole.loaded, .inr ⟨rfl, rfl⟩⟩

theorem Loaded.rootDefined (loaded : Loaded f b.memory 384) : Handed f b.rootDefined b.ax := by
  have place : rootDevAt = 0x901fc := rfl
  have other (x : Nat) (outside : x < 0x901fc ∨ 0x901fe ≤ x) : b.rootDefined.memory x = b.memory x :=
    storeWord_other (by omega) (by omega)
  refine ⟨word_storeWord _ _ _, ?_, ?_⟩
  all_goals
    intro i inside
    rw [other _ (by omega)]
  · exact loaded.setup i inside
  · exact loaded.system i (by omega)

theorem Pending.badRt (sp : b.sp = 0xfef4) (pending : Pending f b.restore n k) : Pending f (b.badRt f) n k := by
  have place : setupEnd = 0x90a00 := rfl
  have top : linear INITSEG b.sp = 0x9fef4 := by rw [sp]; rfl
  generalize reset : ({ b with ax := 0, dx := 0, memory := b.interrupted f (2 * b.calls + 1) } : Computer) = c
  have sp' : c.sp = 0xfef4 := by rw [← reset]; exact sp
  have es : c.es = b.es := by rw [← reset]
  have same (x : Nat) (outside : x < 0x90a00 ∨ 0x9fef4 ≤ x) : c.memory x = b.memory x := by
    rw [← reset]
    exact interrupted_other (by omega)
  have restored := restore_congr sp sp' fun x low _ => same x (.inr low)
  have kept : Pending f c.restore n k := by
    refine pending.congr (fun x inside => ?_) ?_ ?_ ?_ ?_ ?_
    · rw [show c.restore.memory = c.memory from rfl, same x (by omega)]
      rfl
    · exact es
    · rw [restored]
    · rw [restored]
    · rw [restored]
    · exact pending.asks.loads.loaded.congr (by have := pending.asks.below; omega) fun x low _ => same x (.inl low)
  unfold Computer.badRt
  rw [reset]
  exact kept.congr (b := c.restore) (fun _ _ => rfl) rfl rfl rfl rfl kept.asks.loads.loaded

theorem Bound.step (bound : Bound f b) (fits : f.Fits) : Bound f (b.step f) := by
  unfold Bound at bound
  unfold Computer.step
  cases label : b.label with
  | start =>
    rw [label] at bound
    exact start_begun bound
  | loadSetup =>
    rw [label] at bound
    rcases bound.1.loadSetup bound.2 fits with ⟨-, ⟨next, setUp⟩ | ⟨again, begun, initseg, -⟩⟩
    · unfold Bound
      rw [next]
      exact setUp
    · unfold Bound
      rw [again]
      exact ⟨begun, initseg⟩
  | okLoadSetup =>
    rw [label] at bound
    exact bound.1.okLoadSetup bound.2 fits
  | readIt =>
    rw [label] at bound
    rcases bound.readIt fits with ⟨next, loads⟩
    unfold Bound
    rw [next]
    exact ⟨0, by decide, loads⟩
  | die | lost =>
    rw [label] at bound
    exact bound.elim
  | rpRead =>
    rw [label] at bound
    rcases bound with ⟨n, limit, loads, sp⟩
    unfold Bound
    rcases loads.rpRead limit sp with ⟨more, next, same⟩ | ⟨-, next, whole⟩
    · rw [next]
      exact ⟨n, more, same⟩
    · rw [next]
      exact whole
  | ok1Read =>
    rw [label] at bound
    rcases bound with ⟨n, below, loads, sp⟩
    rcases loads.ok1Read fits below sp with ⟨next, k, pending⟩
    unfold Bound
    rw [next]
    exact ⟨n, k, pending⟩
  | readTrack =>
    rw [label] at bound
    rcases bound with ⟨n, k, pending⟩
    unfold Bound
    rcases pending.readTrack fits with ⟨-, ⟨next, fetched⟩ | ⟨next, same, -⟩⟩
    · rw [next]
      exact ⟨n, k, fetched⟩
    · rw [next]
      exact ⟨n, k, same⟩
  | badRt =>
    rw [label] at bound
    rcases bound with ⟨n, k, sp, pending⟩
    exact ⟨n, k, pending.badRt sp⟩
  | readDone =>
    rw [label] at bound
    rcases bound with ⟨n, k, fetched⟩
    rcases fetched.readDone fits with ⟨next, loads, limit⟩
    unfold Bound
    rw [next]
    exact ⟨n + k, limit, loads⟩
  | readItDone =>
    rw [label] at bound
    exact bound.1.readItDone bound.2
  | killMotor =>
    rw [label] at bound
    rcases bound.1.killMotor bound.2.1 bound.2.2 with ⟨next, whole⟩
    unfold Bound
    rw [next]
    exact whole
  | rootDev =>
    rw [label] at bound
    unfold Bound
    rcases bound.rootDev with ⟨loaded, ⟨next, root⟩ | ⟨next, root⟩⟩
    · rw [next]
      exact ⟨loaded, root⟩
    · rw [next]
      exact ⟨loaded, root⟩
  | rootDefined =>
    rw [label] at bound
    exact ⟨b.ax, bound.2, bound.1.rootDefined⟩
  | undefRoot | setup =>
    unfold Bound
    exact bound

/-- Where the boot sector loads to, and itself with its stack. -/
def Area (x : Nat) : Prop := 0x10000 ≤ x ∧ x < 0x40000 ∨ 0x90000 ≤ x ∧ x < 0x9ff00

theorem Bound.frame (bound : Bound f b) (fits : f.Fits) {x : Nat} (outside : ¬ Area x) :
    (b.step f).memory x = b.memory x := by
  have ordered := Assembled.ordered
  have inside := Assembled.inside
  have place : setupEnd = 0x90a00 := rfl
  have base : sreadAt = 0x90000 + Assembled.sread := rfl
  have base' : sectorsAt = 0x90000 + Assembled.sectors := rfl
  unfold Area at outside
  unfold Bound at bound
  unfold Computer.step
  cases label : b.label with
  | start =>
    have target : linear INITSEG 0 = 0x90000 := rfl
    dsimp only [Computer.start]
    rw [movw_apply _ _ _ _ (by decide), target, if_neg (by omega)]
  | loadSetup =>
    rw [label] at bound
    have sp : linear INITSEG b.sp = 0x9ff00 := by rw [bound.1.sp]; rfl
    dsimp only [Computer.loadSetup, Computer.int13]
    rw [setup_request bound.2, read_outside (by dsimp only; omega)]
    exact interrupted_other (by dsimp only; omega)
  | okLoadSetup =>
    rw [label] at bound
    have sp : linear INITSEG b.sp = 0x9ff00 := by rw [bound.2]; rfl
    dsimp only
    rw [okLoadSetup_memory bound.2, storeWord_other (by omega) (by omega), storeWord_other (by omega) (by omega)]
    exact interrupted_other (by omega)
  | readIt => exact congrFun b.readIt_memory x
  | rpRead =>
    dsimp only
    unfold Computer.rpRead
    dsimp only
    split <;> rfl
  | ok1Read =>
    rw [label] at bound
    rcases bound with ⟨n, -, -, sp⟩
    dsimp only
    rw [ok1Read_memory sp, storeWord_other (by omega) (by omega)]
  | readTrack =>
    rw [label] at bound
    rcases bound with ⟨n, k, pending⟩
    exact pending.readTrack_other fits (by omega) (by omega)
  | badRt =>
    rw [label] at bound
    rcases bound with ⟨n, k, sp, -⟩
    have top : linear INITSEG b.sp = 0x9fef4 := by rw [sp]; rfl
    exact interrupted_other (by omega)
  | readDone =>
    dsimp only
    unfold Computer.readDone
    dsimp only
    split <;> exact (okTrack_other b).2 x (by omega)
  | readItDone =>
    rw [label] at bound
    have sp : linear INITSEG (b.sp - 2) = 0x9fefe := by rw [bound.2]; rfl
    exact push_other (by omega) (by omega)
  | killMotor =>
    rw [label] at bound
    dsimp only
    rw [killMotor_memory bound.2.1, storeWord_other (by omega) (by omega)]
  | rootDev => exact congrFun b.rootDev_memory x
  | rootDefined =>
    have place : rootDevAt = 0x901fc := rfl
    exact storeWord_other (by omega) (by omega)
  | _ => rfl

theorem Bound.runs (bound : Bound f b) : b.label ≠ .die ∧ b.label ≠ .lost := by
  unfold Bound at bound
  constructor
  all_goals
    intro label
    rw [label] at bound
    exact bound

theorem bound_of_fresh (fits : f.Fits) (fresh : Computer.Fresh f b) (t : Nat) : Bound f ((Computer.step f)^[t] b) := by
  induction t with
  | zero =>
    show Bound f b
    unfold Bound
    rw [fresh.label]
    exact fresh
  | succ t ih =>
    rw [Function.iterate_succ_apply']
    exact ih.step fits

end Blocks

section Runs

variable (fits : f.Fits)

include fits

/-- Where the reads of the boot sector come from and go to, whether they fail or not; its calls return. -/
theorem reads_in_order (fresh : Computer.Fresh f b) (t : Nat) :
    let c := (Computer.step f)^[t] b
    (c.label ≠ .die ∧ c.label ≠ .lost) ∧ (c.label = .readTrack → ∃ n, Wanted f c.atRead.request n ∧ Loaded f c.memory n) ∧
      ∀ x, ¬ Area x → c.memory x = b.memory x := by
  have bound := bound_of_fresh fits fresh t
  refine ⟨bound.runs, ?_, ?_⟩
  · intro label
    unfold Bound at bound
    rw [label] at bound
    rcases bound with ⟨n, k, pending⟩
    exact ⟨n, pending.wanted fits, pending.asks.loads.loaded⟩
  · intro x outside
    clear bound
    induction t with
    | zero => rfl
    | succ t ih =>
      rw [Function.iterate_succ_apply']
      exact ((bound_of_fresh fits fresh t).frame fits outside).trans ih

end Runs

end Loader

section Example

/-- The words and the calls, as they come out of the instructions before them. -/
instance asAssembled : Assembled :=
  ⟨152, 317, 108, 111, 204, by decide, by decide, by decide, by decide⟩

/-- A floppy of zeroes but for `sread`, the first read of which fails. -/
def blankFloppy : Floppy where
  sectors := 18
  tracks := 80
  bytes i := if i = 152 then 5 else 0
  fault calls := if calls = 0 then some fun _ => 0xFF else none
  scratch _ _ := 0xCC

def blankComputer : Computer := ⟨.start, 0, 0, 0, 0, 0, 0, fun x => blankFloppy.bytes (x - 0x7c00), 0⟩

theorem first_read :
    let c := (Computer.step blankFloppy)^[7] blankComputer
    c.label = .readTrack ∧ (c.label ≠ .die ∧ c.label ≠ .lost) ∧
      (c.label = .readTrack → ∃ n, Wanted blankFloppy c.atRead.request n ∧ Loaded blankFloppy c.memory n) ∧
      ∀ x, ¬ Area x → c.memory x = blankComputer.memory x := by
  have fresh : Computer.Fresh blankFloppy blankComputer := by
    refine ⟨rfl, ?_, by decide, by decide, by decide⟩
    intro i _
    have source : linear BOOTSEG 0 = 0x7c00 := rfl
    unfold blankComputer
    dsimp only
    rw [source, Nat.add_sub_cancel_left]
  exact ⟨by decide +kernel, reads_in_order ⟨by decide, by decide, by decide, by decide⟩ fresh 7⟩

end Example

section Boots

variable [Assembled] (fits : f.Fits) (recovers : f.Recovers)

include fits recovers

theorem setup_comes : Leads (Computer.step f) (fun b => b.label = .loadSetup ∧ Begun f b ∧ b.es = INITSEG)
    fun b => b.label = .okLoadSetup ∧ SetUp f b ∧ b.sp = 0xff00 := by
  apply Leads.retry (fun calls => f.fault calls = none) Computer.calls recovers
  rintro b ⟨label, begun, initseg⟩
  have step : (Computer.step f)^[1] b = b.loadSetup f := by
    rw [Function.iterate_one, Computer.step, label]
  rcases begun.loadSetup initseg fits with ⟨counted, ⟨next, setUp⟩ | ⟨again, begun', initseg', fault⟩⟩
  · exact .inl ⟨1, step ▸ ⟨next, setUp⟩⟩
  · exact .inr ⟨fault, 1, step ▸ ⟨⟨again, begun', initseg'⟩, counted⟩⟩

theorem sectors_come (n : Nat) : Leads (Computer.step f) (fun b => b.label = .readTrack ∧ ∃ k, Pending f b n k)
    fun b => b.label = .readDone ∧ ∃ k, Fetched f b n k := by
  apply Leads.retry (fun calls => f.fault calls = none) Computer.calls recovers
  rintro b ⟨label, k, pending⟩
  have step : b.step f = b.readTrack f := by rw [Computer.step, label]
  rcases pending.readTrack fits with ⟨counted, ⟨next, fetched⟩ | ⟨next, ⟨sp, same⟩, fault⟩⟩
  · exact .inl ⟨1, by rw [Function.iterate_one, step]; exact ⟨next, k, fetched⟩⟩
  · -- the drive is reset before the next attempt
    have twice : (Computer.step f)^[2] b = (b.readTrack f).badRt f := by
      rw [Function.iterate_succ_apply, Function.iterate_one, step, Computer.step, next]
    exact .inr ⟨fault, 2, twice ▸ ⟨⟨rfl, k, same.badRt sp⟩, counted⟩⟩

/-- A round of `read_it` begins with so many sectors read. -/
def Round (f : Floppy) (n : Nat) (b : Computer) : Prop := b.label = .rpRead ∧ Loads f b n ∧ b.sp = 0xfefe

theorem round_ends {n : Nat} (below : n < 384) : Leads (Computer.step f) (Round f n)
    fun b => ∃ k, 0 < k ∧ n + k ≤ 384 ∧ Round f (n + k) b := by
  have asks : Leads (Computer.step f) (Round f n) fun b => b.label = .ok1Read ∧ Loads f b n ∧ b.sp = 0xfefe := by
    apply Leads.next
    rintro b ⟨label, loads, sp⟩
    rw [Computer.step, label]
    rcases loads.rpRead (by omega) sp with ⟨-, next⟩ | ⟨all, -⟩
    · exact next
    · omega
  have chooses : Leads (Computer.step f) (fun b => b.label = .ok1Read ∧ Loads f b n ∧ b.sp = 0xfefe)
      fun b => b.label = .readTrack ∧ ∃ k, Pending f b n k := by
    apply Leads.next
    rintro b ⟨label, loads, sp⟩
    rw [Computer.step, label]
    exact loads.ok1Read fits below sp
  have counts : Leads (Computer.step f) (fun b => b.label = .readDone ∧ ∃ k, Fetched f b n k)
      fun b => ∃ k, 0 < k ∧ n + k ≤ 384 ∧ Round f (n + k) b := by
    apply Leads.next
    rintro b ⟨label, k, fetched⟩
    rw [Computer.step, label]
    rcases fetched.readDone fits with ⟨next, loads, bound⟩
    exact ⟨k, fetched.asks.some, bound, next, loads⟩
  exact ((asks.trans chooses).trans (sectors_come fits recovers n)).trans counts

/-- So many sectors of the system are still to be read. -/
def Reading (f : Floppy) (n : Nat) (b : Computer) : Prop := n ≤ 384 ∧ Round f (384 - n) b

theorem system_comes (n : Nat) : Leads (Computer.step f) (Reading f n)
    fun b => b.label = .readItDone ∧ Whole f b ∧ b.sp = 0xff00 := by
  apply Leads.descend (P := Reading f)
  rintro n b ⟨bound, label, loads, sp⟩
  by_cases more : 0 < n
  · rcases round_ends fits recovers (by omega : 384 - n < 384) b ⟨label, loads, sp⟩ with ⟨t, k, some, limit, next⟩
    have rest : 384 - n + k = 384 - (n - k) := by omega
    exact ⟨t, .inr ⟨n - k, by omega, by omega, rest ▸ next⟩⟩
  · have all : 384 - n = 384 := by omega
    refine ⟨1, .inl ?_⟩
    rw [Function.iterate_one, Computer.step, label]
    rcases loads.rpRead (by omega) sp with ⟨less, -⟩ | ⟨-, next⟩
    · omega
    · exact next

/-- The boot sector hands over to setup with setup and the system in place, unless it knows no root device. -/
theorem boots (fresh : Computer.Fresh f b) : ∃ t, let c := (Computer.step f)^[t] b
    (∀ root, f.root = some root → c.label = .setup ∧ Handed f c root) ∧ (f.root = none → c.label = .undefRoot) := by
  have moves : Leads (Computer.step f) (fun b => Computer.Fresh f b)
      fun b => b.label = .loadSetup ∧ Begun f b ∧ b.es = INITSEG := by
    apply Leads.next
    intro b fresh
    rw [Computer.step, fresh.label]
    exact ⟨rfl, start_begun fresh⟩
  have asks : Leads (Computer.step f) (fun b => b.label = .okLoadSetup ∧ SetUp f b ∧ b.sp = 0xff00)
      fun b => b.label = .readIt ∧ Ready f b := by
    apply Leads.next
    rintro b ⟨label, setUp, sp⟩
    rw [Computer.step, label]
    exact ⟨rfl, setUp.okLoadSetup sp fits⟩
  have begins : Leads (Computer.step f) (fun b => b.label = .readIt ∧ Ready f b) (Reading f 384) := by
    apply Leads.next
    rintro b ⟨label, ready⟩
    rw [Computer.step, label]
    exact ⟨Nat.le_refl _, ready.readIt fits⟩
  have stops : Leads (Computer.step f) (fun b => b.label = .readItDone ∧ Whole f b ∧ b.sp = 0xff00)
      fun b => b.label = .rootDev ∧ Whole f b := by
    rintro b ⟨label, whole, sp⟩
    refine ⟨2, ?_⟩
    have step : b.step f = b.readItDone := by rw [Computer.step, label]
    have twice : (Computer.step f)^[2] b = b.readItDone.killMotor := by
      rw [Function.iterate_succ_apply, Function.iterate_one, step]
      rfl
    rcases whole.readItDone sp with ⟨kept, sp', back⟩
    rw [twice]
    exact kept.killMotor sp' back
  have ends : Leads (Computer.step f) (fun b => b.label = .rootDev ∧ Whole f b) fun c =>
      (∀ root, f.root = some root → c.label = .setup ∧ Handed f c root) ∧ (f.root = none → c.label = .undefRoot) := by
    rintro b ⟨label, whole⟩
    have step : b.step f = b.rootDev := by rw [Computer.step, label]
    rcases whole.rootDev with ⟨loaded, ⟨next, known⟩ | ⟨next, unknown⟩⟩
    · refine ⟨2, ?_⟩
      have twice : (Computer.step f)^[2] b = b.rootDev.rootDefined := by
        rw [Function.iterate_succ_apply, Function.iterate_one, step, Computer.step, next]
      rw [twice, known]
      refine ⟨?_, fun none => absurd none (by simp)⟩
      intro root same
      cases same
      exact ⟨rfl, loaded.rootDefined⟩
    · refine ⟨1, ?_⟩
      rw [Function.iterate_one, step, unknown]
      exact ⟨fun root same => absurd same (by simp), fun _ => next⟩
  have all := (((moves.trans (setup_comes fits recovers)).trans asks).trans begins).trans
    (((system_comes fits recovers 384).trans stops).trans ends)
  exact all b fresh

end Boots

end Linux011.Boot

import Linux011.Mm.Exact

namespace Linux011.Mm

open Linux011.Library

variable {L : Layout} {files : Nat → File} {k k' : Kernel} {s : Fin 64} {t : Task} {m m' : Memory}
variable {held : Nat → Nat} {b b' : Books}

/-- What a move makes of the page directory. -/
def Move.redirect (m : Memory) : Move → Fin 1024 → BitVec 32
  | newTable d t => Function.update m.pdes d (entry t)
  | dropTable d => Function.update m.pdes d 0
  | _ => m.pdes

section Directory

variable {d i : Fin 1024} {p w : Nat}

theorem copied_pdes (positive : 0 < p) (high : 1024 ≤ w) : (Move.copied m w p).pdes = m.pdes := by
  funext d
  have low := d.isLt
  have kept : (m.take p).words d = m.words d := fill_other (by omega)
  show ((((if _ then (m.take p).setMap _ _ else m.take p).set w (entry p)).copyPage _ p).words d) = m.words d
  unfold Memory.copyPage
  rw [fill_other (by omega), set_other (by omega)]
  split <;> exact kept

theorem copied_shared : (Move.copied m w p).sharedPages = m.sharedPages := by
  show ((((if _ then (m.take p).setMap _ _ else m.take p).set w (entry p)).copyPage _ p).sharedPages) = m.sharedPages
  split <;> rfl

end Directory

theorem Move.Legal.pdes {move : Move} (legal : move.Legal L b) (sound : Sound L b.memory b.held) :
    (move.apply b).memory.pdes = move.redirect b.memory := by
  have laid := sound.laid
  cases move with
  | take p => exact (take_views (Sound.positive legal.1) (sound.free legal.1 legal.2).1).1
  | drop p => exact (sound.drop_views legal.1 legal.2).1
  | fill p content => exact (fill_views (Sound.positive legal.1) legal.2.1 content).1
  | newTable d t =>
    have taken := take_views (Sound.positive legal.2.1) (sound.free legal.2.1 legal.2.2).1
    exact (set_directory _ d _).trans (by rw [taken.1]; rfl)
  | map d i p => exact laid.set_pdes legal.1 i _
  | mapLow d i e => exact laid.set_pdes legal.1 i _
  | share d i d' => exact (laid.share_views legal.1 legal.2.2.1).1
  | grant d i => exact laid.set_pdes (table_of_pte legal.1) i _
  | copy d i p => exact copied_pdes (Sound.positive legal.2.1) (laid.table_word (table_of_pte legal.1) i)
  | unmap d i =>
    funext d'
    have high := laid.table_word legal i
    have low := d'.isLt
    show (Move.unmapped b.memory (b.memory.entryAt d i)).words d' = _
    rw [unmapped_words, Function.update_of_ne (by omega)]
    rfl
  | dropTable d =>
    have kept : (b.memory.unref (frame (b.memory.words d))).pdes = b.memory.pdes := by
      unfold Memory.pdes
      rw [unref_words]
    exact (set_directory _ d 0).trans (by rw [kept]; rfl)
  | store d i j value =>
    have views := sound.data_views legal.1 legal.2.2.1 legal.2.2.2 value
    have high := laid.table_word (table_of_pte legal.1) i
    funext d'
    have low := d'.isLt
    exact (set_other (by omega)).trans (congrFun views.1 d')
  | claim k p => rfl
  | get k => rfl

/-- The moves of every call: what becomes the page of a key is not a page table. -/
def Move.lawful : Move → Books → Prop
  | claim _ p, b => b.memory.tables p = 0
  | _, _ => True

theorem Move.user_lawful {entries : Set (Fin 1024 × Fin 1024)} (move : Move) (b : Books)
    (user : move.user entries b) : move.lawful b := by
  rcases user with own | ⟨d, i, j, value, rfl, -⟩
  · cases move with
    | claim => exact own.elim
    | _ => trivial
  · trivial

section Shared

def Memory.SharedPlain (m : Memory) : Prop :=
  ∀ key, (m.sharedPages key).count ≠ 0 → m.tables (m.sharedPages key).physicalAddress = 0

variable {key : Fin 64} {p page : Nat}

theorem Given.live (given : Given m p m') (live : (m'.sharedPages key).count ≠ 0) :
    (m.sharedPages key).count ≠ 0 ∧
      (m'.sharedPages key).physicalAddress = (m.sharedPages key).physicalAddress := by
  cases given with
  | own => exact ⟨live, rfl⟩
  | shared k here before | last k here before => exact less_live live before

theorem unref_live (live : ((m.unref p).sharedPages key).count ≠ 0) : (m.sharedPages key).count ≠ 0 ∧
    ((m.unref p).sharedPages key).physicalAddress = (m.sharedPages key).physicalAddress := by
  unfold Memory.unref at live ⊢
  split at live
  · rename_i low
    rw [if_pos low]
    exact ⟨live, rfl⟩
  · rename_i above
    rw [if_neg above]
    exact (freed_given m p).live live

/-- A key gets its page by a claim, and keeps it as long as its count is not 0. -/
theorem Move.live (move : Move) (legal : move.Legal L b)
    (live : ((move.apply b).memory.sharedPages key).count ≠ 0) :
    (b.memory.sharedPages key).count ≠ 0 ∧ ((move.apply b).memory.sharedPages key).physicalAddress =
        (b.memory.sharedPages key).physicalAddress ∨
      ∃ p, move = claim key p ∧ ((move.apply b).memory.sharedPages key).physicalAddress = p := by
  cases move with
  | drop p => exact .inl ((freed_given _ _).live live)
  | copy d i p =>
    have same : ((copy d i p).apply b).memory.sharedPages = b.memory.sharedPages := copied_shared
    rw [same] at live ⊢
    exact .inl ⟨live, rfl⟩
  | unmap d i =>
    have same : ((unmap d i).apply b).memory.sharedPages =
        (if present (b.memory.words (b.memory.entryAt d i)) then
          b.memory.unref (frame (b.memory.words (b.memory.entryAt d i))) else b.memory).sharedPages := rfl
    rw [same] at live ⊢
    split at live
    · rename_i mapped
      rw [if_pos mapped]
      exact .inl (unref_live live)
    · rename_i absent
      rw [if_neg absent]
      exact .inl ⟨live, rfl⟩
  | dropTable d => exact .inl (unref_live live)
  | claim k p =>
    by_cases same : key = k
    · subst same
      have now : ((claim key p).apply b).memory.sharedPages key = ⟨1, p⟩ := setShared_same
      exact .inr ⟨p, rfl, by rw [now]⟩
    · have kept : ((claim k p).apply b).memory.sharedPages key = b.memory.sharedPages key := setShared_other same
      rw [kept] at live ⊢
      exact .inl ⟨live, rfl⟩
  | get k =>
    by_cases same : key = k
    · subst same
      have now : ((get key).apply b).memory.sharedPages key = (b.memory.sharedPages key).more := setShared_same
      exact .inl ⟨legal.1, by rw [now]; rfl⟩
    · have kept : ((get k).apply b).memory.sharedPages key = b.memory.sharedPages key := setShared_other same
      rw [kept] at live ⊢
      exact .inl ⟨live, rfl⟩
  | _ => exact .inl ⟨live, rfl⟩

theorem Move.Legal.tables_le {move : Move} (legal : move.Legal L b) (sound : Sound L b.memory b.held)
    (inUse : b.memory.memMap (mapNr page) ≠ 0) : (move.apply b).memory.tables page ≤ b.memory.tables page := by
  have pdes := legal.pdes sound
  cases move with
  | newTable d t =>
    have other : t ≠ page := fun same => inUse (same ▸ legal.2.2)
    have moved := tables_update page pdes
    rw [pointsTo_absent legal.1, pointsTo_entry legal.2.1.physical.2, if_neg other] at moved
    omega
  | dropTable d =>
    have moved := tables_update page pdes
    rw [pointsTo_zero] at moved
    omega
  | _ => exact (tables_eq pdes).le

theorem Walk.sharedPlain (walk : Walk L Move.lawful b b') (sound : Sound L b.memory b.held)
    (plain : b.memory.SharedPlain) : b'.memory.SharedPlain := by
  apply walk.invariant_sound (I := fun b => b.memory.SharedPlain) sound plain
  intro move b lawful legal sound plain key live
  rcases move.live legal live with ⟨before, page⟩ | ⟨p, rfl, page⟩
  · have less := legal.tables_le sound (sound.sharedPage key before).2
    have none := plain key before
    rw [page]
    omega
  · rw [page]
    exact lawful

end Shared

/-- A reference to a page that `shmget` has counted, and that no attachment has used up. -/
def Kernel.Unattached (k : Kernel) (page : Nat) : Prop :=
  k.memory.tables page + k.memory.mappings page + k.taskPages page < k.memory.booked page

/-- Every attachment uses up a reference of its own, and no count overflows. -/
def Call.InOrder (call : Call) (k : Kernel) (s : Fin 64) : Prop :=
  call.Roomy k s ∧
  match call with
  | shmget key _ => ∀ i, Memory.keyOf key = some i → (k.memory.sharedPages i).count ≠ BitVec.allOnes 32
  | shmat shmid => ∀ i, Memory.keyOf shmid = some i → (k.memory.sharedPages i).count ≠ 0 →
      k.Unattached (k.memory.sharedPages i).physicalAddress
  | _ => True

/-- What a call in order comes to: the books cover the task structures. -/
structure Accounted (L : Layout) (held : Nat → Nat) (k k' : Kernel) : Prop where
  tasks : Tasks L k'
  walk : ∃ held', Walk L Move.lawful ⟨k.memory, held⟩ ⟨k'.memory, held'⟩ ∧ ∀ page, k'.taskPages page ≤ held' page

theorem Served.accounted (served : Served L held k k') (cover : ∀ page, k.taskPages page ≤ held page) :
    Accounted L held k k' where
  tasks := served.tasks
  walk := by
    obtain ⟨held', walk, even⟩ := served.walk
    refine ⟨held', walk.mono Move.user_lawful, ?_⟩
    intro page
    have same := even page
    have more := cover page
    omega

theorem Accounted.idle (tasks : Tasks L k) (cover : ∀ page, k.taskPages page ≤ held page) : Accounted L held k k :=
  ⟨tasks, held, .none, cover⟩

theorem held_grown (held : Nat → Nat) (p page : Nat) : held page ≤ Function.update held p (held p + 1) page := by
  by_cases same : page = p
  · rw [same, Function.update_self]
    exact Nat.le_succ _
  · rw [Function.update_of_ne same]

section Keys

variable {key size shmid : BitVec 32} {address : Nat}

/-- What `shmget` comes to: nothing, one more get of the page of its key, or a new page for it. -/
inductive Got (L : Layout) (m : Memory) (key : BitVec 32) : Memory × Int → Prop
  | refused (value : Int) (negative : value < 0) : Got L m key (m, value)
  | again (i : Fin 64) (is : Memory.keyOf key = some i) (live : (m.sharedPages i).count ≠ 0) :
    Got L m key (m.setShared i (m.sharedPages i).more, i)
  | first (i : Fin 64) (p : Nat) (is : Memory.keyOf key = some i) (dead : (m.sharedPages i).count = 0)
    (managed : L.Managed p) (free : m.memMap (mapNr p) = 0) : Got L m key ((m.take p).setShared i ⟨1, p⟩, i)

theorem Sound.sysShmget (sound : Sound L m held) (key size : BitVec 32) : Got L m key (m.sysShmget key size) := by
  unfold Memory.sysShmget
  split
  · exact .refused _ (by decide)
  · split
    · exact .refused _ (by decide)
    · rename_i i is
      split
      · rename_i live
        exact .again i is live.2
      · rename_i unused
        have dead : (m.sharedPages i).count = 0 := by
          by_contra live
          have above := (sound.sharedPage i live).1.physical.1
          apply unused
          simp only [lowMem] at above
          exact ⟨by omega, live⟩
        split
        · exact .refused _ (by decide)
        · rename_i p m₁ got
          obtain ⟨rfl, managed, free⟩ := sound.getFreePage got
          have zero : ((m.take p).sharedPages i).count = 0 := dead
          rw [zero]
          exact .first i p is dead managed free

theorem sysShmat_live (attached : m.sysShmat shmid address = some m') :
    ∃ i, Memory.keyOf shmid = some i ∧ (m.sharedPages i).count ≠ 0 ∧
      m.putPage (m.sharedPages i).physicalAddress address = some m' := by
  unfold Memory.sysShmat at attached
  split at attached
  · cases attached
  · rename_i i is
    split at attached
    · cases attached
    · rename_i live
      exact ⟨i, is, fun zero => live (.inl zero), attached⟩

end Keys

section Calls

variable (sound : Sound L k.memory held) (tasks : Tasks L k) (cover : ∀ page, k.taskPages page ≤ held page)

include sound tasks cover

theorem Sound.serve_shmget (key size : BitVec 32) (room : (Call.shmget key size).InOrder k s) :
    Accounted L held k (k.sysShmget key size).1 := by
  have same : (k.sysShmget key size).1 = ⟨(k.memory.sysShmget key size).1, k.task⟩ := rfl
  have got := sound.sysShmget key size
  rw [same]
  generalize k.memory.sysShmget key size = r at got
  cases got with
  | refused => exact .idle tasks cover
  | again i is live =>
    exact ⟨tasks.same rfl, _, .one (.get i) trivial ⟨live, room.2 i is⟩,
      fun page => (cover page).trans (held_grown held _ page)⟩
  | first i p is dead managed free =>
    obtain ⟨untabled, -, -, -⟩ := sound.free managed free
    have views := take_views (Sound.positive managed) untabled
    have taken : (k.memory.take p).memMap (mapNr p) = 1 := setMap_same
    have take : Walk L Move.lawful ⟨k.memory, held⟩ ⟨k.memory.take p, Function.update held p (held p + 1)⟩ :=
      .one (.take p) trivial ⟨managed, free⟩
    have claim := take.next (.claim i p) ((tables_eq views.1).trans untabled)
      ⟨dead, managed, by rw [taken]; decide, fun j live same => (sound.sharedPage j live).2 (same ▸ free)⟩
    exact ⟨tasks.same rfl, _, claim, fun page => (cover page).trans (held_grown held p page)⟩

theorem Sound.serve_shmat (plain : k.memory.SharedPlain) (here : k.task s = some t) (shmid : BitVec 32)
    (owed : (Call.shmat shmid).InOrder k s) : Accounted L held k (k.sysShmat s t shmid).1 := by
  have idle : Accounted L held k k := .idle tasks cover
  have linear := (BitVec.ofNat 32 (Memory.base s) + t.brk).isLt
  unfold Kernel.sysShmat
  generalize (BitVec.ofNat 32 (Memory.base s) + t.brk).toNat = address at linear
  split
  · exact idle
  · rename_i m attached
    obtain ⟨i, is, live, put⟩ := sysShmat_live attached
    have unattached := owed.2 i is live
    have managed := (sound.sharedPage i live).1
    have untabled := plain i live
    generalize (k.memory.sharedPages i).physicalAddress = p at put unattached managed untabled
    have balanced := sound.balanced p managed
    unfold Kernel.Unattached at unattached
    obtain ⟨d, dir⟩ : ∃ d : Fin 1024, address / 0x400000 = d := ⟨⟨_, by omega⟩, rfl⟩
    obtain ⟨j, index⟩ : ∃ j : Fin 1024, Memory.pageIndex address = j := ⟨⟨_, Nat.mod_lt _ (by decide)⟩, rfl⟩
    obtain ⟨table, m₁, tabled, legal, -, rfl⟩ := sound.putPage dir index managed untabled (by omega) put
    have walk := (Walk.as_user tabled.walk).mono Move.user_lawful
    have moved := walk.next (.map d j p) trivial legal
    have limits := tasks.fits s t here
    have fits : Task.Fits { t with brk := t.brk + 4096 } := ⟨limits.1, limits.2⟩
    refine ⟨tasks.change (u := { t with brk := t.brk + 4096 }) here rfl rfl fits, _, moved, ?_⟩
    intro page
    have before := cover page
    rw [taskPages_change (u := { t with brk := t.brk + 4096 }) here rfl rfl page]
    by_cases mine : page = p
    · have once := pointsTo_le page (entry p)
      subst mine
      omega
    · have none : pointsTo page (entry p) = 0 := by
        rw [pointsTo_entry managed.physical.2, if_neg fun same => mine same.symm]
      omega

end Calls

/-- What holds in every run in order. -/
structure Kept (L : Layout) (k : Kernel) : Prop where
  tasks : Tasks L k
  plain : k.memory.SharedPlain
  books : ∃ held, Sound L k.memory held ∧ ∀ page, k.taskPages page ≤ held page

theorem Accounted.kept (accounted : Accounted L held k k') (sound : Sound L k.memory held)
    (plain : k.memory.SharedPlain) : Kept L k' := by
  obtain ⟨held', walk, cover⟩ := accounted.walk
  exact ⟨accounted.tasks, walk.sharedPlain sound plain, held', walk.sound sound, cover⟩

theorem Call.account {call : Call} (sound : Sound L k.memory held) (tasks : Tasks L k)
    (cover : ∀ page, k.taskPages page ≤ held page) (plain : k.memory.SharedPlain) (here : k.task s = some t)
    (ready : call.Ready k s t) (order : call.InOrder k s) :
    Ends (fun r => Accounted L held k r.1) Harmless (call.perform files k s t) := by
  by_cases shm : call.Plain
  · exact (call.serve sound tasks cover here ready shm order.1).mono (fun r served => served.accounted cover)
      fun _ harmless => harmless
  · cases call with
    | shmget key size => exact .pure (sound.serve_shmget tasks cover key size order)
    | shmat shmid => exact .pure (sound.serve_shmat tasks cover plain here shmid order)
    | _ => exact absurd trivial shm

/-- The kernel in runs whose attachments and counts are in order. -/
def bookkept (files : Nat → File) (L : Layout) : Machine Kernel Event :=
  (kernel files L).restrict fun k e => e.call.InOrder k e.caller

theorem Kept.step {e : Event} (kept : Kept L k) (step : (bookkept files L).step k e k') : Kept L k' := by
  obtain ⟨order, t, here, ready, performed⟩ := step
  obtain ⟨held, sound, cover⟩ := kept.books
  have account : Ends (fun r => Accounted L held k r.1) Harmless (e.call.perform files k e.caller t) :=
    e.call.account sound kept.tasks cover kept.plain here ready order
  exact (account.ok _ performed).kept sound kept.plain

theorem Booted.kept (booted : Booted L k) : Kept L k where
  tasks := booted.exact.tasks
  plain := fun key live => absurd (booted.quiet key) live
  books := ⟨k.taskPages, booted.sound, fun _ => Nat.le_refl _⟩

theorem kept_of_reaches (reached : (bookkept files L).Reaches k) : Kept L k := by
  apply reached.invariant
  · exact fun k (booted : Booted L k) => booted.kept
  · exact fun k e k' kept step => kept.step step

/-- In runs in order no page that is mapped is free, and `free_page` finds no page it should free to be
    free already. -/
theorem mapped_pages_in_use (reached : (bookkept files L).Reaches k) :
    (∀ d i : Fin 1024, present (k.memory.pte d i) = true → lowMem ≤ frame (k.memory.pte d i) →
      k.memory.memMap (mapNr (frame (k.memory.pte d i))) ≠ 0) ∧
    ∀ (s : Fin 64) (t : Task) (call : Call), k.task s = some t → call.Ready k s t → call.InOrder k s →
      call.perform files k s t ≠ .error .freePage := by
  obtain ⟨tasks, plain, held, sound, cover⟩ := kept_of_reaches reached
  constructor
  · intro d i mapped above
    have use := mappings_pos d i mapped
    exact sound.mapped_used (sound.mapped_managed mapped above) (by omega)
  · intro s t call here ready order failed
    exact ((call.account sound tasks cover plain here ready order).error _ failed).1 rfl

section Example

/-- Memory with the entries of a page table cleared below a bound. -/
def Memory.swept (m : Memory) (table n : Nat) : Memory :=
  { m with words := fun w => if tableWord table 0 ≤ w ∧ w < tableWord table n then 0 else m.words w }

variable {table j p p' : Nat}

theorem swept_set (n : Nat) : (m.swept table n).set (tableWord table n) 0 = m.swept table (n + 1) := by
  have words : Function.update (m.swept table n).words (tableWord table n) 0 = (m.swept table (n + 1)).words := by
    funext w
    unfold tableWord Memory.swept
    by_cases here : w = table * 1024 + n
    · subst here
      simp [tableWord]
    · rw [Function.update_of_ne here]
      simp only [tableWord]
      exact if_congr (by omega) rfl rfl
  unfold Memory.set
  rw [words]
  rfl

theorem freed_swept (n : Nat) : (m.swept table n).freed p = (m.freed p).swept table n := by
  have release : (m.swept table n).releaseSharedPageIfExists p =
      ((m.releaseSharedPageIfExists p).1, (m.releaseSharedPageIfExists p).2.swept table n) := by
    unfold Memory.releaseSharedPageIfExists
    rw [show (m.swept table n).sharedPages = m.sharedPages from rfl]
    generalize (List.finRange 64).find? (fun i => (m.sharedPages i).physicalAddress = p ∧ (m.sharedPages i).count ≠ 0) = found
    cases found <;> rfl
  unfold Memory.freed
  rw [release]
  dsimp only
  split <;> rfl

theorem freePage_swept (above : lowMem ≤ p) (below : p < m.highMemory) (inUse : m.memMap (mapNr p) ≠ 0) (n : Nat) :
    (m.swept table n).freePage p = .ok ((m.freed p).swept table n) := by
  have inUse' : (m.swept table n).memMap (mapNr p) ≠ 0 := inUse
  have below' : ¬ (m.swept table n).highMemory ≤ p := Nat.not_le.mpr below
  unfold Memory.freePage
  rw [if_neg (Nat.not_lt.mpr above), if_neg below', if_pos inUse', freed_swept]

theorem freeEntry_low {w : Nat} (low : present (m.words w) = true → frame (m.words w) < lowMem) :
    m.freeEntry w = .ok (m.set w 0) := by
  unfold Memory.freeEntry
  split
  · rename_i here
    rw [Memory.freePage, if_pos (low here)]
    rfl
  · rfl

theorem sweep (below : p < m.highMemory) (inUse : m.memMap (mapNr p) ≠ 0) (above : lowMem ≤ p)
    (there : present (m.words (tableWord table j)) = true) (mapped : frame (m.words (tableWord table j)) = p)
    (low : ∀ i < 1024, i ≠ j → present (m.words (tableWord table i)) = true →
      frame (m.words (tableWord table i)) < lowMem) {n : Nat} (size : n ≤ 1024) :
    upTo (fun m nr => m.freeEntry (tableWord table nr)) n m =
      .ok ((if j < n then m.freed p else m).swept table n) := by
  have kept (n : Nat) (x : Memory) (same : x.words = m.words) :
      (x.swept table n).words (tableWord table n) = m.words (tableWord table n) := by
    have outside : ¬ (tableWord table 0 ≤ tableWord table n ∧ tableWord table n < tableWord table n) := by omega
    exact (if_neg outside).trans (congrFun same _)
  induction n with
  | zero =>
    have none : (m.swept table 0).words = m.words := by
      funext w
      exact if_neg (by omega)
    have same : m.swept table 0 = m := congrArg (fun words => { m with words := words }) none
    rw [if_neg (Nat.not_lt_zero j), same]
    rfl
  | succ n ih =>
    rw [upTo, ih (by omega)]
    dsimp only
    by_cases here : n = j
    · subst here
      rw [if_neg (Nat.lt_irrefl n), if_pos (Nat.lt_succ_self n)]
      have word := kept n m rfl
      rw [Memory.freeEntry, if_pos (word ▸ there), word, mapped, freePage_swept above below inUse]
      exact congrArg Except.ok (swept_set n)
    · have after : (j < n) ↔ j < n + 1 := by omega
      have word := kept n (if j < n then m.freed p else m) (by split; exact (freed_given m p).words; rfl)
      rw [freeEntry_low (by rw [word]; exact low n (by omega) here), swept_set]
      simp only [after]

theorem freeTable_one {dir : Nat} (table : present (m.words dir) = true) (frames : frame (m.words dir) = p')
    (outside : dir < 1024) (high : lowMem ≤ p') (inside : p' < m.highMemory) (used : (m.freed p).memMap (mapNr p') ≠ 0)
    (below : p < m.highMemory) (inUse : m.memMap (mapNr p) ≠ 0) (above : lowMem ≤ p)
    (there : present (m.words (tableWord p' j)) = true) (mapped : frame (m.words (tableWord p' j)) = p) (index : j < 1024)
    (low : ∀ i < 1024, i ≠ j → present (m.words (tableWord p' i)) = true →
      frame (m.words (tableWord p' i)) < lowMem) :
    m.freeTable dir = .ok ((((m.freed p).freed p').swept p' 1024).set dir 0) := by
  have word : ((m.freed p).swept p' 1024).words dir = m.words dir := by
    have apart : ¬ (tableWord p' 0 ≤ dir ∧ dir < tableWord p' 1024) := by
      unfold tableWord lowMem at *
      omega
    exact (if_neg apart).trans (congrFun (freed_given m p).words dir)
  have still : p' < (m.freed p).highMemory := (freed_given m p).high ▸ inside
  unfold Memory.freeTable
  rw [if_pos table, frames]
  dsimp only
  rw [sweep below inUse above there mapped low (Nat.le_refl _), if_pos index]
  simp only [bind, Except.bind]
  rw [word, frames, freePage_swept high still used]
  rfl

theorem sweep_low {table : Nat} (low : ∀ i < 1024, present (m.words (tableWord table i)) = true →
    frame (m.words (tableWord table i)) < lowMem) {n : Nat} (size : n ≤ 1024) :
    upTo (fun m nr => m.freeEntry (tableWord table nr)) n m = .ok (m.swept table n) := by
  induction n with
  | zero =>
    have none : (m.swept table 0).words = m.words := by
      funext w
      exact if_neg (by omega)
    have same : m.swept table 0 = m := congrArg (fun words => { m with words := words }) none
    rw [same]
    rfl
  | succ n ih =>
    have word : (m.swept table n).words (tableWord table n) = m.words (tableWord table n) := if_neg (by omega)
    rw [upTo, ih (by omega)]
    dsimp only
    rw [freeEntry_low (by rw [word]; exact low n (by omega)), swept_set]

theorem freeTable_low {dir table : Nat} (here : present (m.words dir) = true) (frames : frame (m.words dir) = table)
    (outside : dir < 1024) (high : lowMem ≤ table) (inside : table < m.highMemory) (used : m.memMap (mapNr table) ≠ 0)
    (low : ∀ i < 1024, present (m.words (tableWord table i)) = true → frame (m.words (tableWord table i)) < lowMem) :
    m.freeTable dir = .ok (((m.freed table).swept table 1024).set dir 0) := by
  have word : (m.swept table 1024).words dir = m.words dir := by
    apply if_neg
    unfold tableWord lowMem at *
    omega
  unfold Memory.freeTable
  rw [if_pos here, frames]
  dsimp only
  rw [sweep_low low (Nat.le_refl _)]
  simp only [bind, Except.bind]
  rw [word, frames, freePage_swept high inside used]
  rfl

theorem freePageTables_one {s : Fin 64} {size : Nat} (other : s ≠ 0) (one : Memory.dirs size = 1)
    (round : m.freeTable (16 * s) = .ok m') : m.freePageTables (Memory.base s) size = .ok m' := by
  have positive : 0 < s.val := Nat.pos_of_ne_zero fun same => other (Fin.ext same)
  have nonzero : Memory.base s ≠ 0 := by
    unfold Memory.base
    omega
  unfold Memory.freePageTables
  rw [if_neg (by rw [base_aligned]; decide), if_neg nonzero, base_dir, one, upTo, upTo]
  exact round

theorem freeSegments_one {s : Fin 64} {code data : Nat} (other : s ≠ 0) (one : Memory.dirs code = 1)
    (one' : Memory.dirs data = 1) (round : m.freeTable (16 * s) = .ok m') (gone : present (m'.words (16 * s)) = false) :
    m.freePageTables (Memory.base s) code = .ok m' ∧ m'.freePageTables (Memory.base s) data = .ok m' := by
  have again : m'.freeTable (16 * s) = .ok m' := by
    unfold Memory.freeTable
    rw [gone]
    rfl
  exact ⟨freePageTables_one other one round, freePageTables_one other one' again⟩

theorem doExit_one (other : s ≠ 0) (one : Memory.dirs t.codeLimit = 1) (one' : Memory.dirs t.dataLimit = 1)
    (round : k.memory.freeTable (16 * s) = .ok m') (gone : present (m'.words (16 * s)) = false) :
    k.doExit s t = .ok ⟨m', Function.update k.task s (some { t with zombie := true, executable := none })⟩ := by
  obtain ⟨first, second⟩ := freeSegments_one other one one' round gone
  unfold Kernel.doExit
  rewrite [first, ok_bind, second, ok_bind]
  rfl

theorem doExecve_one (other : s ≠ 0) (one : Memory.dirs t.codeLimit = 1) (one' : Memory.dirs t.dataLimit = 1)
    (round : k.memory.freeTable (16 * s) = .ok m') (gone : present (m'.words (16 * s)) = false) {inode : Nat}
    {brk : BitVec 32} {code data : Nat} : k.doExecve files s t inode brk code data =
      .ok ⟨m', Function.update k.task s (some (Kernel.image files t inode brk code data))⟩ := by
  obtain ⟨first, second⟩ := freeSegments_one other one one' round gone
  unfold Kernel.doExecve
  rewrite [first, ok_bind, second, ok_bind]
  rfl

/-- One page of the kernel mapped, through one page table. -/
def smallWords (w : Nat) : BitVec 32 := if w = 0 then entry 1 else if w = 1024 then entry 2 else 0

def smallTask : Task := ⟨1, false, none, 0, 0x1000, 0x1000, 0x1000⟩

def smallKernel : Kernel where
  memory := { (⟨smallWords, fun _ => 0, 0, fun _ => ⟨0, 0⟩⟩ : Memory).memInit 1024 4096 with
    sharedPages := fun _ => ⟨0, 0⟩ }
  task := Function.update (fun _ => none) 0 (some smallTask)

theorem small_present {d : Nat} (dir : d < 1024) (here : present (smallWords d) = true) : d = 0 := by
  by_contra other
  rw [smallWords, if_neg other, if_neg (by omega), present_zero] at here
  cases here

theorem smallKernel_booted : Booted sixteenMegabytes smallKernel where
  memory := ⟨_, rfl⟩
  others := by
    intro d dir high
    by_contra here
    have first := small_present dir (Bool.eq_true_of_not_eq_false here)
    omega
  tables := by
    intro d dir here
    have first := small_present (by omega) here
    subst first
    decide
  apart := by
    intro d dir d' dir' here here' _
    rw [small_present (by omega) here, small_present (by omega) here']
  low := by
    intro d dir i index here
    have first := small_present (by omega) (table_of_pte here)
    subst first
    have table : smallKernel.memory.pte 0 i = smallWords (1024 + i) := by
      rw [pte_of_table (table_of_pte here), Memory.entryAt, show frame (smallKernel.memory.words 0) = 1 by decide]
      unfold tableWord
      rfl
    rw [table, smallWords, if_neg (by omega)] at here ⊢
    split at here
    · rename_i first
      rw [if_pos first]
      decide
    · cases here
  first := ⟨smallTask, rfl, rfl, by decide, rfl, by decide, by decide⟩
  alone := by
    intro s other
    exact Function.update_of_ne other (some smallTask) fun _ => none

def noFiles (_ : Nat) : File := ⟨fun _ _ => 0, 0⟩

theorem Booted.unattached (booted : Booted L k) {p : Nat} (got : k.memory.getFreePage = some (p, m)) (key : Fin 64)
    (count : BitVec 32) : Kernel.Unattached ⟨m.setShared key ⟨count, p⟩, k.task⟩ p := by
  obtain ⟨rfl, managed, free⟩ := booted.sound.getFreePage got
  obtain ⟨untabled, unmapped, -, -⟩ := booted.sound.free managed free
  have views := take_views (Sound.positive managed) untabled
  have tables : ((k.memory.take p).setShared key ⟨count, p⟩).tables p = 0 := (tables_eq views.1).trans untabled
  have mappings : ((k.memory.take p).setShared key ⟨count, p⟩).mappings p = 0 := (mappings_eq views.2).trans unmapped
  have tasks : Kernel.taskPages ⟨(k.memory.take p).setShared key ⟨count, p⟩, k.task⟩ p = 0 := booted.taskPages_high managed
  have taken : ((k.memory.take p).setShared key ⟨count, p⟩).memMap (mapNr p) = 1 := setMap_same
  unfold Kernel.Unattached Memory.booked
  dsimp only
  rw [tables, mappings, tasks, taken]
  exact Nat.lt_of_lt_of_le Nat.one_pos (Nat.le_add_right _ _)

def gotKernel : Kernel := (smallKernel.sysShmget 0 4096).1

def attachedKernel : Kernel := (gotKernel.sysShmat 0 smallTask 0).1

theorem attachedKernel_reached : (bookkept noFiles sixteenMegabytes).Reaches attachedKernel := by
  have free : Memory.scan smallKernel.memory.memMap pagingPages = some 3839 := by decide +kernel
  have got : smallKernel.memory.getFreePage = some (4095, smallKernel.memory.take 4095) := by
    unfold Memory.getFreePage
    rw [free]
    rfl
  have same : gotKernel = ⟨(smallKernel.memory.take 4095).setShared 0 ⟨1, 4095⟩, smallKernel.task⟩ := by
    unfold gotKernel Kernel.sysShmget Memory.sysShmget
    rw [got]
    rfl
  have get : (bookkept noFiles sixteenMegabytes).step smallKernel
      ⟨0, .shmget 0 4096, (smallKernel.sysShmget 0 4096).2⟩ gotKernel := by
    refine ⟨⟨trivial, ?_⟩, smallTask, rfl, ⟨rfl, trivial⟩, rfl⟩
    intro i _
    exact fun full => absurd ((smallKernel_booted.quiet i).symm.trans full) (by decide)
  have attach : (bookkept noFiles sixteenMegabytes).step gotKernel
      ⟨0, .shmat 0, (gotKernel.sysShmat 0 smallTask 0).2⟩ attachedKernel := by
    refine ⟨⟨trivial, ?_⟩, smallTask, by rw [same]; rfl, ⟨rfl, trivial⟩, rfl⟩
    intro i key _
    have first : i = 0 := (Option.some.inj key).symm
    have page : (gotKernel.memory.sharedPages 0).physicalAddress = 4095 := by rw [same]; rfl
    rw [first, page, same]
    exact smallKernel_booted.unattached got 0 1
  exact ⟨smallKernel, _, smallKernel_booted, (Machine.Run.one get).snoc attach⟩

/-- The page process 0 has got and attached is in use. -/
theorem attached_in_use : present (attachedKernel.memory.pte 0 1) = true ∧ frame (attachedKernel.memory.pte 0 1) = 4095 ∧
    (∀ d i : Fin 1024, present (attachedKernel.memory.pte d i) = true → lowMem ≤ frame (attachedKernel.memory.pte d i) →
      attachedKernel.memory.memMap (mapNr (frame (attachedKernel.memory.pte d i))) ≠ 0) ∧
    ∀ (s : Fin 64) (t : Task) (call : Call), attachedKernel.task s = some t → call.Ready attachedKernel s t →
      call.InOrder attachedKernel s → call.perform noFiles attachedKernel s t ≠ .error .freePage := by
  refine ⟨by decide +kernel, by decide +kernel, ?_⟩
  exact mapped_pages_in_use attachedKernel_reached

/-- A child is forked, its parent gets and attaches a page, and the child attaches it without a get of its own. -/
def borrowed : List Event :=
  [⟨0, .fork, .returned 1⟩, ⟨0, .shmget 0 4096, .returned 0⟩, ⟨0, .shmat 0, .returned 0x1000⟩,
    ⟨1, .shmat 0, .returned 0x1000⟩]

def borrowedKernel : Kernel := (borrowed.foldlM (Kernel.next noFiles) smallKernel).getD smallKernel

theorem borrowed_run : (kernel noFiles sixteenMegabytes).Run smallKernel borrowed borrowedKernel := by
  have ran : (borrowed.foldlM (Kernel.next noFiles) smallKernel).isSome = true := by decide +kernel
  obtain ⟨k, ends⟩ := Option.isSome_iff_exists.mp ran
  have same : borrowedKernel = k := by rw [borrowedKernel, ends]; rfl
  rw [same]
  exact Machine.run_of_foldlM (fun _ _ _ => Kernel.next_step) ends

/-- What the exit of the child leaves of the memory. -/
def Memory.returned (m : Memory) : Memory := (((m.freed 4093).freed 4094).swept 4094 1024).set 16 0

theorem borrowed_freed : borrowedKernel.memory.freeTable 16 = .ok borrowedKernel.memory.returned := by
  apply freeTable_one (j := 1)
  case low =>
    have all : ∀ i : Fin 1024, i.val ≠ 1 → present (borrowedKernel.memory.words (tableWord 4094 i)) = true →
        frame (borrowedKernel.memory.words (tableWord 4094 i)) < lowMem := by decide +kernel
    exact fun i index => all ⟨i, index⟩
  all_goals decide +kernel

/-- The child exits, and its parent's page is free. -/
theorem freed_while_mapped : ∃ k, (kernel noFiles sixteenMegabytes).Reaches k ∧ present (k.memory.pte 0 1) = true ∧
    k.memory.memMap (mapNr (frame (k.memory.pte 0 1))) = 0 := by
  have child : ((borrowedKernel.task 1).any fun u => !u.zombie && u.codeLimit = 0x1000 && u.dataLimit = 0x1000) = true := by
    decide +kernel
  obtain ⟨u, here, limits⟩ := (Option.any_eq_true _ _).mp child
  simp only [Bool.and_eq_true, Bool.not_eq_true', decide_eq_true_eq] at limits
  obtain ⟨⟨alive, code⟩, data⟩ := limits
  have gone : present (borrowedKernel.memory.returned.words 16) = false := by decide +kernel
  have exited : borrowedKernel.doExit 1 u = .ok ⟨borrowedKernel.memory.returned,
      Function.update borrowedKernel.task 1 (some { u with zombie := true, executable := none })⟩ :=
    doExit_one (by decide) (by rw [code]; rfl) (by rw [data]; rfl) borrowed_freed gone
  have last : (kernel noFiles sixteenMegabytes).step borrowedKernel ⟨1, .exit, .done⟩ ⟨borrowedKernel.memory.returned,
      Function.update borrowedKernel.task 1 (some { u with zombie := true, executable := none })⟩ := by
    refine ⟨u, here, ⟨alive, trivial⟩, ?_⟩
    unfold Call.perform
    dsimp only
    rw [exited]
    rfl
  refine ⟨_, ⟨smallKernel, _, smallKernel_booted, borrowed_run.snoc last⟩, ?_, ?_⟩
  · have mapped : present (borrowedKernel.memory.returned.pte 0 1) = true := by decide +kernel
    exact mapped
  · have free : borrowedKernel.memory.returned.memMap
        (mapNr (frame (borrowedKernel.memory.returned.pte 0 1))) = 0 := by decide +kernel
    exact free

end Example

end Linux011.Mm

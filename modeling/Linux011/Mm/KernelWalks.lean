import Linux011.Mm.CopyWalks
import Linux011.Mm.Kernel

namespace Linux011.Mm

open Linux011.Library

variable {L : Layout} {m m' : Memory} {held : Nat → Nat} {k : Kernel} {s nr : Fin 64} {t : Task}

def structAt (page : Nat) : Option Task → Nat
  | none => 0
  | some t => if t.page = page then 1 else 0

def Kernel.taskPages (k : Kernel) (page : Nat) : Nat := total (structAt page) k.task

/-- Not the panics of `free_page`. -/
def Harmless (why : Panic) : Prop := why ≠ .freePage ∧ why ≠ .nonexistentPage

theorem dirs_fit {size : Nat} (fits : size ≤ 0x4000000) : Memory.dirs size ≤ 16 := by
  unfold Memory.dirs
  omega

section Exit

structure Gone (L : Layout) (held : Nat → Nat) (m : Memory) (s : Fin 64) (t : Task) (m' : Memory) : Prop where
  walk : Walk L (Move.own (windowAt s)) ⟨m, held⟩ ⟨m', held⟩
  absent : ∀ k < Memory.dirs t.dataLimit, present (m'.words (16 * s + k)) = false

theorem Sound.freeSegments (sound : Sound L m held) (fits : t.Fits) :
    Ends (Gone L held m s t) Harmless (do
      let m ← m.freePageTables (Memory.base s) t.codeLimit
      m.freePageTables (Memory.base s) t.dataLimit) := by
  by_cases first : s = 0
  · subst first
    have zero : Memory.base (0 : Fin 64) = 0 := rfl
    unfold Memory.freePageTables
    rw [zero, if_neg (by decide), if_pos rfl]
    exact .stop ⟨by decide, by decide⟩
  · have positive : 0 < s.val := Nat.pos_of_ne_zero fun same => first (Fin.ext same)
    have code := sound.freePageTables positive s.isLt (dirs_fit (fits.1.trans fits.2))
    refine (code.mono (fun _ cleared => cleared) fun _ none => none.elim).bind fun m₁ cleared => ?_
    have data := (cleared.walk.sound sound).freePageTables positive s.isLt (dirs_fit fits.2)
    exact data.mono (fun m₂ cleared' => ⟨cleared.walk.append cleared'.walk, cleared'.absent⟩)
      fun _ none => none.elim

structure Exited (L : Layout) (held : Nat → Nat) (k : Kernel) (s : Fin 64) (t : Task) (k' : Kernel) : Prop
    extends Gone L held k.memory s t k'.memory where
  task : k'.task = Function.update k.task s (some { t with zombie := true, executable := none })

theorem Sound.doExit (sound : Sound L k.memory held) (fits : t.Fits) :
    Ends (Exited L held k s t) Harmless (k.doExit s t) := by
  have freed := sound.freeSegments (s := s) fits
  unfold Kernel.doExit
  rw [← bind_assoc]
  exact freed.bind fun m gone => .pure ⟨gone, rfl⟩

/-- How an operation stops on the way: no harmful panic, and out of memory with some entries changed. -/
def Stalls (L : Layout) (held : Nat → Nat) (m : Memory) (entries : Set (Fin 1024 × Fin 1024)) (stop : Stop) : Prop :=
  (∃ why, stop = .panic why ∧ Harmless why) ∨
    ∃ m', stop = .noMemory m' ∧ Walk L (Move.own entries) ⟨m, held⟩ ⟨m', held⟩

theorem Stalls.mono {few many : Set (Fin 1024 × Fin 1024)} {stop : Stop} (stalls : Stalls L held m few stop)
    (more : few ⊆ many) : Stalls L held m many stop := by
  rcases stalls with panic | ⟨m', same, walk⟩
  · exact .inl panic
  · exact .inr ⟨m', same, walk.mono (Move.own_mono more)⟩

theorem Sound.settle (sound : Sound L k.memory held) (fits : t.Fits) {good : Memory → Prop} {x : Except Stop Memory}
    (ends : Ends good (Stalls L held k.memory (windowAt s)) x) (answer : Memory → Outcome) :
    Ends (fun r => (good r.1.memory ∧ r.1.task = k.task ∧ r.2 = answer r.1.memory) ∨
      (Exited L held k s t r.1 ∧ r.2 = .killed)) Harmless (k.settle s t answer x) := by
  match x with
  | .ok m => exact .pure (.inl ⟨ends.ok m rfl, rfl, rfl⟩)
  | .error (.panic why) =>
    rcases ends.error _ rfl with ⟨_, same, harmless⟩ | ⟨_, same, _⟩
    · cases same
      exact .stop harmless
    · cases same
  | .error (.noMemory m) =>
    rcases ends.error _ rfl with ⟨_, same, _⟩ | ⟨_, same, walk⟩
    · cases same
    · cases same
      have sound' : Sound L m held := walk.sound sound
      have exit := Sound.doExit (k := ⟨m, k.task⟩) (s := s) sound' fits
      exact exit.map fun k' exited => .inr ⟨⟨⟨walk.append exited.walk, exited.absent⟩, exited.task⟩, rfl⟩

end Exit

section Release

theorem Sound.release (sound : Sound L k.memory held) (managed : s ≠ 0 → L.Managed t.page) (holding : s ≠ 0 → 0 < held t.page) :
    Ends (fun k' => Walk L (Move.own ∅) ⟨k.memory, held⟩
        ⟨k'.memory, Function.update held t.page (held t.page - 1)⟩ ∧ k'.task = Function.update k.task s none)
      Harmless (k.release s t) := by
  unfold Kernel.release
  split
  · exact .stop ⟨by decide, by decide⟩
  · rename_i other
    have above := (managed other).physical.1
    have more := holding other
    rw [sound.freePage (.inr (managed other)) (by omega)]
    refine .pure ⟨?_, rfl⟩
    show Walk L _ _ ⟨k.memory.unref t.page, _⟩
    rw [Memory.unref, if_neg (by omega)]
    exact .one (.drop t.page) trivial ⟨managed other, holding other⟩

end Release

section Fork

theorem window_eq (same : m'.ptes = m.ptes) (slot : Fin 64) : m'.window slot = m.window slot := by
  rw [Memory.window, same]
  rfl

theorem Sound.room_taken (sound : Sound L m held) (room : m.Room s) {p : Nat} (managed : L.Managed p)
    (free : m.memMap (mapNr p) = 0) : (m.take p).Room s := by
  obtain ⟨unused, unmapped, -, -⟩ := sound.free managed free
  have views := take_views (Sound.positive managed) unused
  intro page above use
  have uses : (m.take p).uses s page = m.uses s page := by
    rw [Memory.uses, window_eq views.2]
    rfl
  rw [uses] at use ⊢
  have other : page ≠ p := by
    rintro rfl
    obtain ⟨x, positive⟩ := (total_pos_iff _ _).mp use
    obtain ⟨here, same⟩ := pointsTo_pos.mp positive
    exact unmapped_frame (x := (dirOf s x.1, x.2)) unmapped here same
  have kept : (m.take p).memMap (mapNr page) = m.memMap (mapNr page) := setMap_other managed.physical.1 above other
  rw [kept]
  exact room page above use

theorem Sound.copyMem (sound : Sound L m held) (apart : s ≠ nr) (other : nr ≠ 0) (room : m.Room s) (fits : t.Fits) :
    Ends (fun r => (r.2 = 0 ∧ Copying L held m s nr (copiedEntries s) (Memory.dirs t.dataLimit) 0 r.1) ∨
        (r.2 = -ENOMEM ∧ Walk L (Move.own (windowAt nr)) ⟨m, held⟩ ⟨r.1, held⟩))
      Harmless (m.copyMem s nr t) := by
  have copied := sound.copyPageTables apart room (dirs_fit fits.2)
  have limits := fits.1
  unfold Memory.copyMem
  rw [if_neg (by omega)]
  generalize m.copyPageTables (Memory.base s) (Memory.base nr) t.dataLimit = x at copied
  match x with
  | .ok m' => exact .pure (.inl ⟨rfl, copied.ok m' rfl⟩)
  | .error (.panic why) =>
    rcases copied.error _ rfl with same | ⟨_, same, _⟩
    · cases same
      exact .stop ⟨by decide, by decide⟩
    · cases same
  | .error (.noMemory m') =>
    rcases copied.error _ rfl with same | ⟨_, same, walk⟩
    · cases same
    · cases same
      have positive : 0 < nr.val := Nat.pos_of_ne_zero fun same => other (Fin.ext same)
      have freed := (walk.sound sound).freePageTables positive nr.isLt (dirs_fit fits.2)
      exact (freed.mono (fun _ cleared => cleared) fun _ none => none.elim).map
        fun m'' cleared => .inr ⟨rfl, walk.append cleared.walk⟩

/-- A new task with its structure in page `p`, which maps what its parent does. -/
structure Forked (L : Layout) (held : Nat → Nat) (k : Kernel) (s nr : Fin 64) (t : Task) (p : Nat) (k' : Kernel) :
    Prop where
  walk : Walk L (Move.own (windowAt nr)) ⟨k.memory, held⟩ ⟨k'.memory, Function.update held p (held p + 1)⟩
  managed : L.Managed p
  source : ∀ x, Alike (k'.memory.window s x) (k.memory.window s x)
  alike : ∀ x : Fin 16 × Fin 1024, x.1.val < Memory.dirs t.dataLimit → x.2.val < copiedEntries s →
    Alike (k'.memory.window nr x) (k'.memory.window s x)
  task : k'.task = Function.update k.task nr (some { t with page := p })

theorem Sound.copyProcess (sound : Sound L k.memory held) (apart : s ≠ nr) (other : nr ≠ 0)
    (room : k.memory.Room s) (fits : t.Fits) :
    Ends (fun r => (r.2 = .returned nr ∧ ∃ p, Forked L held k s nr t p r.1) ∨
        (r.2 = .returned (-EAGAIN) ∧ r.1.task = k.task ∧
          Walk L (Move.own (windowAt nr)) ⟨k.memory, held⟩ ⟨r.1.memory, held⟩))
      Harmless (k.copyProcess nr s t) := by
  unfold Kernel.copyProcess
  split
  · exact .pure (.inr ⟨rfl, rfl, .none⟩)
  · rename_i p m got
    obtain ⟨rfl, managed, free⟩ := sound.getFreePage got
    obtain ⟨unused, -, -, -⟩ := sound.free managed free
    have views := take_views (Sound.positive managed) unused
    have taken : Walk L (Move.own (windowAt nr)) ⟨k.memory, held⟩
        ⟨k.memory.take p, Function.update held p (held p + 1)⟩ := .one (.take p) trivial ⟨managed, free⟩
    have sound₁ : Sound L (k.memory.take p) (Function.update held p (held p + 1)) := sound.take managed free
    have copied := sound₁.copyMem apart other (sound.room_taken room managed free) fits
    refine copied.bind fun r result => ?_
    obtain ⟨m', failed⟩ := r
    rcases result with ⟨rfl, copying⟩ | ⟨rfl, walk⟩
    · refine .pure (.inl ⟨rfl, p, taken.append copying.walk, managed, ?_, ?_, rfl⟩)
      · intro x
        rw [← window_eq views.2]
        exact copying.source x
      · exact fun x dir index => copying.alike x (.inl dir) index
    · have holding : 0 < Function.update held p (held p + 1) p := by
        rw [Function.update_self]
        omega
      have sound₂ : Sound L m' (Function.update held p (held p + 1)) := walk.sound sound₁
      have above := managed.physical.1
      have freed := sound₂.freePage (.inr managed) (by omega)
      have given := (taken.append walk).next (.drop p) trivial ⟨managed, holding⟩
      simp only [Move.apply, held_again] at given
      dsimp only
      rw [if_pos (by decide), freed]
      refine .pure (.inr ⟨rfl, rfl, ?_⟩)
      rw [Memory.unref, if_neg (by omega)]
      exact given

theorem findEmptyProcess_empty (found : k.findEmptyProcess = some nr) : k.task nr = none ∧ nr ≠ 0 := by
  unfold Kernel.findEmptyProcess at found
  have others : ∀ i ∈ (List.finRange 64).tail, i ≠ 0 := by decide
  have empty := List.find?_some found
  exact ⟨Option.isNone_iff_eq_none.mp empty, others nr (List.mem_of_find?_eq_some found)⟩

theorem Sound.sysFork (sound : Sound L k.memory held) (here : k.task s = some t) (room : k.memory.Room s)
    (fits : t.Fits) :
    Ends (fun r => (∃ nr p, k.task nr = none ∧ nr ≠ 0 ∧ r.2 = .returned nr ∧ Forked L held k s nr t p r.1) ∨
        (r.2 = .returned (-EAGAIN) ∧ r.1.task = k.task ∧ ∃ nr, k.task nr = none ∧
          Walk L (Move.own (windowAt nr)) ⟨k.memory, held⟩ ⟨r.1.memory, held⟩) ∨ r = (k, .returned (-EAGAIN)))
      Harmless (k.sysFork s t) := by
  unfold Kernel.sysFork
  split
  · exact .pure (.inr (.inr rfl))
  · rename_i nr found
    obtain ⟨empty, other⟩ := findEmptyProcess_empty found
    have apart : s ≠ nr := by
      rintro rfl
      rw [here] at empty
      cases empty
    refine (sound.copyProcess apart other room fits).mono ?_ fun _ harmless => harmless
    rintro r (⟨answer, p, forked⟩ | ⟨answer, task, walk⟩)
    · exact .inl ⟨nr, p, empty, other, answer, forked⟩
    · exact .inr (.inl ⟨answer, task, nr, empty, walk⟩)

end Fork

section Fault

variable {q : Fin 64} {j : Fin 16} {i : Fin 1024} {files : Nat → File} {address iCount : Nat}

/-- The page at the same address of another task, clean there, mapped once more. -/
structure SharedFrom (L : Layout) (held : Nat → Nat) (m : Memory) (q s : Fin 64) (j : Fin 16) (i : Fin 1024)
    (t : Nat) (m₁ m' : Memory) : Prop where
  clean : dirty (m.window q (j, i)) = false
  tabled : Tabled L held m (dirOf s j) t m₁
  legal : (Move.share (dirOf q j) i (dirOf s j)).Legal L ⟨m₁, held⟩
  after : m' = Move.shared m₁ (m₁.entryAt (dirOf q j) i) (m₁.entryAt (dirOf s j) i)

theorem SharedFrom.walk {u : Nat} {m₁ : Memory} (shared : SharedFrom L held m q s j i u m₁ m') :
    Walk L (Move.own {(dirOf s j, i)}) ⟨m, held⟩ ⟨m', held⟩ := by
  have table := shared.tabled.walk.mono (Move.own_mono (Set.empty_subset {(dirOf s j, i)}))
  have share := table.next (.share (dirOf q j) i (dirOf s j))
    ⟨rfl, (dirOf_mod q j).trans (dirOf_mod s j).symm⟩ shared.legal
  rw [shared.after]
  exact share

/-- Room in `mem_map` for one more user of any mapped page. -/
def Memory.Spare (m : Memory) : Prop := ∀ page, lowMem ≤ page → 0 < m.mappings page → m.memMap (mapNr page) ≠ 255

theorem Sound.shareFrom (sound : Sound L k.memory held) (spare : k.memory.Spare) {inode : Nat}
    (dir : address / 0x400000 = j) (index : Memory.pageIndex address = i) (slots : List (Fin 64)) :
    Ends (fun result => ∀ m', result = some m' → ∃ q other u m₁, k.task q = some other ∧ q ≠ s ∧
        other.executable = some inode ∧ SharedFrom L held k.memory q s j i u m₁ m')
      (Stalls L held k.memory ∅) (k.shareFrom s inode address slots) := by
  induction slots with
  | nil => exact .pure fun _ none => nomatch none
  | cons q rest ih =>
    unfold Kernel.shareFrom
    split
    · exact ih
    · rename_i other there
      split
      · exact ih
      · rename_i eligible
        have source : address / 0x400000 + q.val * 16 = dirOf q j := by
          show _ = 16 * q.val + j.val
          omega
        have dest : address / 0x400000 + s.val * 16 = dirOf s j := by
          show _ = 16 * s.val + j.val
          omega
        have shared := sound.tryToShare source dest index
          fun mapped above => spare _ above (mappings_pos (dirOf q j) i mapped)
        generalize k.memory.tryToShare s q address = x at shared
        match x with
        | .error stop =>
          rcases shared.error stop rfl with rfl | rfl
          · exact .stop (.inr ⟨_, rfl, .none⟩)
          · exact .stop (.inl ⟨_, rfl, by decide, by decide⟩)
        | .ok none => exact ih
        | .ok (some m') =>
          refine .pure fun m'' same => ?_
          cases same
          obtain ⟨clean, u, m₁, tabled, legal, after⟩ := shared.ok _ rfl m' rfl
          exact ⟨q, other, u, m₁, there, fun same => eligible (.inl same),
            by_contra fun differs => eligible (.inr differs), clean, tabled, legal, after⟩

/-- What a fault finds for a page that no task has: the page of the executable, or zeros. -/
def Task.demand (files : Nat → File) (t : Task) (tmp : Nat) : Nat → BitVec 32 :=
  match t.executable with
  | none => fun _ => 0
  | some inode => if t.endData ≤ tmp then fun _ => 0 else breadPage (files inode) tmp t.endData

theorem base_div (s : Fin 64) (address : Nat) :
    (Memory.base s + address) / 0x400000 = 16 * s.val + address / 0x400000 := by
  unfold Memory.base
  omega

theorem base_index (s : Fin 64) (address : Nat) :
    Memory.pageIndex (Memory.base s + address) = Memory.pageIndex address := by
  unfold Memory.pageIndex Memory.base
  omega

/-- What a fault for a missing page does: map a page of its own, or one another task has clean. -/
def Faulted (L : Layout) (held : Nat → Nat) (files : Nat → File) (k : Kernel) (s : Fin 64) (t : Task) (tmp : Nat)
    (j : Fin 16) (i : Fin 1024) (m' : Memory) : Prop :=
  (∃ p, Placed L held k.memory (dirOf s j) i (t.demand files tmp) p m') ∨
    ∃ q other u m₁, k.task q = some other ∧ q ≠ s ∧ other.executable = t.executable ∧ t.executable ≠ none ∧
      tmp < t.endData ∧ SharedFrom L held k.memory q s j i u m₁ m'

theorem take_filled (m : Memory) (p : Nat) : m.take p = (m.take p).fill p fun _ => 0 := by
  unfold Memory.take Memory.fill
  congr 1
  funext w
  simp only
  split <;> rfl

theorem Sound.doNoPage (sound : Sound L k.memory held) (spare : k.memory.Spare) (dir : address / 0x400000 = j)
    (index : Memory.pageIndex address = i) (absent : present (k.memory.window s (j, i)) = false) :
    Ends (Faulted L held files k s t (address / 4096 * 4096) j i) (Stalls L held k.memory {(dirOf s j, i)})
      (k.doNoPage files s t address iCount) := by
  have dir' : address / 4096 * 4096 / 0x400000 = j := by omega
  have index' : Memory.pageIndex (address / 4096 * 4096) = i := by
    unfold Memory.pageIndex at index ⊢
    omega
  have linear : (Memory.base s + address / 4096 * 4096) / 0x400000 = dirOf s j := by
    rw [base_div, dir']
    rfl
  have page : Memory.pageIndex (Memory.base s + address / 4096 * 4096) = i := by rw [base_index, index']
  have empty : Ends (fun m' => ∃ p, Placed L held k.memory (dirOf s j) i (fun _ => 0) p m')
      (Stalls L held k.memory {(dirOf s j, i)}) (k.memory.getEmptyPage (Memory.base s + address / 4096 * 4096)) :=
    (sound.newPage linear page absent (fun m _ => m) (take_filled k.memory)).mono (fun _ placed => placed) fun _ stall => .inr stall
  unfold Kernel.doNoPage
  dsimp only
  split
  · rename_i none
    have demand : t.demand files (address / 4096 * 4096) = fun _ => 0 := by rw [Task.demand, none]
    exact empty.mono (fun _ placed => .inl (demand ▸ placed)) fun _ stalls => stalls
  · rename_i inode image
    split
    · rename_i beyond
      have demand : t.demand files (address / 4096 * 4096) = fun _ => 0 := by
        rw [Task.demand, image]
        exact if_pos beyond
      exact empty.mono (fun _ placed => .inl (demand ▸ placed)) fun _ stalls => stalls
    · rename_i inside
      have demand : t.demand files (address / 4096 * 4096) =
          breadPage (files inode) (address / 4096 * 4096) t.endData := by
        rw [Task.demand, image]
        exact if_neg inside
      have loaded := sound.newPage linear page absent
        (fun m page => m.fill page (breadPage (files inode) (address / 4096 * 4096) t.endData)) fun _ => rfl
      have share : Ends (fun result => ∀ m', result = some m' → ∃ q other u m₁, k.task q = some other ∧ q ≠ s ∧
          other.executable = some inode ∧ SharedFrom L held k.memory q s j i u m₁ m')
          (Stalls L held k.memory ∅) (k.sharePage s inode (address / 4096 * 4096) iCount) := by
        unfold Kernel.sharePage
        split
        · exact .pure fun _ none => nomatch none
        · exact sound.shareFrom spare dir' index' _
      refine (share.mono (fun _ result => result) fun _ stalls => stalls.mono (Set.empty_subset _)).bind ?_
      intro result shared
      match result with
      | some m' =>
        obtain ⟨q, other, u, m₁, there, apart, same, from_q⟩ := shared m' rfl
        exact .pure (.inr ⟨q, other, u, m₁, there, apart, same.trans image.symm, by rw [image]; exact nofun,
          by omega, from_q⟩)
      | none => exact loaded.mono (fun _ placed => .inl (demand ▸ placed)) fun _ stall => .inr stall

theorem Faulted.walk {tmp : Nat} (faulted : Faulted L held files k s t tmp j i m') :
    Walk L (Move.own {(dirOf s j, i)}) ⟨k.memory, held⟩ ⟨m', held⟩ := by
  rcases faulted with ⟨p, placed⟩ | ⟨q, other, u, m₁, -, -, -, -, -, shared⟩
  · exact placed.walk
  · exact shared.walk

theorem SharedFrom.ptes (sound : Sound L m held) {u : Nat} {m₁ : Memory}
    (shared : SharedFrom L held m q s j i u m₁ m') :
    m'.ptes = Function.update (Function.update m.ptes (dirOf s j, i) (protect (m.window q (j, i)))) (dirOf q j, i)
      (protect (m.window q (j, i))) := by
  have views := ((shared.tabled.walk.sound sound).laid.share_views shared.legal.1 shared.legal.2.2.1).2
  rw [shared.after, views, shared.tabled.ptes, pte_congr shared.tabled.ptes]
  rfl

theorem Faulted.mapped (sound : Sound L k.memory held) {tmp : Nat} (faulted : Faulted L held files k s t tmp j i m') :
    present (m'.window s (j, i)) = true ∧
      (writable (m'.window s (j, i)) = true → lowMem ≤ frame (m'.window s (j, i))) := by
  rcases faulted with ⟨p, placed⟩ | ⟨q, other, u, m₁, -, apart, -, -, -, shared⟩
  · have entry : m'.window s (j, i) = entry p := by
      rw [Memory.window, placed.ptes, windowOf_same, Function.update_self]
    rw [entry, frame_entry placed.managed.physical.2]
    exact ⟨present_entry p, fun _ => placed.managed.physical.1⟩
  · have entry : m'.window s (j, i) = protect (k.memory.window q (j, i)) := by
      rw [Memory.window, shared.ptes sound, windowOf_other apart.symm, windowOf_same, Function.update_self]
    have mapped := shared.legal.1
    have source : m₁.pte (dirOf q j) i = k.memory.window q (j, i) := pte_congr shared.tabled.ptes _ _
    rw [source] at mapped
    rw [entry, writable_protect]
    exact ⟨(present_protect _).trans mapped, fun set => absurd set Bool.false_ne_true⟩

end Fault

section Write

variable {j : Fin 16} {i : Fin 1024} {files : Nat → File} {address iCount : Nat} {value : BitVec 32}

structure At (s : Fin 64) (address : Nat) (j : Fin 16) (i : Fin 1024) : Prop where
  dir : address / 0x400000 = j
  index : Memory.pageIndex address = i

theorem At.of_limit (limit : address < t.dataLimit) (fits : t.Fits) : ∃ j i, At s address j i := by
  have bound := fits.2
  have index : Memory.pageIndex address < 1024 := Nat.mod_lt _ (by decide)
  exact ⟨⟨address / 0x400000, by omega⟩, ⟨_, index⟩, rfl, rfl⟩

theorem At.linear (place : At s address j i) : (Memory.base s + address) / 0x400000 = dirOf s j := by
  rw [base_div, place.dir]
  rfl

theorem At.page (place : At s address j i) : Memory.pageIndex (Memory.base s + address) = i := by
  rw [base_index, place.index]

theorem At.pteOf (place : At s address j i) (m : Memory) :
    m.pteOf (Memory.base s + address) = m.window s (j, i) := by
  rw [Memory.pteOf, place.linear, place.page]
  rfl

theorem At.entryWord (place : At s address j i) (m : Memory) :
    m.entryWord (Memory.base s + address) = m.entryAt (dirOf s j) i := by
  rw [Memory.entryWord, place.linear, place.page]
  rfl

theorem At.storeAt (place : At s address j i) (m : Memory) : m.storeAt (Memory.base s + address) value =
    ((Move.store (dirOf s j) i ((Memory.base s + address) / 4 % 1024) value).apply ⟨m, held⟩).memory := by
  rw [Memory.storeAt, Memory.wordOf, place.pteOf, place.entryWord]
  rfl

def Touched (L : Layout) (held : Nat → Nat) (files : Nat → File) (k : Kernel) (s : Fin 64) (t : Task)
    (address : Nat) (j : Fin 16) (i : Fin 1024) (m' : Memory) : Prop :=
  (m' = k.memory ∧ present (k.memory.window s (j, i)) = true) ∨
    Faulted L held files k s t (address / 4096 * 4096) j i m'

theorem Touched.walk (touched : Touched L held files k s t address j i m') :
    Walk L (Move.own {(dirOf s j, i)}) ⟨k.memory, held⟩ ⟨m', held⟩ := by
  rcases touched with ⟨rfl, _⟩ | faulted
  · exact .none
  · exact faulted.walk

theorem Sound.touch (sound : Sound L k.memory held) (spare : k.memory.Spare) (place : At s address j i) :
    Ends (Touched L held files k s t address j i) (Stalls L held k.memory {(dirOf s j, i)}) (k.touch files s t address iCount) := by
  unfold Kernel.touch
  rw [place.pteOf]
  split
  · rename_i here
    exact .pure (.inl ⟨rfl, here⟩)
  · rename_i absent
    exact (sound.doNoPage spare place.dir place.index (by simpa using absent)).mono (fun _ faulted => .inr faulted)
      fun _ stalls => stalls

structure Written (L : Layout) (held : Nat → Nat) (files : Nat → File) (k : Kernel) (s : Fin 64) (t : Task)
    (address : Nat) (value : BitVec 32) (j : Fin 16) (i : Fin 1024) (m₁ m₂ m' : Memory) : Prop where
  touched : Touched L held files k s t address j i m₁
  unshared : m₂ = m₁ ∨ Unshared L held m₁ (dirOf s j) i m₂
  legal : (Move.store (dirOf s j) i ((Memory.base s + address) / 4 % 1024) value).Legal L ⟨m₂, held⟩
  after : m' = ((Move.store (dirOf s j) i ((Memory.base s + address) / 4 % 1024) value).apply ⟨m₂, held⟩).memory

theorem Unshared.mapped (sound : Sound L m held) {d : Fin 1024} (unshared : Unshared L held m d i m') :
    present (m'.pte d i) = true ∧ writable (m'.pte d i) = true ∧ lowMem ≤ frame (m'.pte d i) := by
  rcases unshared with ⟨legal, rfl⟩ | ⟨p, legal, rfl⟩
  · have ptes := legal.ptes sound
    have entry : (m.set (m.entryAt d i) (m.pte d i ||| 2)).pte d i = m.pte d i ||| 2 :=
      (congrFun ptes (d, i)).trans (Function.update_self _ _ _)
    rw [entry, frame_grant, present_grant, writable_grant]
    exact ⟨legal.1, rfl, legal.2.1⟩
  · have ptes := legal.ptes sound
    have entry : (Move.copied m (m.entryAt d i) p).pte d i = entry p :=
      (congrFun ptes (d, i)).trans (Function.update_self _ _ _)
    rw [entry, present_entry, writable_entry, frame_entry legal.2.1.physical.2]
    exact ⟨rfl, rfl, legal.2.1.physical.1⟩

theorem Written.walk {m₁ m₂ : Memory} (written : Written L held files k s t address value j i m₁ m₂ m') :
    Walk L (Move.own {(dirOf s j, i)}) ⟨k.memory, held⟩ ⟨m₂, held⟩ := by
  have first := written.touched.walk
  rcases written.unshared with rfl | unshared
  · exact first
  · exact first.append (unshared.walk.mono (Move.own_mono (Set.empty_subset _)))

theorem Sound.writeWord (sound : Sound L k.memory held) (spare : k.memory.Spare) (place : At s address j i)
    (user : present (k.memory.window s (j, i)) = true → writable (k.memory.window s (j, i)) = true →
      lowMem ≤ frame (k.memory.window s (j, i))) :
    Ends (fun m' => ∃ m₁ m₂, Written L held files k s t address value j i m₁ m₂ m')
      (Stalls L held k.memory {(dirOf s j, i)}) (k.writeWord files s t address iCount value) := by
  unfold Kernel.writeWord
  refine (sound.touch spare place).bind fun m₁ touched => ?_
  have walk := touched.walk
  have sound₁ : Sound L m₁ held := walk.sound sound
  have mapped : present (m₁.window s (j, i)) = true ∧
      (writable (m₁.window s (j, i)) = true → lowMem ≤ frame (m₁.window s (j, i))) := by
    rcases touched with ⟨rfl, here⟩ | faulted
    · exact ⟨here, user here⟩
    · exact faulted.mapped sound
  have inPage : (Memory.base s + address) / 4 % 1024 < 1024 := Nat.mod_lt _ (by decide)
  rw [place.pteOf]
  by_cases write : writable (m₁.window s (j, i)) = true
  · rw [if_pos write]
    refine .pure ⟨m₁, m₁, touched, .inl rfl, ⟨mapped.1, write, mapped.2 write, inPage⟩, place.storeAt m₁⟩
  · rw [if_neg write, Memory.doWpPage, place.entryWord]
    have faults : Ends (Unshared L held m₁ (dirOf s j) i) (Stalls L held k.memory {(dirOf s j, i)})
        (m₁.unWpPage (m₁.entryAt (dirOf s j) i)) :=
      (sound₁.unWpPage mapped.1).mono (fun _ unshared => unshared) fun stop same => .inr ⟨m₁, same, walk⟩
    refine faults.bind fun m₂ unshared => ?_
    obtain ⟨here, write, above⟩ := unshared.mapped sound₁
    exact .pure ⟨m₁, m₂, touched, .inr unshared, ⟨here, write, above, inPage⟩, place.storeAt m₂⟩

end Write

end Linux011.Mm

import Linux011.Mm.KernelWalks

namespace Linux011.Mm

open Linux011.Library

variable {L : Layout} {held : Nat → Nat} {files : Nat → File} {k k' : Kernel} {s nr : Fin 64} {t : Task}

/-- The moves of the kernel, and the writes of user programs. -/
def Move.user (entries : Set (Fin 1024 × Fin 1024)) (move : Move) (b : Books) : Prop :=
  move.own entries b ∨ ∃ d i j value, move = .store d i j value ∧ (d, i) ∈ entries

/-- The tasks are where `fork` puts them. -/
structure Tasks (L : Layout) (k : Kernel) : Prop where
  fits : ∀ s t, k.task s = some t → t.Fits
  structs : ∀ s t, k.task s = some t → s ≠ 0 → L.Managed t.page
  first : ∀ t, k.task 0 = some t → t.page < lowMem

theorem Tasks.set (tasks : Tasks L k) {x : Option Task} (task : k'.task = Function.update k.task s x)
    (fits : ∀ t, x = some t → t.Fits) (structs : ∀ t, x = some t → s ≠ 0 → L.Managed t.page)
    (first : ∀ t, x = some t → s = 0 → t.page < lowMem) : Tasks L k' where
  fits := by
    intro r u there
    rw [task] at there
    by_cases same : r = s
    · rw [same, Function.update_self] at there
      exact fits u there
    · rw [Function.update_of_ne same] at there
      exact tasks.fits r u there
  structs := by
    intro r u there other
    rw [task] at there
    by_cases same : r = s
    · subst same
      rw [Function.update_self] at there
      exact structs u there other
    · rw [Function.update_of_ne same] at there
      exact tasks.structs r u there other
  first := by
    intro u there
    rw [task] at there
    by_cases same : 0 = s
    · subst same
      rw [Function.update_self] at there
      exact first u there rfl
    · rw [Function.update_of_ne same] at there
      exact tasks.first u there

theorem Tasks.same (tasks : Tasks L k) (task : k'.task = k.task) : Tasks L k' where
  fits := task ▸ tasks.fits
  structs := task ▸ tasks.structs
  first := task ▸ tasks.first

theorem Tasks.change (tasks : Tasks L k) (here : k.task s = some t) {u : Task}
    (task : k'.task = Function.update k.task s (some u)) (page : u.page = t.page) (fits : u.Fits) : Tasks L k' := by
  apply tasks.set task
  · rintro _ ⟨⟩
    exact fits
  · rintro _ ⟨⟩ other
    rw [page]
    exact tasks.structs s t here other
  · rintro _ ⟨⟩ rfl
    rw [page]
    exact tasks.first t here

theorem taskPages_set {x : Option Task} (task : k'.task = Function.update k.task s x) (page : Nat) :
    k'.taskPages page + structAt page (k.task s) = k.taskPages page + structAt page x := by
  rw [Kernel.taskPages, task]
  exact total_update (structAt page) k.task s x

/-- What a call without shared pages comes to: the books move with the task structures. -/
structure Served (L : Layout) (held : Nat → Nat) (k : Kernel) (k' : Kernel) : Prop where
  tasks : Tasks L k'
  walk : ∃ held', Walk L (Move.user Set.univ) ⟨k.memory, held⟩ ⟨k'.memory, held'⟩ ∧
    ∀ page, held' page + k.taskPages page = held page + k'.taskPages page

theorem Walk.as_user {b b' : Books} {entries : Set (Fin 1024 × Fin 1024)} (walk : Walk L (Move.own entries) b b') :
    Walk L (Move.user Set.univ) b b' :=
  walk.mono fun move b own => .inl (Move.own_mono (Set.subset_univ _) move b own)

theorem Served.of_walk {entries : Set (Fin 1024 × Fin 1024)} (tasks : Tasks L k')
    (walk : Walk L (Move.own entries) ⟨k.memory, held⟩ ⟨k'.memory, held⟩)
    (pages : ∀ page, k'.taskPages page = k.taskPages page) : Served L held k k' :=
  ⟨tasks, held, walk.as_user, fun page => by rw [pages]⟩

theorem Served.idle (tasks : Tasks L k') (memory : k'.memory = k.memory)
    (pages : ∀ page, k'.taskPages page = k.taskPages page) : Served L held k k' :=
  ⟨tasks, held, memory ▸ .none, fun page => by rw [pages]⟩

theorem taskPages_change (here : k.task s = some t) {u : Task}
    (task : k'.task = Function.update k.task s (some u)) (page : u.page = t.page) (f : Nat) :
    k'.taskPages f = k.taskPages f := by
  have moved := taskPages_set task f
  have same : structAt f (some u) = structAt f (some t) := by simp only [structAt, page]
  rw [here, same] at moved
  omega

theorem Exited.served (exited : Exited L held k s t k') (tasks : Tasks L k) (here : k.task s = some t) :
    Served L held k k' := by
  apply Served.of_walk _ exited.walk
  · exact fun page => taskPages_change here exited.task rfl page
  · exact tasks.change here exited.task rfl (tasks.fits s t here)

/-- The calls that make no use of shared pages. -/
def Call.Plain : Call → Prop
  | shmget _ _ | shmat _ => False
  | _ => True

/-- No count of `mem_map` overflows in a call. -/
def Call.Roomy (call : Call) (k : Kernel) (s : Fin 64) : Prop :=
  match call with
  | fork => k.memory.Room s
  | noPage _ _ | read _ _ | write _ _ _ => k.memory.Spare
  | _ => True

theorem Sound.serve_fault (sound : Sound L k.memory held) (tasks : Tasks L k) (here : k.task s = some t)
    {x : Except Stop Memory} {good : Memory → Prop} (ends : Ends good (Stalls L held k.memory (windowAt s)) x)
    (answer : Memory → Outcome) (served : ∀ m', good m' → Served L held k ⟨m', k.task⟩) :
    Ends (fun r => Served L held k r.1) Harmless (k.settle s t answer x) := by
  refine (sound.settle (tasks.fits s t here) ends answer).mono ?_ fun _ harmless => harmless
  rintro ⟨⟨m', task⟩, outcome⟩ (⟨good, same, -⟩ | ⟨exited, -⟩)
  · cases same
    exact served m' good
  · exact exited.served tasks here

theorem single_window {j : Fin 16} {i : Fin 1024} : ({(dirOf s j, i)} : Set (Fin 1024 × Fin 1024)) ⊆ windowAt s := by
  rintro x rfl
  exact dirOf_div s j

theorem Faulted.served {tmp : Nat} {j : Fin 16} {i : Fin 1024} {m' : Memory}
    (faulted : Faulted L held files k s t tmp j i m') (tasks : Tasks L k) : Served L held k ⟨m', k.task⟩ :=
  .of_walk (tasks.same rfl) faulted.walk fun _ => rfl

theorem Sound.serve_fork (sound : Sound L k.memory held) (tasks : Tasks L k) (here : k.task s = some t)
    (room : k.memory.Room s) : Ends (fun r => Served L held k r.1) Harmless (k.sysFork s t) := by
  refine (sound.sysFork here room (tasks.fits s t here)).mono ?_ fun _ harmless => harmless
  rintro r (⟨nr, p, empty, other, -, forked⟩ | ⟨-, same, nr, -, walk⟩ | rfl)
  · refine ⟨?_, _, forked.walk.as_user, ?_⟩
    · apply tasks.set forked.task
      · rintro _ ⟨⟩
        exact tasks.fits s t here
      · rintro _ ⟨⟩ _
        exact forked.managed
      · rintro _ ⟨⟩ first
        exact absurd first other
    · intro page
      have moved := taskPages_set forked.task page
      have none : structAt page none = 0 := rfl
      have one : structAt page (some { t with page := p }) = if p = page then 1 else 0 := rfl
      rw [empty, none, one] at moved
      by_cases same : page = p
      · subst same
        rw [if_pos rfl] at moved
        rw [Function.update_self]
        omega
      · rw [if_neg fun equal => same equal.symm] at moved
        rw [Function.update_of_ne same]
        omega
  · exact .of_walk (tasks.same same) walk fun page => by rw [Kernel.taskPages, same]; rfl
  · exact .idle tasks rfl fun _ => rfl

theorem Sound.serve_release (sound : Sound L k.memory held) (tasks : Tasks L k) (here : k.task s = some t)
    (cover : ∀ page, k.taskPages page ≤ held page) :
    Ends (fun r => Served L held k r.1) Harmless ((k.release s t).map fun k' => (k', Outcome.done)) := by
  have holding : 0 < held t.page := by
    have counted := weight_le_total (structAt t.page) k.task s
    have one : structAt t.page (some t) = 1 := if_pos rfl
    have more := cover t.page
    rw [here, one] at counted
    unfold Kernel.taskPages at more
    omega
  refine (sound.release (tasks.structs s t here) fun _ => holding).map ?_
  rintro k' ⟨walk, task⟩
  refine ⟨tasks.set task nofun nofun nofun, _, walk.as_user, ?_⟩
  intro page
  show _ = held page + k'.taskPages page
  have moved := taskPages_set task page
  have none : structAt page none = 0 := rfl
  rw [here, none] at moved
  by_cases same : page = t.page
  · have one : structAt page (some t) = 1 := if_pos same.symm
    rw [same] at moved one ⊢
    rw [Function.update_self]
    omega
  · have zero : structAt page (some t) = 0 := if_neg fun equal => same equal.symm
    rw [Function.update_of_ne same]
    omega

theorem Sound.serve_unshare (sound : Sound L k.memory held) (tasks : Tasks L k) (here : k.task s = some t)
    {d i : Fin 1024} (mapped : present (k.memory.pte d i) = true) :
    Ends (fun r => Served L held k r.1) Harmless
      (k.settle s t (fun _ => .done) (k.memory.unWpPage (k.memory.entryAt d i))) := by
  have faults := (sound.unWpPage mapped).mono (fun _ unshared => unshared) fun stop same =>
    show Stalls L held k.memory (windowAt s) stop from .inr ⟨k.memory, same, .none⟩
  exact sound.serve_fault tasks here faults _ fun m' unshared =>
    .of_walk (tasks.same rfl) unshared.walk fun _ => rfl

section Places

variable {j : Fin 16} {i : Fin 1024} {address iCount : Nat}

theorem Sound.serve_wpPage (sound : Sound L k.memory held) (tasks : Tasks L k) (here : k.task s = some t)
    (place : At s address j i) (mapped : present (k.memory.window s (j, i)) = true) :
    Ends (fun r => Served L held k r.1) Harmless
      (k.settle s t (fun _ => .done) (k.memory.doWpPage (Memory.base s + address))) := by
  unfold Memory.doWpPage
  rw [place.entryWord]
  exact sound.serve_unshare tasks here mapped

theorem Sound.serve_noPage (sound : Sound L k.memory held) (tasks : Tasks L k) (here : k.task s = some t)
    (spare : k.memory.Spare) (place : At s address j i) (absent : present (k.memory.window s (j, i)) = false) :
    Ends (fun r => Served L held k r.1) Harmless
      (k.settle s t (fun _ => .done) (k.doNoPage files s t address iCount)) := by
  have faults : Ends (Faulted L held files k s t (address / 4096 * 4096) j i) (Stalls L held k.memory (windowAt s))
      (k.doNoPage files s t address iCount) :=
    (sound.doNoPage spare place.dir place.index absent).mono (fun _ faulted => faulted)
      fun _ stalls => stalls.mono single_window
  exact sound.serve_fault tasks here faults _ fun m' faulted => faulted.served tasks

theorem Sound.serve_read (sound : Sound L k.memory held) (tasks : Tasks L k) (here : k.task s = some t)
    (spare : k.memory.Spare) (place : At s address j i) :
    Ends (fun r => Served L held k r.1) Harmless (k.userRead files s t address iCount) := by
  have faults : Ends (Touched L held files k s t address j i) (Stalls L held k.memory (windowAt s))
      (k.touch files s t address iCount) :=
    (sound.touch spare place).mono (fun _ touched => touched) fun _ stalls => stalls.mono single_window
  refine sound.serve_fault tasks here faults _ ?_
  rintro m' (⟨rfl, _⟩ | faulted)
  · exact .idle (tasks.same rfl) rfl fun _ => rfl
  · exact faulted.served tasks

theorem Sound.serve_write (sound : Sound L k.memory held) (tasks : Tasks L k) (here : k.task s = some t)
    (spare : k.memory.Spare) (place : At s address j i) (value : BitVec 32)
    (user : present (k.memory.window s (j, i)) = true → writable (k.memory.window s (j, i)) = true →
      lowMem ≤ frame (k.memory.window s (j, i))) :
    Ends (fun r => Served L held k r.1) Harmless (k.userWrite files s t address iCount value) := by
  have faults : Ends (fun m' => ∃ m₁ m₂, Written L held files k s t address value j i m₁ m₂ m')
      (Stalls L held k.memory (windowAt s)) (k.writeWord files s t address iCount value) :=
    (sound.writeWord spare place user).mono (fun _ written => written) fun _ stalls => stalls.mono single_window
  refine sound.serve_fault tasks here faults _ ?_
  rintro m' ⟨m₁, m₂, written⟩
  refine ⟨tasks.same rfl, held, ?_, fun _ => rfl⟩
  have store := written.walk.as_user.next (.store (dirOf s j) i ((Memory.base s + address) / 4 % 1024) value)
    (.inr ⟨_, _, _, _, rfl, Set.mem_univ _⟩) written.legal
  rw [written.after]
  exact store

end Places

theorem Sound.serve_writeVerify (sound : Sound L k.memory held) (tasks : Tasks L k) (here : k.task s = some t)
    {address : Nat} (linear : address < 2 ^ 32) : Ends (fun r => Served L held k r.1) Harmless
      (k.settle s t (fun _ => .done) (k.memory.writeVerify address)) := by
  have dir : address / 0x400000 < 1024 := by omega
  have index : Memory.pageIndex address < 1024 := Nat.mod_lt _ (by decide)
  have idle : Ends (fun r => Served L held k r.1) Harmless
      (k.settle s t (fun _ => .done) (.ok k.memory)) :=
    .pure (.idle (tasks.same rfl) rfl fun _ => rfl)
  unfold Memory.writeVerify
  split
  · rename_i table
    split
    · rename_i bits
      have mapped : present (k.memory.pte (address / 0x400000) (Memory.pageIndex address)) = true := by
        rw [pte_of_table table]
        exact present_read_only bits
      exact sound.serve_unshare tasks here (d := ⟨_, dir⟩) (i := ⟨_, index⟩) mapped
    · exact idle
  · exact idle

theorem Sound.serve_exec (sound : Sound L k.memory held) (tasks : Tasks L k) (here : k.task s = some t) (inode : Nat)
    (brk : BitVec 32) {codeLimit dataLimit : Nat} (within : codeLimit ≤ dataLimit ∧ dataLimit ≤ 0x4000000) :
    Ends (fun r => Served L held k r.1) Harmless
      ((k.doExecve files s t inode brk codeLimit dataLimit).map fun k' => (k', Outcome.done)) := by
  have freed := sound.freeSegments (s := s) (tasks.fits s t here)
  unfold Kernel.doExecve
  rw [← bind_assoc]
  have served (m : Memory) (gone : Gone L held k.memory s t m) : Served L held k
      ⟨m, Function.update k.task s (some (Kernel.image files t inode brk codeLimit dataLimit))⟩ :=
    .of_walk (tasks.change here rfl rfl within) gone.walk
      fun page => taskPages_change (u := Kernel.image files t inode brk codeLimit dataLimit) here rfl rfl page
  have replaced := freed.bind (f := fun m => .ok
    (⟨m, Function.update k.task s (some (Kernel.image files t inode brk codeLimit dataLimit))⟩ : Kernel))
    fun m gone => .pure (served m gone)
  exact replaced.map fun k' served => served

/-- What a call without shared pages does to the books, and no panic of `free_page`. -/
theorem Call.serve {call : Call} (sound : Sound L k.memory held) (tasks : Tasks L k)
    (cover : ∀ page, k.taskPages page ≤ held page) (here : k.task s = some t) (ready : call.Ready k s t)
    (plain : call.Plain) (roomy : call.Roomy k s) :
    Ends (fun r => Served L held k r.1) Harmless (call.perform files k s t) := by
  have fits := tasks.fits s t here
  cases call with
  | fork => exact sound.serve_fork tasks here roomy
  | exit => exact (sound.doExit fits).map fun k' exited => exited.served tasks here
  | release => exact sound.serve_release tasks here cover
  | exec inode brk codeLimit dataLimit => exact sound.serve_exec tasks here inode brk ready.2
  | noPage address iCount =>
    obtain ⟨j, i, place⟩ := At.of_limit (s := s) ready.2.1 fits
    exact sound.serve_noPage tasks here roomy place (place.pteOf k.memory ▸ ready.2.2)
  | wpPage address =>
    obtain ⟨j, i, place⟩ := At.of_limit (s := s) ready.2.1 fits
    exact sound.serve_wpPage tasks here place (place.pteOf k.memory ▸ ready.2.2.1)
  | writeVerify address => exact sound.serve_writeVerify tasks here ready.2
  | read address iCount =>
    obtain ⟨j, i, place⟩ := At.of_limit (s := s) ready.2 fits
    exact sound.serve_read tasks here roomy place
  | write address iCount value =>
    obtain ⟨j, i, place⟩ := At.of_limit (s := s) ready.2.1 fits
    exact sound.serve_write tasks here roomy place value (place.pteOf k.memory ▸ ready.2.2)
  | shmget key size => exact plain.elim
  | shmat shmid => exact plain.elim

end Linux011.Mm

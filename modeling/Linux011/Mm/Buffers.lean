import Linux011.Mm.Deeds
import Linux011.Mm.References
import Linux011.Mm.VerifyArea

namespace Linux011.Mm

open Linux011.Library

variable {L : Layout} {files : Nat → File} {k k' : Kernel} {s p q : Fin 64} {t : Task} {m m' : Memory}
  {held : Nat → Nat} {j : Fin 16} {i : Fin 1024} {a address iCount : Nat} {call : Call} {outcome : Outcome}
  {x : Fin 1024 × Fin 1024} {addr size start : BitVec 32} {c : BitVec 8}

section Guarded

/-- Whoever writes through an entry, if there is one, writes to a page that is its alone. -/
def Guarded (e : BitVec 32) : Prop := present e = true → writable e = true ∧ lowMem ≤ frame e

theorem Guarded.touched {e : BitVec 32} (guarded : Guarded e) : Guarded (touched e) := by
  intro here
  rw [present_touched] at here
  rw [writable_touched, frame_touched]
  exact guarded here

theorem Split.guarded (split : Split L m x m') (y : Fin 1024 × Fin 1024) :
    m'.ptes y = m.ptes y ∨ Guarded (m'.ptes y) := by
  by_cases same : y = x
  · rw [same]
    exact .inr fun _ => split.mapped.2
  · exact .inl (split.other same)

end Guarded

section Verify

theorem Sound.tablesInUse (sound : Sound L m held) : TablesInUse m where
  toLaid := sound.laid
  inUse := by
    intro page above use free
    rcases sound.tablePage page use with managed | low
    · rw [(sound.free managed free).1] at use
      cases use
    · omega

/-- What verifying pages leaves: entries as they were, or with a page of their own. -/
structure Hardened (L : Layout) (k : Kernel) (m' : Memory) : Prop where
  exact : Exact L ⟨m', k.task⟩
  present : ∀ x, present (m'.ptes x) = present (k.memory.ptes x)
  each : ∀ x, m'.ptes x = k.memory.ptes x ∨ Guarded (m'.ptes x)

theorem Hardened.refl (exact : Exact L k) : Hardened L k k.memory := ⟨exact, fun _ => rfl, fun _ => .inl rfl⟩

theorem Hardened.trans (first : Hardened L k m) (second : Hardened L ⟨m, k.task⟩ m') : Hardened L k m' where
  exact := second.exact
  present x := (second.present x).trans (first.present x)
  each x := by
    rcases second.each x with same | guarded
    · rw [same]
      exact first.each x
    · exact .inr guarded

theorem Exact.writeVerify (exact : Exact L k) (linear : address < 2 ^ 32) :
    Ends (Hardened L k) (fun stop => stop = .noMemory k.memory) (k.memory.writeVerify address) := by
  have sound : Sound L k.memory k.taskPages := exact.orderly.sound
  have dir : address / 0x400000 < 1024 := by omega
  have index : Memory.pageIndex address < 1024 := Nat.mod_lt _ (by decide)
  unfold Memory.writeVerify
  split
  · rename_i table
    split
    · rename_i bits
      have mapped : Mm.present (k.memory.pte (address / 0x400000) (Memory.pageIndex address)) = true := by
        rw [pte_of_table table]
        exact present_read_only bits
      apply (sound.unWpPage (d := ⟨_, dir⟩) (i := ⟨_, index⟩) mapped).mono
      · intro m' unshared
        have split := unshared.split sound
        exact ⟨exact.walked unshared.walk, split.present, split.guarded⟩
      · exact fun _ same => same
    · exact .pure (.refl exact)
  · exact .pure (.refl exact)

theorem Exact.verifyPages (exact : Exact L k) (start size : BitVec 32) : Ends (Hardened L k)
    (fun stop => ∃ m', stop = .noMemory m' ∧ Hardened L k m') (k.memory.verifyPages start size) := by
  rcases k with ⟨m, task⟩
  dsimp only
  induction m, start, size using Memory.verifyPages.induct with
  | case1 m start size positive ih =>
    rw [Memory.verifyPages, if_pos positive]
    have first : Ends (Hardened L ⟨m, task⟩) (fun stop => stop = .noMemory m) (m.writeVerify start.toNat) :=
      Exact.writeVerify (k := ⟨m, task⟩) exact start.isLt
    constructor
    · intro m' returned
      obtain ⟨m₁, once, rest⟩ := returned_bind returned
      have hardened := first.ok m₁ once
      exact hardened.trans ((ih m₁ hardened.exact).ok m' rest)
    · intro stop stopped
      cases once : m.writeVerify start.toNat with
      | error stop' =>
        rw [once] at stopped
        cases stopped
        exact ⟨m, first.error _ once, .refl exact⟩
      | ok m₁ =>
        rw [once] at stopped
        have hardened := first.ok m₁ once
        rcases (ih m₁ hardened.exact).error stop stopped with ⟨m', same, hardened'⟩
        exact ⟨m', same, hardened.trans hardened'⟩
  | case2 m start size done =>
    rw [Memory.verifyPages, if_neg done]
    exact .pure (.refl exact)

theorem At.bufferByte {r : Nat} (place : At s (addr + BitVec.ofNat 32 r).toNat j i) :
    Memory.bufferByte s addr r = Memory.base s + (addr + BitVec.ofNat 32 r).toNat := by
  have dir := place.dir
  have low := j.isLt
  have slot := s.isLt
  rw [Memory.bufferByte, BitVec.add_assoc, BitVec.toNat_add, BitVec.toNat_ofNat]
  unfold Memory.base
  omega

theorem Exact.verified (exact : Exact L k) (returned : k.memory.verifyArea s addr size = .ok m')
    (small : size.toInt + addr.toNat % 4096 < 2 ^ 31)
    (user : ∀ r : Nat, r < size.toInt → present (k.memory.pteOf (Memory.bufferByte s addr r)) = true →
      writable (k.memory.pteOf (Memory.bufferByte s addr r)) = true →
      lowMem ≤ frame (k.memory.pteOf (Memory.bufferByte s addr r)))
    {r : Nat} (inside : r < size.toInt) (place : At s (addr + BitVec.ofNat 32 r).toNat j i) :
    Guarded (m'.window s (j, i)) := by
  have hardened := (exact.verifyPages _ _).ok m' returned
  have verified := (verified_iff_fits exact.orderly.sound.tablesInUse returned).mpr (.inl small)
  have write := verified.writable r inside
  have above := user r inside
  rw [place.bufferByte, place.pteOf] at write above
  rcases hardened.each (dirOf s j, i) with same | guarded
  · intro here
    have same : m'.window s (j, i) = k.memory.window s (j, i) := same
    rw [same] at here write ⊢
    exact ⟨write here, above here (write here)⟩
  · exact guarded

end Verify

section Store

theorem Exact.exit (exact : Exact L k) (there : k.task s = some t) (alive : t.zombie = false)
    (gone : k.doExit s t = .ok k') : Exact L k' := by
  have step : (kernel (fun _ => ⟨fun _ _ => 0, 0⟩) L).step k ⟨s, .exit, .done⟩ k' := by
    refine ⟨t, there, ⟨alive, trivial⟩, ?_⟩
    unfold Call.perform
    dsimp only
    rw [gone]
    rfl
  exact exact.step (e := ⟨s, .exit, .done⟩) trivial step

/-- What a store into a page of the task's own leaves. -/
structure Deposit (L : Layout) (k k' : Kernel) (s : Fin 64) (outcome : Outcome) : Prop where
  exact : Exact L k'
  settled : Settled k'
  others : LeavesOthers k k' s
  windows : ∀ q, q ≠ s → k'.memory.window q = k.memory.window q
  own : outcome ≠ .killed → k'.task = k.task ∧
    ∀ x, k'.memory.window s x = k.memory.window s x ∨ Guarded (k'.memory.window s x)

theorem Deposit.refl (exact : Exact L k) (settled : Settled k) : Deposit L k k s outcome :=
  ⟨exact, settled, .refl k s, fun _ _ => rfl, fun _ => ⟨rfl, fun _ => .inl rfl⟩⟩

theorem Deposit.exit (exact : Exact L k) (settled : Settled k) (unchanged : Unchanged k.memory m)
    (exact' : Exact L ⟨m, k.task⟩) (there : k.task s = some t) (alive : t.zombie = false)
    (gone : (⟨m, k.task⟩ : Kernel).doExit s t = .ok k') : Deposit L k k' s .killed := by
  have left : Left ⟨m, k.task⟩ s t { t with zombie := true, executable := none } k' :=
    (Sound.doExit_left (k := ⟨m, k.task⟩) exact'.orderly.sound (exact.tasks.fits s t there)).ok k' gone
  have settled' : Settled ⟨m, k.task⟩ := settled.kept fun x => congrArg present (congrFun unchanged.ptes x)
  refine ⟨exact'.exit there alive gone, settled'.left there left, ?_, ?_, nofun⟩
  · exact (unchanged.leavesOthers k.task s).trans left.leavesOthers
  · intro q other
    have window : m.window q = k.memory.window q := window_eq unchanged.ptes q
    exact (left.vacated.others q other).trans window

theorem Deposit.fetched (exact : Exact L k) (settled : Settled k) (there : k.task s = some t) (alive : t.zombie = false)
    (limit : address < t.dataLimit) (place : At s address j i) (absent : present (k.memory.window s (j, i)) = false)
    (alone : k.donor s t address iCount = none) (fetched : Fetched L k.taskPages files k s t address iCount j i m) :
    Deposit L k ⟨m, k.task⟩ s .done ∧ present (m.window s (j, i)) = true ∧ Guarded (m.window s (j, i)) := by
  rcases fetched.page with ⟨-, p, loaded⟩ | ⟨q, found, -⟩
  · have exact' : Exact L ⟨m, k.task⟩ := exact.walked fetched.walk
    have keeps : Keeps L files k s t (.read address iCount) Settled := settled.keeps there fun _ _ => alive
    have own : m.window s = Function.update (k.memory.window s) (j, i) (entry p) := by
      rw [Memory.window, loaded.ptes, windowOf_same]
      rfl
    have here : m.window s (j, i) = entry p := by rw [own, Function.update_self]
    have guarded : Guarded (m.window s (j, i)) := by
      rw [here]
      intro _
      rw [writable_entry, frame_entry loaded.managed.physical.2]
      exact ⟨rfl, loaded.managed.physical.1⟩
    refine ⟨⟨exact', ?_, fetched.leavesOthers, ?_, fun _ => ⟨rfl, ?_⟩⟩, ?_, guarded⟩
    · exact keeps.fetched address iCount j i m rfl limit place absent fetched exact'
    · intro q other
      rw [Memory.window, loaded.ptes, windowOf_other other]
      rfl
    · intro x
      by_cases same : x = (j, i)
      · rw [same]
        exact .inr guarded
      · rw [own, Function.update_of_ne same]
        exact .inl rfl
    · rw [here, present_entry]
  · rw [alone] at found
    cases found

theorem Deposit.put (deposit : Deposit L k ⟨m, k.task⟩ s .done) (place : At s address j i)
    (here : present (m.window s (j, i)) = true) (guarded : Guarded (m.window s (j, i))) (c : BitVec 8) :
    Deposit L k ⟨m.putByteAt (Memory.base s + address) c, k.task⟩ s .done := by
  have exact : Exact L ⟨m, k.task⟩ := deposit.exact
  have put : Put m s j i address c (m.putByteAt (Memory.base s + address) c) :=
    exact.orderly.sound.laid.put place here (exact.inUse (x := (dirOf s j, i)) here (guarded here).2) c
  have stored : Stored m (dirOf s j, i) (m.putByteAt (Memory.base s + address) c) :=
    put.stored here (guarded here).1 (guarded here).2
  have later : LeavesOthers ⟨m, k.task⟩ ⟨m.putByteAt (Memory.base s + address) c, k.task⟩ s := stored.leavesOthers exact
  refine ⟨put.exact (k := ⟨m, k.task⟩) here exact, ?_, deposit.others.trans later, ?_, fun _ => ⟨rfl, ?_⟩⟩
  · apply Settled.kept (k := ⟨m, k.task⟩) deposit.settled
    exact stored.present
  · exact fun q other => (put.window_other other).trans (deposit.windows q other)
  · intro x
    dsimp only
    rw [put.window_own]
    by_cases same : x = (j, i)
    · rw [same, Function.update_self]
      exact .inr guarded.touched
    · rw [Function.update_of_ne same]
      exact (deposit.own nofun).2 x

theorem Exact.putFsByte (exact : Exact L k) (settled : Settled k) (there : k.task s = some t) (alive : t.zombie = false)
    (guarded : ∀ j i, At s address j i → Guarded (k.memory.window s (j, i)))
    (alone : present (k.memory.pteOf (Memory.base s + address)) = false → k.donor s t address iCount = none)
    (returned : k.putFsByte files s t address iCount c = .ok (k', outcome)) : Deposit L k k' s outcome := by
  have fits := exact.tasks.fits s t there
  unfold Kernel.putFsByte at returned
  split at returned
  · obtain ⟨k₁, gone, same⟩ := returned_map returned
    cases same
    exact .exit exact settled (.refl _) exact there alive gone
  · rename_i limit
    have limit : address < t.dataLimit := by omega
    obtain ⟨j, i, place⟩ := At.of_limit (s := s) limit fits
    rw [place.pteOf] at alone
    have touch : Ends (fun m => Deposit L k ⟨m, k.task⟩ s .done ∧ present (m.window s (j, i)) = true ∧
          Guarded (m.window s (j, i)))
        (fun stop => ∀ m, stop = .noMemory m → Unchanged k.memory m ∧ Exact L ⟨m, k.task⟩)
        (k.touch files s t address iCount) := by
      unfold Kernel.touch
      rw [place.pteOf]
      split
      · rename_i here
        exact .pure ⟨.refl exact settled, here, guarded j i place⟩
      · rename_i none
        have absent : present (k.memory.window s (j, i)) = false := by simpa using none
        apply (exact.orderly.sound.fetch exact.spare place absent).mono
        · exact fun m fetched => Deposit.fetched exact settled there alive limit place absent (alone absent) fetched
        · rintro stop (⟨why, rfl, -⟩ | ⟨m₁, rfl, starved⟩) m same
          · cases same
          · cases same
            obtain ⟨entries, walk⟩ := starved.walk
            exact ⟨starved.toUnchanged, exact.walked walk⟩
    rcases Mm.settled returned with ⟨m', stored, rfl, rfl⟩ | ⟨m', starved, rfl, gone⟩
    · obtain ⟨m₁, touched, rfl⟩ := returned_map stored
      obtain ⟨deposit, here, own⟩ := touch.ok m₁ touched
      exact deposit.put place here own c
    · obtain ⟨unchanged, exact'⟩ := touch.error _ (stopped_map starved) m' rfl
      exact .exit exact settled unchanged exact' there alive gone

end Store

/-- The buffers that tasks have verified in system calls they have not left. -/
abbrev Buffers := Fin 64 → Option (BitVec 32 × BitVec 32)

def Buffers.Covers (b : Buffers) (p : Fin 64) (a : Nat) : Prop :=
  ∃ addr size, b p = some (addr, size) ∧
    ∃ r : Nat, r < size.toInt ∧ (addr + BitVec.ofNat 32 r).toNat / 4096 = a / 4096

structure Verifying where
  kernel : Kernel
  buffer : Buffers

namespace Verifying

inductive Act
  | call (call : Call)
  | verify (addr size : BitVec 32)
  | store (r iCount : Nat) (c : BitVec 8)
  | leave

structure Event where
  caller : Fin 64
  act : Act
  outcome : Outcome

def Step (files : Nat → File) (x : Verifying) (e : Event) (x' : Verifying) : Prop :=
  ∃ t, x.kernel.task e.caller = some t ∧
    match e.act with
    | .call call => x.buffer e.caller = none ∧ call.Plain ∧ call.Ready x.kernel e.caller t ∧
        call.perform files x.kernel e.caller t = .ok (x'.kernel, e.outcome) ∧ x'.buffer = x.buffer
    | .verify addr size => x.buffer e.caller = none ∧ t.zombie = false ∧
        x.kernel.settle e.caller t (fun _ => .done) (x.kernel.memory.verifyArea e.caller addr size) =
          .ok (x'.kernel, e.outcome) ∧
        x'.buffer = if e.outcome = .killed then x.buffer else Function.update x.buffer e.caller (some (addr, size))
    | .store r iCount c => ∃ addr size, x.buffer e.caller = some (addr, size) ∧ r < size.toInt ∧
        x.kernel.putFsByte files e.caller t (addr + BitVec.ofNat 32 r).toNat iCount c = .ok (x'.kernel, e.outcome) ∧
        x'.buffer = if e.outcome = .killed then Function.update x.buffer e.caller none else x.buffer
    | .leave => x.buffer e.caller ≠ none ∧ x'.kernel = x.kernel ∧ x'.buffer = Function.update x.buffer e.caller none

/-- Tasks in system calls that verify a buffer, may sleep while the others run, and store into the buffer. -/
def machine (files : Nat → File) (L : Layout) : Machine Verifying Event where
  init x := Booted L x.kernel ∧ ∀ s, x.buffer s = none
  step := Step files

/-- No page of a buffer is borrowed, neither by another task nor for the store itself. The end of a buffer does
    not overflow, and a buffer is not in pages of the kernel that its task may write to. -/
def Fair (x : Verifying) (e : Event) : Prop :=
  ∀ t, x.kernel.task e.caller = some t →
    match e.act with
    | .call call => ∀ address iCount q, call.fault = some (address, iCount) →
        present (x.kernel.memory.pteOf (Memory.base e.caller + address)) = false →
        x.kernel.donor e.caller t address iCount = some q → ¬ x.buffer.Covers q address
    | .verify addr size => size.toInt + addr.toNat % 4096 < 2 ^ 31 ∧
        ∀ r : Nat, r < size.toInt → present (x.kernel.memory.pteOf (Memory.bufferByte e.caller addr r)) = true →
          writable (x.kernel.memory.pteOf (Memory.bufferByte e.caller addr r)) = true →
          lowMem ≤ frame (x.kernel.memory.pteOf (Memory.bufferByte e.caller addr r))
    | .store r iCount _ => ∀ addr size, x.buffer e.caller = some (addr, size) →
        present (x.kernel.memory.pteOf (Memory.base e.caller + (addr + BitVec.ofNat 32 r).toNat)) = false →
        x.kernel.donor e.caller t (addr + BitVec.ofNat 32 r).toNat iCount = none
    | .leave => True

end Verifying

/-- The tasks with buffers are alive, and the pages of a buffer are its task's alone. -/
structure Guards (b : Buffers) (k : Kernel) : Prop where
  live : ∀ p, b p ≠ none → ∃ t, k.task p = some t ∧ t.zombie = false
  own : ∀ p a j i, b.Covers p a → At p a j i → Guarded (k.memory.window p (j, i))

variable {b : Buffers}

theorem Buffers.Covers.busy (covers : b.Covers p a) : b p ≠ none := by
  rcases covers with ⟨addr, size, buffer, -⟩
  rw [buffer]
  exact nofun

theorem Buffers.Covers.other (covers : b.Covers p a) (idle : b s = none) : p ≠ s := by
  rintro rfl
  exact covers.busy idle

theorem Guards.kept (guards : Guards b k) (task : ∀ p, b p ≠ none → k'.task p = k.task p)
    (window : ∀ p, b p ≠ none → k'.memory.window p = k.memory.window p) : Guards b k' where
  live p busy := task p busy ▸ guards.live p busy
  own p a j i covers place := by
    rw [window p covers.busy]
    exact guards.own p a j i covers place

theorem Guards.entries (guards : Guards b k) (each : ∀ p a j i, b.Covers p a → At p a j i →
    m'.window p (j, i) = k.memory.window p (j, i) ∨ Guarded (m'.window p (j, i))) : Guards b ⟨m', k.task⟩ where
  live := guards.live
  own p a j i covers place := by
    rcases each p a j i covers place with same | guarded
    · rw [same]
      exact guards.own p a j i covers place
    · exact guarded

theorem Guards.keeps (guards : Guards b k) (idle : b s = none) (there : k.task s = some t)
    (fair : ∀ address iCount q, call.fault = some (address, iCount) →
      present (k.memory.pteOf (Memory.base s + address)) = false → k.donor s t address iCount = some q →
      ¬ b.Covers q address) : Keeps L files k s t call (Guards b) where
  idle := guards
  starved m' unchanged _ := guards.entries fun p _ j i _ _ => .inl (congrFun unchanged.ptes (dirOf p j, i))
  fetched address iCount j i m' fault limit place absent fetched _ := by
    apply guards.entries
    intro p a j' i' covers place'
    have other : (dirOf p j', i') ≠ (dirOf s j, i) := fun same =>
      covers.other idle (dirOf_inj (Prod.mk.inj same).1).1
    have kept : m'.ptes (dirOf p j', i') = k.memory.ptes (dirOf p j', i') := by
      rcases fetched.page with ⟨-, f, loaded⟩ | ⟨q, found, borrowed⟩
      · rw [loaded.ptes, Function.update_of_ne other]
      · rw [borrowed.ptes, Function.update_of_ne, Function.update_of_ne other]
        intro same
        obtain ⟨slot, index⟩ := Prod.mk.inj same
        obtain ⟨rfl, rfl⟩ := dirOf_inj slot
        subst index
        apply fair address iCount p fault (place.pteOf k.memory ▸ absent) found
        rcases covers with ⟨addr, size, buffer, r, inside, page⟩
        have source : At p address j' i' := ⟨place.dir, place.index⟩
        exact ⟨addr, size, buffer, r, inside, page.trans (place'.page_eq source)⟩
    exact .inl kept
  split address d i m' _ _ split := guards.entries fun p _ j i _ _ => split.guarded (dirOf p j, i)
  stored m m₂ m' j i kept _ before _ stored := by
    have kept : Guards b ⟨m, k.task⟩ := kept
    apply Guards.entries (k := ⟨m, k.task⟩) kept
    intro p a j' i' covers _
    have other : (dirOf p j', i') ≠ (dirOf s j, i) := fun same =>
      covers.other idle (dirOf_inj (Prod.mk.inj same).1).1
    have last : m'.ptes (dirOf p j', i') = m₂.ptes (dirOf p j', i') := stored.other other
    rcases before with rfl | split
    · exact .inl last
    · exact (split.guarded (dirOf p j', i')).imp last.trans fun guarded => (congrArg Guarded last).mpr guarded
  left m u k' kept _ left _ := by
    have kept : Guards b ⟨m, k.task⟩ := kept
    have other : ∀ p, b p ≠ none → p ≠ s := by
      rintro p busy rfl
      exact busy idle
    apply kept.kept
    · exact fun p busy => by rw [left.task, Function.update_of_ne (other p busy)]
    · exact fun p busy => left.vacated.others p (other p busy)
  released k' _ words task := by
    apply guards.kept
    · intro p busy
      have other : p ≠ s := by
        rintro rfl
        exact busy idle
      rw [task, Function.update_of_ne other]
    · exact fun p _ => window_words words p
  forked k' _ forks := by
    have parent : ∀ p, b p ≠ none → p ≠ s := by
      rintro p busy rfl
      exact busy idle
    have child : ∀ nr, k.task nr = none → ∀ p, b p ≠ none → p ≠ nr := by
      rintro nr empty p busy rfl
      obtain ⟨u, there, -⟩ := guards.live p busy
      rw [empty] at there
      cases there
    cases forks with
    | idle => exact guards
    | @failed nr m' empty branched =>
      exact guards.kept (fun _ _ => rfl) fun p busy => branched.others p (parent p busy) (child nr empty p busy)
    | @forked nr page m' empty _ branched =>
      apply guards.kept
      · exact fun p busy => Function.update_of_ne (child nr empty p busy) _ _
      · exact fun p busy => branched.others p (parent p busy) (child nr empty p busy)

theorem Guards.clear (guards : Guards b k) (s : Fin 64) : Guards (Function.update b s none) k := by
  have still : ∀ p, Function.update b s none p ≠ none → Function.update b s none p = b p := by
    intro p busy
    by_cases same : p = s
    · rw [same, Function.update_self] at busy
      exact absurd rfl busy
    · rw [Function.update_of_ne same]
  refine ⟨fun p busy => guards.live p (still p busy ▸ busy), ?_⟩
  intro p a j i covers place
  rcases covers with ⟨addr, size, buffer, inside⟩
  exact guards.own p a j i ⟨addr, size, (still p (by rw [buffer]; exact nofun)).symm.trans buffer, inside⟩ place

theorem Guards.add (guards : Guards b k) (there : k.task s = some t) (alive : t.zombie = false)
    (fresh : ∀ (r : Nat) j i, r < size.toInt → At s (addr + BitVec.ofNat 32 r).toNat j i →
      Guarded (k.memory.window s (j, i))) : Guards (Function.update b s (some (addr, size))) k where
  live p busy := by
    by_cases same : p = s
    · exact ⟨t, same ▸ there, alive⟩
    · rw [Function.update_of_ne same] at busy
      exact guards.live p busy
  own p a j i covers place := by
    rcases covers with ⟨addr', size', buffer, r, inside, page⟩
    by_cases same : p = s
    · subst same
      rw [Function.update_self] at buffer
      cases buffer
      exact fresh r j i inside (place.of_page page)
    · rw [Function.update_of_ne same] at buffer
      exact guards.own p a j i ⟨addr', size', buffer, r, inside, page⟩ place

namespace Verifying

structure Held (L : Layout) (x : Verifying) : Prop where
  exact : Exact L x.kernel
  settled : Settled x.kernel
  guards : Guards x.buffer x.kernel

variable {x x' : Verifying} {e : Event}

theorem Held.perform (held : Held L x) (idle : x.buffer s = none) (plain : call.Plain) (there : x.kernel.task s = some t)
    (fair : ∀ address iCount q, call.fault = some (address, iCount) →
      present (x.kernel.memory.pteOf (Memory.base s + address)) = false →
      x.kernel.donor s t address iCount = some q → ¬ x.buffer.Covers q address)
    (ready : call.Ready x.kernel s t) (performed : call.perform files x.kernel s t = .ok (k', outcome)) :
    Held L ⟨k', x.buffer⟩ := by
  have step : (Mm.kernel files L).step x.kernel ⟨s, call, outcome⟩ k' := ⟨t, there, ready, performed⟩
  have keeps : Keeps L files x.kernel s t call (Guards x.buffer) := held.guards.keeps idle there fair
  refine ⟨held.exact.step plain step, held.settled.step (e := ⟨s, call, outcome⟩) held.exact plain step, ?_⟩
  exact keeps.perform held.exact there (fun nr other empty => held.settled.blank other empty) ready plain performed

theorem Held.verify (held : Held L x) (idle : x.buffer s = none) (there : x.kernel.task s = some t)
    (alive : t.zombie = false) (small : size.toInt + addr.toNat % 4096 < 2 ^ 31)
    (user : ∀ r : Nat, r < size.toInt → present (x.kernel.memory.pteOf (Memory.bufferByte s addr r)) = true →
      writable (x.kernel.memory.pteOf (Memory.bufferByte s addr r)) = true →
      lowMem ≤ frame (x.kernel.memory.pteOf (Memory.bufferByte s addr r)))
    (returned : x.kernel.settle s t (fun _ => .done) (x.kernel.memory.verifyArea s addr size) = .ok (k', outcome)) :
    Held L ⟨k', if outcome = .killed then x.buffer else Function.update x.buffer s (some (addr, size))⟩ := by
  have pages := held.exact.verifyPages ((addr &&& 0xfffff000) + BitVec.ofNat 32 (Memory.base s)) (size + (addr &&& 0xfff))
  have guards {m' : Memory} (hardened : Hardened L x.kernel m') : Guards x.buffer ⟨m', x.kernel.task⟩ :=
    held.guards.entries fun p _ j i _ _ => hardened.each (dirOf p j, i)
  rcases Mm.settled returned with ⟨m', verified, rfl, rfl⟩ | ⟨m', starved, rfl, gone⟩
  · have hardened := pages.ok m' verified
    rw [if_neg (by decide)]
    refine ⟨hardened.exact, held.settled.kept hardened.present, ?_⟩
    apply (guards hardened).add there alive
    exact fun r j i inside place => held.exact.verified verified small user inside place
  · rcases pages.error _ starved with ⟨m₁, same, hardened⟩
    cases same
    rw [if_pos rfl]
    have exact' : Exact L ⟨m', x.kernel.task⟩ := hardened.exact
    have left : Left ⟨m', x.kernel.task⟩ s t { t with zombie := true, executable := none } k' :=
      (Sound.doExit_left (k := ⟨m', x.kernel.task⟩) exact'.orderly.sound (held.exact.tasks.fits s t there)).ok k' gone
    have settled : Settled ⟨m', x.kernel.task⟩ := held.settled.kept hardened.present
    have other : ∀ p, x.buffer p ≠ none → p ≠ s := by
      rintro p busy rfl
      exact busy idle
    refine ⟨exact'.exit there alive gone, settled.left there left, ?_⟩
    apply (guards hardened).kept
    · exact fun p busy => by rw [left.task, Function.update_of_ne (other p busy)]
    · exact fun p busy => left.vacated.others p (other p busy)

theorem Held.store (held : Held L x) (there : x.kernel.task s = some t) (buffer : x.buffer s = some (addr, size)) {r : Nat}
    (inside : r < size.toInt)
    (alone : present (x.kernel.memory.pteOf (Memory.base s + (addr + BitVec.ofNat 32 r).toNat)) = false →
      x.kernel.donor s t (addr + BitVec.ofNat 32 r).toNat iCount = none)
    (returned : x.kernel.putFsByte files s t (addr + BitVec.ofNat 32 r).toNat iCount c = .ok (k', outcome)) :
    Held L ⟨k', if outcome = .killed then Function.update x.buffer s none else x.buffer⟩ ∧
      LeavesOthers x.kernel k' s := by
  obtain ⟨u, there', alive⟩ := held.guards.live s (by rw [buffer]; exact nofun)
  rw [there] at there'
  cases there'
  have guarded : ∀ j i, At s (addr + BitVec.ofNat 32 r).toNat j i → Guarded (x.kernel.memory.window s (j, i)) :=
    fun j i place => held.guards.own s _ j i ⟨addr, size, buffer, r, inside, rfl⟩ place
  have deposit := held.exact.putFsByte held.settled there alive guarded alone returned
  refine ⟨⟨deposit.exact, deposit.settled, ?_⟩, deposit.others⟩
  by_cases killed : outcome = .killed
  · rw [if_pos killed]
    have other : ∀ p, Function.update x.buffer s none p ≠ none → p ≠ s := by
      rintro p busy rfl
      exact busy (Function.update_self ..)
    apply (held.guards.clear s).kept
    · intro p busy
      obtain ⟨u, there, -⟩ := (held.guards.clear s).live p busy
      exact deposit.others.task p (other p busy) (by rw [there]; exact nofun)
    · exact fun p busy => deposit.windows p (other p busy)
  · rw [if_neg killed]
    obtain ⟨task, own⟩ := deposit.own killed
    have guards : Guards x.buffer ⟨k'.memory, x.kernel.task⟩ := by
      apply held.guards.entries
      intro p a j i covers place
      by_cases same : p = s
      · subst same
        exact own (j, i)
      · exact .inl (congrFun (deposit.windows p same) (j, i))
    exact ⟨fun p busy => task ▸ guards.live p busy, guards.own⟩

theorem Held.step (held : Held L x) (fair : x.Fair e) (step : Step files x e x') : Held L x' := by
  rcases x' with ⟨k', b'⟩
  rcases e with ⟨s, act, outcome⟩
  obtain ⟨t, there, step⟩ := step
  have fair := fair t there
  cases act with
  | call call =>
    obtain ⟨idle, plain, ready, performed, rfl⟩ := step
    exact held.perform idle plain there fair ready performed
  | verify addr size =>
    obtain ⟨idle, alive, returned, rfl⟩ := step
    exact held.verify idle there alive fair.1 fair.2 returned
  | store r iCount c =>
    obtain ⟨addr, size, buffer, inside, returned, rfl⟩ := step
    exact (held.store there buffer inside (fair addr size buffer) returned).1
  | leave =>
    obtain ⟨-, rfl, rfl⟩ := step
    exact ⟨held.exact, held.settled, held.guards.clear s⟩

theorem held_of_reaches (reached : ((machine files L).restrict Fair).Reaches x) : Held L x := by
  apply reached.invariant
  · rintro x ⟨booted, idle⟩
    refine ⟨booted.exact, booted.settled, fun p busy => absurd (idle p) busy, ?_⟩
    exact fun p a j i covers => absurd (idle p) covers.busy
  · exact fun x e x' held step => held.step step.1 step.2

/-- No store into a verified buffer shows to another task, if no page of a buffer was borrowed. -/
theorem stores_unseen (reached : ((machine files L).restrict Fair).Reaches x) {r : Nat} (store : e.act = .store r iCount c)
    (step : ((machine files L).restrict Fair).step x e x') : Unseen x.kernel x'.kernel e.caller := by
  have held := held_of_reaches reached
  obtain ⟨fair, t, there, stores⟩ := step
  have fair := fair t there
  rw [store] at fair stores
  obtain ⟨addr, size, buffer, inside, returned, -⟩ := stores
  exact (held.store there buffer inside (fair addr size buffer) returned).2.unseen held.exact

end Verifying

section Example

deriving instance DecidableEq for Task

def zeroImage (_ : Nat) : File := ⟨fun _ _ => 0, 0x1000⟩

def childKernel : Kernel := (smallKernel.next zeroImage ⟨0, .fork, .returned 1⟩).getD smallKernel

def childTask : Task := { smallTask with page := 4095 }

def Memory.vacant (m : Memory) : Memory := ((m.freed 4094).swept 4094 1024).set 16 0

def imageTask : Task := Kernel.image zeroImage childTask 7 0x1000 0x1000 0x1000

def imageKernel : Kernel := ⟨childKernel.memory.vacant, Function.update childKernel.task 1 (some imageTask)⟩

theorem image_step : (kernel zeroImage sixteenMegabytes).step childKernel ⟨1, .exec 7 0x1000 0x1000 0x1000, .done⟩
    imageKernel := by
  have task : childKernel.task 1 = some childTask := by decide +kernel
  have round : childKernel.memory.freeTable 16 = .ok childKernel.memory.vacant := by
    apply freeTable_low
    case low =>
      have all : ∀ i : Fin 1024, present (childKernel.memory.words (tableWord 4094 i)) = true →
          frame (childKernel.memory.words (tableWord 4094 i)) < lowMem := by decide +kernel
      exact fun i index => all ⟨i, index⟩
    all_goals decide +kernel
  have gone : present (childKernel.memory.vacant.words 16) = false := by decide +kernel
  have replaced : childKernel.doExecve zeroImage 1 childTask 7 0x1000 0x1000 0x1000 = .ok imageKernel :=
    doExecve_one (by decide) rfl rfl round gone
  refine ⟨childTask, task, ⟨rfl, by decide⟩, ?_⟩
  unfold Call.perform
  dsimp only
  rw [replaced]
  rfl

/-- It forks a child of its own, before it has a page. -/
def twinKernel : Kernel := (imageKernel.next zeroImage ⟨1, .fork, .returned 2⟩).getD imageKernel

def loadedKernel : Kernel := (twinKernel.next zeroImage ⟨1, .read 0 2, .loaded 0⟩).getD twinKernel

def lentKernel : Kernel := (loadedKernel.next zeroImage ⟨2, .read 0 2, .loaded 0⟩).getD loadedKernel

theorem next_getD {e : Event} (some : (k.next files e).isSome = true) :
    (kernel files L).step k e ((k.next files e).getD k) := by
  obtain ⟨k', next⟩ := Option.isSome_iff_exists.mp some
  rw [next]
  exact Kernel.next_step next

namespace Verifying

def quiet (k : Kernel) : Verifying := ⟨k, fun _ => none⟩

theorem called {b : Buffers} {e : Mm.Event} (step : (Mm.kernel files L).step k e k') (plain : e.call.Plain)
    (idle : b e.caller = none) : Step files ⟨k, b⟩ ⟨e.caller, .call e.call, e.outcome⟩ ⟨k', b⟩ := by
  obtain ⟨t, there, ready, performed⟩ := step
  exact ⟨t, there, idle, plain, ready, performed, rfl⟩

theorem quiet_step {e : Mm.Event} (step : (Mm.kernel files L).step k e k') (plain : e.call.Plain) :
    ((machine files L).restrict Fair).step (quiet k) ⟨e.caller, .call e.call, e.outcome⟩ (quiet k') :=
  ⟨fun _ _ _ _ _ _ _ _ covers => covers.busy rfl, called step plain rfl⟩

theorem loaded_reached : ((machine zeroImage sixteenMegabytes).restrict Fair).Reaches (quiet loadedKernel) := by
  have fork : (Mm.kernel zeroImage sixteenMegabytes).step smallKernel ⟨0, .fork, .returned 1⟩ childKernel :=
    next_getD (by decide +kernel)
  have twin : (Mm.kernel zeroImage sixteenMegabytes).step imageKernel ⟨1, .fork, .returned 2⟩ twinKernel :=
    next_getD (by decide +kernel)
  have load : (Mm.kernel zeroImage sixteenMegabytes).step twinKernel ⟨1, .read 0 2, .loaded 0⟩ loadedKernel :=
    next_getD (by decide +kernel)
  have run := (((Machine.Run.one (quiet_step fork trivial)).snoc (quiet_step image_step trivial)).snoc
    (quiet_step twin trivial)).snoc (quiet_step load trivial)
  exact ⟨quiet smallKernel, _, ⟨smallKernel_booted, fun _ => rfl⟩, run⟩

def waiting (k : Kernel) : Verifying := ⟨k, Function.update (fun _ => none) 1 (some (0, 4))⟩

theorem verify_step (there : k.task 1 = some imageTask) (once : k.memory.writeVerify 0x4000000 = .ok m') :
    Step files (quiet k) ⟨1, .verify 0 4, .done⟩ (waiting ⟨m', k.task⟩) := by
  have rest : m'.verifyPages (0x4000000 + 4096) (4 - 4096) = .ok m' := by
    rw [Memory.verifyPages, if_neg (by decide)]
  have area : k.memory.verifyArea 1 0 4 = .ok m' := by
    change k.memory.verifyPages 0x4000000 4 = _
    rw [Memory.verifyPages, if_pos (by decide)]
    change (k.memory.writeVerify 0x4000000 >>= fun m => m.verifyPages (0x4000000 + 4096) (4 - 4096)) = _
    rw [once]
    exact rest
  refine ⟨imageTask, there, rfl, rfl, ?_, rfl⟩
  unfold quiet
  dsimp only
  rw [area]
  rfl

theorem store_step (there : k.task 1 = some imageTask)
    (here : present (k.memory.pteOf (Memory.base (1 : Fin 64) + 0)) = true) :
    Step files (waiting k) ⟨1, .store 0 0 65, .done⟩ (waiting ⟨k.memory.putByteAt (Memory.base (1 : Fin 64)) 65, k.task⟩) := by
  refine ⟨imageTask, there, 0, 4, rfl, by decide, ?_, rfl⟩
  have inside : ¬ imageTask.dataLimit ≤ 0 := by decide
  change k.putFsByte files 1 imageTask 0 0 65 = _
  unfold Kernel.putFsByte Kernel.touch
  rw [if_neg inside, if_pos here]
  rfl

theorem readable_twin {x : Verifying} (exact : Exact sixteenMegabytes x.kernel)
    (there : (x.kernel.task 2).any (fun t => t.dataLimit = 0x1000) = true)
    (here : present (x.kernel.memory.pteOf (Memory.base (2 : Fin 64) + 0)) = true)
    (above : lowMem ≤ frame (x.kernel.memory.pteOf (Memory.base (2 : Fin 64) + 0))) : x.kernel.Readable 2 0 := by
  rw [Option.any_eq_true] at there
  obtain ⟨u, there, limit⟩ := there
  rw [decide_eq_true_eq] at limit
  have place : At (2 : Fin 64) 0 0 0 := ⟨by decide, by decide⟩
  refine ⟨u, there, by omega, here, ?_⟩
  rw [place.pteOf] at here above ⊢
  exact exact.inUse (x := (dirOf 2 0, 0)) here above

/-- The pages of the two tasks are told apart by `verify_area`. -/
theorem stored_unseen : ∃ x x' : Verifying, ((machine zeroImage sixteenMegabytes).restrict Fair).Reaches x ∧
    x.kernel.Readable 2 0 ∧ x'.kernel.memory.byteAt (Memory.base (1 : Fin 64)) = 65 ∧ Unseen x.kernel x'.kernel 1 := by
  have there : lentKernel.task 1 = some imageTask ∧ (lentKernel.task 2).any (fun t => t.dataLimit = 0x1000) = true := by
    decide +kernel
  have lend : (Mm.kernel zeroImage sixteenMegabytes).step loadedKernel ⟨2, .read 0 2, .loaded 0⟩ lentKernel :=
    next_getD (by decide +kernel)
  obtain ⟨m', once, answer⟩ := returns_of_any (x := lentKernel.memory.writeVerify 0x4000000)
    (p := fun m' => decide (present (m'.pteOf (Memory.base (1 : Fin 64) + 0)) = true ∧
      present (m'.pteOf (Memory.base (2 : Fin 64) + 0)) = true ∧ lowMem ≤ frame (m'.pteOf (Memory.base (2 : Fin 64) + 0)) ∧
      (m'.putByteAt (Memory.base (1 : Fin 64)) 65).byteAt (Memory.base (1 : Fin 64)) = 65)) (by decide +kernel)
  obtain ⟨own, twin, above, stored⟩ := of_decide_eq_true answer
  have fair : (quiet lentKernel).Fair ⟨1, .verify 0 4, .done⟩ := by
    intro t _
    refine ⟨by decide, fun r inside here write => ?_⟩
    have read : ∀ r : Fin 4, writable (lentKernel.memory.pteOf (Memory.bufferByte (1 : Fin 64) 0 r)) = false := by
      decide +kernel
    have below : r < 4 := Int.ofNat_lt.mp inside
    exact absurd (write.symm.trans (read ⟨r, below⟩)) nofun
  have verify : Step zeroImage (quiet lentKernel) ⟨1, .verify 0 4, .done⟩ (waiting ⟨m', lentKernel.task⟩) :=
    verify_step there.1 once
  obtain ⟨x, es, init, run⟩ := loaded_reached
  have verified : ((machine zeroImage sixteenMegabytes).restrict Fair).Reaches (waiting ⟨m', lentKernel.task⟩) :=
    ⟨x, _, init, (run.snoc (quiet_step lend trivial)).snoc ⟨fair, verify⟩⟩
  have exact : Exact sixteenMegabytes (waiting ⟨m', lentKernel.task⟩).kernel := (held_of_reaches verified).exact
  refine ⟨_, _, verified, readable_twin exact there.2 twin above, ?_, stores_unseen verified rfl ⟨?_, store_step there.1 own⟩⟩
  · exact stored
  · intro t _ addr size buffer absent
    cases buffer
    exact absurd (absent.symm.trans own) nofun

/-- Its twin faults on the page while it sleeps, and reads the byte it stores. -/
theorem stored_seen : ¬ ∀ (files : Nat → File) (L : Layout) (x x' : Verifying) (e : Event) (r iCount : Nat)
    (c : BitVec 8), (machine files L).Reaches x → (machine files L).step x e x' → e.act = .store r iCount c →
    Unseen x.kernel x'.kernel e.caller := by
  intro claim
  have there : loadedKernel.task 1 = some imageTask ∧ lentKernel.task 1 = some imageTask ∧
      (lentKernel.task 2).any (fun t => t.dataLimit = 0x1000) = true := by
    decide +kernel
  have once : loadedKernel.memory.writeVerify 0x4000000 = .ok loadedKernel.memory := by
    unfold Memory.writeVerify
    rw [if_pos (by decide +kernel), if_neg (by decide +kernel)]
  have lend : (Mm.kernel zeroImage sixteenMegabytes).step loadedKernel ⟨2, .read 0 2, .loaded 0⟩ lentKernel :=
    next_getD (by decide +kernel)
  obtain ⟨own, twin, above⟩ : present (lentKernel.memory.pteOf (Memory.base (1 : Fin 64) + 0)) = true ∧
      present (lentKernel.memory.pteOf (Memory.base (2 : Fin 64) + 0)) = true ∧
      lowMem ≤ frame (lentKernel.memory.pteOf (Memory.base (2 : Fin 64) + 0)) := by
    decide +kernel
  have before : lentKernel.memory.byteAt (Memory.base (2 : Fin 64) + 0) = 0 := by decide +kernel
  have after : (lentKernel.memory.putByteAt (Memory.base (1 : Fin 64)) 65).byteAt (Memory.base (2 : Fin 64) + 0) = 65 := by
    decide +kernel
  have verify : Step zeroImage (quiet loadedKernel) ⟨1, .verify 0 4, .done⟩ (waiting loadedKernel) :=
    verify_step there.1 once
  obtain ⟨x, es, init, run⟩ := loaded_reached
  have reached : (machine zeroImage sixteenMegabytes).Reaches (waiting lentKernel) :=
    ⟨x, _, init, (run.of_restrict.snoc verify).snoc (called lend trivial rfl)⟩
  have exact : Exact sixteenMegabytes lentKernel :=
    (held_of_reaches ⟨x, _, init, run.snoc (quiet_step lend trivial)⟩).exact
  have readable : (waiting lentKernel).kernel.Readable 2 0 := readable_twin (x := waiting lentKernel) exact there.2.2 twin above
  have unseen := claim zeroImage sixteenMegabytes _ _ _ 0 0 65 reached (store_step there.2.1 own) rfl 2 0 (by decide) readable
  have same : (65 : BitVec 8) = 0 := after.symm.trans (unseen.trans before)
  cases same

end Verifying

end Example

end Linux011.Mm

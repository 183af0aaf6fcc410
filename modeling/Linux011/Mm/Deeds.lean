import Linux011.Mm.Supervisor

namespace Linux011.Mm

open Linux011.Library

variable {L : Layout} {files : Nat → File} {k k' k'' : Kernel} {s q : Fin 64} {t : Task} {m m' : Memory} {held : Nat → Nat}
  {d i : Fin 1024} {j : Fin 16} {a address iCount : Nat} {call : Call} {outcome : Outcome} {x : Fin 1024 × Fin 1024}
  {c : BitVec 8}

section Split

/-- A read-only entry made writable, with its page if no other entry has it, and else with a copy. -/
structure Split (L : Layout) (m : Memory) (x : Fin 1024 × Fin 1024) (m' : Memory) : Prop where
  here : present (m.ptes x) = true
  spares : Spares m m'
  page : (lowMem ≤ frame (m.ptes x) ∧ m'.ptes = Function.update m.ptes x (m.ptes x ||| 2)) ∨
    ∃ p, L.Managed p ∧ m.mappings p = 0 ∧ m'.ptes = Function.update m.ptes x (entry p) ∧
      (lowMem ≤ frame (m.ptes x) → ∀ w < 1024, m'.words (tableWord p w) = m.words (tableWord (frame (m.ptes x)) w))

theorem copied_page (sound : Sound L m held) {p : Nat} (legal : (Move.copy d i p).Legal L ⟨m, held⟩)
    (above : lowMem ≤ frame (m.pte d i)) {w : Nat} (inPage : w < 1024) :
    (Move.copied m (m.entryAt d i) p).words (tableWord p w) = m.words (tableWord (frame (m.pte d i)) w) := by
  obtain ⟨mapped, managed, free, -⟩ := legal
  have use : m.InUse (frame (m.pte d i)) :=
    ⟨Nat.lt_of_lt_of_le (by decide) above, sound.mapped_plain mapped above, mappings_pos d i mapped⟩
  have word : m.words (m.entryAt d i) = m.pte d i := word_of_pte (table_of_pte mapped) i
  have taken := sound.take_spares managed free _ use
  have views := take_views (Sound.positive managed) (sound.free managed free).1
  have dir : (m.take p).words d = m.words d := congrFun views.1 d
  have laid := (sound.take managed free).laid
  have entered := taken.trans (Untouched.entry laid taken.plain (d := d) (dir ▸ table_of_pte mapped) i (entry p))
  rw [entryAt_of dir] at entered
  unfold Move.copied Memory.copyPage
  dsimp only
  rw [word, if_pos above, fill_word _ inPage]
  exact entered.words w inPage

theorem Unshared.split (sound : Sound L m held) (unshared : Unshared L held m d i m') : Split L m (d, i) m' := by
  have spares := sound.unshared_spares unshared
  rcases unshared with ⟨legal, rfl⟩ | ⟨p, legal, rfl⟩
  · exact ⟨legal.1, spares, .inl ⟨legal.2.1, legal.ptes sound⟩⟩
  · exact ⟨legal.1, spares, .inr ⟨p, legal.2.1, (sound.free legal.2.1 legal.2.2.1).2.1, legal.ptes sound,
      fun above w inPage => copied_page sound legal above inPage⟩⟩

theorem Split.other (split : Split L m x m') {y : Fin 1024 × Fin 1024} (apart : y ≠ x) : m'.ptes y = m.ptes y := by
  rcases split.page with ⟨-, ptes⟩ | ⟨p, -, -, ptes, -⟩ <;> rw [ptes, Function.update_of_ne apart]

theorem Split.mapped (split : Split L m x m') :
    present (m'.ptes x) = true ∧ writable (m'.ptes x) = true ∧ lowMem ≤ frame (m'.ptes x) := by
  rcases split.page with ⟨above, ptes⟩ | ⟨p, managed, -, ptes, -⟩
  · rw [ptes, Function.update_self, present_grant, writable_grant, frame_grant]
    exact ⟨split.here, rfl, above⟩
  · rw [ptes, Function.update_self, present_entry, writable_entry, frame_entry managed.physical.2]
    exact ⟨rfl, rfl, managed.physical.1⟩

theorem Split.present (split : Split L m x m') (y : Fin 1024 × Fin 1024) : present (m'.ptes y) = present (m.ptes y) := by
  by_cases same : y = x
  · rw [same, split.mapped.1, split.here]
  · rw [split.other same]

end Split

section Stored

structure Stored (m : Memory) (x : Fin 1024 × Fin 1024) (m' : Memory) : Prop where
  here : present (m.ptes x) = true
  write : writable (m.ptes x) = true
  above : lowMem ≤ frame (m.ptes x)
  ptes : m'.ptes = Function.update m.ptes x (touched (m.ptes x))
  elsewhere : ∀ f, f ≠ frame (m.ptes x) → m.InUse f → Untouched f m m'

theorem Sound.stored (sound : Sound L m held) {w : Nat} {value : BitVec 32}
    (legal : (Move.store d i w value).Legal L ⟨m, held⟩) :
    Stored m (d, i) ((Move.store d i w value).apply ⟨m, held⟩).memory := by
  have ptes := legal.ptes sound
  obtain ⟨here, write, above, inPage⟩ := legal
  have use : m.InUse (frame (m.pte d i)) :=
    ⟨Nat.lt_of_lt_of_le (by decide) above, sound.mapped_plain here above, mappings_pos d i here⟩
  exact ⟨here, write, above, ptes, fun f apart inUse => sound.laid.store_elsewhere here use inPage value apart inUse⟩

theorem Put.stored (put : Put m s j i address c m') (here : present (m.window s (j, i)) = true)
    (write : writable (m.window s (j, i)) = true) (above : lowMem ≤ frame (m.window s (j, i))) :
    Stored m (dirOf s j, i) m' :=
  ⟨here, write, above, put.ptes, put.elsewhere⟩

theorem Stored.other (stored : Stored m x m') {y : Fin 1024 × Fin 1024} (apart : y ≠ x) : m'.ptes y = m.ptes y := by
  rw [stored.ptes, Function.update_of_ne apart]

theorem Stored.own (stored : Stored m x m') : m'.ptes x = touched (m.ptes x) := by
  rw [stored.ptes, Function.update_self]

theorem Stored.present (stored : Stored m x m') (y : Fin 1024 × Fin 1024) : present (m'.ptes y) = present (m.ptes y) := by
  by_cases same : y = x
  · rw [same, stored.own, present_touched]
  · rw [stored.other same]

end Stored

section Others

/-- The other tasks have their pages still, with the same in them. -/
structure LeavesOthers (k k' : Kernel) (s : Fin 64) : Prop where
  task : ∀ q, q ≠ s → k.task q ≠ none → k'.task q = k.task q
  alike : ∀ q, q ≠ s → k.task q ≠ none → ∀ x, Alike (k'.memory.window q x) (k.memory.window q x)
  untouched : ∀ q, q ≠ s → k.task q ≠ none → ∀ x, present (k.memory.window q x) = true →
    k.memory.InUse (frame (k.memory.window q x)) → Untouched (frame (k.memory.window q x)) k.memory k'.memory

namespace LeavesOthers

theorem refl (k : Kernel) (s : Fin 64) : LeavesOthers k k s where
  task _ _ _ := rfl
  alike _ _ _ _ := .refl _
  untouched _ _ _ _ _ inUse := .refl inUse.plain

theorem inUse (leaves : LeavesOthers k k' s) (other : q ≠ s) (there : k.task q ≠ none) (x : Fin 16 × Fin 1024)
    (here : present (k.memory.window q x) = true) (inUse : k.memory.InUse (frame (k.memory.window q x))) :
    k'.memory.InUse (frame (k.memory.window q x)) where
  positive := inUse.positive
  plain := (leaves.untouched q other there x here inUse).plain
  mapped := by
    have alike := leaves.alike q other there x
    have here' := alike.1.trans here
    rw [← (alike.2 here').1]
    exact mappings_pos (dirOf q x.1) x.2 here'

theorem trans (first : LeavesOthers k k' s) (second : LeavesOthers k' k'' s) : LeavesOthers k k'' s where
  task q other there := by
    have same := first.task q other there
    exact (second.task q other (same ▸ there)).trans same
  alike q other there x := by
    have same := first.task q other there
    exact (second.alike q other (same ▸ there) x).trans (first.alike q other there x)
  untouched q other there x here inUse := by
    have there' : k'.task q ≠ none := (first.task q other there).symm ▸ there
    have alike := first.alike q other there x
    have here' := alike.1.trans here
    have frames := (alike.2 here').1
    have inUse' := first.inUse other there x here inUse
    have after := second.untouched q other there' x here' (frames.symm ▸ inUse')
    exact (first.untouched q other there x here inUse).trans (frames ▸ after)

theorem unseen (leaves : LeavesOthers k k' s) (exact : Exact L k) : Unseen k k' s := by
  intro q a other readable
  rcases readable with ⟨u, there, limit, here, inUse⟩
  rcases At.of_limit (s := q) limit (exact.tasks.fits q u there) with ⟨j, i, place⟩
  rw [place.pteOf] at here inUse
  have some : k.task q ≠ none := by
    rw [there]
    exact nofun
  exact place.byteAt_kept here (leaves.alike q other some (j, i)) (leaves.untouched q other some (j, i) here inUse)

end LeavesOthers

theorem Unchanged.leavesOthers (unchanged : Unchanged m m') (task : Fin 64 → Option Task) (s : Fin 64) :
    LeavesOthers ⟨m, task⟩ ⟨m', task⟩ s where
  task _ _ _ := rfl
  alike q _ _ x := by
    have same : m'.window q x = m.window q x := congrFun unchanged.ptes _
    exact same ▸ .refl _
  untouched _ _ _ _ _ inUse := unchanged.spares _ inUse

theorem Left.leavesOthers {u : Task} (left : Left k s t u k') : LeavesOthers k k' s where
  task q other _ := by rw [left.task, Function.update_of_ne other]
  alike q other _ x := congrFun (left.vacated.others q other) x ▸ .refl _
  untouched _ _ _ _ _ inUse := left.vacated.untouched _ inUse.positive inUse.plain

theorem Fetched.leavesOthers (fetched : Fetched L held files k s t address iCount j i m') :
    LeavesOthers k ⟨m', k.task⟩ s where
  task _ _ _ := rfl
  alike q other _ x := fetched.alike (x := (dirOf q x.1, x.2)) fun same => other (dirOf_inj (Prod.mk.inj same).1).1
  untouched _ _ _ _ _ inUse := fetched.spares _ inUse

theorem Stored.leavesOthers {task : Fin 64 → Option Task} (stored : Stored m (dirOf s j, i) m') (exact : Exact L ⟨m, task⟩) :
    LeavesOthers ⟨m, task⟩ ⟨m', task⟩ s where
  task _ _ _ := rfl
  alike q other _ x := by
    have kept : m'.window q x = m.window q x :=
      stored.other (y := (dirOf q x.1, x.2)) fun same => other (dirOf_inj (Prod.mk.inj same).1).1
    exact kept ▸ .refl _
  untouched q other _ x here inUse := by
    apply stored.elsewhere _ _ inUse
    intro same
    have sole := exact.orderly.sole (dirOf s j, i) (dirOf q x.1, x.2) stored.here stored.write stored.above here same
    exact other (dirOf_inj (Prod.mk.inj sole).1).1

end Others

/-- The address at which a call may fault for a missing page, and the users of the executable. -/
def Call.fault : Call → Option (Nat × Nat)
  | noPage address iCount | read address iCount | write address iCount _ => some (address, iCount)
  | _ => none

/-- The linear address at which a call makes a page writable and does not write to it. -/
def Call.split (s : Fin 64) : Call → Option Nat
  | wpPage address => some (Memory.base s + address)
  | writeVerify address => some address
  | _ => none

/-- A property that each part of a call keeps. The parts come after one another, a fault first. -/
structure Keeps (L : Layout) (files : Nat → File) (k : Kernel) (s : Fin 64) (t : Task) (call : Call)
    (I : Kernel → Prop) : Prop where
  idle : I k
  starved : ∀ m', Unchanged k.memory m' → Exact L ⟨m', k.task⟩ → I ⟨m', k.task⟩
  fetched : ∀ address iCount j i m', call.fault = some (address, iCount) → address < t.dataLimit → At s address j i →
    present (k.memory.window s (j, i)) = false → Fetched L k.taskPages files k s t address iCount j i m' →
    Exact L ⟨m', k.task⟩ → I ⟨m', k.task⟩
  split : ∀ address d i m', call.split s = some address → k.memory.pteOf address = k.memory.ptes (d, i) →
    Split L k.memory (d, i) m' → I ⟨m', k.task⟩
  stored : ∀ m m₂ m' j i, I ⟨m, k.task⟩ → Exact L ⟨m, k.task⟩ → m₂ = m ∨ Split L m (dirOf s j, i) m₂ →
    Exact L ⟨m₂, k.task⟩ → Stored m₂ (dirOf s j, i) m' → I ⟨m', k.task⟩
  left : ∀ m u k', I ⟨m, k.task⟩ → Exact L ⟨m, k.task⟩ → Left ⟨m, k.task⟩ s t u k' →
    (u = { t with zombie := true, executable := none } ∨
      ∃ inode brk codeLimit dataLimit, u = Kernel.image files t inode brk codeLimit dataLimit) → I k'
  released : ∀ k', t.zombie = true → k'.memory.words = k.memory.words → k'.task = Function.update k.task s none → I k'
  forked : ∀ k', t.zombie = false → Forks k s t k' → I k'

namespace Keeps

variable {I : Kernel → Prop} (keeps : Keeps L files k s t call I) (exact : Exact L k)

/-- How a fault may stop a call: without memory, and the task ends. -/
def Stuck (L : Layout) (k : Kernel) (I : Kernel → Prop) (stop : Stop) : Prop :=
  ∀ m', stop = .noMemory m' → Exact L ⟨m', k.task⟩ ∧ I ⟨m', k.task⟩

include keeps exact

theorem settle (there : k.task s = some t) {x : Except Stop Memory} {answer : Memory → Outcome}
    (ends : Ends (fun m' => I ⟨m', k.task⟩) (Stuck L k I) x) (returned : k.settle s t answer x = .ok (k', outcome)) :
    I k' := by
  rcases settled returned with ⟨m', same, rfl, -⟩ | ⟨m', same, -, gone⟩
  · exact ends.ok m' same
  · obtain ⟨exact', kept⟩ := ends.error _ same m' rfl
    have ended : Ends (Left ⟨m', k.task⟩ s t { t with zombie := true, executable := none }) Harmless
        (Kernel.doExit ⟨m', k.task⟩ s t) :=
      Sound.doExit_left (k := ⟨m', k.task⟩) exact'.orderly.sound (exact.tasks.fits s t there)
    exact keeps.left m' _ k' kept exact' (ended.ok k' gone) (.inl rfl)

theorem doNoPage (fault : call.fault = some (address, iCount)) (limit : address < t.dataLimit) (place : At s address j i)
    (absent : present (k.memory.window s (j, i)) = false) :
    Ends (fun m' => I ⟨m', k.task⟩ ∧ Exact L ⟨m', k.task⟩ ∧ present (m'.window s (j, i)) = true ∧
        (writable (m'.window s (j, i)) = true → lowMem ≤ frame (m'.window s (j, i))) ∧
        (k.donor s t address iCount = none → writable (m'.window s (j, i)) = true))
      (Stuck L k I) (k.doNoPage files s t address iCount) := by
  have sound : Sound L k.memory k.taskPages := exact.orderly.sound
  apply (sound.fetch exact.spare place absent).mono
  · intro m' fetched
    have exact' := exact.walked fetched.walk
    refine ⟨keeps.fetched address iCount j i m' fault limit place absent fetched exact', exact', ?_⟩
    rcases fetched.page with ⟨-, p, loaded⟩ | ⟨q, found, borrowed⟩
    · have entry : m'.window s (j, i) = entry p := by
        rw [Memory.window, loaded.ptes, windowOf_same, Function.update_self]
      rw [entry, present_entry, frame_entry loaded.managed.physical.2]
      exact ⟨rfl, fun _ => loaded.managed.physical.1, fun _ => writable_entry p⟩
    · have entry : m'.window s (j, i) = protect (k.memory.window q (j, i)) := by
        rw [Memory.window, borrowed.ptes, windowOf_other borrowed.apart.symm, windowOf_same, Function.update_self]
      rw [entry, present_protect, writable_protect]
      refine ⟨borrowed.here, fun set => absurd set Bool.false_ne_true, fun alone => ?_⟩
      rw [alone] at found
      cases found
  · rintro stop (⟨why, rfl, -⟩ | ⟨m₁, rfl, starved⟩) m' same
    · cases same
    · cases same
      obtain ⟨entries, walk⟩ := starved.walk
      have exact' := exact.walked walk
      exact ⟨exact', keeps.starved _ starved.toUnchanged exact'⟩

theorem touch (fault : call.fault = some (address, iCount)) (limit : address < t.dataLimit) (place : At s address j i) :
    Ends (fun m' => I ⟨m', k.task⟩ ∧ Exact L ⟨m', k.task⟩ ∧ present (m'.window s (j, i)) = true ∧
        (m' = k.memory ∨ present (k.memory.window s (j, i)) = false ∧
          (writable (m'.window s (j, i)) = true → lowMem ≤ frame (m'.window s (j, i))) ∧
          (k.donor s t address iCount = none → writable (m'.window s (j, i)) = true)))
      (Stuck L k I) (k.touch files s t address iCount) := by
  unfold Kernel.touch
  rw [place.pteOf]
  split
  · rename_i here
    exact .pure ⟨keeps.idle, exact, here, .inl rfl⟩
  · rename_i absent
    apply (keeps.doNoPage exact fault limit place (by simpa using absent)).mono _ fun _ stuck => stuck
    rintro m' ⟨kept, exact', here, high⟩
    exact ⟨kept, exact', here, .inr ⟨by simpa using absent, high⟩⟩

theorem unshare (dir : Fin 1024) (mapped : present (k.memory.ptes (dir, i)) = true)
    (kept : ∀ m', Split L k.memory (dir, i) m' → I ⟨m', k.task⟩) :
    Ends (fun m' => I ⟨m', k.task⟩) (Stuck L k I) (k.memory.unWpPage (k.memory.entryAt dir i)) := by
  have sound : Sound L k.memory k.taskPages := exact.orderly.sound
  apply (sound.unWpPage mapped).mono
  · exact fun m' unshared => kept m' (unshared.split sound)
  · rintro stop rfl m' same
    cases same
    exact ⟨exact, keeps.idle⟩

theorem writeWord (fault : call.fault = some (address, iCount)) (limit : address < t.dataLimit)
    (place : At s address j i) (value : BitVec 32)
    (user : present (k.memory.window s (j, i)) = true → writable (k.memory.window s (j, i)) = true →
      lowMem ≤ frame (k.memory.window s (j, i))) :
    Ends (fun m' => I ⟨m', k.task⟩) (Stuck L k I) (k.writeWord files s t address iCount value) := by
  have inPage : (Memory.base s + address) / 4 % 1024 < 1024 := Nat.mod_lt _ (by decide)
  unfold Kernel.writeWord
  apply (keeps.touch exact fault limit place).bind
  rintro m₁ ⟨kept, exact₁, here, either⟩
  have high : writable (m₁.window s (j, i)) = true → lowMem ≤ frame (m₁.window s (j, i)) := by
    rcases either with rfl | ⟨-, high, -⟩
    · exact user here
    · exact high
  have sound₁ : Sound L m₁ k.taskPages := exact₁.orderly.sound
  have store (m₂ : Memory) (before : m₂ = m₁ ∨ Split L m₁ (dirOf s j, i) m₂) (exact₂ : Exact L ⟨m₂, k.task⟩)
      (here : present (m₂.window s (j, i)) = true) (write : writable (m₂.window s (j, i)) = true)
      (above : lowMem ≤ frame (m₂.window s (j, i))) : I ⟨m₂.storeAt (Memory.base s + address) value, k.task⟩ := by
    have sound₂ : Sound L m₂ k.taskPages := exact₂.orderly.sound
    have legal : (Move.store (dirOf s j) i ((Memory.base s + address) / 4 % 1024) value).Legal L ⟨m₂, k.taskPages⟩ :=
      ⟨here, write, above, inPage⟩
    have stored := sound₂.stored legal
    rw [← place.storeAt] at stored
    exact keeps.stored m₁ m₂ _ j i kept exact₁ before exact₂ stored
  rw [place.pteOf]
  by_cases write : writable (m₁.window s (j, i)) = true
  · rw [if_pos write]
    exact .pure (store m₁ (.inl rfl) exact₁ here write (high write))
  · rw [if_neg write, Memory.doWpPage, place.entryWord]
    have faults : Ends (Unshared L k.taskPages m₁ (dirOf s j) i) (Stuck L k I)
        (m₁.unWpPage (m₁.entryAt (dirOf s j) i)) := by
      apply (sound₁.unWpPage here).mono fun _ unshared => unshared
      rintro stop rfl m' same
      cases same
      exact ⟨exact₁, kept⟩
    apply faults.bind
    intro m₂ unshared
    have split := unshared.split sound₁
    obtain ⟨here', write', above⟩ := split.mapped
    exact .pure (store m₂ (.inr split) (exact₁.walked unshared.walk) here' write' above)

theorem putFsByte (reads : call = .read address iCount) (there : k.task s = some t)
    (own : ∀ j i, At s address j i → present (k.memory.window s (j, i)) = true →
      writable (k.memory.window s (j, i)) = true ∧ lowMem ≤ frame (k.memory.window s (j, i)))
    (alone : present (k.memory.pteOf (Memory.base s + address)) = false → k.donor s t address iCount = none)
    (returned : k.putFsByte files s t address iCount c = .ok (k', outcome)) : I k' := by
  have fits := exact.tasks.fits s t there
  have fault : call.fault = some (address, iCount) := by
    rw [reads]
    rfl
  unfold Kernel.putFsByte at returned
  split at returned
  · obtain ⟨k₁, gone, same⟩ := returned_map returned
    cases same
    have sound : Sound L k.memory k.taskPages := exact.orderly.sound
    exact keeps.left k.memory _ k' keeps.idle exact ((sound.doExit_left fits).ok k' gone) (.inl rfl)
  · rename_i limit
    have limit : address < t.dataLimit := by omega
    obtain ⟨j, i, place⟩ := At.of_limit (s := s) limit fits
    rw [place.pteOf] at alone
    apply keeps.settle exact there _ returned
    apply (keeps.touch exact fault limit place).map
    rintro m₁ ⟨kept, exact₁, here, either⟩
    have both : writable (m₁.window s (j, i)) = true ∧ lowMem ≤ frame (m₁.window s (j, i)) := by
      rcases either with rfl | ⟨absent, high, write⟩
      · exact own j i place here
      · exact ⟨write (alone absent), high (write (alone absent))⟩
    have put : Put m₁ s j i address c (m₁.putByteAt (Memory.base s + address) c) :=
      exact₁.orderly.sound.laid.put place here (exact₁.inUse (x := (dirOf s j, i)) here both.2) c
    exact keeps.stored m₁ m₁ _ j i kept exact₁ (.inl rfl) exact₁ (put.stored here both.1 both.2)

theorem perform (there : k.task s = some t)
    (blank : ∀ nr, nr ≠ 0 → k.task nr = none → ∀ x, present (k.memory.window nr x) = false)
    (ready : call.Ready k s t) (plain : call.Plain) (returned : call.perform files k s t = .ok (k', outcome)) : I k' := by
  have sound : Sound L k.memory k.taskPages := exact.orderly.sound
  have fits := exact.tasks.fits s t there
  cases call with
  | fork =>
    have forks := sound.forks there (exact.room s) fits blank
    exact keeps.forked k' ready.1 (forks.ok _ returned)
  | exit =>
    obtain ⟨k₁, gone, same⟩ := returned_map returned
    cases same
    exact keeps.left k.memory _ k' keeps.idle exact ((sound.doExit_left fits).ok k' gone) (.inl rfl)
  | release =>
    obtain ⟨k₁, freed, same⟩ := returned_map returned
    cases same
    unfold Kernel.release at freed
    split at freed
    · cases freed
    · obtain ⟨m', given, same⟩ := returned_map freed
      subst same
      exact keeps.released _ ready.1 ((freePage_words k.memory t.page).ok m' given) rfl
  | exec inode brk codeLimit dataLimit =>
    obtain ⟨k₁, gone, same⟩ := returned_map returned
    cases same
    exact keeps.left k.memory _ k' keeps.idle exact ((sound.doExecve_left fits inode brk codeLimit dataLimit).ok k' gone)
      (.inr ⟨_, _, _, _, rfl⟩)
  | noPage address iCount =>
    obtain ⟨j, i, place⟩ := At.of_limit (s := s) ready.2.1 fits
    have fault := keeps.doNoPage exact rfl ready.2.1 place (place.pteOf k.memory ▸ ready.2.2)
    exact keeps.settle exact there (fault.mono (fun _ kept => kept.1) fun _ stuck => stuck) returned
  | wpPage address =>
    obtain ⟨j, i, place⟩ := At.of_limit (s := s) ready.2.1 fits
    have here : present (k.memory.window s (j, i)) = true := place.pteOf k.memory ▸ ready.2.2.1
    refine keeps.settle exact there (x := k.memory.doWpPage (Memory.base s + address)) ?_ returned
    unfold Memory.doWpPage
    rw [place.entryWord]
    exact keeps.unshare exact _ here fun m' split => keeps.split _ _ _ m' rfl (place.pteOf k.memory) split
  | writeVerify address =>
    refine keeps.settle exact there (x := k.memory.writeVerify address) ?_ returned
    have dir : address / 0x400000 < 1024 := by
      have linear := ready.2
      omega
    have index : Memory.pageIndex address < 1024 := Nat.mod_lt _ (by decide)
    unfold Memory.writeVerify
    split
    · rename_i table
      split
      · rename_i bits
        have mapped : present (k.memory.pte (address / 0x400000) (Memory.pageIndex address)) = true := by
          rw [pte_of_table table]
          exact present_read_only bits
        exact keeps.unshare exact (i := ⟨_, index⟩) ⟨_, dir⟩ mapped fun m' split => keeps.split _ _ _ m' rfl rfl split
      · exact .pure keeps.idle
    · exact .pure keeps.idle
  | read address iCount =>
    obtain ⟨j, i, place⟩ := At.of_limit (s := s) ready.2 fits
    have touch := keeps.touch exact rfl ready.2 place
    exact keeps.settle exact there (touch.mono (fun _ kept => kept.1) fun _ stuck => stuck) returned
  | write address iCount value =>
    obtain ⟨j, i, place⟩ := At.of_limit (s := s) ready.2.1 fits
    exact keeps.settle exact there (keeps.writeWord exact rfl ready.2.1 place value (place.pteOf k.memory ▸ ready.2.2)) returned
  | shmget key size => exact plain.elim
  | shmat shmid => exact plain.elim

end Keeps

section Settled

/-- Only live tasks have pages, within their segments. -/
def Settled (k : Kernel) : Prop :=
  ∀ s, s ≠ 0 → ∀ x, present (k.memory.window s x) = true →
    ∃ t, k.task s = some t ∧ t.zombie = false ∧ x.1.val < Memory.dirs t.dataLimit

theorem Settled.blank (settled : Settled k) {nr : Fin 64} (other : nr ≠ 0) (empty : k.task nr = none)
    (x : Fin 16 × Fin 1024) : present (k.memory.window nr x) = false := by
  by_contra here
  obtain ⟨t, there, -⟩ := settled nr other x (by simpa using here)
  rw [empty] at there
  cases there

theorem Settled.kept (settled : Settled k) (same : ∀ x, present (m'.ptes x) = present (k.memory.ptes x)) :
    Settled ⟨m', k.task⟩ := fun s other x here => settled s other x ((same (dirOf s x.1, x.2)).symm.trans here)

theorem Settled.left (settled : Settled k) (there : k.task s = some t) {u : Task} (left : Left k s t u k') :
    Settled k' := by
  intro r other x here
  by_cases same : r = s
  · subst same
    by_cases below : x.1.val < Memory.dirs t.dataLimit
    · rw [left.vacated.gone x below] at here
      cases here
    · rw [left.vacated.rest x (by omega)] at here
      obtain ⟨t', there', -, inside⟩ := settled r other x here
      rw [there] at there'
      cases there'
      omega
  · rw [left.vacated.others r same] at here
    rw [left.task, Function.update_of_ne same]
    exact settled r other x here

theorem Settled.released (settled : Settled k) (there : k.task s = some t) (dead : t.zombie = true)
    (words : k'.memory.words = k.memory.words) (task : k'.task = Function.update k.task s none) : Settled k' := by
  intro r other x here
  rw [window_words words] at here
  obtain ⟨u, there', alive', inside⟩ := settled r other x here
  have apart : r ≠ s := by
    rintro rfl
    rw [there] at there'
    cases there'
    rw [dead] at alive'
    cases alive'
  exact ⟨u, by rw [task, Function.update_of_ne apart, there'], alive', inside⟩

theorem Settled.forked (settled : Settled k) (there : k.task s = some t) (alive : t.zombie = false)
    (forks : Forks k s t k') : Settled k' := by
  cases forks with
  | idle => exact settled
  | @failed nr m' empty branched =>
    intro r other x here
    by_cases child : r = nr
    · subst child
      cases branched.child x here
    · by_cases parent : r = s
      · subst parent
        exact settled r other x ((branched.source x).1.symm.trans here)
      · have same : m'.window r = k.memory.window r := branched.others r parent child
        exact settled r other x (same ▸ here)
  | @forked nr p m' empty _ branched =>
    intro r other x here
    by_cases child : r = nr
    · subst child
      exact ⟨_, Function.update_self _ _ _, alive, branched.child x here⟩
    · have task : Function.update k.task nr (some { t with page := p }) r = k.task r := Function.update_of_ne child _ _
      show ∃ u, Function.update k.task nr (some { t with page := p }) r = some u ∧ _
      rw [task]
      by_cases parent : r = s
      · subst parent
        exact settled r other x ((branched.source x).1.symm.trans here)
      · have same : m'.window r = k.memory.window r := branched.others r parent child
        exact settled r other x (same ▸ here)

theorem Settled.keeps (settled : Settled k) (there : k.task s = some t) (alive : ∀ a, call.fault = some a → t.zombie = false) :
    Keeps L files k s t call Settled where
  idle := settled
  starved m' unchanged _ := settled.kept fun x => congrArg present (congrFun unchanged.ptes x)
  fetched address iCount j i m' fault limit place absent fetched _ := by
    intro r other x here
    by_cases own : (dirOf r x.1, x.2) = (dirOf s j, i)
    · obtain ⟨same, index⟩ := Prod.mk.inj own
      obtain ⟨rfl, dir⟩ := dirOf_inj same
      refine ⟨t, there, alive _ fault, ?_⟩
      have inside := place.dir
      rw [dir]
      unfold Memory.dirs
      omega
    · exact settled r other x ((fetched.alike own).1.symm.trans here)
  split _ _ _ _ _ _ split := settled.kept split.present
  stored m m₂ m' j i kept _ before _ stored := by
    have first : ∀ x, present (m₂.ptes x) = present (m.ptes x) := by
      rcases before with rfl | split
      · exact fun _ => rfl
      · exact split.present
    have kept' : Settled ⟨m', k.task⟩ := Settled.kept (k := ⟨m, k.task⟩) kept fun x => (stored.present x).trans (first x)
    exact kept'
  left m u k' kept _ left _ := Settled.left (k := ⟨m, k.task⟩) kept there left
  released k' dead words task := settled.released there dead words task
  forked k' live forks := settled.forked there live forks

theorem Settled.step {e : Event} (settled : Settled k) (exact : Exact L k) (plain : e.call.Plain)
    (step : (kernel files L).step k e k') : Settled k' := by
  obtain ⟨t, there, ready, performed⟩ := step
  have alive (a : Nat × Nat) (fault : e.call.fault = some a) : t.zombie = false := by
    have zombie := ready.1
    cases same : e.call with
    | release =>
      rw [same] at fault
      cases fault
    | _ => rw [zombie, same]
  have keeps : Keeps L files k e.caller t e.call Settled := settled.keeps there alive
  exact keeps.perform exact there (fun nr other empty => settled.blank other empty) ready plain performed

theorem Booted.settled (booted : Booted L k) : Settled k := by
  intro s other x here
  rw [booted.blank other x] at here
  cases here

theorem settled_of_reaches (reached : ((kernel files L).restrict fun _ e => e.call.Plain).Reaches k) :
    Exact L k ∧ Settled k := by
  apply reached.invariant (I := fun k => Exact L k ∧ Settled k)
  · exact fun k (booted : Booted L k) => ⟨booted.exact, booted.settled⟩
  · exact fun k e k' kept step => ⟨kept.1.step step.1 step.2, kept.2.step kept.1 step.1 step.2⟩

end Settled

end Linux011.Mm

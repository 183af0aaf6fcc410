import Linux011.Mm.Demand

namespace Linux011.Mm

open Linux011.Library

variable {L : Layout} {files : Nat → File} {k k' k'' : Kernel} {s q nr : Fin 64} {t u : Task} {m m' : Memory}
  {held : Nat → Nat} {j : Fin 16} {i : Fin 1024} {a n address iCount : Nat} {call : Call} {outcome : Outcome} {c : BitVec 8}

namespace Kernel

/-- What a read of a task returns, whose fault brings the page if it is missing: nothing where the task is killed, or
    the page is below `LOW_MEM`. -/
def reads (files : Nat → File) (k : Kernel) (s : Fin 64) (a iCount : Nat) : Option (BitVec 8) :=
  match k.task s with
  | none => none
  | some t =>
    match k.touch files s t a iCount with
    | .error _ => none
    | .ok m =>
      if a < t.dataLimit ∧ lowMem ≤ frame (m.pteOf (Memory.base s + a)) then some (m.byteAt (Memory.base s + a)) else none

/-- The memory of a task as it is meant to be, apart from those of the others: what it has in its pages, and what a
    fault demands for those that are missing. -/
def contents (files : Nat → File) (k : Kernel) (s : Fin 64) (t : Task) (a : Nat) : BitVec 8 :=
  if present (k.memory.pteOf (Memory.base s + a)) then k.memory.byteAt (Memory.base s + a)
  else byte (t.demand files (a / 4096 * 4096) (a / 4 % 1024)) (a % 4)

/-- The address is not in a page of the kernel. -/
def Above (k : Kernel) (s : Fin 64) (a : Nat) : Prop :=
  present (k.memory.pteOf (Memory.base s + a)) = true → lowMem ≤ frame (k.memory.pteOf (Memory.base s + a))

end Kernel

section Contents

theorem contents_eq (place : At s a j i) (place' : At q a j i) (demand : u.demand files = t.demand files)
    (here : present (k'.memory.window q (j, i)) = present (k.memory.window s (j, i)))
    (words : present (k.memory.window s (j, i)) = true → ∀ w < 1024,
      k'.memory.words (tableWord (frame (k'.memory.window q (j, i))) w) =
        k.memory.words (tableWord (frame (k.memory.window s (j, i))) w)) :
    k'.contents files q u a = k.contents files s t a := by
  unfold Kernel.contents
  rw [place.pteOf, place'.pteOf, here, demand]
  split
  · rename_i there
    rw [place.byteAt, place'.byteAt, words there _ (Nat.mod_lt _ (by decide))]
  · rfl

theorem Alike.contents (exact : Exact L k) (place : At s a j i) (place' : At q a j i) (above : k.Above s a)
    (demand : u.demand files = t.demand files) (alike : Alike (k'.memory.window q (j, i)) (k.memory.window s (j, i)))
    (untouched : k.memory.InUse (frame (k.memory.window s (j, i))) →
      Untouched (frame (k.memory.window s (j, i))) k.memory k'.memory) :
    k'.contents files q u a = k.contents files s t a := by
  unfold Kernel.Above at above
  rw [place.pteOf] at above
  refine contents_eq place place' demand alike.1 fun here w inPage => ?_
  rw [(alike.2 (alike.1.trans here)).1]
  exact (untouched (exact.inUse (x := (dirOf s j, i)) here (above here))).words w inPage

end Contents

section Own

/-- The other tasks have their pages still, or copies of them. -/
structure KeepsOthers (k k' : Kernel) (s : Fin 64) : Prop where
  task : ∀ q, q ≠ s → k.task q ≠ none → k'.task q = k.task q
  here : ∀ q, q ≠ s → k.task q ≠ none → ∀ x, present (k'.memory.window q x) = present (k.memory.window q x)
  inherits : ∀ q, q ≠ s → k.task q ≠ none → ∀ x, present (k.memory.window q x) = true →
    Inherits k.memory k'.memory q x

theorem LeavesOthers.keepsOthers (leaves : LeavesOthers k k' s) (exact : Exact L k) : KeepsOthers k k' s where
  task := leaves.task
  here q other there x := (leaves.alike q other there x).1
  inherits q other there x here := by
    have alike := leaves.alike q other there x
    exact exact.inherits (alike.1.trans here) alike fun inUse => leaves.untouched q other there x here inUse

theorem KeepsOthers.trans (first : KeepsOthers k k' s) (second : KeepsOthers k' k'' s) : KeepsOthers k k'' s where
  task q other there := by
    have same := first.task q other there
    exact (second.task q other (same ▸ there)).trans same
  here q other there x := by
    have there' : k'.task q ≠ none := (first.task q other there).symm ▸ there
    exact (second.here q other there' x).trans (first.here q other there x)
  inherits q other there x here := by
    have there' : k'.task q ≠ none := (first.task q other there).symm ▸ there
    have one := first.inherits q other there x here
    have two := second.inherits q other there' x ((first.here q other there x).trans here)
    refine ⟨here, fun above => ?_⟩
    rcases one.2 above with ⟨above', words⟩
    rcases two.2 above' with ⟨above'', words'⟩
    exact ⟨above'', fun w inPage => (words' w inPage).trans (words w inPage)⟩

theorem Split.keepsOthers {x : Fin 1024 × Fin 1024} (split : Split L k.memory x m') (exact : Exact L k) (s : Fin 64) :
    KeepsOthers k ⟨m', k.task⟩ s where
  task _ _ _ := rfl
  here q _ _ y := split.present (dirOf q y.1, y.2)
  inherits q _ _ y here := split.inherits exact ((split.present (dirOf q y.1, y.2)).trans here)

theorem Forks.leavesOthers (forks : Forks k s t k') : LeavesOthers k k' s := by
  cases forks with
  | idle => exact .refl k s
  | @failed nr m' empty branched =>
    refine ⟨fun _ _ _ => rfl, fun q other there x => ?_, fun _ _ _ _ _ inUse => branched.spares _ inUse⟩
    have child : q ≠ nr := by
      rintro rfl
      exact there empty
    have kept : m'.window q = k.memory.window q := branched.others q other child
    exact congrFun kept x ▸ .refl _
  | @forked nr p m' empty _ branched =>
    have child : ∀ q, k.task q ≠ none → q ≠ nr := by
      rintro q there rfl
      exact there empty
    refine ⟨fun q _ there => Function.update_of_ne (child q there) _ _, fun q other there x => ?_,
      fun _ _ _ _ _ inUse => branched.spares _ inUse⟩
    have kept : m'.window q = k.memory.window q := branched.others q other (child q there)
    exact congrFun kept x ▸ .refl _

theorem LeavesOthers.released (words : k'.memory.words = k.memory.words) (task : k'.task = Function.update k.task s none) :
    LeavesOthers k k' s where
  task q other _ := by rw [task, Function.update_of_ne other]
  alike q _ _ x := congrFun (window_words words q) x ▸ .refl _
  untouched _ _ _ _ _ inUse := .of_words inUse.plain words

theorem KeepsOthers.keeps (exact : Exact L k) : Keeps L files k s t call fun k' => KeepsOthers k k' s where
  idle := (LeavesOthers.refl k s).keepsOthers exact
  starved _ unchanged _ := (unchanged.leavesOthers k.task s).keepsOthers exact
  fetched _ _ _ _ _ _ _ _ _ fetched _ := fetched.leavesOthers.keepsOthers exact
  split _ _ _ _ _ _ split := split.keepsOthers exact s
  stored m m₂ m' j i kept exact₁ before exact₂ stored := by
    have later : KeepsOthers ⟨m₂, k.task⟩ ⟨m', k.task⟩ s := (stored.leavesOthers exact₂).keepsOthers exact₂
    rcases before with rfl | split
    · exact kept.trans later
    · exact (kept.trans (split.keepsOthers (k := ⟨m, k.task⟩) exact₁ s)).trans later
  left _ _ _ kept exact₁ left _ := kept.trans (left.leavesOthers.keepsOthers exact₁)
  released _ _ words task := (LeavesOthers.released words task).keepsOthers exact
  forked _ _ forks := forks.leavesOthers.keepsOthers exact

theorem KeepsOthers.contents (keeps : KeepsOthers k k' s) (exact : Exact L k) (other : q ≠ s) (there : k.task q = some u)
    (limit : a < u.dataLimit) (above : k.Above q a) : k'.contents files q u a = k.contents files q u a := by
  obtain ⟨j, i, place⟩ := At.of_limit (s := q) limit (exact.tasks.fits q u there)
  have some' : k.task q ≠ none := by
    rw [there]
    exact Option.some_ne_none u
  refine contents_eq place place rfl (keeps.here q other some' (j, i)) fun here w inPage => ?_
  unfold Kernel.Above at above
  rw [place.pteOf] at above
  exact ((keeps.inherits q other some' (j, i) here).2 (above here)).2 w inPage

end Own

section Fork

/-- The first task has the 640 KB of `INIT_TASK`. -/
def Kernel.FirstLimit (k : Kernel) : Prop := ∀ t, k.task 0 = some t → t.dataLimit ≤ 0xA0000

theorem Kernel.FirstLimit.keeps (first : k.FirstLimit) : Keeps L files k s t call Kernel.FirstLimit where
  idle := first
  starved _ _ _ := first
  fetched _ _ _ _ _ _ _ _ _ _ _ := first
  split _ _ _ _ _ _ _ := first
  stored _ _ _ _ _ _ _ _ _ _ := first
  left m u k' _ _ left _ t there := by
    rw [left.task, Function.update_of_ne left.other.symm] at there
    exact first t there
  released k' _ _ task t there := by
    rw [task] at there
    by_cases same : 0 = s
    · rw [same, Function.update_self] at there
      cases there
    · rw [Function.update_of_ne same] at there
      exact first t there
  forked k' _ forks t there := by
    cases forks with
    | idle => exact first t there
    | failed => exact first t there
    | @forked nr p m' _ other _ =>
      have kept : k.task 0 = some t := by
        rw [← there]
        exact (Function.update_of_ne other.symm _ _).symm
      exact first t kept

theorem Forks.source (forks : Forks k s t k') (there : k.task s = some t) :
    k'.task s = some t ∧ ∀ x, Alike (k'.memory.window s x) (k.memory.window s x) := by
  cases forks with
  | idle => exact ⟨there, fun _ => .refl _⟩
  | failed _ branched => exact ⟨there, branched.source⟩
  | @forked nr p m' empty _ branched =>
    have parent : s ≠ nr := by
      rintro rfl
      rw [there] at empty
      cases empty
    exact ⟨(Function.update_of_ne parent _ _).trans there, branched.source⟩

theorem Forks.above (forks : Forks k s t k') (exact : Exact L k) (there : k.task s = some t) (limit : a < t.dataLimit)
    (above : k'.Above s a) : k.Above s a := by
  obtain ⟨j, i, place⟩ := At.of_limit (s := s) limit (exact.tasks.fits s t there)
  have alike := (forks.source there).2 (j, i)
  unfold Kernel.Above at *
  rw [place.pteOf] at *
  intro here
  have here' := alike.1.trans here
  rw [← (alike.2 here').1]
  exact above here'

theorem Forks.contents (forks : Forks k s t k') (exact : Exact L k) (first : k.FirstLimit) (there : k.task s = some t)
    (empty : k.task nr = none) (new : k'.task nr = some u) (limit : a < t.dataLimit) (above : k.Above s a) :
    k'.contents files nr u a = k.contents files s t a ∧ k'.contents files s t a = k.contents files s t a := by
  cases forks with
  | idle | failed =>
    rw [empty] at new
    cases new
  | @forked child p m' blank other branched =>
    have same : nr = child := by
      by_contra apart
      have old : k.task nr = some u := (Function.update_of_ne apart _ _).symm.trans new
      rw [empty] at old
      cases old
    subst same
    cases (Function.update_self _ _ _).symm.trans new
    obtain ⟨j, i, place⟩ := At.of_limit (s := s) limit (exact.tasks.fits s t there)
    have place' : At nr a j i := ⟨place.dir, place.index⟩
    have dir : j.val < Memory.dirs t.dataLimit := by
      have dir := place.dir
      unfold Memory.dirs
      omega
    have index : i.val < copiedEntries s := by
      unfold copiedEntries
      split
      · rename_i zero
        have slot : s = 0 := by
          unfold Memory.base at zero
          exact Fin.ext (by omega)
        subst slot
        have limit' := first t there
        have index := place.index
        unfold Memory.pageIndex at index
        omega
      · exact i.isLt
    constructor
    · have alike := (branched.alike (j, i) dir index).trans (branched.source (j, i))
      exact alike.contents exact place place' above rfl fun inUse => branched.spares _ inUse
    · exact (branched.source (j, i)).contents exact place place above rfl fun inUse => branched.spares _ inUse

end Fork

namespace Demanding

variable {x x' : Demanding} {e : Event}

/-- Runs without shared pages and stores of the kernel. -/
def separate (files : Nat → File) (L : Layout) : Machine Demanding Event where
  init x := (Booted L x.kernel ∧ ∀ r i, x.been r i = false) ∧ x.kernel.FirstLimit
  step x e x' := Step files x e x' ∧ ∃ call, e.act = .call call

/-- A read that borrows no page that has been dirty, and what it returns. -/
def Reads (files : Nat → File) (x : Demanding) (s : Fin 64) (a iCount : Nat) (c : BitVec 8) : Prop :=
  x.Fair ⟨s, .call (.read a iCount), .done⟩ ∧ x.kernel.reads files s a iCount = some c

structure Separate (L : Layout) (files : Nat → File) (x : Demanding) : Prop extends Kept L files x where
  first : x.kernel.FirstLimit

theorem Separate.step (apart : Separate L files x) (fair : x.Fair e) (step : (separate files L).step x e x') :
    Separate L files x' := by
  refine ⟨apart.toKept.step fair step.1, ?_⟩
  rcases step with ⟨⟨-, t, there, step⟩, call, same⟩
  rw [same] at step
  rcases step with ⟨plain, ready, performed⟩
  have keeps : Keeps L files x.kernel e.caller t call Kernel.FirstLimit := apart.first.keeps
  exact keeps.perform apart.exact there (fun nr other empty => apart.settled.blank other empty) ready plain performed

theorem separate_of_reaches (reached : ((separate files L).restrict Fair).Reaches x) : Separate L files x := by
  apply reached.invariant
  · rintro x ⟨clean, first⟩
    exact ⟨kept_of_booted clean.1, first⟩
  · exact fun x e x' apart step => apart.step step.1 step.2

theorem Kept.reads (kept : Kept L files x) (reads : x.Reads files s a n c) : ∃ t, x.kernel.task s = some t ∧
    a < t.dataLimit ∧ x.kernel.Above s a ∧ c = x.kernel.contents files s t a := by
  rcases reads with ⟨fair, reads⟩
  unfold Kernel.reads at reads
  split at reads
  · cases reads
  · rename_i t there
    split at reads
    · cases reads
    · rename_i m' touched
      split at reads
      · rename_i inside
        cases reads
        refine ⟨t, there, inside.1, ?_⟩
        obtain ⟨j, i, place⟩ := At.of_limit (s := s) inside.1 (kept.exact.tasks.fits s t there)
        unfold Kernel.touch at touched
        unfold Kernel.contents Kernel.Above
        split at touched
        · rename_i here
          cases touched
          rw [if_pos here]
          exact ⟨fun _ => inside.2, rfl⟩
        · rename_i missing
          have absent := Bool.eq_false_of_not_eq_true missing
          have words := (kept.fetches there inside.1 absent (fair t there a n rfl absent) touched).2.2
          rw [if_neg missing, place.byteAt]
          rw [place.pteOf] at words
          exact ⟨fun here => absurd here missing, by rw [words _ (Nat.mod_lt _ (by decide))]⟩
      · cases reads

/-- Each task has a memory of its own: a new one begins with what its parent reads, no call of another task shows in
    it, and a page that may be written to is in one memory only. -/
theorem private_memories (reached : ((separate files L).restrict Fair).Reaches x) (fair : x.Fair e)
    (step : (separate files L).step x e x') :
    (∀ y z, present (x.kernel.memory.ptes y) = true → writable (x.kernel.memory.ptes y) = true →
      lowMem ≤ frame (x.kernel.memory.ptes y) → present (x.kernel.memory.ptes z) = true →
      frame (x.kernel.memory.ptes z) = frame (x.kernel.memory.ptes y) → z = y) ∧
    (∀ nr, e.act = .call .fork → x.kernel.task nr = none → x'.kernel.task nr ≠ none → ∀ a n n' c d,
      x'.Reads files nr a n c → x'.Reads files e.caller a n' d ∨ x.Reads files e.caller a n' d → c = d) ∧
    ∀ q, q ≠ e.caller → x.kernel.task q ≠ none → ∀ a n n' c d,
      x.Reads files q a n c → x'.Reads files q a n' d → c = d := by
  have apart := separate_of_reaches reached
  have apart' := apart.step fair step
  rcases step with ⟨⟨-, t, there, step⟩, call, same⟩
  rw [same] at step
  rcases step with ⟨plain, ready, performed⟩
  have blank (nr : Fin 64) (other : nr ≠ 0) (empty : x.kernel.task nr = none) := apart.settled.blank other empty
  refine ⟨apart.exact.orderly.sole, ?_, ?_⟩
  · intro nr forks empty new a n n' c d reads reads'
    rw [same] at forks
    cases forks
    have forks : Forks x.kernel e.caller t x'.kernel :=
      (apart.exact.orderly.sound.forks there (apart.exact.room e.caller) (apart.exact.tasks.fits _ t there) blank).ok _
        performed
    obtain ⟨u, there', -, -, rfl⟩ := apart'.toKept.reads reads
    rcases reads' with reads' | reads'
    · obtain ⟨t', there'', limit, above, rfl⟩ := apart'.toKept.reads reads'
      rw [(forks.source there).1] at there''
      cases there''
      have same : x'.kernel.contents files nr u a = x.kernel.contents files e.caller t a ∧
          x'.kernel.contents files e.caller t a = x.kernel.contents files e.caller t a :=
        forks.contents apart.exact apart.first there empty there' limit (forks.above apart.exact there limit above)
      exact same.1.trans same.2.symm
    · obtain ⟨t', there'', limit, above, rfl⟩ := apart.toKept.reads reads'
      rw [there] at there''
      cases there''
      exact (forks.contents apart.exact apart.first there empty there' limit above).1
  · intro q other some' a n n' c d reads reads'
    obtain ⟨u, there', limit, above, rfl⟩ := apart.toKept.reads reads
    obtain ⟨u', there'', -, -, rfl⟩ := apart'.toKept.reads reads'
    have keeps : Keeps L files x.kernel e.caller t call fun k' => KeepsOthers x.kernel k' e.caller :=
      KeepsOthers.keeps apart.exact
    have keeps := keeps.perform apart.exact there blank ready plain performed
    rw [keeps.task q other some', there'] at there''
    cases there''
    exact (keeps.contents apart.exact other there' limit above).symm

section Example

theorem separated {e : Mm.Event} (step : (Mm.kernel files L).step k e k') (plain : e.call.Plain) (been : Marks) :
    (separate files L).step ⟨k, been⟩ ⟨e.caller, .call e.call, e.outcome⟩ ⟨k', been.next k k' e.caller⟩ :=
  ⟨called step plain been, e.call, rfl⟩

theorem fair_mapped (here : present (x.kernel.memory.pteOf (Memory.base s + a)) = true)
    (faults : ∀ b m, call.fault = some (b, m) → b = a) : x.Fair ⟨s, .call call, outcome⟩ := by
  intro t _ b m fault absent
  cases faults b m fault
  exact absurd (here.symm.trans absent) nofun

theorem fair_alone (there : x.kernel.task s = some t) (alone : x.kernel.donor s t a n = none)
    (faults : ∀ b m, call.fault = some (b, m) → b = a ∧ m = n) : x.Fair ⟨s, .call call, outcome⟩ := by
  intro t' there' b m fault _ q j i _ found
  cases there.symm.trans there'
  rcases faults b m fault with ⟨rfl, rfl⟩
  exact absurd (alone.symm.trans found) nofun

theorem twin_separate : ((separate zeroImage sixteenMegabytes).restrict Fair).Reaches ⟨twinKernel, twinMarks⟩ := by
  have fork : (Mm.kernel zeroImage sixteenMegabytes).step smallKernel ⟨0, .fork, .returned 1⟩ childKernel :=
    next_getD (by decide +kernel)
  have twin : (Mm.kernel zeroImage sixteenMegabytes).step imageKernel ⟨1, .fork, .returned 2⟩ twinKernel :=
    next_getD (by decide +kernel)
  have limit : smallKernel.FirstLimit := by
    rintro t there
    cases there
    decide
  have first : ((separate zeroImage sixteenMegabytes).restrict Fair).step ⟨smallKernel, fun _ _ => false⟩ _ _ :=
    ⟨fair_unfaulted rfl _ _, separated fork trivial _⟩
  exact ⟨⟨smallKernel, fun _ _ => false⟩, _, ⟨⟨smallKernel_booted, fun _ _ => rfl⟩, limit⟩,
    ((Machine.Run.one first).snoc ⟨fair_unfaulted rfl _ _, separated image_step trivial _⟩).snoc
      ⟨fair_unfaulted rfl _ _, separated twin trivial _⟩⟩

/-- The new task writes to the page it has from its parent. -/
def partedKernel : Kernel := (offspringKernel.next zeroImage ⟨3, .write 0 3 66, .done⟩).getD offspringKernel

/-- The child reads what its parent wrote, the parent still reads it when the child has written, and another task reads
    the executable all the time. -/
theorem offspring_private : offspringKernel.reads zeroImage 3 0 3 = some 65 ∧ partedKernel.reads zeroImage 1 0 3 = some 65 ∧
    partedKernel.reads zeroImage 2 0 3 = some 0 ∧ partedKernel.reads zeroImage 3 0 3 = some 66 := by
  have write : (Mm.kernel zeroImage sixteenMegabytes).step twinKernel ⟨1, .write 0 2 65, .done⟩ dirtyKernel :=
    next_getD (by decide +kernel)
  have part : (Mm.kernel zeroImage sixteenMegabytes).step offspringKernel ⟨3, .write 0 3 66, .done⟩ partedKernel :=
    next_getD (by decide +kernel)
  have first : twinKernel.task 1 = some imageTask ∧ twinKernel.donor 1 imageTask 0 2 = none := by decide +kernel
  have mapped : present (dirtyKernel.memory.pteOf (Memory.base (1 : Fin 64) + 0)) = true ∧
      present (offspringKernel.memory.pteOf (Memory.base (1 : Fin 64) + 0)) = true ∧
      present (offspringKernel.memory.pteOf (Memory.base (3 : Fin 64) + 0)) = true ∧
      present (partedKernel.memory.pteOf (Memory.base (1 : Fin 64) + 0)) = true := by
    decide +kernel
  have second : offspringKernel.task 2 = some twinTask ∧ offspringKernel.donor 2 twinTask 0 3 = none ∧
      partedKernel.task 2 = some twinTask ∧ partedKernel.donor 2 twinTask 0 3 = none := by
    decide +kernel
  have tasks : (dirtyKernel.task 3).isNone = true ∧ (offspringKernel.task 3).isSome = true ∧
      (offspringKernel.task 1).isSome = true ∧ (offspringKernel.task 2).isSome = true := by
    decide +kernel
  have before : dirtyKernel.reads zeroImage 1 0 3 = some 65 ∧ offspringKernel.reads zeroImage 1 0 3 = some 65 ∧
      offspringKernel.reads zeroImage 2 0 3 = some 0 ∧ partedKernel.reads zeroImage 3 0 3 = some 66 := by
    decide +kernel
  have returns : (offspringKernel.reads zeroImage 3 0 3).isSome = true ∧ (partedKernel.reads zeroImage 1 0 3).isSome = true ∧
      (partedKernel.reads zeroImage 2 0 3).isSome = true := by
    decide +kernel
  obtain ⟨c, child⟩ := Option.isSome_iff_exists.mp returns.1
  obtain ⟨d, parent⟩ := Option.isSome_iff_exists.mp returns.2.1
  obtain ⟨b, other⟩ := Option.isSome_iff_exists.mp returns.2.2
  have reading (b m : Nat) (fault : (Call.read 0 3).fault = some (b, m)) : b = 0 ∧ m = 3 := by
    cases fault
    exact ⟨rfl, rfl⟩
  have present_ (b m : Nat) (fault : (Call.read 0 3).fault = some (b, m)) : b = 0 := (reading b m fault).1
  have fork_fair (been : Marks) : (⟨dirtyKernel, been⟩ : Demanding).Fair ⟨1, .call .fork, .returned 3⟩ :=
    fair_unfaulted (e := ⟨1, .fork, .returned 3⟩) rfl dirtyKernel been
  have written : ((separate zeroImage sixteenMegabytes).restrict Fair).Reaches ⟨dirtyKernel, _⟩ :=
    twin_separate.step ⟨fair_alone first.1 first.2 (by rintro b m ⟨⟩; exact ⟨rfl, rfl⟩), separated write trivial _⟩
  have forked := written.step ⟨fork_fair _, separated offspring_step trivial _⟩
  have part_fair (been : Marks) : (⟨offspringKernel, been⟩ : Demanding).Fair ⟨3, .call (.write 0 3 66), .done⟩ :=
    fair_mapped mapped.2.2.1 (by rintro b m ⟨⟩; rfl)
  have copied := (private_memories written (fork_fair _) (separated offspring_step trivial _)).2.1 3 rfl
    (Option.isNone_iff_eq_none.mp tasks.1) (Option.isSome_iff_ne_none.mp tasks.2.1) 0 3 3 c 65
    ⟨fair_mapped mapped.2.2.1 present_, child⟩ (.inr ⟨fair_mapped mapped.1 present_, before.1⟩)
  have apart := (private_memories forked (part_fair _) (separated part trivial _)).2.2
  have kept := apart 1 (by decide) (Option.isSome_iff_ne_none.mp tasks.2.2.1) 0 3 3 65 d
    ⟨fair_mapped mapped.2.1 present_, before.2.1⟩ ⟨fair_mapped mapped.2.2.2 present_, parent⟩
  have kept' := apart 2 (by decide) (Option.isSome_iff_ne_none.mp tasks.2.2.2) 0 3 3 0 b
    ⟨fair_alone second.1 second.2.1 reading, before.2.2.1⟩ ⟨fair_alone second.2.2.1 second.2.2.2 reading, other⟩
  exact ⟨copied ▸ child, kept ▸ parent, kept' ▸ other, before.2.2.2⟩

/-- Its write has faulted: `un_wp_page` has copied the page. -/
def faultedKernel : Kernel := (offspringKernel.next zeroImage ⟨3, .wpPage 0, .done⟩).getD offspringKernel

def overwrittenKernel : Kernel := (faultedKernel.next zeroImage ⟨3, .write 0 3 66, .done⟩).getD faultedKernel

/-- Before the write the other task borrows the copy, which looks clean, and reads what task 1 wrote; after it, 0. -/
theorem write_shows : faultedKernel.reads zeroImage 2 0 3 = some 65 ∧ overwrittenKernel.reads zeroImage 2 0 3 = some 0 ∧
    ¬ ∀ (files : Nat → File) (L : Layout) (x x' : Demanding) (s q : Fin 64) (address a n m : Nat) (value : BitVec 32)
      (c d : BitVec 8), (separate files L).Reaches x →
      (separate files L).step x ⟨s, .call (.write address n value), .done⟩ x' → q ≠ s → x.kernel.task q ≠ none →
      x.kernel.reads files q a m = some c → x'.kernel.reads files q a m = some d → c = d := by
  have write : (Mm.kernel zeroImage sixteenMegabytes).step twinKernel ⟨1, .write 0 2 65, .done⟩ dirtyKernel :=
    next_getD (by decide +kernel)
  have fault : (Mm.kernel zeroImage sixteenMegabytes).step offspringKernel ⟨3, .wpPage 0, .done⟩ faultedKernel :=
    next_getD (by decide +kernel)
  have store : (Mm.kernel zeroImage sixteenMegabytes).step faultedKernel ⟨3, .write 0 3 66, .done⟩ overwrittenKernel :=
    next_getD (by decide +kernel)
  have views : faultedKernel.reads zeroImage 2 0 3 = some 65 ∧ overwrittenKernel.reads zeroImage 2 0 3 = some 0 := by
    decide +kernel
  refine ⟨views.1, views.2, fun claim => ?_⟩
  obtain ⟨x, es, init, run⟩ := twin_separate
  have reached : (separate zeroImage sixteenMegabytes).Reaches ⟨faultedKernel, _⟩ :=
    ⟨x, _, init, ((run.of_restrict.snoc (separated write trivial _)).snoc (separated offspring_step trivial _)).snoc
      (separated fault trivial _)⟩
  have there : (faultedKernel.task 2).isSome = true := by decide +kernel
  have same := claim zeroImage sixteenMegabytes _ _ 3 2 0 0 3 3 66 65 0 reached (separated store trivial _) (by decide)
    (Option.isSome_iff_ne_none.mp there) views.1 views.2
  exact absurd same (by decide)

end Example

end Demanding

end Linux011.Mm

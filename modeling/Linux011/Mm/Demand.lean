import Linux011.Mm.Buffers

namespace Linux011.Mm

open Linux011.Library

variable {L : Layout} {files : Nat → File} {k k' k₂ : Kernel} {s q r nr : Fin 64} {t u : Task} {m m' : Memory}
  {held : Nat → Nat} {j : Fin 16} {i : Fin 1024} {a address iCount inode : Nat} {call : Call} {outcome : Outcome}
  {x : Fin 16 × Fin 1024} {c : BitVec 8}

def pageStart (x : Fin 16 × Fin 1024) : Nat := x.1 * 0x400000 + x.2 * 4096

theorem At.pageStart (place : At s address j i) : address / 4096 * 4096 = pageStart (j, i) := by
  have dir := place.dir
  have index := place.index
  unfold Memory.pageIndex at index
  unfold Mm.pageStart
  dsimp only
  omega

/-- The page behind an entry holds the image of the executable. -/
def Kernel.Holds (files : Nat → File) (k : Kernel) (r : Fin 64) (x : Fin 16 × Fin 1024) (inode : Nat) : Prop :=
  ∀ w < 1024, k.memory.words (tableWord (frame (k.memory.window r x)) w) =
    breadPage (files inode) (pageStart x) (files inode).endData w

/-- The entries that have been dirty since their page came to the task, or to the one it was forked from. -/
abbrev Marks := Fin 64 → Fin 16 × Fin 1024 → Bool

def Marks.next (been : Marks) (k k' : Kernel) (s : Fin 64) : Marks := fun r x =>
  dirty (k'.memory.window r x) ||
    if (k.task r).isNone then been s x else present (k.memory.window r x) && been r x

variable {been : Marks}

/-- A page of the main memory that holds the image, if its entry has never been dirty. -/
def Kernel.Imaged (files : Nat → File) (k : Kernel) (been : Marks) (r : Fin 64) (x : Fin 16 × Fin 1024) (inode : Nat) :
    Prop :=
  lowMem ≤ frame (k.memory.window r x) ∧
    (pageStart x < (files inode).endData → been r x = false → k.Holds files r x inode)

structure Faithful (files : Nat → File) (k : Kernel) (been : Marks) : Prop where
  first : ∀ t, k.task 0 = some t → t.executable = none
  endData : ∀ r u inode, k.task r = some u → u.executable = some inode → u.endData = (files inode).endData
  imaged : ∀ r u inode x, k.task r = some u → u.executable = some inode → present (k.memory.window r x) = true →
    k.Imaged files been r x inode

/-- The page behind an entry stays in the main memory, with the same in it. -/
def Inherits (m m' : Memory) (r : Fin 64) (x : Fin 16 × Fin 1024) : Prop :=
  present (m.window r x) = true ∧ (lowMem ≤ frame (m.window r x) → lowMem ≤ frame (m'.window r x) ∧
    ∀ w < 1024, m'.words (tableWord (frame (m'.window r x)) w) = m.words (tableWord (frame (m.window r x)) w))

section Inherits

theorem Exact.inherits (exact : Exact L k) (here : present (m'.window r x) = true)
    (alike : Alike (m'.window r x) (k.memory.window r x))
    (untouched : k.memory.InUse (frame (k.memory.window r x)) → Untouched (frame (k.memory.window r x)) k.memory m') :
    Inherits k.memory m' r x := by
  have here' := alike.1.symm.trans here
  have frames := (alike.2 here).1
  refine ⟨here', fun above => ⟨frames.symm ▸ above, fun w inPage => ?_⟩⟩
  have inUse := exact.inUse (x := (dirOf r x.1, x.2)) here' above
  rw [frames]
  exact (untouched inUse).words w inPage

theorem Inherits.holds (inherits : Inherits k.memory k'.memory r x) (above : lowMem ≤ frame (k.memory.window r x))
    (holds : k.Holds files r x inode) : k'.Holds files r x inode := by
  intro w inPage
  rw [(inherits.2 above).2 w inPage]
  exact holds w inPage

theorem Split.inherits {y : Fin 1024 × Fin 1024} (split : Split L k.memory y m') (exact : Exact L k)
    (here : Mm.present (m'.window r x) = true) : Inherits k.memory m' r x := by
  by_cases same : (dirOf r x.1, x.2) = y
  · subst same
    refine ⟨split.here, fun above => ?_⟩
    have entry : m'.window r x = m'.ptes (dirOf r x.1, x.2) := rfl
    rcases split.page with ⟨-, ptes⟩ | ⟨p, managed, -, ptes, words⟩
    · have frames : frame (m'.window r x) = frame (k.memory.window r x) := by
        rw [entry, ptes, Function.update_self, frame_grant]
        rfl
      rw [frames]
      exact ⟨above, fun w inPage => (split.spares _ (exact.inUse split.here above)).words w inPage⟩
    · have frames : frame (m'.window r x) = p := by
        rw [entry, ptes, Function.update_self, frame_entry managed.physical.2]
      rw [frames]
      exact ⟨managed.physical.1, words above⟩
  · have kept : m'.window r x = k.memory.window r x := split.other (y := (dirOf r x.1, x.2)) same
    exact exact.inherits here (kept ▸ .refl _) fun inUse => split.spares _ inUse

end Inherits

section Faithful

theorem Marks.marked (been : Marks) (k k' : Kernel) (s : Fin 64) (modified : dirty (k'.memory.window r x) = true) :
    been.next k k' s r x = true := by
  unfold Marks.next
  rw [modified, Bool.true_or]

theorem Faithful.of_parts (first : ∀ t, k'.task 0 = some t → t.executable = none)
    (endData : ∀ r u inode, k'.task r = some u → u.executable = some inode → u.endData = (files inode).endData)
    (imaged : ∀ r u inode x, k'.task r = some u → u.executable = some inode → present (k'.memory.window r x) = true →
      k'.Imaged files (been.next k k' s) r x inode) : Faithful files k' (been.next k k' s) where
  first := first
  endData := endData
  imaged := imaged

theorem Faithful.inherited (faithful : Faithful files k been) (there : k.task r = some u) (image : u.executable = some inode)
    (inherits : Inherits k.memory k'.memory r x) : k'.Imaged files (been.next k k' s) r x inode := by
  have imaged := faithful.imaged r u inode x there image inherits.1
  refine ⟨(inherits.2 imaged.1).1, fun below unmarked => ?_⟩
  have never : been r x = false := by
    unfold Marks.next at unmarked
    rw [there, Option.isNone_some, inherits.1] at unmarked
    simpa using (Bool.or_eq_false_iff.mp unmarked).2
  exact inherits.holds imaged.1 (imaged.2 below never)

theorem Faithful.carried (faithful : Faithful files k' (been.next k k' s)) (there : k'.task r = some u)
    (image : u.executable = some inode) (inherits : Inherits k'.memory k₂.memory r x)
    (same : dirty (k₂.memory.window r x) = dirty (k'.memory.window r x)) :
    k₂.Imaged files (been.next k k₂ s) r x inode := by
  have imaged := faithful.imaged r u inode x there image inherits.1
  refine ⟨(inherits.2 imaged.1).1, fun below unmarked => ?_⟩
  have before : been.next k k' s r x = false := by
    unfold Marks.next at unmarked ⊢
    rw [← same]
    exact unmarked
  exact inherits.holds imaged.1 (imaged.2 below before)

theorem imaged_dirty (above : lowMem ≤ frame (k'.memory.window r x)) (modified : dirty (k'.memory.window r x) = true) :
    k'.Imaged files (been.next k k' s) r x inode := by
  refine ⟨above, fun _ unmarked => ?_⟩
  rw [been.marked k k' s modified] at unmarked
  cases unmarked

theorem Faithful.moved (faithful : Faithful files k been)
    (task : ∀ r u, k'.task r = some u → k.task r = some u)
    (inherits : ∀ r u inode x, k.task r = some u → u.executable = some inode → present (k'.memory.window r x) = true →
      Inherits k.memory k'.memory r x) : Faithful files k' (been.next k k' s) := by
  apply Faithful.of_parts
  · exact fun t there => faithful.first t (task 0 t there)
  · exact fun r u inode there image => faithful.endData r u inode (task r u there) image
  · intro r u inode x there image here
    have there := task r u there
    exact faithful.inherited there image (inherits r u inode x there image here)

theorem Faithful.fetched (faithful : Faithful files k been) (exact : Exact L k) (there : k.task s = some t)
    (place : At s address j i) (fetched : Fetched L k.taskPages files k s t address iCount j i m')
    (fresh : ∀ q, k.donor s t address iCount = some q → been q (j, i) = false) :
    Faithful files ⟨m', k.task⟩ (been.next k ⟨m', k.task⟩ s) := by
  apply Faithful.of_parts
  · exact faithful.first
  · exact faithful.endData
  · intro r u inode x there' image here
    by_cases own : (dirOf r x.1, x.2) = (dirOf s j, i)
    · obtain ⟨slot, index⟩ := Prod.mk.inj own
      obtain ⟨rfl, dir⟩ := dirOf_inj slot
      have same : x = (j, i) := Prod.ext dir index
      subst same
      rw [there] at there'
      cases there'
      have limit := faithful.endData r t inode there image
      rcases fetched.page with ⟨-, p, loaded⟩ | ⟨q, found, borrowed⟩
      · have frames : frame (m'.window r (j, i)) = p := by
          rw [Memory.window, loaded.ptes, windowOf_same, Function.update_self, frame_entry loaded.managed.physical.2]
        refine ⟨frames.symm ▸ loaded.managed.physical.1, fun below _ w inPage => ?_⟩
        have demanded := loaded.words w inPage
        rw [place.pageStart] at demanded
        dsimp only
        rw [frames, demanded]
        unfold Task.demand
        rw [image]
        dsimp only
        rw [limit, if_neg (by omega)]
      · obtain ⟨other, inode', task, image', image''⟩ := borrowed.executable
        rw [image] at image''
        cases image''
        have entry : m'.window r (j, i) = protect (k.memory.window q (j, i)) := by
          rw [Memory.window, borrowed.ptes, windowOf_other borrowed.apart.symm, windowOf_same, Function.update_self]
        have frames : frame (m'.window r (j, i)) = frame (k.memory.window q (j, i)) := by rw [entry, frame_protect]
        have donor := faithful.imaged q other inode (j, i) task image' borrowed.here
        refine ⟨frames.symm ▸ borrowed.above, fun below _ w inPage => ?_⟩
        have inUse := exact.inUse (x := (dirOf q j, i)) borrowed.here borrowed.above
        have words := (fetched.spares _ inUse).words w inPage
        dsimp only
        rw [frames]
        exact words.trans (donor.2 below (fresh q found) w inPage)
    · exact faithful.inherited there' image (exact.inherits here (fetched.alike own) fun inUse => fetched.spares _ inUse)

theorem Faithful.stored {m₂ : Memory} (faithful : Faithful files ⟨m, k.task⟩ (been.next k ⟨m, k.task⟩ s))
    (exact : Exact L ⟨m, k.task⟩) (before : m₂ = m ∨ Split L m (dirOf s j, i) m₂) (exact₂ : Exact L ⟨m₂, k.task⟩)
    (stored : Stored m₂ (dirOf s j, i) m') : Faithful files ⟨m', k.task⟩ (been.next k ⟨m', k.task⟩ s) := by
  apply Faithful.of_parts
  · exact faithful.first
  · exact faithful.endData
  · intro r u inode x there image here
    by_cases own : (dirOf r x.1, x.2) = (dirOf s j, i)
    · have entry : m'.window r x = touched (m₂.ptes (dirOf s j, i)) := by
        rw [← stored.own, ← own]
        rfl
      apply imaged_dirty
      · show lowMem ≤ frame (m'.window r x)
        rw [entry, frame_touched]
        exact stored.above
      · show dirty (m'.window r x) = true
        rw [entry, dirty_touched]
    · have last : m'.window r x = m₂.window r x := stored.other (y := (dirOf r x.1, x.2)) own
      have first : m₂.window r x = m.window r x ∧ (m.InUse (frame (m.window r x)) → Untouched (frame (m.window r x)) m m₂) := by
        rcases before with rfl | split
        · exact ⟨rfl, fun inUse => .refl inUse.plain⟩
        · exact ⟨split.other (y := (dirOf r x.1, x.2)) own, fun inUse => split.spares _ inUse⟩
      have entry : m'.window r x = m.window r x := last.trans first.1
      have here₂ : present (m₂.window r x) = true := last ▸ here
      have inherits : Inherits m m' r x := by
        refine ⟨entry ▸ here, fun above => ⟨entry.symm ▸ above, fun w inPage => ?_⟩⟩
        have above₂ : lowMem ≤ frame (m₂.window r x) := first.1.symm ▸ above
        have inUse₂ := exact₂.inUse (x := (dirOf r x.1, x.2)) here₂ above₂
        have here₁ : present (m.window r x) = true := first.1 ▸ here₂
        have inUse := exact.inUse (x := (dirOf r x.1, x.2)) here₁ above
        have apart : frame (m₂.window r x) ≠ frame (m₂.ptes (dirOf s j, i)) := by
          intro same
          exact own (exact₂.orderly.sole (dirOf s j, i) (dirOf r x.1, x.2) stored.here stored.write stored.above here₂ same)
        have second := (stored.elsewhere _ apart inUse₂).words w inPage
        have words : m₂.words (tableWord (frame (m₂.window r x)) w) = m.words (tableWord (frame (m.window r x)) w) := by
          rw [first.1]
          exact (first.2 inUse).words w inPage
        rw [last]
        exact second.trans words
      exact faithful.carried there image inherits (congrArg dirty entry)

theorem Faithful.left (faithful : Faithful files ⟨m, k.task⟩ (been.next k ⟨m, k.task⟩ s)) (settled : Settled ⟨m, k.task⟩)
    (exact : Exact L ⟨m, k.task⟩) (there : k.task s = some t) {u : Task} (left : Left ⟨m, k.task⟩ s t u k')
    (image : u.executable = none ∨ ∃ inode, u.executable = some inode ∧ u.endData = (files inode).endData) :
    Faithful files k' (been.next k k' s) := by
  apply Faithful.of_parts
  · intro t' there'
    rw [left.task, Function.update_of_ne left.other.symm] at there'
    exact faithful.first t' there'
  · intro r u' inode there' image'
    by_cases same : r = s
    · rw [same, left.task, Function.update_self] at there'
      cases there'
      rcases image with none | ⟨inode', some, limit⟩
      · rw [none] at image'
        cases image'
      · rw [some] at image'
        cases image'
        exact limit
    · rw [left.task, Function.update_of_ne same] at there'
      exact faithful.endData r u' inode there' image'
  · intro r u' inode x there' image' here
    by_cases same : r = s
    · subst same
      by_cases below : x.1.val < Memory.dirs t.dataLimit
      · rw [left.vacated.gone x below] at here
        cases here
      · rw [left.vacated.rest x (by omega)] at here
        obtain ⟨t', there'', -, inside⟩ := settled r left.other x here
        have same : t' = t := Option.some.inj (there''.symm.trans there)
        rw [same] at inside
        omega
    · rw [left.task, Function.update_of_ne same] at there'
      have kept : k'.memory.window r x = m.window r x := congrFun (left.vacated.others r same) x
      have inherits : Inherits m k'.memory r x := exact.inherits (k := ⟨m, k.task⟩) here (kept ▸ .refl _)
        fun inUse => left.vacated.untouched _ inUse.positive inUse.plain
      exact faithful.carried there' image' inherits (congrArg dirty kept)

theorem Faithful.branched {n : Nat} (faithful : Faithful files k been) (exact : Exact L k) (empty : k.task nr = none)
    (branched : Branched k.memory s nr n m') (there : k.task r = some u) (image : u.executable = some inode)
    (task : Fin 64 → Option Task) (here : present (m'.window r x) = true) :
    (⟨m', task⟩ : Kernel).Imaged files (been.next k ⟨m', task⟩ s) r x inode := by
  have alike : Alike (m'.window r x) (k.memory.window r x) := by
    by_cases parent : r = s
    · rw [parent]
      exact branched.source x
    · have child : r ≠ nr := by
        rintro rfl
        rw [empty] at there
        cases there
      rw [branched.others r parent child]
      exact .refl _
  have inherits : Inherits k.memory m' r x := exact.inherits here alike fun inUse => branched.spares _ inUse
  have imaged : (⟨m', task⟩ : Kernel).Imaged files (been.next k ⟨m', task⟩ s) r x inode :=
    faithful.inherited there image inherits
  exact imaged

theorem Faithful.forked (faithful : Faithful files k been) (exact : Exact L k) (there : k.task s = some t)
    (forks : Forks k s t k') : Faithful files k' (been.next k k' s) := by
  cases forks with
  | idle =>
    apply faithful.moved
    · exact fun _ _ there => there
    · exact fun r u inode x _ _ here => exact.inherits here (.refl _) fun inUse => .refl inUse.plain
  | @failed nr m' empty branched =>
    apply Faithful.of_parts
    · exact faithful.first
    · exact faithful.endData
    · exact fun r u inode x there image here => faithful.branched exact empty branched there image k.task here
  | @forked nr p m' empty other branched =>
    have old : ∀ r, r ≠ nr → Function.update k.task nr (some { t with page := p }) r = k.task r :=
      fun r apart => Function.update_of_ne apart _ _
    have new : Function.update k.task nr (some { t with page := p }) nr = some { t with page := p } :=
      Function.update_self _ _ _
    apply Faithful.of_parts
    · intro t' there'
      exact faithful.first t' ((old 0 other.symm).symm.trans there')
    · intro r u inode there' image
      by_cases child : r = nr
      · subst child
        have same : { t with page := p } = u := Option.some.inj (new.symm.trans there')
        subst same
        exact faithful.endData s t inode there image
      · exact faithful.endData r u inode ((old r child).symm.trans there') image
    · intro r u inode x there' image here
      by_cases child : r = nr
      · subst child
        have same : { t with page := p } = u := Option.some.inj (new.symm.trans there')
        subst same
        have slot : s ≠ 0 := by
          rintro rfl
          rw [faithful.first t there] at image
          cases image
        have whole : x.2.val < copiedEntries s := by
          unfold copiedEntries
          rw [if_neg]
          · exact x.2.isLt
          · unfold Memory.base
            have positive : 0 < s.val := Nat.pos_of_ne_zero fun same => slot (Fin.ext same)
            omega
        have alike : Alike (m'.window r x) (k.memory.window s x) :=
          (branched.alike x (branched.child x here) whole).trans (branched.source x)
        have here' := alike.1.symm.trans here
        have frames := (alike.2 here).1
        have imaged := faithful.imaged s t inode x there image here'
        refine ⟨frames.symm ▸ imaged.1, fun below unmarked w inPage => ?_⟩
        have never : been s x = false := by
          unfold Marks.next at unmarked
          rw [empty, Option.isNone_none, if_pos rfl] at unmarked
          exact (Bool.or_eq_false_iff.mp unmarked).2
        have inUse := exact.inUse (x := (dirOf s x.1, x.2)) here' imaged.1
        have words := (branched.spares _ inUse).words w inPage
        dsimp only
        rw [frames]
        exact words.trans (imaged.2 below never w inPage)
      · exact faithful.branched exact empty branched ((old r child).symm.trans there') image _ here

theorem Faithful.keeps (faithful : Faithful files k been) (exact : Exact L k) (settled : Settled k)
    (there : k.task s = some t) (alive : ∀ a, call.fault = some a → t.zombie = false)
    (fresh : ∀ address iCount q j i, call.fault = some (address, iCount) → At s address j i →
      present (k.memory.window s (j, i)) = false → k.donor s t address iCount = some q → been q (j, i) = false) :
    Keeps L files k s t call fun k' => Settled k' ∧ Faithful files k' (been.next k k' s) := by
  have keeps : Keeps L files k s t call Settled := settled.keeps there alive
  have same (m' : Memory) (r : Fin 64) (u : Task) (there : k.task r = some u) : (⟨m', k.task⟩ : Kernel).task r = some u := there
  constructor
  case idle =>
    refine ⟨settled, faithful.moved (fun _ _ there => there) fun r u inode x _ _ here => ?_⟩
    exact exact.inherits here (.refl _) fun inUse => .refl inUse.plain
  case starved =>
    intro m' unchanged exact'
    refine ⟨keeps.starved m' unchanged exact', faithful.moved (same m') fun r u inode x _ _ here => ?_⟩
    have kept : m'.window r x = k.memory.window r x := congrFun unchanged.ptes _
    exact exact.inherits here (kept ▸ .refl _) fun inUse => unchanged.spares _ inUse
  case fetched =>
    intro address iCount j i m' fault limit place absent fetched exact'
    refine ⟨keeps.fetched address iCount j i m' fault limit place absent fetched exact', ?_⟩
    exact faithful.fetched exact there place fetched fun q => fresh address iCount q j i fault place absent
  case split =>
    intro address d i m' at_ entry split
    refine ⟨keeps.split address d i m' at_ entry split, faithful.moved (same m') fun r u inode x _ _ here => ?_⟩
    exact split.inherits exact here
  case stored =>
    intro m m₂ m' j i kept exact₁ before exact₂ stored
    exact ⟨keeps.stored m m₂ m' j i kept.1 exact₁ before exact₂ stored, kept.2.stored exact₁ before exact₂ stored⟩
  case left =>
    intro m u k' kept exact₁ left image
    refine ⟨keeps.left m u k' kept.1 exact₁ left image, kept.2.left kept.1 exact₁ there left ?_⟩
    rcases image with rfl | ⟨inode, brk, codeLimit, dataLimit, rfl⟩
    · exact .inl rfl
    · exact .inr ⟨inode, rfl, rfl⟩
  case released =>
    intro k' dead words task
    refine ⟨keeps.released k' dead words task, faithful.moved ?_ fun r u inode x _ _ here => ?_⟩
    · intro r u there'
      have apart : r ≠ s := by
        rintro rfl
        rw [task, Function.update_self] at there'
        cases there'
      rwa [task, Function.update_of_ne apart] at there'
    · exact exact.inherits here (congrFun (window_words words r) x ▸ .refl _) fun inUse => .of_words inUse.plain words
  case forked =>
    intro k' live forks
    exact ⟨keeps.forked k' live forks, faithful.forked exact there forks⟩

end Faithful

/-- The kernel, with the entries that have been dirty since their page came. -/
structure Demanding where
  kernel : Kernel
  been : Marks

namespace Demanding

inductive Act
  | call (call : Call)
  | put (address iCount : Nat) (c : BitVec 8)

structure Event where
  caller : Fin 64
  act : Act
  outcome : Outcome

def Step (files : Nat → File) (x : Demanding) (e : Event) (x' : Demanding) : Prop :=
  x'.been = x.been.next x.kernel x'.kernel e.caller ∧ ∃ t, x.kernel.task e.caller = some t ∧
    match e.act with
    | .call call => call.Plain ∧ call.Ready x.kernel e.caller t ∧
        call.perform files x.kernel e.caller t = .ok (x'.kernel, e.outcome)
    | .put address iCount c => t.zombie = false ∧
        x.kernel.putFsByte files e.caller t address iCount c = .ok (x'.kernel, e.outcome)

/-- Tasks with their faults, forks and writes, and the verified and unverified stores of their system calls. -/
def machine (files : Nat → File) (L : Layout) : Machine Demanding Event where
  init x := Booted L x.kernel ∧ ∀ r i, x.been r i = false
  step := Step files

/-- A fault for a missing page borrows none that has been dirty. -/
def Fresh (x : Demanding) (s : Fin 64) (t : Task) (address iCount : Nat) : Prop :=
  ∀ q j i, At s address j i → x.kernel.donor s t address iCount = some q → x.been q (j, i) = false

/-- Every fault is fresh, and every store goes to a page that its task may write to, or to one loaded for it. -/
def Fair (x : Demanding) (e : Event) : Prop :=
  ∀ t, x.kernel.task e.caller = some t →
    match e.act with
    | .call call => ∀ address iCount, call.fault = some (address, iCount) →
        present (x.kernel.memory.pteOf (Memory.base e.caller + address)) = false → x.Fresh e.caller t address iCount
    | .put address iCount _ =>
      let entry := x.kernel.memory.pteOf (Memory.base e.caller + address)
      if present entry then writable entry = true ∧ lowMem ≤ frame entry
      else x.kernel.donor e.caller t address iCount = none

structure Kept (L : Layout) (files : Nat → File) (x : Demanding) : Prop where
  exact : Exact L x.kernel
  settled : Settled x.kernel
  faithful : Faithful files x.kernel x.been

variable {x x' : Demanding} {e : Event}

theorem Kept.step (kept : Kept L files x) (fair : x.Fair e) (step : Step files x e x') : Kept L files x' := by
  rcases x' with ⟨k', been'⟩
  rcases e with ⟨s, act, outcome⟩
  obtain ⟨exact, settled, faithful⟩ := kept
  obtain ⟨marks, t, there, step⟩ := step
  dsimp only at marks
  subst marks
  have fair := fair t there
  cases act with
  | call call =>
    obtain ⟨plain, ready, performed⟩ := step
    have move : (Mm.kernel files L).step x.kernel ⟨s, call, outcome⟩ k' := ⟨t, there, ready, performed⟩
    have alive (a : Nat × Nat) (fault : call.fault = some a) : t.zombie = false := by
      have zombie := ready.1
      cases call with
      | release => cases fault
      | _ => exact zombie
    have keeps := faithful.keeps exact settled there alive fun address iCount q j i fault place absent =>
      fair address iCount fault (place.pteOf _ ▸ absent) q j i place
    have both := keeps.perform exact there (fun nr other empty => settled.blank other empty) ready plain performed
    exact ⟨exact.step (e := ⟨s, call, outcome⟩) plain move, both.1, both.2⟩
  | put address iCount c =>
    obtain ⟨alive, returned⟩ := step
    dsimp only at fair
    have alone : present (x.kernel.memory.pteOf (Memory.base s + address)) = false →
        x.kernel.donor s t address iCount = none := by
      intro absent
      rwa [if_neg (by simp [absent])] at fair
    have own : ∀ j i, At s address j i → present (x.kernel.memory.window s (j, i)) = true →
        writable (x.kernel.memory.window s (j, i)) = true ∧ lowMem ≤ frame (x.kernel.memory.window s (j, i)) := by
      intro j i place here
      rwa [place.pteOf, if_pos here] at fair
    have keeps : Keeps L files x.kernel s t (.read address iCount) fun k' =>
        Settled k' ∧ Faithful files k' (x.been.next x.kernel k' s) := by
      apply faithful.keeps exact settled there fun _ _ => alive
      intro address' iCount' q j i fault place absent found
      cases fault
      rw [alone (place.pteOf _ ▸ absent)] at found
      cases found
    have both := keeps.putFsByte exact rfl there own alone returned
    have deposit := exact.putFsByte settled there alive own alone returned
    exact ⟨deposit.exact, both.1, both.2⟩

theorem kept_of_booted (booted : Booted L x.kernel) : Kept L files x := by
  obtain ⟨t, here, -, -, none, -⟩ := booted.first
  have noImage (r : Fin 64) (u : Task) (inode : Nat) (there : x.kernel.task r = some u) (image : u.executable = some inode) :
      False := by
    by_cases first : r = 0
    · rw [first, here] at there
      cases there
      rw [none] at image
      cases image
    · rw [booted.alone r first] at there
      cases there
  refine ⟨booted.exact, booted.settled, ?_, ?_, ?_⟩
  · intro t' there
    rw [here] at there
    cases there
    exact none
  · exact fun r u inode there image => (noImage r u inode there image).elim
  · exact fun r u inode _ there image _ => (noImage r u inode there image).elim

theorem kept_of_reaches (reached : ((machine files L).restrict Fair).Reaches x) : Kept L files x := by
  apply reached.invariant
  · exact fun x start => kept_of_booted start.1
  · exact fun x e x' kept step => kept.step step.1 step.2

/-- A fault that borrows no page that has been dirty brings what it demands. -/
theorem Kept.fetches (kept : Kept L files x) (there : x.kernel.task s = some t) (limit : address < t.dataLimit)
    (absent : present (x.kernel.memory.pteOf (Memory.base s + address)) = false) (fresh : x.Fresh s t address iCount)
    (returned : x.kernel.doNoPage files s t address iCount = .ok m') :
    present (m'.pteOf (Memory.base s + address)) = true ∧ lowMem ≤ frame (m'.pteOf (Memory.base s + address)) ∧
      ∀ w < 1024, m'.words (tableWord (frame (m'.pteOf (Memory.base s + address))) w) =
        t.demand files (address / 4096 * 4096) w := by
  obtain ⟨exact, settled, faithful⟩ := kept
  obtain ⟨j, i, place⟩ := At.of_limit (s := s) limit (exact.tasks.fits s t there)
  rw [place.pteOf] at absent
  have fetched : Fetched L x.kernel.taskPages files x.kernel s t address iCount j i m' :=
    (exact.orderly.sound.fetch exact.spare place absent).ok m' returned
  rw [place.pteOf]
  rcases fetched.page with ⟨-, p, loaded⟩ | ⟨q, found, borrowed⟩
  · have entry : m'.window s (j, i) = entry p := by
      rw [Memory.window, loaded.ptes, windowOf_same, Function.update_self]
    rw [entry, present_entry, frame_entry loaded.managed.physical.2]
    exact ⟨rfl, loaded.managed.physical.1, loaded.words⟩
  · have entry : m'.window s (j, i) = protect (x.kernel.memory.window q (j, i)) := by
      rw [Memory.window, borrowed.ptes, windowOf_other borrowed.apart.symm, windowOf_same, Function.update_self]
    obtain ⟨other, inode, task, image, image'⟩ := borrowed.executable
    have limit := faithful.endData s t inode there image'
    have below : pageStart (j, i) < (files inode).endData := by
      rw [← place.pageStart, ← limit]
      exact borrowed.below
    have holds := (faithful.imaged q other inode (j, i) task image borrowed.here).2 below (fresh q j i place found)
    have demand : t.demand files (address / 4096 * 4096) =
        breadPage (files inode) (pageStart (j, i)) (files inode).endData := by
      unfold Task.demand
      rw [image']
      dsimp only
      rw [if_neg (Nat.not_le.mpr borrowed.below), place.pageStart, limit]
    have inUse := exact.inUse (x := (dirOf q j, i)) borrowed.here borrowed.above
    rw [entry, present_protect, frame_protect, demand]
    refine ⟨borrowed.here, borrowed.above, fun w inPage => ?_⟩
    exact ((fetched.spares _ inUse).words w inPage).trans (holds w inPage)

/-- The page a fault below `end_data` brings holds the image of the executable, if none that has been dirty and is
    clean again was borrowed. -/
theorem demand_loads (reached : ((machine files L).restrict Fair).Reaches x) (there : x.kernel.task s = some t)
    (image : t.executable = some inode) (limit : address < t.dataLimit) (below : address < t.endData)
    (absent : present (x.kernel.memory.pteOf (Memory.base s + address)) = false) (fresh : x.Fresh s t address iCount)
    (returned : x.kernel.doNoPage files s t address iCount = .ok m') :
    present (m'.pteOf (Memory.base s + address)) = true ∧ ∀ w < 1024,
      m'.words (tableWord (frame (m'.pteOf (Memory.base s + address))) w) =
        breadPage (files inode) (address / 4096 * 4096) (files inode).endData w := by
  have kept := kept_of_reaches reached
  rcases kept.fetches there limit absent fresh returned with ⟨here, -, words⟩
  have demand : t.demand files (address / 4096 * 4096) =
      breadPage (files inode) (address / 4096 * 4096) (files inode).endData := by
    unfold Task.demand
    rw [image]
    dsimp only
    rw [if_neg (by omega), kept.faithful.endData s t inode there image]
  rw [demand] at words
  exact ⟨here, words⟩

end Demanding

section Example

theorem copyEntry_other {src dst w : Nat} (source : w ≠ src) (dest : w ≠ dst) : (m.copyEntry src dst).words w = m.words w := by
  unfold Memory.copyEntry
  dsimp only
  split
  · split
    · exact (set_other source).trans (set_other dest)
    · exact set_other dest
  · rfl

theorem copy_one {table copy n : Nat} (apart : table ≠ copy) (few : n < 1024)
    (absent : ∀ w < 1024, w ≠ 0 → present (m.words (tableWord table w)) = false) :
    upTo (fun m nr => (.ok (m.copyEntry (tableWord table nr) (tableWord copy nr)) : Except Stop Memory)) (n + 1) m =
      .ok (m.copyEntry (tableWord table 0) (tableWord copy 0)) := by
  induction n with
  | zero => rfl
  | succ n ih =>
    have kept : (m.copyEntry (tableWord table 0) (tableWord copy 0)).words (tableWord table (n + 1)) =
        m.words (tableWord table (n + 1)) := by
      apply copyEntry_other
      · exact fun same => absurd (tableWord_inj few (by decide) same).2 (by omega)
      · exact fun same => apart (tableWord_inj few (by decide) same).1
    rw [upTo, ih (by omega)]
    dsimp only
    rw [Memory.copyEntry, kept, absent (n + 1) few (by omega)]
    rfl

def dirtyKernel : Kernel := (twinKernel.next zeroImage ⟨1, .write 0 2 65, .done⟩).getD twinKernel

/-- What another fork of it leaves of the memory. -/
def Memory.shared (m : Memory) : Memory :=
  (((m.take 4091).take 4090).set 48 (entry 4090)).copyEntry (tableWord 4092 0) (tableWord 4090 0)

def offspringTask : Task := { imageTask with page := 4091 }

def offspringKernel : Kernel :=
  ⟨dirtyKernel.memory.shared, Function.update dirtyKernel.task 3 (some offspringTask)⟩

theorem offspring_pages : dirtyKernel.memory.getFreePage = some (4091, dirtyKernel.memory.take 4091) ∧
    (dirtyKernel.memory.take 4091).getFreePage = some (4090, (dirtyKernel.memory.take 4091).take 4090) := by
  have first : Memory.scan dirtyKernel.memory.memMap pagingPages = some 3835 := by decide +kernel
  have second : Memory.scan (dirtyKernel.memory.take 4091).memMap pagingPages = some 3834 := by decide +kernel
  unfold Memory.getFreePage
  rw [first, second]
  exact ⟨rfl, rfl⟩

theorem offspring_table : (dirtyKernel.memory.take 4091).copyTable false 16 48 = .ok dirtyKernel.memory.shared := by
  have frames : frame ((dirtyKernel.memory.take 4091).words 16) = 4092 := by decide +kernel
  have all : ∀ w : Fin 1024, w.val ≠ 0 →
      present ((((dirtyKernel.memory.take 4091).take 4090).set 48 (entry 4090)).words (tableWord 4092 w)) = false := by
    decide +kernel
  unfold Memory.copyTable
  rw [if_neg (by decide +kernel), if_pos (by decide +kernel), offspring_pages.2, frames]
  exact copy_one (by decide) (by decide) fun w index => all ⟨w, index⟩

theorem upTo_one {σ ε : Type} (body : σ → Nat → Except ε σ) (x : σ) : upTo body 1 x = body x 0 := rfl

theorem offspring_copy : (dirtyKernel.memory.take 4091).copyMem 1 3 imageTask = .ok (dirtyKernel.memory.shared, 0) := by
  have tables : (dirtyKernel.memory.take 4091).copyPageTables (Memory.base (1 : Fin 64)) (Memory.base (3 : Fin 64))
      imageTask.dataLimit = .ok dirtyKernel.memory.shared := by
    unfold Memory.copyPageTables
    rw [if_neg (by decide), show Memory.dirs imageTask.dataLimit = 1 by decide,
      show decide (Memory.base (1 : Fin 64) = 0) = false by decide,
      show Memory.base (1 : Fin 64) / 0x400000 = 16 by decide, show Memory.base (3 : Fin 64) / 0x400000 = 48 by decide,
      upTo_one, Nat.add_zero, Nat.add_zero]
    exact offspring_table
  unfold Memory.copyMem
  rw [if_neg (by decide), tables]

theorem offspring_step : (kernel zeroImage sixteenMegabytes).step dirtyKernel ⟨1, .fork, .returned 3⟩ offspringKernel := by
  have there : dirtyKernel.task 1 = some imageTask := by decide +kernel
  have slot : dirtyKernel.findEmptyProcess = some 3 := by decide +kernel
  refine ⟨imageTask, there, ⟨rfl, trivial⟩, ?_⟩
  unfold Call.perform Kernel.sysFork
  dsimp only
  rw [slot]
  dsimp only
  unfold Kernel.copyProcess
  rw [offspring_pages.1]
  dsimp only
  rw [offspring_copy]
  rfl

/-- The new task has the page verified, and does not write to it. -/
def cleanKernel : Kernel := (offspringKernel.next zeroImage ⟨3, .writeVerify (Memory.base 3), .done⟩).getD offspringKernel

namespace Demanding

theorem called {e : Mm.Event} (step : (Mm.kernel files L).step k e k') (plain : e.call.Plain) (been : Marks) :
    Step files ⟨k, been⟩ ⟨e.caller, .call e.call, e.outcome⟩ ⟨k', been.next k k' e.caller⟩ := by
  obtain ⟨t, there, ready, performed⟩ := step
  exact ⟨rfl, t, there, plain, ready, performed⟩

theorem fair_unfaulted {e : Mm.Event} (none : e.call.fault = none) (k : Kernel) (been : Marks) :
    (⟨k, been⟩ : Demanding).Fair ⟨e.caller, .call e.call, e.outcome⟩ := by
  intro t there address iCount fault
  rw [none] at fault
  cases fault

/-- What has been dirty when the first two tasks run the executable. -/
def twinMarks : Marks := ((Marks.next (fun _ _ => false) smallKernel childKernel 0).next childKernel imageKernel 1).next
  imageKernel twinKernel 1

theorem twin_reached : ((machine zeroImage sixteenMegabytes).restrict Fair).Reaches ⟨twinKernel, twinMarks⟩ := by
  have fork : (Mm.kernel zeroImage sixteenMegabytes).step smallKernel ⟨0, .fork, .returned 1⟩ childKernel :=
    next_getD (by decide +kernel)
  have twin : (Mm.kernel zeroImage sixteenMegabytes).step imageKernel ⟨1, .fork, .returned 2⟩ twinKernel :=
    next_getD (by decide +kernel)
  have first : ((machine zeroImage sixteenMegabytes).restrict Fair).step ⟨smallKernel, fun _ _ => false⟩ _ _ :=
    ⟨fair_unfaulted rfl _ _, called fork trivial _⟩
  exact ⟨⟨smallKernel, fun _ _ => false⟩, _, ⟨smallKernel_booted, fun _ _ => rfl⟩,
    ((Machine.Run.one first).snoc ⟨fair_unfaulted rfl _ _, called image_step trivial _⟩).snoc
      ⟨fair_unfaulted rfl _ _, called twin trivial _⟩⟩

def twinTask : Task := { imageTask with page := 4094 }

/-- Task 2 borrows the page of task 1, which has never been dirty. -/
theorem borrowed_loads : ∃ m', loadedKernel.doNoPage zeroImage 2 twinTask 0 2 = .ok m' ∧
    loadedKernel.donor 2 twinTask 0 2 = some 1 ∧ present (m'.pteOf (Memory.base (2 : Fin 64) + 0)) = true ∧ ∀ w < 1024,
      m'.words (tableWord (frame (m'.pteOf (Memory.base (2 : Fin 64) + 0))) w) =
        breadPage (zeroImage 7) (0 / 4096 * 4096) (zeroImage 7).endData w := by
  have load : (Mm.kernel zeroImage sixteenMegabytes).step twinKernel ⟨1, .read 0 2, .loaded 0⟩ loadedKernel :=
    next_getD (by decide +kernel)
  have tasks : twinKernel.task 1 = some imageTask ∧ loadedKernel.task 2 = some twinTask := by decide +kernel
  have donors : twinKernel.donor 1 imageTask 0 2 = none ∧ loadedKernel.donor 2 twinTask 0 2 = some 1 := by decide +kernel
  have fair : (⟨twinKernel, twinMarks⟩ : Demanding).Fair ⟨1, .call (.read 0 2), .loaded 0⟩ := by
    intro t there address iCount fault _ q j i _ found
    cases fault
    cases tasks.1.symm.trans there
    rw [donors.1] at found
    cases found
  obtain ⟨x, es, init, run⟩ := twin_reached
  have reached : ((machine zeroImage sixteenMegabytes).restrict Fair).Reaches
      ⟨loadedKernel, twinMarks.next twinKernel loadedKernel 1⟩ := ⟨x, _, init, run.snoc ⟨fair, called load trivial _⟩⟩
  have absent : present (loadedKernel.memory.pteOf (Memory.base (2 : Fin 64) + 0)) = false := by decide +kernel
  have unmarked : twinMarks.next twinKernel loadedKernel 1 1 (0, 0) = false := by decide +kernel
  have fresh : (⟨loadedKernel, twinMarks.next twinKernel loadedKernel 1⟩ : Demanding).Fresh 2 twinTask 0 2 := by
    intro q j i place found
    cases donors.2.symm.trans found
    have here : At (2 : Fin 64) 0 0 0 := ⟨by decide, by decide⟩
    obtain ⟨rfl, rfl⟩ := here.unique place
    exact unmarked
  obtain ⟨m', returned, -⟩ := returns_of_any (x := loadedKernel.doNoPage zeroImage 2 twinTask 0 2) (p := fun _ => true)
    (by decide +kernel)
  exact ⟨m', returned, donors.2, demand_loads reached tasks.2 rfl (by decide) (by decide) absent fresh returned⟩

theorem zeroImage_page (inode tmp endData w : Nat) : breadPage (zeroImage inode) tmp endData w = 0 :=
  congrArg (BitVec.ofNat 32) (Nat.zero_mod _)

/-- A page that is verified and not written to is lent with what its task's parent wrote. -/
theorem modified_loaded : ¬ ∀ (files : Nat → File) (L : Layout) (x : Demanding) (s : Fin 64) (t : Task)
    (inode address iCount : Nat) (m' : Memory), (machine files L).Reaches x → x.kernel.task s = some t →
    t.executable = some inode → address < t.dataLimit → address < t.endData →
    present (x.kernel.memory.pteOf (Memory.base s + address)) = false →
    x.kernel.doNoPage files s t address iCount = .ok m' → ∀ w < 1024,
      m'.words (tableWord (frame (m'.pteOf (Memory.base s + address))) w) =
        breadPage (files inode) (address / 4096 * 4096) (files inode).endData w := by
  intro claim
  have write : (Mm.kernel zeroImage sixteenMegabytes).step twinKernel ⟨1, .write 0 2 65, .done⟩ dirtyKernel :=
    next_getD (by decide +kernel)
  have verify : (Mm.kernel zeroImage sixteenMegabytes).step offspringKernel ⟨3, .writeVerify (Memory.base 3), .done⟩
      cleanKernel := next_getD (by decide +kernel)
  obtain ⟨x, es, init, run⟩ := twin_reached
  have reached : (machine zeroImage sixteenMegabytes).Reaches ⟨cleanKernel, _⟩ :=
    ⟨x, _, init, ((run.of_restrict.snoc (called write trivial _)).snoc (called offspring_step trivial _)).snoc
      (called verify trivial _)⟩
  have there : cleanKernel.task 2 = some twinTask := by decide +kernel
  have absent : present (cleanKernel.memory.pteOf (Memory.base (2 : Fin 64) + 0)) = false := by decide +kernel
  obtain ⟨m', returned, answer⟩ := returns_of_any (x := cleanKernel.doNoPage zeroImage 2 twinTask 0 2)
    (p := fun m' => decide (m'.words (tableWord (frame (m'.pteOf (Memory.base (2 : Fin 64) + 0))) 0) = 65)) (by decide +kernel)
  have loaded := claim zeroImage sixteenMegabytes _ 2 _ 7 0 2 m' reached there rfl (by decide) (by decide) absent returned 0
    (by decide)
  rw [of_decide_eq_true answer, zeroImage_page] at loaded
  cases loaded

end Demanding

end Example

end Linux011.Mm

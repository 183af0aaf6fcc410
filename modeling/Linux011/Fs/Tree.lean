import Linux011.Fs.FileSystem
import Mathlib.Data.Set.Card

namespace Linux011.Fs

/-- What the directories are for: the inodes in use, which of them are directories, the entry in each place of a
    directory, and the links of each inode. -/
@[ext]
structure Tree where
  used : Set Ino
  dir : Set Ino
  live : Ino → Nat → Option DirEntry
  nlinks : Ino → Nat

namespace Tree

def target (d : Ino) (e : DirEntry) : Ino := ⟨d.dev, e.inode⟩

theorem target_eq {x d : Ino} (dev : x.dev = d.dev) (name : Fin nameLen → BitVec 8) : target d ⟨x.num, name⟩ = x :=
  Ino.mk.injEq .. ▸ ⟨dev.symm, rfl⟩

variable (T : Tree)

def Names (d : Ino) (i : Nat) (x : Ino) : Prop := ∃ e, T.live d i = some e ∧ target d e = x

def namers (x : Ino) : Set (Ino × Nat) := {p | T.Names p.1 p.2 x}

/-- A directory with its '.' and its '..', which leads to where it is named; the root is its own parent. -/
structure Made (d : Ino) : Prop where
  dot : ∃ e, T.live d 0 = some e ∧ entryMatches Fs.dot e = true ∧ e.inode = d.num
  dotDot : ∃ e p, T.live d 1 = some e ∧ entryMatches Fs.dotDot e = true ∧ target d e = p ∧
    if d.num = rootIno then p = d else ∃ i, 2 ≤ i ∧ T.Names p i d

structure Sane : Prop where
  used : T.dir ⊆ T.used
  inDir : ∀ d i e, T.live d i = some e → d ∈ T.dir
  named : ∀ d i x, T.Names d i x → x ∈ T.used
  unique : ∀ d i j e f name, T.live d i = some e → T.live d j = some f → 0 ∉ name → entryMatches name e = true →
    entryMatches name f = true → i = j
  made : ∀ d ∈ T.dir, (∀ i, T.live d i = none) ∨ T.Made d
  one : ∀ d ∈ T.dir, ∀ p q, p ∈ T.namers d → q ∈ T.namers d → 2 ≤ p.2 → 2 ≤ q.2 → p = q
  root : ∀ d ∈ T.dir, (⟨d.dev, rootIno⟩ : Ino) ∈ T.dir
  top : ∀ d ∈ T.dir, d.num = rootIno → ∀ p ∈ T.namers d, p.2 < 2
  exact : ∀ x ∈ T.used, (T.namers x).encard = T.nlinks x

def setLive (d : Ino) (i : Nat) (o : Option DirEntry) (y : Ino) (j : Nat) : Option DirEntry :=
  if y = d ∧ j = i then o else T.live y j

def alloc (x : Ino) (n : Nat) (isDir : Prop) : Tree where
  used := insert x T.used
  dir := {y | y ∈ T.dir ∨ isDir ∧ y = x}
  live := T.live
  nlinks := Function.update T.nlinks x n

/-- An inode gets a name, and with it a link; `n` are the links it has had. -/
def enter (d : Ino) (i : Nat) (e : DirEntry) (n : Nat) (isDir : Prop) : Tree where
  used := insert (target d e) T.used
  dir := {y | y ∈ T.dir ∨ isDir ∧ y = target d e}
  live := T.setLive d i (some e)
  nlinks := Function.update T.nlinks (target d e) (n + 1)

/-- A new directory with '.' and '..', which has no name yet. -/
def build (x : Ino) (e f : DirEntry) : Tree where
  used := insert x T.used
  dir := insert x T.dir
  live y j := if y = x ∧ j = 0 then some e else if y = x ∧ j = 1 then some f else T.live y j
  nlinks := Function.update T.nlinks x 2

def furnish (x d : Ino) (e f : DirEntry) : Tree where
  used := T.used
  dir := T.dir
  live y j := if y = x ∧ j = 0 then some e else if y = x ∧ j = 1 then some f else T.live y j
  nlinks := Function.update (Function.update T.nlinks x 2) d (T.nlinks d + 1)

def leave (d : Ino) (i : Nat) (x : Ino) : Tree :=
  { T with live := T.setLive d i none, nlinks := Function.update T.nlinks x (T.nlinks x - 1) }

def free (x : Ino) : Tree := { T with used := T.used \ {x}, nlinks := Function.update T.nlinks x 0 }

def drop (x : Ino) : Tree where
  used := T.used \ {x}
  dir := T.dir \ {x}
  live y j := if y = x then none else T.live y j
  nlinks := Function.update T.nlinks x 0

/-- A directory is removed. -/
def remove (d : Ino) (i : Nat) (x : Ino) : Tree where
  used := T.used \ {x}
  dir := T.dir \ {x}
  live y j := if y = x then none else T.setLive d i none y j
  nlinks := Function.update (Function.update T.nlinks d (T.nlinks d - 1)) x 0

section Facts

variable {T : Tree} {d x y p : Ino} {i j n : Nat} {e f : DirEntry} {isDir : Prop}

theorem Sane.unused (sane : T.Sane) (free : x ∉ T.used) (i : Nat) : T.live x i = none := by
  cases there : T.live x i with
  | none => rfl
  | some e => exact absurd (sane.used (sane.inDir _ _ _ there)) free

theorem Sane.unnamed (sane : T.Sane) (free : x ∉ T.used) : T.namers x = ∅ := by
  ext p
  exact ⟨fun names => free (sane.named _ _ _ names), fun none => none.elim⟩

theorem mem_setLive {o : Option DirEntry} : T.setLive d i o y j = some e ↔
    y = d ∧ j = i ∧ o = some e ∨ ¬ (y = d ∧ j = i) ∧ T.live y j = some e := by
  unfold setLive
  split
  next here => simp [here]
  next other =>
    simp only [other, not_false_eq_true, true_and]
    tauto

theorem low_place (place : 2 ≤ i) (low : j < 2) : ¬ (y = d ∧ j = i) :=
  fun here => absurd place (Nat.not_le.mpr (here.2 ▸ low))

theorem Sane.made_of_live (sane : T.Sane) (some' : T.live d i = some e) : T.Made d := by
  rcases sane.made d (sane.inDir d i e some') with bare | made
  · rw [bare i] at some'
    cases some'
  · exact made

theorem Made.place (made : T.Made d) (empty : T.live d i = none) : 2 ≤ i := by
  rcases made.dot with ⟨e, here, -⟩
  rcases made.dotDot with ⟨f, -, there, -⟩
  match i with
  | 0 =>
    rw [empty] at here
    cases here
  | 1 =>
    rw [empty] at there
    cases there
  | j + 2 => exact Nat.le_add_left 2 j

theorem Made.self (made : T.Made d) (there : T.live d 0 = some e) : target d e = d := by
  rcases made.dot with ⟨f, here, -, own⟩
  rw [there] at here
  cases here
  exact congrArg (Ino.mk d.dev) own

theorem Made.up (made : T.Made d) (there : T.live d 1 = some e) :
    if d.num = rootIno then target d e = d else ∃ j, 2 ≤ j ∧ T.Names (target d e) j d := by
  rcases made.dotDot with ⟨f, p, here, -, same, parent⟩
  rw [there] at here
  cases here
  rw [same]
  exact parent

theorem Names.same (names : T.Names d i x) (names' : T.Names d i y) : x = y := by
  rcases names with ⟨e, there, rfl⟩
  rcases names' with ⟨f, there', rfl⟩
  rw [there] at there'
  cases there'
  rfl

theorem Made.along {T' : Tree} (made : T.Made y)
    (kept : ∀ z j g, T.live z j = some g → z = y ∧ j < 2 ∨ 2 ≤ j ∧ target z g = y → T'.live z j = some g) : T'.Made y := by
  rcases made.dot with ⟨g, here, named, same⟩
  rcases made.dotDot with ⟨h, p, above, named', same', parent⟩
  refine ⟨⟨g, kept y 0 g here (.inl ⟨rfl, Nat.two_pos⟩), named, same⟩, h, p, kept y 1 h above (.inl ⟨rfl, Nat.one_lt_two⟩),
    named', same', ?_⟩
  split
  next root => exact (if_pos root).mp parent
  next inner =>
    rcases (if_neg inner).mp parent with ⟨j, place, g, there, named⟩
    exact ⟨j, place, g, kept p j g there (.inr ⟨place, named⟩), named⟩

theorem Sane.drop_alloc (sane : T.Sane) (free : x ∉ T.used) (links : T.nlinks x = 0) (n : Nat) (isDir : Prop) :
    (T.alloc x n isDir).drop x = T := by
  refine Tree.ext ?_ ?_ ?_ ?_
  · exact Set.insert_sdiff_self_of_notMem free
  · ext y
    show (y ∈ T.dir ∨ isDir ∧ y = x) ∧ y ≠ x ↔ y ∈ T.dir
    constructor
    · rintro ⟨old | ⟨-, own⟩, other⟩
      · exact old
      · exact absurd own other
    · exact fun old => ⟨.inl old, fun own => free (own ▸ sane.used old)⟩
  · funext y j
    show (if y = x then none else T.live y j) = T.live y j
    split
    next own => rw [own, sane.unused free]
    next => rfl
  · show Function.update (Function.update T.nlinks x n) x 0 = T.nlinks
    rw [Function.update_idem, ← links, Function.update_eq_self]

section Enter

variable (empty : T.live d i = none)

include empty

theorem namers_enter (isDir : Prop) (y : Ino) :
    (T.enter d i e n isDir).namers y = {p | p ∈ T.namers y ∨ p = (d, i) ∧ y = target d e} := by
  ext ⟨z, j⟩
  constructor
  · rintro ⟨f, there, same⟩
    have there : T.setLive d i (some e) z j = some f := there
    rcases mem_setLive.mp there with ⟨rfl, rfl, new⟩ | ⟨-, old⟩
    · cases new
      exact .inr ⟨rfl, same.symm⟩
    · exact .inl ⟨f, old, same⟩
  · rintro (⟨f, there, same⟩ | ⟨here, same⟩)
    · refine ⟨f, mem_setLive.mpr (.inr ⟨?_, there⟩), same⟩
      rintro ⟨rfl, rfl⟩
      rw [empty] at there
      cases there
    · cases here
      exact ⟨e, mem_setLive.mpr (.inl ⟨rfl, rfl, rfl⟩), same.symm⟩

theorem namers_enter_other (isDir : Prop) (other : y ≠ target d e) :
    (T.enter d i e n isDir).namers y = T.namers y := by
  rw [namers_enter empty]
  ext p
  simp [other]

theorem namers_enter_self (isDir : Prop) :
    (T.enter d i e n isDir).namers (target d e) = insert (d, i) (T.namers (target d e)) := by
  rw [namers_enter empty]
  ext p
  simp [or_comm]

theorem Made.enter {y : Ino} (made : T.Made y) (isDir : Prop) : (T.enter d i e n isDir).Made y := by
  refine made.along fun z j f there _ => mem_setLive.mpr (.inr ⟨?_, there⟩)
  rintro ⟨rfl, rfl⟩
  rw [empty] at there
  cases there

theorem Sane.enter (sane : T.Sane) (made : T.Made d)
    (fresh : ∀ j f name, T.live d j = some f → 0 ∉ name → entryMatches name f = true → entryMatches name e = false)
    (links : (T.namers (target d e)).encard = n) (file : target d e ∉ T.dir) (new : isDir → target d e ∉ T.used) :
    (T.enter d i e n isDir).Sane := by
  have isIn : d ∈ T.dir := by
    rcases made.dot with ⟨f, here, -⟩
    exact sane.inDir d 0 f here
  have place : 2 ≤ i := made.place empty
  have apart : d ≠ target d e := fun same => file (same ▸ isIn)
  have live {y : Ino} {j : Nat} {f : DirEntry} (there : (T.enter d i e n isDir).live y j = some f) :=
    mem_setLive.mp (show T.setLive d i (some e) y j = some f from there)
  refine ⟨?_, ?_, ?_, ?_, ?_, ?_, ?_, ?_, ?_⟩
  · rintro y (old | ⟨-, rfl⟩)
    · exact Set.mem_insert_of_mem _ (sane.used old)
    · exact Set.mem_insert _ _
  · intro y j f there
    rcases live there with ⟨rfl, -⟩ | ⟨-, old⟩
    · exact .inl isIn
    · exact .inl (sane.inDir y j f old)
  · intro y j x names
    have here : (y, j) ∈ (T.enter d i e n isDir).namers x := names
    rw [namers_enter empty] at here
    rcases here with old | ⟨-, rfl⟩
    · exact Set.mem_insert_of_mem _ (sane.named y j x old)
    · exact Set.mem_insert _ _
  · intro y j k f g name there there' plain named named'
    rcases live there with ⟨rfl, rfl, here⟩ | ⟨-, old⟩
    · cases here
      rcases live there' with ⟨-, rfl, -⟩ | ⟨-, old⟩
      · rfl
      · rw [fresh k g name old plain named'] at named
        cases named
    · rcases live there' with ⟨rfl, rfl, here⟩ | ⟨-, old'⟩
      · cases here
        rw [fresh j f name old plain named] at named'
        cases named'
      · exact sane.unique y j k f g name old old' plain named named'
  · rintro y (old | ⟨isDir, rfl⟩)
    · rcases sane.made y old with bare | made'
      · by_cases same : y = d
        · rw [same]
          exact .inr (made.enter empty _)
        · refine .inl fun j => ?_
          show T.setLive d i (some e) y j = none
          rw [setLive, if_neg fun here => same here.1, bare j]
      · exact .inr (made'.enter empty _)
    · refine .inl fun j => ?_
      show T.setLive d i (some e) (target d e) j = none
      rw [setLive, if_neg fun here => apart here.1.symm, sane.unused (new isDir)]
  · rintro y isDir' p q here there first second
    by_cases same : y = target d e
    · rcases isDir' with old | ⟨isDir, -⟩
      · exact absurd (same ▸ old) file
      · rw [same, namers_enter_self empty, sane.unnamed (new isDir), insert_empty_eq] at here there
        exact here.trans there.symm
    · rw [namers_enter_other empty _ same] at here there
      rcases isDir' with old | ⟨-, new⟩
      · exact sane.one y old p q here there first second
      · exact absurd new same
  · rintro y (old | ⟨-, rfl⟩)
    · exact .inl (sane.root y old)
    · exact .inl (sane.root d isIn)
  · rintro y isDir' root p here
    by_cases same : y = target d e
    · rcases isDir' with old | ⟨isDir, -⟩
      · exact absurd (same ▸ old) file
      · have isRoot : y = ⟨d.dev, rootIno⟩ := by
          rw [same] at root ⊢
          exact congrArg (Ino.mk d.dev) root
        exact absurd (sane.root d isIn) (isRoot ▸ same ▸ file)
    · rw [namers_enter_other empty _ same] at here
      rcases isDir' with old | ⟨-, new⟩
      · exact sane.top y old root p here
      · exact absurd new same
  · intro y used
    by_cases same : y = target d e
    · rw [same, namers_enter_self empty, Set.encard_insert_of_notMem, links]
      · show _ = ((Function.update T.nlinks (target d e) (n + 1) (target d e) : Nat) : ENat)
        rw [Function.update_self]
        rfl
      · rintro ⟨f, there, -⟩
        have there : T.live d i = some f := there
        rw [empty] at there
        cases there
    · rw [namers_enter_other empty _ same]
      show _ = ((Function.update T.nlinks (target d e) (n + 1) y : Nat) : ENat)
      rw [Function.update_of_ne same]
      exact sane.exact y ((Set.mem_insert_iff.mp used).resolve_left same)

theorem Sane.enter_new (sane : T.Sane) (made : T.Made d)
    (fresh : ∀ j f name, T.live d j = some f → 0 ∉ name → entryMatches name f = true → entryMatches name e = false)
    (free : target d e ∉ T.used) : (T.enter d i e 0 isDir).Sane := by
  have none : (T.namers (target d e)).encard = (0 : Nat) := by
    rw [sane.unnamed free, Set.encard_empty]
    rfl
  exact sane.enter empty made fresh none (fun isDir => free (sane.used isDir)) fun _ => free

end Enter

section Furnish

variable (bare : ∀ i, T.live x i = none)

include bare

theorem mem_furnish {z : Ino} {j : Nat} {g : DirEntry} : (T.furnish x d e f).live z j = some g ↔
    z = x ∧ j = 0 ∧ g = e ∨ z = x ∧ j = 1 ∧ g = f ∨ z ≠ x ∧ T.live z j = some g := by
  unfold furnish
  dsimp only
  by_cases own : z = x
  · rw [own, bare j]
    match j with
    | 0 => simp [eq_comm]
    | 1 => simp [eq_comm]
    | k + 2 => simp
  · simp [own]

theorem namers_furnish (dot : target x e = x) (dotDot : target x f = d) (y : Ino) : (T.furnish x d e f).namers y =
    {p | p ∈ T.namers y ∨ p = (x, 0) ∧ y = x ∨ p = (x, 1) ∧ y = d} := by
  ext ⟨z, j⟩
  constructor
  · rintro ⟨g, there, same⟩
    rcases (mem_furnish bare).mp there with ⟨rfl, rfl, rfl⟩ | ⟨rfl, rfl, rfl⟩ | ⟨-, old⟩
    · exact .inr (.inl ⟨rfl, same.symm.trans dot⟩)
    · exact .inr (.inr ⟨rfl, same.symm.trans dotDot⟩)
    · exact .inl ⟨g, old, same⟩
  · rintro (⟨g, old, same⟩ | ⟨here, rfl⟩ | ⟨here, rfl⟩)
    · refine ⟨g, (mem_furnish bare).mpr (.inr (.inr ⟨?_, old⟩)), same⟩
      intro own
      have none := bare j
      rw [← own] at none
      exact absurd (none.symm.trans old) (by simp)
    · cases here
      exact ⟨e, (mem_furnish bare).mpr (.inl ⟨rfl, rfl, rfl⟩), dot⟩
    · cases here
      exact ⟨f, (mem_furnish bare).mpr (.inr (.inl ⟨rfl, rfl, rfl⟩)), dotDot⟩

theorem namers_furnish_self (dot : target x e = x) (dotDot : target x f = d) (apart : d ≠ x) :
    (T.furnish x d e f).namers x = insert (x, 0) (T.namers x) := by
  rw [namers_furnish bare dot dotDot]
  ext p
  simp [apart.symm, or_comm]

theorem namers_furnish_parent (dot : target x e = x) (dotDot : target x f = d) (apart : d ≠ x) :
    (T.furnish x d e f).namers d = insert (x, 1) (T.namers d) := by
  rw [namers_furnish bare dot dotDot]
  ext p
  simp [apart, or_comm]

theorem namers_furnish_other (dot : target x e = x) (dotDot : target x f = d) (own : y ≠ x) (up : y ≠ d) :
    (T.furnish x d e f).namers y = T.namers y := by
  rw [namers_furnish bare dot dotDot]
  ext p
  simp [own, up]

theorem Made.furnish {y : Ino} (made : T.Made y) : (T.furnish x d e f).Made y := by
  refine made.along fun z j g there _ => (mem_furnish bare).mpr (.inr (.inr ⟨?_, there⟩))
  intro own
  rw [own, bare j] at there
  cases there

theorem Sane.furnish (sane : T.Sane) (place : 2 ≤ i) (names : T.Names d i x) (isDir : x ∈ T.dir) (apart : d ≠ x)
    (links : T.nlinks x = 1) (dot : entryMatches Fs.dot e = true) (self : e.inode = x.num)
    (dotDot : entryMatches Fs.dotDot f = true) (parent : target x f = d) : (T.furnish x d e f).Sane := by
  have self' : target x e = x := congrArg (Ino.mk x.dev) self
  have inner : x.num ≠ rootIno := fun root => absurd (sane.top x isDir root (d, i) names) (Nat.not_lt.mpr place)
  have parentDir : d ∈ T.dir := by
    rcases names with ⟨g, there, -⟩
    exact sane.inDir d i g there
  have above : (T.furnish x d e f).Names d i x := by
    have here : (d, i) ∈ (T.furnish x d e f).namers x := by
      rw [namers_furnish bare self' parent]
      exact .inl names
    exact here
  refine ⟨sane.used, ?_, ?_, ?_, ?_, ?_, sane.root, ?_, ?_⟩
  · intro y j g there
    rcases (mem_furnish bare).mp there with ⟨rfl, -⟩ | ⟨rfl, -⟩ | ⟨-, old⟩
    · exact isDir
    · exact isDir
    · exact sane.inDir y j g old
  · intro y j z names'
    have here : (y, j) ∈ (T.furnish x d e f).namers z := names'
    rw [namers_furnish bare self' parent] at here
    rcases here with old | ⟨-, rfl⟩ | ⟨-, rfl⟩
    · exact sane.named y j z old
    · exact sane.used isDir
    · exact sane.used parentDir
  · intro y j k g h name there there' plain named named'
    have differ : entryMatches name e = true → entryMatches name f = true → False := by
      intro first second
      have one := entryMatches_unique plain (by decide) first dot
      have two := entryMatches_unique plain (by decide) second dotDot
      exact absurd (one.symm.trans two) (by decide)
    rcases (mem_furnish bare).mp there with ⟨rfl, rfl, rfl⟩ | ⟨rfl, rfl, rfl⟩ | ⟨other, old⟩
    · rcases (mem_furnish bare).mp there' with ⟨-, rfl, -⟩ | ⟨-, -, rfl⟩ | ⟨other, -⟩
      · rfl
      · exact (differ named named').elim
      · exact absurd rfl other
    · rcases (mem_furnish bare).mp there' with ⟨-, -, rfl⟩ | ⟨-, rfl, -⟩ | ⟨other, -⟩
      · exact (differ named' named).elim
      · rfl
      · exact absurd rfl other
    · rcases (mem_furnish bare).mp there' with ⟨rfl, -⟩ | ⟨rfl, -⟩ | ⟨-, old'⟩
      · exact absurd rfl other
      · exact absurd rfl other
      · exact sane.unique y j k g h name old old' plain named named'
  · intro y isDir'
    by_cases own : y = x
    · rw [own]
      refine .inr ⟨⟨e, (mem_furnish bare).mpr (.inl ⟨rfl, rfl, rfl⟩), dot, self⟩, f, d,
        (mem_furnish bare).mpr (.inr (.inl ⟨rfl, rfl, rfl⟩)), dotDot, parent, ?_⟩
      rw [if_neg inner]
      exact ⟨i, place, above⟩
    · rcases sane.made y isDir' with empty | made
      · refine .inl fun j => ?_
        show (if y = x ∧ j = 0 then some e else if y = x ∧ j = 1 then some f else T.live y j) = none
        rw [if_neg fun here => own here.1, if_neg fun here => own here.1, empty j]
      · exact .inr (made.furnish bare)
  · intro y isDir' p q here there first second
    rw [namers_furnish bare self' parent] at here there
    rcases here with old | ⟨rfl, -⟩ | ⟨rfl, -⟩
    · rcases there with old' | ⟨rfl, -⟩ | ⟨rfl, -⟩
      · exact sane.one y isDir' p q old old' first second
      · exact absurd second (Nat.not_le.mpr Nat.two_pos)
      · exact absurd second (Nat.not_le.mpr Nat.one_lt_two)
    · exact absurd first (Nat.not_le.mpr Nat.two_pos)
    · exact absurd first (Nat.not_le.mpr Nat.one_lt_two)
  · intro y isDir' root p here
    rw [namers_furnish bare self' parent] at here
    rcases here with old | ⟨rfl, -⟩ | ⟨rfl, -⟩
    · exact sane.top y isDir' root p old
    · exact Nat.two_pos
    · exact Nat.one_lt_two
  · intro y used
    have exact' := sane.exact y used
    have absent (k : Nat) (z : Ino) : (x, k) ∉ T.namers z := by
      rintro ⟨g, there, -⟩
      have there : T.live x k = some g := there
      rw [bare k] at there
      cases there
    by_cases own : y = x
    · rw [own] at exact' ⊢
      rw [namers_furnish_self bare self' parent apart, Set.encard_insert_of_notMem (absent 0 x), exact']
      show _ = ((Function.update (Function.update T.nlinks x 2) d (T.nlinks d + 1) x : Nat) : ENat)
      rw [Function.update_of_ne apart.symm, Function.update_self, links]
      rfl
    · by_cases up : y = d
      · rw [up] at exact' ⊢
        rw [namers_furnish_parent bare self' parent apart, Set.encard_insert_of_notMem (absent 1 d), exact']
        show _ = ((Function.update (Function.update T.nlinks x 2) d (T.nlinks d + 1) d : Nat) : ENat)
        rw [Function.update_self]
        rfl
      · rw [namers_furnish_other bare self' parent own up, exact']
        show _ = ((Function.update (Function.update T.nlinks x 2) d (T.nlinks d + 1) y : Nat) : ENat)
        rw [Function.update_of_ne up, Function.update_of_ne own]

end Furnish

theorem Sane.drop_build (sane : T.Sane) (free : x ∉ T.used) (links : T.nlinks x = 0) : (T.build x e f).drop x = T := by
  have same : (T.build x e f).drop x = (T.alloc x 2 True).drop x := by
    refine Tree.ext rfl ?_ ?_ rfl
    · show insert x T.dir \ {x} = {y | y ∈ T.dir ∨ True ∧ y = x} \ {x}
      congr 1
      ext y
      simp [or_comm]
    · funext y j
      show (if y = x then none else if y = x ∧ j = 0 then some e else if y = x ∧ j = 1 then some f else T.live y j) =
        if y = x then none else T.live y j
      split
      next => rfl
      next other => rw [if_neg fun here => other here.1, if_neg fun here => other here.1]
  exact same.trans (sane.drop_alloc free links 2 True)

theorem build_enter {g : DirEntry} (apart : d ≠ x) (target_ : target d g = x) : ({ T.build x e f with
      live := (T.build x e f).setLive d i (some g)
      nlinks := Function.update (T.build x e f).nlinks d (T.nlinks d + 1) } : Tree) = (T.enter d i g 0 True).furnish x d e f := by
  refine Tree.ext ?_ ?_ ?_ ?_
  · show insert x T.used = insert (target d g) T.used
    rw [target_]
  · ext y
    show y = x ∨ y ∈ T.dir ↔ y ∈ T.dir ∨ True ∧ y = target d g
    rw [target_, true_and, or_comm]
  · funext y j
    show (if y = d ∧ j = i then some g else if y = x ∧ j = 0 then some e else if y = x ∧ j = 1 then some f else T.live y j) =
      if y = x ∧ j = 0 then some e else if y = x ∧ j = 1 then some f else if y = d ∧ j = i then some g else T.live y j
    by_cases own : y = x
    · rw [if_neg fun here => apart (here.1.symm.trans own)]
      simp only [own, true_and]
      rw [if_neg fun here : x = d ∧ j = i => apart here.1.symm]
    · simp only [own, false_and, if_false]
  · show Function.update (Function.update T.nlinks x 2) d _ =
      Function.update (Function.update (Function.update T.nlinks (target d g) (0 + 1)) x 2) d _
    rw [target_, Function.update_idem]
    have links : (T.enter d i g 0 True).nlinks d = T.nlinks d := by
      show Function.update T.nlinks (target d g) (0 + 1) d = T.nlinks d
      rw [target_, Function.update_of_ne apart]
    rw [links]

section Leave

theorem encard_erase {S : Set (Ino × Nat)} {q : Ino × Nat} {n : Nat} (here : q ∈ S) (size : S.encard = n) :
    (S \ {q}).encard = (n - 1 : Nat) := by
  have count := Set.encard_sdiff_singleton_add_one here
  rw [size] at count
  have finite : (S \ {q}).encard ≠ ⊤ := by
    intro infinite
    rw [infinite] at count
    exact absurd count (by simp)
  rcases ENat.ne_top_iff_exists.mp finite with ⟨c, same⟩
  rw [← same] at count ⊢
  have count' : c + 1 = n := by exact_mod_cast count
  rw [← count', Nat.add_sub_cancel]

theorem mem_leave {z : Ino} {j : Nat} {g : DirEntry} :
    (T.leave d i x).live z j = some g ↔ ¬ (z = d ∧ j = i) ∧ T.live z j = some g := by
  show T.setLive d i none z j = some g ↔ _
  rw [mem_setLive]
  simp

theorem namers_leave (y : Ino) : (T.leave d i x).namers y = T.namers y \ {(d, i)} := by
  ext ⟨z, j⟩
  constructor
  · rintro ⟨g, there, same⟩
    rcases mem_leave.mp there with ⟨other, old⟩
    exact ⟨⟨g, old, same⟩, fun here => other (Prod.mk.inj here)⟩
  · rintro ⟨⟨g, old, same⟩, other⟩
    exact ⟨g, mem_leave.mpr ⟨fun here => other (Prod.ext here.1 here.2), old⟩, same⟩

theorem Sane.place (sane : T.Sane) (names : T.Names d i x) (file : x ∉ T.dir) : 2 ≤ i := by
  rcases names with ⟨e, there, rfl⟩
  have made := sane.made_of_live there
  have isDir := sane.inDir d i e there
  match i with
  | 0 =>
    rw [made.self there] at file
    exact absurd isDir file
  | 1 =>
    have up := made.up there
    split at up
    · rw [up] at file
      exact absurd isDir file
    · rcases up with ⟨j, -, g, above, -⟩
      exact absurd (sane.inDir _ j g above) file
  | j + 2 => exact Nat.le_add_left 2 j

theorem Sane.leave (sane : T.Sane) (names : T.Names d i x) (file : x ∉ T.dir) : (T.leave d i x).Sane := by
  have place := sane.place names file
  have kept {z : Ino} {j : Nat} {g : DirEntry} (there : T.live z j = some g) (other : j < 2 ∨ target z g ∈ T.dir) :
      (T.leave d i x).live z j = some g := by
    refine mem_leave.mpr ⟨?_, there⟩
    rintro ⟨rfl, rfl⟩
    rcases other with low | isDir
    · exact absurd low (Nat.not_lt.mpr place)
    · have same : target z g = x := Names.same ⟨g, there, rfl⟩ names
      exact file (same ▸ isDir)
  have less {y : Ino} {p : Ino × Nat} (here : p ∈ (T.leave d i x).namers y) : p ∈ T.namers y := by
    rw [namers_leave] at here
    exact here.1
  refine ⟨sane.used, ?_, ?_, ?_, ?_, ?_, sane.root, ?_, ?_⟩
  · exact fun y j g there => sane.inDir y j g (mem_leave.mp there).2
  · intro y j z names'
    exact sane.named y j z (less (show (y, j) ∈ (T.leave d i x).namers z from names'))
  · exact fun y j k g h name there there' => sane.unique y j k g h name (mem_leave.mp there).2 (mem_leave.mp there').2
  · intro y isDir
    rcases sane.made y isDir with bare | made
    · refine .inl fun j => ?_
      show T.setLive d i none y j = none
      unfold setLive
      split
      · rfl
      · exact bare j
    · exact .inr (made.along fun z j g there spared => kept there (spared.imp And.right fun named : 2 ≤ j ∧ target z g = y => named.2 ▸ isDir))
  · exact fun y isDir p q here there => sane.one y isDir p q (less here) (less there)
  · exact fun y isDir root p here => sane.top y isDir root p (less here)
  · intro y used
    have exact' := sane.exact y used
    rw [namers_leave]
    show _ = ((Function.update T.nlinks x (T.nlinks x - 1) y : Nat) : ENat)
    by_cases own : y = x
    · rw [own] at exact' ⊢
      rw [Function.update_self]
      exact encard_erase names exact'
    · have apart : (d, i) ∉ T.namers y := fun here => own (Names.same here names)
      rw [Function.update_of_ne own, Set.sdiff_singleton_eq_self apart]
      exact exact'

theorem Sane.free (sane : T.Sane) (file : x ∉ T.dir) (unnamed : T.namers x = ∅) : (T.free x).Sane := by
  refine ⟨?_, sane.inDir, ?_, sane.unique, ?_, sane.one, sane.root, sane.top, ?_⟩
  · intro y isDir
    refine ⟨sane.used isDir, fun same => file ?_⟩
    rw [Set.mem_singleton_iff] at same
    exact same ▸ isDir
  · intro y j z names
    refine ⟨sane.named y j z names, fun same => ?_⟩
    rw [Set.mem_singleton_iff] at same
    have here : (y, j) ∈ T.namers x := same ▸ names
    rw [unnamed] at here
    exact here
  · exact fun y isDir => (sane.made y isDir).imp id fun made => made.along fun _ _ _ there _ => there
  · rintro y ⟨used, other⟩
    have other : y ≠ x := other
    show _ = ((Function.update T.nlinks x 0 y : Nat) : ENat)
    rw [Function.update_of_ne other]
    exact sane.exact y used

end Leave

section Remove

structure Removable (T : Tree) (d : Ino) (i : Nat) (x : Ino) : Prop where
  names : T.Names d i x
  isDir : x ∈ T.dir
  apart : x ≠ d
  made : T.Made x
  empty : ∀ j, 2 ≤ j → T.live x j = none

theorem Removable.place (goes : T.Removable d i x) (sane : T.Sane) : 2 ≤ i := by
  rcases goes.names with ⟨e, there, same⟩
  have above := sane.made_of_live there
  match i with
  | 0 => exact absurd (same.symm.trans (above.self there)) goes.apart
  | 1 =>
    have parent := above.up there
    rw [same] at parent
    split at parent
    · exact absurd parent goes.apart
    · rcases parent with ⟨j, place, g, inside, -⟩
      rw [goes.empty j place] at inside
      cases inside
  | j + 2 => exact Nat.le_add_left 2 j

theorem Removable.inner (goes : T.Removable d i x) (sane : T.Sane) : x.num ≠ rootIno := fun root =>
  absurd (sane.top x goes.isDir root (d, i) goes.names) (Nat.not_lt.mpr (goes.place sane))

theorem Removable.namers (goes : T.Removable d i x) (sane : T.Sane) {z : Ino} {j : Nat} (names : T.Names z j x) :
    (z, j) = (d, i) ∨ z = x := by
  rcases names with ⟨g, there, same⟩
  by_cases high : 2 ≤ j
  · exact .inl (sane.one x goes.isDir (z, j) (d, i) ⟨g, there, same⟩ goes.names high (goes.place sane))
  · have above := sane.made_of_live there
    match j with
    | 0 => exact .inr ((above.self there).symm.trans same)
    | 1 =>
      have parent := above.up there
      rw [same] at parent
      split at parent
      · exact .inr parent.symm
      · rcases parent with ⟨k, place', h, inside, -⟩
        rw [goes.empty k place'] at inside
        cases inside
    | k + 2 => exact absurd (Nat.le_add_left 2 k) high

theorem Removable.parent (goes : T.Removable d i x) (sane : T.Sane) : T.Names x 1 d := by
  rcases goes.made.dotDot with ⟨g, p, there, -, same, parent⟩
  rw [if_neg (goes.inner sane)] at parent
  rcases parent with ⟨j, place, names'⟩
  have one := sane.one x goes.isDir (p, j) (d, i) names' goes.names place (goes.place sane)
  cases one
  exact ⟨g, there, same⟩

theorem Removable.links (goes : T.Removable d i x) (sane : T.Sane) : 2 ≤ T.nlinks d := by
  have up := goes.parent sane
  rcases goes.names with ⟨g, there, -⟩
  rcases (sane.made_of_live there).dot with ⟨f, here, -, self⟩
  have own : T.Names d 0 d := ⟨f, here, congrArg (Ino.mk d.dev) self⟩
  have both : ({(x, 1), (d, 0)} : Set (Ino × Nat)) ⊆ T.namers d := by
    rintro p (rfl | rfl)
    · exact up
    · exact own
  have apart : ((x, 1) : Ino × Nat) ≠ (d, 0) := fun same => goes.apart (congrArg Prod.fst same)
  have count := Set.encard_le_encard both
  rw [Set.encard_pair apart, sane.exact d (sane.used (sane.inDir d i g there))] at count
  exact_mod_cast count

theorem mem_remove {z : Ino} {j : Nat} {g : DirEntry} :
    (T.remove d i x).live z j = some g ↔ z ≠ x ∧ ¬ (z = d ∧ j = i) ∧ T.live z j = some g := by
  show (if z = x then none else T.setLive d i none z j) = some g ↔ _
  split
  next own => simp [own]
  next other =>
    rw [mem_setLive]
    simp [other]

theorem Removable.namers_remove (goes : T.Removable d i x) (other : y ≠ x) :
    (T.remove d i x).namers y = T.namers y \ {(x, 1)} := by
  ext ⟨z, j⟩
  constructor
  · rintro ⟨g, there, same⟩
    rcases mem_remove.mp there with ⟨apart, -, old⟩
    exact ⟨⟨g, old, same⟩, fun here => apart (congrArg Prod.fst here)⟩
  · rintro ⟨⟨g, there, same⟩, notUp⟩
    have there : T.live z j = some g := there
    have same : target z g = y := same
    refine ⟨g, mem_remove.mpr ⟨?_, ?_, there⟩, same⟩
    · rintro rfl
      match j with
      | 0 => exact other (same.symm.trans (goes.made.self there))
      | 1 => exact notUp rfl
      | k + 2 =>
        rw [goes.empty (k + 2) (Nat.le_add_left 2 k)] at there
        cases there
    · rintro ⟨rfl, rfl⟩
      exact other (Names.same ⟨g, there, same⟩ goes.names)

theorem Sane.remove (sane : T.Sane) (goes : T.Removable d i x) : (T.remove d i x).Sane := by
  have place := goes.place sane
  have up := goes.parent sane
  have less {y : Ino} (other : y ≠ x) {p : Ino × Nat} (here : p ∈ (T.remove d i x).namers y) : p ∈ T.namers y := by
    rw [goes.namers_remove other] at here
    exact here.1
  have kept {z : Ino} {j : Nat} {g : DirEntry} (there : T.live z j = some g) (apart : z ≠ x)
      (other : j < 2 ∨ target z g ≠ x) : (T.remove d i x).live z j = some g := by
    refine mem_remove.mpr ⟨apart, ?_, there⟩
    rintro ⟨rfl, rfl⟩
    rcases other with low | other
    · exact absurd low (Nat.not_lt.mpr place)
    · exact other (Names.same ⟨g, there, rfl⟩ goes.names)
  refine ⟨?_, ?_, ?_, ?_, ?_, ?_, ?_, ?_, ?_⟩
  · exact fun y isDir => ⟨sane.used isDir.1, isDir.2⟩
  · intro y j g there
    rcases mem_remove.mp there with ⟨other, -, old⟩
    exact ⟨sane.inDir y j g old, other⟩
  · rintro y j z ⟨g, there, same⟩
    rcases mem_remove.mp there with ⟨other, apart, old⟩
    refine ⟨sane.named y j z ⟨g, old, same⟩, fun own => ?_⟩
    have own : z = x := own
    rcases goes.namers sane ⟨g, old, same.trans own⟩ with here | here
    · exact apart (Prod.mk.inj here)
    · exact other here
  · intro y j k g h name there there'
    exact sane.unique y j k g h name (mem_remove.mp there).2.2 (mem_remove.mp there').2.2
  · rintro y ⟨isDir, other⟩
    have other : y ≠ x := other
    rcases sane.made y isDir with bare | made
    · refine .inl fun j => ?_
      show (if y = x then none else T.setLive d i none y j) = none
      unfold setLive
      rw [if_neg other]
      split
      · rfl
      · exact bare j
    · refine .inr (made.along fun z j g there spared => kept there ?_ ?_)
      case refine_2 => exact spared.imp And.right fun named : 2 ≤ j ∧ target z g = y => named.2 ▸ other
      rintro rfl
      rcases spared with ⟨own, -⟩ | ⟨place, -⟩
      · exact other own.symm
      · rw [goes.empty j place] at there
        cases there
  · rintro y ⟨isDir, other⟩ p q here there
    exact sane.one y isDir p q (less other here) (less other there)
  · rintro y ⟨isDir, other⟩
    refine ⟨sane.root y isDir, fun own => ?_⟩
    have own : (⟨y.dev, rootIno⟩ : Ino) = x := own
    exact goes.inner sane (own ▸ rfl)
  · rintro y ⟨isDir, other⟩ root p here
    exact sane.top y isDir root p (less other here)
  · rintro y ⟨used, other⟩
    have other : y ≠ x := other
    have exact' := sane.exact y used
    rw [goes.namers_remove other]
    show _ = ((Function.update (Function.update T.nlinks d (T.nlinks d - 1)) x 0 y : Nat) : ENat)
    rw [Function.update_of_ne other]
    by_cases above : y = d
    · rw [above] at exact' ⊢
      rw [Function.update_self]
      exact encard_erase up exact'
    · rw [Function.update_of_ne above, Set.sdiff_singleton_eq_self]
      · exact exact'
      · exact fun here : T.Names x 1 y => above (here.same up)

end Remove

end Facts

end Tree

end Linux011.Fs

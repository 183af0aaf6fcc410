import Linux011.Fs.Directory
import Linux011.Fs.Jail

namespace Linux011.Fs

open Linux011.Library

variable {σ : Type} {k : Kernel σ} {current : Process} {fs fs' fs₁ : FileSystem σ} {d : Ino} {name : Name} {i n : Nat}

section Searching

/-- Whether a name is found in a directory, and where. -/
def Finds (fs : FileSystem σ) (d : Ino) (name : Name) : Option Slot → Prop
  | none => ∀ i e, fs.live d i = some e → entryMatches name e = false
  | some slot => ∃ i e, slot = fs.slotAt d i ∧ fs.live d i = some e ∧ entryMatches name e = true

theorem Near.slotAt (near : Near fs fs') (d : Ino) (i : Nat) : fs'.slotAt d i = fs.slotAt d i := by
  unfold FileSystem.slotAt
  rw [near.inode d]

theorem Near.live (near : Near fs fs') : fs'.live = fs.live := congrArg Tree.live near.tree

theorem Near.finds (near : Near fs fs') {found : Option Slot} : Finds fs' d name found ↔ Finds fs d name found := by
  cases found with
  | none => rw [Finds, Finds, near.live]
  | some slot =>
    rw [Finds, Finds, near.live]
    simp only [near.slotAt]

theorem lookIn_none {limit : Nat} {block : Block} (none : lookIn name limit block = none) (i : Fin dirEntriesPerBlock)
    (inside : i.val < limit) : entryMatches name (block i) = false := by
  have passed := List.find?_eq_none.mp none i (List.mem_finRange i)
  simpa [inside] using passed

theorem live_of_block (isDir : fs.IsDir d) (mapped : (fs.inode d).zone n ≠ 0) (i : Fin dirEntriesPerBlock)
    (inside : n * dirEntriesPerBlock + i.val < fs.entries d)
    (matches_ : entryMatches name (fs.block d.dev ((fs.inode d).zone n) i) = true) :
    Finds fs d name (some ⟨d.dev, (fs.inode d).zone n, i⟩) := by
  have slot := slotAt_place fs d n i
  refine ⟨n * dirEntriesPerBlock + i.val, _, slot.symm, live_eq_some.mpr ⟨isDir, inside, ?_, ?_, rfl⟩, ?_⟩
  · rw [place_div]
    exact mapped
  · rw [slot]
    exact (entryMatches_iff.mp matches_).1
  · rw [slot]
    exact matches_

theorem no_match_in_block (none : lookIn name (fs.entries d - n * dirEntriesPerBlock) (fs.block d.dev ((fs.inode d).zone n)) = none)
    {e : DirEntry} (here : i / dirEntriesPerBlock = n) (there : fs.live d i = some e) : entryMatches name e = false := by
  rcases live_eq_some.mp there with ⟨-, inside, -, -, rfl⟩
  have rest : i % dirEntriesPerBlock < fs.entries d - n * dirEntriesPerBlock := by
    have := Nat.div_add_mod i dirEntriesPerBlock
    rw [here] at this
    have := Nat.mul_comm n dirEntriesPerBlock
    omega
  have passed := lookIn_none none ⟨i % dirEntriesPerBlock, Nat.mod_lt _ (by decide)⟩ rest
  unfold FileSystem.entry FileSystem.slotAt
  dsimp only
  rw [here]
  exact passed

variable (serves : k.Serves) (sound : fs.Sound) (isDir : fs.IsDir d)

include serves sound isDir

theorem findFrom_finds (left n : Nat) (near : Near fs fs₁)
    (passed : ∀ i e, i / dirEntriesPerBlock < n → fs.live d i = some e → entryMatches name e = false)
    (enough : fs.entries d ≤ (n + left) * dirEntriesPerBlock) :
    Gives (findFrom k d name (fs.entries d) left n) (fun found fs' => Near fs fs' ∧ Finds fs d name found) fs₁ := by
  induction left generalizing n fs₁ with
  | zero =>
    refine ⟨near, fun i e there => passed i e ?_ there⟩
    have inside := (live_eq_some.mp there).2.1
    unfold dirEntriesPerBlock at *
    omega
  | succ left ih =>
    have enough' : fs.entries d ≤ (n + 1 + left) * dirEntriesPerBlock := by
      rw [Nat.add_assoc, Nat.add_comm 1 left]
      exact enough
    rw [findFrom]
    apply (serves.bmap d n fs₁).bind
    rintro block fs₂ ⟨mapped, same⟩
    have near₂ := near.trans (same.near (near.sound sound))
    rw [near.inode d] at mapped
    dsimp only at mapped
    split
    next absent =>
      refine ih (n + 1) near₂ (fun i e before there => ?_) enough'
      rcases Nat.lt_succ_iff_lt_or_eq.mp before with earlier | here
      · exact passed i e earlier there
      · have present := (live_eq_some.mp there).2.2.1
        rw [here, ← mapped] at present
        exact absurd absent present
    next present =>
      apply (serves.bread d.dev block fs₂).bind
      rintro read fs₃ ⟨rfl, same'⟩
      have near₃ := near₂.trans (same'.near (near₂.sound sound))
      rw [Bool.not_true, if_neg (by decide), gives_get, near₃.block]
      subst mapped
      split
      next i found =>
        have both := List.find?_some found
        rw [Bool.and_eq_true, decide_eq_true_iff] at both
        exact ⟨near₃, live_of_block isDir present i (by omega) both.2⟩
      next none =>
        refine ih (n + 1) near₃ (fun i e before there => ?_) enough'
        rcases Nat.lt_succ_iff_lt_or_eq.mp before with earlier | here
        · exact passed i e earlier there
        · exact no_match_in_block none here there

theorem searchDir_finds : Gives (searchDir k d name (fs.entries d)) (fun found fs' => Near fs fs' ∧ Finds fs d name found) fs := by
  rw [searchDir, gives_modify, gives_inodeOf]
  have near : Near fs { fs with searched := d :: fs.searched } := ⟨fun _ => rfl, rfl, rfl, rfl, sound.held⟩
  generalize { fs with searched := d :: fs.searched } = fs₁ at *
  have zone : (fs₁.inode d).zone = (fs.inode d).zone := by rw [near.inode d]
  rw [zone]
  dsimp only
  split
  next absent =>
    refine ⟨near, fun i e there => ?_⟩
    exact absurd (sound.bare d isDir absent _) (live_eq_some.mp there).2.2.1
  next present =>
    apply (serves.bread d.dev _ fs₁).bind
    rintro read fs₂ ⟨rfl, same⟩
    have near₂ := near.trans (same.near (near.sound sound))
    rw [Bool.not_true, if_neg (by decide), gives_get, near₂.block]
    split
    next i found =>
      have both := List.find?_some found
      rw [Bool.and_eq_true, decide_eq_true_iff] at both
      refine ⟨near₂, live_of_block isDir present i ?_ both.2⟩
      rw [Nat.zero_mul, Nat.zero_add]
      exact both.1
    next none =>
      refine findFrom_finds serves sound isDir _ 1 near₂ (fun i e first there => ?_) ?_
      · refine no_match_in_block (n := 0) ?_ (Nat.lt_one_iff.mp first) there
        rw [Nat.zero_mul, Nat.sub_zero]
        exact none
      · unfold dirEntriesPerBlock
        omega

end Searching

structure Entered (fs : FileSystem σ) (d : Ino) : Prop where
  isDir : fs.IsDir d
  links : d.dev ≠ 0 → (fs.inode d).nlinks ≠ 0

theorem Entered.lives (entered : Entered fs d) (near : Near fs fs') : ¬ Dies d (fs'.inode d) := by
  rintro ⟨disk, links, -⟩
  exact near.links entered.links disk links

theorem Entered.near (entered : Entered fs d) (near : Near fs fs') : Entered fs' d := by
  exact ⟨(near.isDir d).mpr entered.isDir, near.links entered.links⟩

section Finding

variable (serves : k.Serves) (sound : fs.Sound)

include serves sound

/-- A reference is dropped that is not the last one to an inode without links. -/
theorem iput_near {x : Ino} (lives : ¬ Dies x (fs.inode x)) : Gives (k.iput x) (fun _ fs' => Near fs fs') fs := by
  apply (serves.iput x fs).imp
  rintro _ fs₁ ⟨-, drops⟩
  have same := drops lives
  have near : Near fs (fs.modifyInode x fun inode => { inode with count := inode.count - 1 }) :=
    Near.count sound x (· - 1) fun some' => sound.held x (by omega)
  exact near.trans (same.near (near.sound sound))

/-- The root of the root device is mounted on itself: it is dropped and held again. -/
theorem crossRoot_stays (entered : Entered fs d) (name : Name) : Gives (crossRoot k current d name) (fun out fs' => Near fs fs' ∧
    out = (d, if name = dotDot ∧ some d = current.root then dot else name)) fs := by
  rw [crossRoot]
  split
  next other => exact ⟨.refl sound, by rw [if_neg fun both => other both.1]⟩
  next up =>
    have up : name = dotDot := not_not.mp up
    split
    next root => exact ⟨.refl sound, by rw [if_pos ⟨up, root⟩]⟩
    next inner =>
      have stays : (if name = dotDot ∧ some d = current.root then dot else name) = name := if_neg fun both => inner both.2
      rw [stays]
      split
      next first =>
        apply (serves.imount d.dev fs).bind
        rintro mounted fs₁ ⟨itself, same⟩
        have near := same.near sound
        cases mounted with
        | none => exact ⟨near, rfl⟩
        | some x =>
          have own : x = d := (itself x rfl).trans (by rw [← first])
          subst own
          apply (iput_near serves (near.sound sound) (entered.lives near)).bind
          intro _ fs₂ near₂
          rw [gives_hold]
          have used : fs₂.inodeMap x = true := (((near.trans near₂).isDir x).mpr entered.isDir).1
          exact ⟨(near.trans near₂).trans (Near.count ((near.trans near₂).sound sound) x (· + 1) fun _ => used), rfl⟩
      · exact ⟨.refl sound, rfl⟩

/-- The name that is looked for: '..' is '.' in the root of the process. -/
def Process.sought (current : Process) (d : Ino) (name : Name) : Name :=
  if name.take nameLen = dotDot ∧ some d = current.root then dot else name.take nameLen

theorem findEntry_finds (entered : Entered fs d) (name : Name) : Gives (findEntry k current d name) (fun out fs' => Near fs fs' ∧ out.1 = d ∧
    if name = [] then out.2 = none else Finds fs d (current.sought d name) out.2) fs := by
  rw [findEntry, gives_inodeOf]
  dsimp only
  have empty : name.take nameLen = [] ↔ name = [] := by
    rw [List.take_eq_nil_iff]
    simp
  split
  next none => exact ⟨.refl sound, rfl, by rw [if_pos (empty.mp none)]⟩
  next some' =>
    apply (crossRoot_stays serves sound entered _).bind
    rintro ⟨d', name'⟩ fs₁ ⟨near, same⟩
    cases same
    have isDir₁ := (near.isDir d).mpr entered.isDir
    have entries : fs.entries d = fs₁.entries d := by
      unfold FileSystem.entries
      rw [near.inode d]
    have searched : Gives (searchDir k d (current.sought d name) (fs.entries d))
        (fun found fs' => Near fs₁ fs' ∧ Finds fs₁ d (current.sought d name) found) fs₁ := by
      rw [entries]
      exact searchDir_finds serves (near.sound sound) isDir₁
    apply Gives.bind searched
    rintro found fs₂ ⟨near₂, finds⟩
    refine ⟨near.trans near₂, rfl, ?_⟩
    rw [if_neg fun none => some' (empty.mpr none)]
    exact near.finds.mp finds

end Finding

section Walking

/-- What the kernel keeps between two calls: the blocks are the inodes' own, and the tree is well formed. -/
structure Consistent (fs : FileSystem σ) : Prop where
  sound : fs.Sound
  sane : fs.tree.Sane
  filled : ∀ d, fs.IsDir d → (fs.inode d).zone 0 ≠ 0 → (fs.live d 0).isSome

theorem Near.consistent (near : Near fs fs') (consistent : Consistent fs) : Consistent fs' where
  sound := near.sound consistent.sound
  sane := near.tree ▸ consistent.sane
  filled d dir mapped := by
    rw [near.inode d] at mapped
    rw [near.live]
    exact consistent.filled d ((near.isDir d).mp dir) mapped

/-- Where one step of a path leads. -/
def Tree.Step (T : Tree) (current : Process) (d : Ino) (name : Name) (x : Ino) : Prop :=
  ∃ i e, T.live d i = some e ∧ entryMatches (current.sought d name) e = true ∧ Tree.target d e = x

/-- Where a path leads from a directory, less its last component: `thisname` is what has been read of a component. -/
inductive Tree.Leads (T : Tree) (current : Process) : List (BitVec 8) → Name → Ino → Ino → Prop
  | nil (thisname : Name) (d : Ino) : T.Leads current [] thisname d d
  | zero (pathname : List (BitVec 8)) (thisname : Name) (d : Ino) : T.Leads current (0 :: pathname) thisname d d
  | char {c : BitVec 8} {pathname : List (BitVec 8)} {thisname : Name} {d d' : Ino} (plain : c ≠ 0) (inside : c ≠ slash)
      (rest : T.Leads current pathname (thisname ++ [c]) d d') : T.Leads current (c :: pathname) thisname d d'
  | slash {pathname : List (BitVec 8)} {thisname : Name} {d x d' : Ino} (step : T.Step current d thisname x)
      (rest : T.Leads current pathname [] x d') : T.Leads current (slash :: pathname) thisname d d'

def Tree.DirectoryOf (T : Tree) (current : Process) (pathname : List (BitVec 8)) (d : Ino) : Prop :=
  ∃ root pwd start rest, current.root = some root ∧ current.pwd = some pwd ∧
    startOf pathname root pwd = some (start, rest) ∧ T.Leads current rest [] start d

variable (serves : k.Serves)

include serves

theorem iput_others (sound : fs.Sound) {x : Ino} (lives : ¬ Dies x (fs.inode x)) :
    Gives (k.iput x) (fun _ fs' => Near fs fs' ∧ ∀ y, y ≠ x → fs'.inode y = fs.inode y) fs := by
  apply ((iput_near serves sound lives).and (serves.iput x fs)).mono
  · rintro _ fs₁ ⟨near, -, drops⟩
    refine ⟨near, fun y other => ?_⟩
    rw [(drops lives).inode, modifyInode_other _ other]
  · exact fun _ _ _ => trivial

theorem iput_frees {x : Ino} (dies : Dies x (fs.inode x)) : Gives (k.iput x) (fun _ fs' => Freed x fs fs') fs :=
  (serves.iput x fs).imp fun _ _ done => done.1 dies

theorem iget_near (sound : fs.Sound) {dev nr : Nat} (used : fs.inodeMap ⟨dev, nr⟩ = true) :
    Gives (k.iget dev nr) (fun found fs' => Near fs fs' ∧ ∀ x, found = some x → x = ⟨dev, nr⟩ ∧ dev ≠ 0 ∧
      (fs'.inode x).count = (fs.inode x).count + 1) fs := by
  apply (serves.iget dev nr fs).imp
  intro found fs₁ got
  cases found with
  | none => exact ⟨Same.near sound got, nofun⟩
  | some x =>
    rcases got with ⟨disk, rfl, same⟩
    have near : Near fs (fs.modifyInode ⟨dev, nr⟩ fun inode => { inode with count := inode.count + 1 }) :=
      Near.count sound ⟨dev, nr⟩ (· + 1) fun _ => used
    refine ⟨near.trans (same.near (near.sound sound)), fun x here => ?_⟩
    cases here
    rw [same.inode, modifyInode_self]
    exact ⟨rfl, disk, rfl⟩

omit serves in
theorem Consistent.links (consistent : Consistent fs) {x : Ino} (names : fs.tree.Names d i x) : (fs.inode x).nlinks ≠ 0 := by
  have used : fs.inodeMap x = true := consistent.sane.named d i x names
  have exact' := consistent.sane.exact x used
  intro none
  have zero : fs.tree.nlinks x = 0 := by
    show (if fs.inodeMap x then (fs.inode x).nlinks.toNat else 0) = 0
    rw [if_pos used, none]
    rfl
  rw [zero, Nat.cast_zero, Set.encard_eq_zero] at exact'
  have here : (d, i) ∈ fs.tree.namers x := names
  rw [exact'] at here
  exact here

omit serves in
theorem found_entry (near : Near fs fs') {e : DirEntry} (there : fs.live d i = some e) : fs'.entry (fs.slotAt d i) = e := by
  unfold FileSystem.entry
  rw [near.block]
  exact (live_eq_some.mp there).2.2.2.2

theorem getDirFrom_leads (consistent : Consistent fs) (pathname : List (BitVec 8)) (thisname : Name) (entered : Entered fs d)
    (near : Near fs fs₁) : Gives (getDirFrom k current pathname thisname d) (fun out fs' => Near fs fs' ∧ ∀ d', out = some d' →
      Entered fs d' ∧ fs.tree.Leads current pathname thisname d d') fs₁ := by
  induction pathname generalizing d thisname fs₁ with
  | nil =>
    refine ⟨near, fun d' same => ?_⟩
    cases same
    exact ⟨entered, .nil thisname d⟩
  | cons c pathname ih =>
    have sound₁ := near.sound consistent.sound
    rw [getDirFrom]
    split
    next ends =>
      refine ⟨near, fun d' same => ?_⟩
      cases same
      rw [ends]
      exact ⟨entered, .zero pathname thisname d⟩
    next plain =>
      split
      next inside =>
        apply (ih (thisname ++ [c]) entered near).imp
        exact fun out fs₂ there => ⟨there.1, fun d' same => ⟨(there.2 d' same).1, .char plain inside (there.2 d' same).2⟩⟩
      next atSlash =>
        have atSlash : c = slash := not_not.mp atSlash
        apply (findEntry_finds serves sound₁ (entered.near near) thisname).bind
        rintro ⟨d₁, found⟩ fs₂ ⟨near₁, same, finds⟩
        dsimp only at same finds ⊢
        rw [same]
        have near₂ := near.trans near₁
        have sound₂ := near₂.sound consistent.sound
        cases found with
        | none =>
          apply (iput_near serves sound₂ (entered.lives near₂)).bind
          exact fun _ fs₃ near₃ => ⟨near₂.trans near₃, fun _ same => absurd same.symm (Option.some_ne_none _)⟩
        | some slot =>
          have named : thisname ≠ [] := by
            intro empty
            rw [if_pos empty] at finds
            cases finds
          rw [if_neg named] at finds
          rcases near.finds.mp finds with ⟨i, e, rfl, there, matches_⟩
          have target : fs.tree.Names d i ⟨d.dev, e.inode⟩ := ⟨e, there, rfl⟩
          have used := consistent.sane.named d i _ target
          dsimp only
          rw [gives_entryInode, found_entry near₂ there]
          apply (iput_near serves sound₂ (entered.lives near₂)).bind
          rintro _ fs₃ near₃
          have near₃ := near₂.trans near₃
          have sound₃ := near₃.sound consistent.sound
          apply (iget_near serves sound₃ (near₃.inodeMap ▸ used)).bind
          rintro got fs₄ ⟨near₄, got_⟩
          have near₄ := near₃.trans near₄
          cases got with
          | none => exact ⟨near₄, fun _ same => absurd same.symm (Option.some_ne_none _)⟩
          | some x =>
            rcases got_ x rfl with ⟨rfl, -⟩
            dsimp only
            rw [gives_inodeOf]
            split
            next goesOn =>
              rw [enterable, Bool.and_eq_true] at goesOn
              have dir : fs.IsDir ⟨d.dev, e.inode⟩ := by
                refine ⟨used, ?_⟩
                rw [near₄.inode] at goesOn
                exact goesOn.1
              have entered' : Entered fs ⟨d.dev, e.inode⟩ := by
                refine ⟨dir, fun disk => ?_⟩
                have links := permission_links goesOn.2 disk
                rw [near₄.inode] at links
                exact links
              apply (ih [] entered' near₄).imp
              rintro out fs₅ ⟨near₅, leads⟩
              refine ⟨near₅, fun d' same => ⟨(leads d' same).1, ?_⟩⟩
              rw [atSlash]
              exact .slash ⟨i, e, there, matches_, rfl⟩ (leads d' same).2
            next =>
              have lives : ¬ Dies ⟨d.dev, e.inode⟩ (fs₄.inode ⟨d.dev, e.inode⟩) := by
                rintro ⟨-, links, -⟩
                rw [near₄.inode] at links
                exact consistent.links target links
              apply (iput_near serves (near₄.sound consistent.sound) lives).bind
              exact fun _ fs₅ near₅ => ⟨near₄.trans near₅, fun _ same => absurd same.symm (Option.some_ne_none _)⟩

omit serves in
theorem startOf_some {pathname rest : List (BitVec 8)} {root pwd start : Ino} (begins : startOf pathname root pwd = some (start, rest)) :
    start = root ∨ start = pwd := by
  cases pathname with
  | nil => cases begins
  | cons c path =>
    rw [startOf] at begins
    split at begins
    · cases begins
      exact .inl rfl
    · split at begins
      · cases begins
        exact .inr rfl
      · cases begins

theorem getDir_leads (consistent : Consistent fs) (pathname : List (BitVec 8)) : Gives (getDir k current pathname)
    (fun out fs' => Near fs fs' ∧ ∀ d, out = some d → Entered fs d ∧ fs.tree.DirectoryOf current pathname d) fs := by
  rw [getDir]
  cases hasRoot : current.root with
  | none => exact gives_throw
  | some root =>
    dsimp only
    rw [gives_inodeOf]
    split
    next => exact gives_throw
    next rootHeld =>
      cases hasPwd : current.pwd with
      | none => exact gives_throw
      | some pwd =>
        dsimp only
        rw [gives_inodeOf]
        split
        next => exact gives_throw
        next pwdHeld =>
          cases begins : startOf pathname root pwd with
          | none => exact ⟨.refl consistent.sound, fun _ same => absurd same.symm (Option.some_ne_none _)⟩
          | some place =>
            rcases place with ⟨start, rest⟩
            have held : (fs.inode start).count ≠ 0 := by
              rcases startOf_some begins with rfl | rfl
              · exact rootHeld
              · exact pwdHeld
            have used := consistent.sound.held start (Nat.pos_of_ne_zero held)
            dsimp only
            rw [gives_hold]
            have near : Near fs (fs.modifyInode start fun inode => { inode with count := inode.count + 1 }) :=
              Near.count consistent.sound start (· + 1) fun _ => used
            have count : ((fs.modifyInode start fun inode => { inode with count := inode.count + 1 }).inode start).count =
                (fs.inode start).count + 1 := by rw [modifyInode_self]
            generalize fs.modifyInode start (fun inode => { inode with count := inode.count + 1 }) = fs₁ at *
            rw [gives_inodeOf]
            split
            next enters =>
              rw [enterable, Bool.and_eq_true] at enters
              have entered : Entered fs start := by
                rw [near.inode start] at enters
                exact ⟨⟨used, enters.1⟩, permission_links enters.2⟩
              apply (getDirFrom_leads serves consistent rest [] entered near).imp
              rintro out fs₂ ⟨near₂, leads⟩
              refine ⟨near₂, fun d same => ⟨(leads d same).1, root, pwd, start, rest, hasRoot, hasPwd, begins, (leads d same).2⟩⟩
            next =>
              have lives : ¬ Dies start (fs₁.inode start) := by
                rintro ⟨-, -, last⟩
                rw [count] at last
                omega
              apply (iput_near serves (near.sound consistent.sound) lives).bind
              exact fun _ fs₂ near₂ => ⟨near.trans near₂, fun _ same => absurd same.symm (Option.some_ne_none _)⟩

theorem dirNamei_leads (consistent : Consistent fs) (pathname : List (BitVec 8)) : Gives (dirNamei k current pathname)
    (fun out fs' => Near fs fs' ∧ ∀ d base, out = some (d, base) →
      Entered fs d ∧ fs.tree.DirectoryOf current pathname d ∧ base = basenameFrom pathname []) fs := by
  rw [dirNamei]
  apply (getDir_leads serves consistent pathname).bind
  rintro out fs₁ ⟨near, leads⟩
  cases out with
  | none => exact ⟨near, fun _ _ same => absurd same.symm (Option.some_ne_none _)⟩
  | some d =>
    refine ⟨near, fun d' base same => ?_⟩
    cases same
    exact ⟨(leads d rfl).1, (leads d rfl).2, rfl⟩

end Walking

end Linux011.Fs

import Linux011.Fs.Namei

namespace Linux011.Fs

open Linux011.Library

variable {σ : Type} {k : Kernel σ} {current : Process} {fs fs' fs₁ : FileSystem σ}

section Lookups

/-- Two states that differ in reference counts at most, as far as a lookup can see. -/
structure Alike (fs fs' : FileSystem σ) : Prop where
  block : fs'.block = fs.block
  inode : ∀ ino, fs'.inode ino = { fs.inode ino with count := (fs'.inode ino).count }

theorem Alike.refl (fs : FileSystem σ) : Alike fs fs := ⟨rfl, fun _ => rfl⟩

theorem Alike.trans (alike : Alike fs fs₁) (alike' : Alike fs₁ fs') : Alike fs fs' where
  block := alike'.block.trans alike.block
  inode ino := by rw [alike'.inode ino, alike.inode ino]

/-- Nothing a lookup sees has changed, and no directory was looked through. -/
structure Quiet (fs fs' : FileSystem σ) : Prop where
  alike : Alike fs fs'
  searched : fs'.searched = fs.searched

theorem Quiet.refl (fs : FileSystem σ) : Quiet fs fs := ⟨.refl fs, rfl⟩

theorem Quiet.trans (quiet : Quiet fs fs₁) (quiet' : Quiet fs₁ fs') : Quiet fs fs' :=
  ⟨quiet.alike.trans quiet'.alike, quiet'.searched.trans quiet.searched⟩

/-- What the kernel is relied on for in a lookup: a block or an inode is read or it is not, and a reference
    is dropped without other effect as long as the inode has links. -/
structure Kernel.Looks (k : Kernel σ) : Prop where
  bread : ∀ dev block fs, Leaves (k.bread dev block) (fun _ => Quiet fs) (fun _ => Quiet fs) fs
  bmap : ∀ dir n fs,
    Leaves (k.bmap dir n) (fun block fs' => Quiet fs fs' ∧ (block ≠ 0 → block = (fs.inode dir).zone n))
      (fun _ => Quiet fs) fs
  iget : ∀ dev nr fs, Leaves (k.iget dev nr) (fun _ => Quiet fs) (fun _ => Quiet fs) fs
  iput : ∀ ino fs,
    Leaves (k.iput ino)
      (fun _ fs' => fs'.searched = fs.searched ∧ ((ino.dev ≠ 0 → (fs.inode ino).nlinks ≠ 0) → Alike fs fs'))
      (fun _ fs' => fs'.searched = fs.searched) fs

def Kernel.Unmounted (k : Kernel σ) (dev : Nat) : Prop :=
  ∀ nr fs, Leaves (k.iget dev nr) (fun found _ => ∀ x, found = some x → x = ⟨dev, nr⟩) (fun _ _ => True) fs

def Holds (fs : FileSystem σ) (dir : Ino) (entries : Nat) (slot : Slot) : Prop :=
  slot.dev = dir.dev ∧ slot.block ≠ 0 ∧
    ∃ n, slot.block = (fs.inode dir).zone n ∧ n * dirEntriesPerBlock + slot.index.val < entries

def EntryOf (fs : FileSystem σ) (dir : Ino) (slot : Slot) : Prop :=
  Holds fs dir ((fs.inode dir).size / dirEntrySize) slot

theorem Alike.holds (alike : Alike fs fs') {dir : Ino} {entries : Nat} {slot : Slot} :
    Holds fs' dir entries slot ↔ Holds fs dir entries slot := by
  rw [Holds, Holds, alike.inode dir]

theorem Alike.entry (alike : Alike fs fs') (slot : Slot) : fs'.entry slot = fs.entry slot := by
  rw [FileSystem.entry, FileSystem.entry, alike.block]

theorem Alike.permission (alike : Alike fs fs') (current : Process) (ino : Ino) (mask : BitVec 32) :
    permission current ino (fs'.inode ino) mask = permission current ino (fs.inode ino) mask := by
  rw [Fs.permission, Fs.permission, alike.inode ino]

theorem Alike.enterable (alike : Alike fs fs') (current : Process) (ino : Ino) :
    enterable current ino (fs'.inode ino) = enterable current ino (fs.inode ino) := by
  rw [Fs.enterable, Fs.enterable, alike.permission, alike.inode ino]

theorem count_alike (fs : FileSystem σ) (ino : Ino) (f : Nat → Nat) :
    Alike fs (fs.modifyInode ino fun inode => { inode with count := f inode.count }) where
  block := rfl
  inode other := by
    rw [FileSystem.modifyInode, FileSystem.setInode]
    dsimp only
    rw [Function.update_apply]
    split
    · next same => rw [same]
    · rfl

def Found (fs : FileSystem σ) (dir : Ino) (name : Name) (entries : Nat) (found : Option Slot) : Prop :=
  ∀ slot, found = some slot → Holds fs dir entries slot ∧ entryMatches name (fs.entry slot) = true

theorem Found.none (fs : FileSystem σ) (dir : Ino) (name : Name) (entries : Nat) : Found fs dir name entries none :=
  nofun

theorem Found.alike (alike : Alike fs fs') {dir : Ino} {name : Name} {entries : Nat} {found : Option Slot}
    (here : Found fs' dir name entries found) : Found fs dir name entries found := by
  intro slot same
  have there := here slot same
  rw [alike.holds, alike.entry] at there
  exact there

theorem lookIn_some {name : Name} {limit : Nat} {block : Block} {i : Fin dirEntriesPerBlock}
    (found : lookIn name limit block = some i) : i.val < limit ∧ entryMatches name (block i) = true := by
  have both := List.find?_some found
  rw [Bool.and_eq_true, decide_eq_true_iff] at both
  exact both

theorem found_in {dir : Ino} {name : Name} {entries n : Nat} {i : Fin dirEntriesPerBlock}
    (mapped : (fs.inode dir).zone n ≠ 0)
    (found : lookIn name (entries - n * dirEntriesPerBlock) (fs.block dir.dev ((fs.inode dir).zone n)) = some i) :
    Found fs dir name entries (some ⟨dir.dev, (fs.inode dir).zone n, i⟩) := by
  intro slot same
  cases same
  have both := lookIn_some found
  refine ⟨⟨rfl, mapped, n, rfl, ?_⟩, both.2⟩
  have inside := both.1
  dsimp only
  omega

variable (looks : k.Looks)

include looks

theorem Kernel.Looks.findFrom (dir : Ino) (name : Name) (entries left n : Nat) (fs : FileSystem σ) :
    Leaves (findFrom k dir name entries left n) (fun found fs' => Quiet fs fs' ∧ Found fs dir name entries found)
      (fun _ => Quiet fs) fs := by
  induction left generalizing n fs with
  | zero => exact ⟨.refl fs, Found.none _ _ _ _⟩
  | succ left ih =>
    have later : ∀ {fs₁ : FileSystem σ}, Quiet fs fs₁ →
        Leaves (Fs.findFrom k dir name entries left (n + 1))
          (fun found fs' => Quiet fs fs' ∧ Found fs dir name entries found) (fun _ => Quiet fs) fs₁ := by
      intro fs₁ quiet
      apply (ih (n + 1) fs₁).mono
      · exact fun found fs' there => ⟨quiet.trans there.1, there.2.alike quiet.alike⟩
      · exact fun _ fs' there => quiet.trans there
    rw [Fs.findFrom]
    apply (looks.bmap dir n fs).bind
    intro block fs₁ mapped
    split
    · exact later mapped.1
    · next present =>
      apply ((looks.bread dir.dev block fs₁).mono (fun _ _ quiet => mapped.1.trans quiet)
        fun _ _ quiet => mapped.1.trans quiet).bind
      intro read fs₂ quiet
      split
      · exact later quiet
      · rw [Leaves.bind_iff, Leaves.get_iff]
        split
        · next i found =>
          have here := mapped.2 present
          rw [here, quiet.alike.block] at found
          rw [here] at present ⊢
          exact ⟨quiet, found_in present found⟩
        · exact later quiet

theorem Kernel.Looks.searchDir (dir : Ino) (name : Name) (entries : Nat) (fs : FileSystem σ) :
    Leaves (searchDir k dir name entries)
      (fun found fs' => Alike fs fs' ∧ fs'.searched = dir :: fs.searched ∧ Found fs dir name entries found)
      (fun _ fs' => fs'.searched = dir :: fs.searched) fs := by
  rw [Fs.searchDir, Leaves.bind_iff, Leaves.modify_iff]
  generalize logged : ({ fs with searched := dir :: fs.searched } : FileSystem σ) = fs₁
  have alike : Alike fs fs₁ := logged ▸ ⟨rfl, fun _ => rfl⟩
  have log : fs₁.searched = dir :: fs.searched := logged ▸ rfl
  have after : ∀ {found : Option Slot} {fs₂ : FileSystem σ}, Quiet fs₁ fs₂ → Found fs₁ dir name entries found →
      Alike fs fs₂ ∧ fs₂.searched = dir :: fs.searched ∧ Found fs dir name entries found :=
    fun quiet found => ⟨alike.trans quiet.alike, quiet.searched.trans log, found.alike alike⟩
  rw [Leaves.bind_iff, inodeOf, Leaves.bind_iff, Leaves.get_iff, Leaves.pure_iff]
  dsimp only
  split
  · exact after (.refl fs₁) (Found.none _ _ _ _)
  · next present =>
    apply ((looks.bread dir.dev _ fs₁).mono (fun _ _ quiet => quiet)
      fun _ _ quiet => quiet.searched.trans log).bind
    intro read fs₂ quiet
    split
    · exact after quiet (Found.none _ _ _ _)
    · rw [Leaves.bind_iff, Leaves.get_iff]
      split
      · next i found =>
        rw [quiet.alike.block] at found
        apply after quiet
        apply found_in present
        rw [Nat.zero_mul, Nat.sub_zero]
        exact found
      · apply (looks.findFrom dir name entries _ 1 fs₂).mono
        · exact fun found fs₃ there => after (quiet.trans there.1) (there.2.alike quiet.alike)
        · exact fun _ fs₃ there => (quiet.trans there).searched.trans log

end Lookups

section Trees

/-- A tree of directories on one device, with the entries that tie them: '.' names the directory itself, '..'
    its parent, and any other entry that names a directory names a child. -/
structure DirectoryTree (fs : FileSystem σ) (dev : Nat) (top : Ino) (dir : Ino → Prop) (parent : Ino → Ino) : Prop where
  device : ∀ {d}, dir d → d.dev = dev
  topmost : ∀ {d}, dir d → d.num = rootIno → d = top
  here : ∀ {d slot}, dir d → EntryOf fs d slot → entryMatches dot (fs.entry slot) = true →
    (fs.entry slot).inode = d.num
  up : ∀ {d slot}, dir d → d ≠ top → EntryOf fs d slot → entryMatches dotDot (fs.entry slot) = true →
    (fs.entry slot).inode = (parent d).num ∧ dir (parent d)
  down : ∀ {d slot x}, dir d → EntryOf fs d slot → entryMatches dot (fs.entry slot) = false →
    entryMatches dotDot (fs.entry slot) = false → x = ⟨dev, (fs.entry slot).inode⟩ →
    sIsDir (fs.inode x).mode = true → dir x ∧ x ≠ top ∧ parent x = d

/-- The subtree of a directory. -/
inductive Below (dir : Ino → Prop) (top : Ino) (parent : Ino → Ino) (root : Ino) : Ino → Prop
  | root : dir root → Below dir top parent root root
  | child {d : Ino} : dir d → d ≠ top → Below dir top parent root (parent d) → Below dir top parent root d

variable {dir : Ino → Prop} {top root : Ino} {parent : Ino → Ino} {dev : Nat}

theorem Below.isDir {d : Ino} (below : Below dir top parent root d) : dir d := by
  cases below with
  | root isDir => exact isDir
  | child isDir => exact isDir

theorem Below.above {d : Ino} (below : Below dir top parent root d) (inside : d ≠ root) :
    d ≠ top ∧ Below dir top parent root (parent d) := by
  cases below with
  | root => exact absurd rfl inside
  | child isDir apart above => exact ⟨apart, above⟩

/-- An inode of the subtree: one of its directories, or another inode that an entry of one of them names. -/
def Inside (fs : FileSystem σ) (dir : Ino → Prop) (top : Ino) (parent : Ino → Ino) (root x : Ino) : Prop :=
  Below dir top parent root x ∨
    sIsDir (fs.inode x).mode = false ∧ ∃ d slot, Below dir top parent root d ∧ EntryOf fs d slot ∧
      x = ⟨d.dev, (fs.entry slot).inode⟩

theorem DirectoryTree.lookup (tree : DirectoryTree fs dev top dir parent) {d : Ino}
    (below : Below dir top parent root d) {name : Name} (plain : 0 ∉ name) (notUp : d = root → name ≠ dotDot)
    {slot : Slot} (entry : EntryOf fs d slot) (named : entryMatches name (fs.entry slot) = true) :
    Inside fs dir top parent root ⟨dev, (fs.entry slot).inode⟩ := by
  have isDir := below.isDir
  have device := tree.device isDir
  cases single : entryMatches dot (fs.entry slot) with
  | true =>
    rw [tree.here isDir entry single, ← device]
    exact .inl below
  | false =>
    cases double : entryMatches dotDot (fs.entry slot) with
    | true =>
      have up : name = dotDot := entryMatches_unique plain (by decide) named double
      have above := below.above fun same => notUp same up
      have there := tree.up isDir above.1 entry double
      rw [there.1, ← tree.device there.2]
      exact .inl above.2
    | false =>
      cases child : sIsDir (fs.inode ⟨dev, (fs.entry slot).inode⟩).mode with
      | true =>
        have down := tree.down isDir entry single double rfl child
        refine .inl (.child down.1 down.2.1 ?_)
        rw [down.2.2]
        exact below
      | false => exact .inr ⟨child, d, slot, below, entry, by rw [device]⟩

end Trees

section Walking

variable {dir : Ino → Prop} {top root : Ino} {parent : Ino → Ino} {dev : Nat}

/-- The directories looked through since some state are in the subtree, and the process may enter them. -/
def Kept (current : Process) (fs : FileSystem σ) (dir : Ino → Prop) (top : Ino) (parent : Ino → Ino) (root : Ino)
    (fs' : FileSystem σ) : Prop :=
  ∀ d ∈ fs'.searched, d ∈ fs.searched ∨
    Below dir top parent root d ∧ permission current d (fs.inode d) mayExec = true

theorem Kept.of_searched {fs₁ fs₂ : FileSystem σ} (kept : Kept current fs dir top parent root fs₁)
    (same : fs₂.searched = fs₁.searched) : Kept current fs dir top parent root fs₂ := by
  rw [Kept, same]
  exact kept

theorem permission_links {ino : Ino} {inode : MInode} {mask : BitVec 32}
    (allowed : permission current ino inode mask = true) : ino.dev ≠ 0 → inode.nlinks ≠ 0 := by
  intro disk deleted
  rw [permission, if_pos ⟨disk, deleted⟩] at allowed
  cases allowed

theorem crossRoot_below (tree : DirectoryTree fs dev top dir parent) (rootIs : current.root = some root) {d : Ino}
    (below : Below dir top parent root d) (name : Name) (returns : Ino × Name → FileSystem σ → Prop)
    (stops : String → FileSystem σ → Prop) (fs₁ : FileSystem σ)
    (here : ∀ name', (d = root → name' ≠ dotDot) → (0 ∉ name → 0 ∉ name') → returns (d, name') fs₁) :
    Leaves (crossRoot k current d name) returns stops fs₁ := by
  rw [crossRoot]
  split
  · next other => exact here name (fun _ => other) id
  · next up =>
    split
    · exact here dot (fun _ => by decide) fun _ => by decide
    · next inner =>
      have apart : d ≠ root := fun same => inner (by rw [rootIs, same])
      have above := below.above apart
      rw [if_neg fun first => above.1 (tree.topmost below.isDir first)]
      exact here name (fun same => absurd same apart) id

variable (looks : k.Looks)

include looks

theorem iput_kept {d : Ino} (allowed : permission current d (fs.inode d) mayExec = true) {fs₁ : FileSystem σ}
    (alike : Alike fs fs₁) (kept : Kept current fs dir top parent root fs₁) :
    Leaves (k.iput d) (fun _ fs' => Alike fs fs' ∧ Kept current fs dir top parent root fs')
      (fun _ fs' => Kept current fs dir top parent root fs') fs₁ := by
  apply (looks.iput d fs₁).mono
  · rintro _ fs₂ ⟨log, unlessDeleted⟩
    have links : d.dev ≠ 0 → (fs₁.inode d).nlinks ≠ 0 := by
      rw [alike.inode d]
      exact permission_links allowed
    exact ⟨alike.trans (unlessDeleted links), kept.of_searched log⟩
  · exact fun _ fs₂ log => kept.of_searched log

theorem iget_inside (unmounted : k.Unmounted dev) {num : Nat} (inside : Inside fs dir top parent root ⟨dev, num⟩) {fs₁ : FileSystem σ}
    (alike : Alike fs fs₁) (kept : Kept current fs dir top parent root fs₁) :
    Leaves (k.iget dev num)
      (fun out fs' => Alike fs fs' ∧ Kept current fs dir top parent root fs' ∧
        ∀ x, out = some x → Inside fs dir top parent root x)
      (fun _ fs' => Kept current fs dir top parent root fs') fs₁ := by
  apply ((looks.iget dev num fs₁).and (unmounted num fs₁)).mono
  · rintro out fs₂ ⟨quiet, same⟩
    refine ⟨alike.trans quiet.alike, kept.of_searched quiet.searched, fun x found => ?_⟩
    rw [same x found]
    exact inside
  · exact fun _ fs₂ there => kept.of_searched there.1.searched

variable (tree : DirectoryTree fs dev top dir parent) (rootIs : current.root = some root)

include tree rootIs

theorem findEntry_below {d : Ino} (below : Below dir top parent root d)
    (allowed : permission current d (fs.inode d) mayExec = true) {name : Name} (plain : 0 ∉ name)
    {fs₁ : FileSystem σ} (alike : Alike fs fs₁) (kept : Kept current fs dir top parent root fs₁) :
    Leaves (findEntry k current d name)
      (fun out fs' => out.1 = d ∧ Alike fs fs' ∧ Kept current fs dir top parent root fs' ∧
        ∀ slot, out.2 = some slot → Inside fs dir top parent root ⟨dev, (fs.entry slot).inode⟩)
      (fun _ fs' => Kept current fs dir top parent root fs') fs₁ := by
  have short : 0 ∉ name.take nameLen := fun zero => plain (List.mem_of_mem_take zero)
  have more : ∀ {fs₂ : FileSystem σ}, fs₂.searched = d :: fs₁.searched → Kept current fs dir top parent root fs₂ := by
    intro fs₂ log d' member
    rw [log] at member
    rcases List.mem_cons.mp member with rfl | member
    · exact .inr ⟨below, allowed⟩
    · exact kept d' member
  rw [findEntry, Leaves.bind_iff, inodeOf, Leaves.bind_iff, Leaves.get_iff, Leaves.pure_iff]
  dsimp only
  split
  · exact ⟨rfl, alike, kept, nofun⟩
  · rw [Leaves.bind_iff]
    apply crossRoot_below tree rootIs below
    intro name' notUp kind
    rw [Leaves.bind_iff]
    apply (looks.searchDir d name' _ fs₁).mono
    · rintro found fs₂ ⟨alike', log, there⟩
      refine ⟨rfl, alike.trans alike', more log, fun slot same => ?_⟩
      have both := there.alike alike slot same
      rw [alike.inode d] at both
      exact tree.lookup below (kind short) notUp both.1 both.2
    · exact fun _ fs₂ log => more log

variable (unmounted : k.Unmounted dev)

include unmounted

theorem getDirFrom_below {d : Ino} (below : Below dir top parent root d)
    (allowed : permission current d (fs.inode d) mayExec = true) (pathname : List (BitVec 8)) {thisname : Name}
    (plain : 0 ∉ thisname) {fs₁ : FileSystem σ} (alike : Alike fs fs₁)
    (kept : Kept current fs dir top parent root fs₁) :
    Leaves (getDirFrom k current pathname thisname d)
      (fun out fs' => Kept current fs dir top parent root fs' ∧ ∀ d', out = some d' →
        Alike fs fs' ∧ Below dir top parent root d' ∧ permission current d' (fs.inode d') mayExec = true)
      (fun _ fs' => Kept current fs dir top parent root fs') fs₁ := by
  induction pathname generalizing thisname d fs₁ with
  | nil =>
    refine ⟨kept, fun d' same => ?_⟩
    cases same
    exact ⟨alike, below, allowed⟩
  | cons c pathname ih =>
    rw [getDirFrom]
    split
    · refine ⟨kept, fun d' same => ?_⟩
      cases same
      exact ⟨alike, below, allowed⟩
    · next more =>
      split
      · apply ih below allowed _ alike kept
        rw [List.mem_append, List.mem_singleton, not_or]
        exact ⟨plain, fun zero => more zero.symm⟩
      · apply (findEntry_below looks tree rootIs below allowed plain alike kept).bind
        rintro ⟨d₁, found⟩ fs₂ ⟨same, alike₂, kept₂, there⟩
        dsimp only at same there ⊢
        subst same
        cases found with
        | none =>
          apply (iput_kept looks allowed alike₂ kept₂).bind
          exact fun _ fs₃ dropped => ⟨dropped.2, nofun⟩
        | some slot =>
          have inside := there slot rfl
          rw [Leaves.bind_iff, entryInode, Leaves.bind_iff, Leaves.get_iff, Leaves.pure_iff, alike₂.entry slot,
            tree.device below.isDir]
          apply (iput_kept looks allowed alike₂ kept₂).bind
          rintro _ fs₃ ⟨alike₃, kept₃⟩
          apply (iget_inside looks unmounted inside alike₃ kept₃).bind
          rintro out fs₄ ⟨alike₄, kept₄, inside₄⟩
          cases out with
          | none => exact ⟨kept₄, nofun⟩
          | some x =>
            rw [Leaves.bind_iff, inodeOf, Leaves.bind_iff, Leaves.get_iff, Leaves.pure_iff, alike₄.enterable]
            split
            · next entered =>
              rw [enterable, Bool.and_eq_true] at entered
              rcases inside₄ x rfl with below₄ | ⟨file, -⟩
              · exact ih below₄ entered.2 (by nofun) alike₄ kept₄
              · rw [file] at entered
                exact nomatch entered.1
            · rw [Leaves.bind_iff]
              apply (looks.iput x fs₄).mono
              · exact fun _ fs₅ there => ⟨kept₄.of_searched there.1, nofun⟩
              · exact fun _ fs₅ log => kept₄.of_searched log

theorem getDir_below {pwd : Ino} (pwdIs : current.pwd = some pwd) (isRoot : dir root)
    (under : Below dir top parent root pwd) (pathname : List (BitVec 8)) :
    Leaves (getDir k current pathname)
      (fun out fs' => Kept current fs dir top parent root fs' ∧ ∀ d, out = some d →
        Alike fs fs' ∧ Below dir top parent root d ∧ permission current d (fs.inode d) mayExec = true)
      (fun _ fs' => Kept current fs dir top parent root fs') fs := by
  have kept : Kept current fs dir top parent root fs := fun _ member => .inl member
  rw [getDir, rootIs, pwdIs]
  dsimp only
  rw [Leaves.bind_iff, inodeOf, Leaves.bind_iff, Leaves.get_iff, Leaves.pure_iff]
  split
  · exact kept
  rw [Leaves.bind_iff, inodeOf, Leaves.bind_iff, Leaves.get_iff, Leaves.pure_iff]
  split
  · exact kept
  cases start : startOf pathname root pwd with
  | none => exact ⟨kept, nofun⟩
  | some place =>
    rcases place with ⟨d, rest⟩
    have below : Below dir top parent root d := by
      cases pathname with
      | nil => cases start
      | cons c path =>
        rw [startOf] at start
        split at start
        · cases start
          exact .root isRoot
        · split at start
          · cases start
            exact under
          · cases start
    dsimp only
    rw [Leaves.bind_iff, hold, changeInode, Leaves.modify_iff]
    have alike := count_alike fs d (· + 1)
    have kept₁ : Kept current fs dir top parent root
        (fs.modifyInode d fun inode => { inode with count := inode.count + 1 }) := kept
    generalize fs.modifyInode d (fun inode => { inode with count := inode.count + 1 }) = fs₁ at *
    rw [Leaves.bind_iff, inodeOf, Leaves.bind_iff, Leaves.get_iff, Leaves.pure_iff, alike.enterable]
    split
    · next entered =>
      rw [enterable, Bool.and_eq_true] at entered
      exact getDirFrom_below looks tree rootIs unmounted below entered.2 rest (by nofun) alike kept₁
    · rw [Leaves.bind_iff]
      apply (looks.iput d fs₁).mono
      · exact fun _ fs₂ there => ⟨kept₁.of_searched there.1, nofun⟩
      · exact fun _ fs₂ log => kept₁.of_searched log

omit looks tree rootIs unmounted in
theorem basenameFrom_plain (pathname : List (BitVec 8)) {basename : Name} (plain : 0 ∉ basename) :
    0 ∉ basenameFrom pathname basename := by
  induction pathname generalizing basename with
  | nil => exact plain
  | cons c pathname ih =>
    rw [basenameFrom]
    split
    · exact plain
    · next more =>
      split
      · exact ih (by nofun)
      · apply ih
        rw [List.mem_append, List.mem_singleton, not_or]
        exact ⟨plain, fun zero => more zero.symm⟩

/-- A path does not lead out of the root of a process: every directory looked through is below it and may be
    entered, and so is the inode that is found. -/
theorem stays_below_root {pwd : Ino} (pwdIs : current.pwd = some pwd) (isRoot : dir root)
    (under : Below dir top parent root pwd) (pathname : List (BitVec 8)) :
    Leaves (namei k current pathname)
      (fun out fs' => Kept current fs dir top parent root fs' ∧
        ∀ x, out = some x → Inside fs dir top parent root x)
      (fun _ fs' => Kept current fs dir top parent root fs') fs := by
  rw [namei, Leaves.bind_iff, dirNamei]
  apply (getDir_below looks tree rootIs unmounted pwdIs isRoot under pathname).bind
  rintro out fs₁ ⟨kept₁, there⟩
  cases out with
  | none => exact ⟨kept₁, nofun⟩
  | some d =>
    rcases there d rfl with ⟨alike₁, below, allowed⟩
    rw [Leaves.pure_iff]
    dsimp only
    split
    · refine ⟨kept₁, fun x same => ?_⟩
      cases same
      exact .inl below
    · apply (findEntry_below looks tree rootIs below allowed (basenameFrom_plain pathname (by nofun))
        alike₁ kept₁).bind
      rintro ⟨d₂, found⟩ fs₂ ⟨same, alike₂, kept₂, there⟩
      dsimp only at same there ⊢
      subst same
      cases found with
      | none =>
        apply (iput_kept looks allowed alike₂ kept₂).bind
        exact fun _ fs₃ dropped => ⟨dropped.2, nofun⟩
      | some slot =>
        have inside := there slot rfl
        rw [Leaves.bind_iff, entryInode, Leaves.bind_iff, Leaves.get_iff, Leaves.pure_iff, alike₂.entry slot,
          tree.device below.isDir]
        apply (iput_kept looks allowed alike₂ kept₂).bind
        rintro _ fs₃ ⟨alike₃, kept₃⟩
        exact (iget_inside looks unmounted inside alike₃ kept₃).imp fun _ _ there => there.2

end Walking

section Example

/-- A kernel with every block in its buffers and no use for the parts that change a disk. -/
def cachedKernel : Kernel Unit where
  bread _ _ := return true
  bmap dir n := return (← inodeOf dir).zone n
  createBlock _ _ := return 0
  iget dev nr := do
    hold ⟨dev, nr⟩
    return some ⟨dev, nr⟩
  iput ino := changeInode ino fun inode => { inode with count := inode.count - 1 }
  imount _ := return none
  newInode _ := return none
  newBlock _ := return 0
  freeBlock _ _ := return ()
  truncate _ := return ()

theorem cachedKernel_looks : cachedKernel.Looks where
  bread _ _ fs := Quiet.refl fs
  bmap _ _ fs := ⟨Quiet.refl fs, fun _ => rfl⟩
  iget dev nr fs := ⟨count_alike fs ⟨dev, nr⟩ (· + 1), rfl⟩
  iput ino fs := ⟨rfl, fun _ => count_alike fs ino (· - 1)⟩

theorem cachedKernel_unmounted (dev : Nat) : cachedKernel.Unmounted dev := fun _ _ _ found =>
  (Option.some.inj found).symm

def blockOf (entries : List (Nat × Name)) : Block := fun i =>
  match entries[i.val]? with
  | some (num, name) => ⟨num, padded name⟩
  | none => ⟨0, fun _ => 0⟩

/-- Three directories, one in the other: '/', '/a' and '/a/b'. -/
def nested : FileSystem Unit where
  inode ino :=
    { mode := 0o040755, uid := 0, gid := 0, size := if ino.num = 3 then 32 else 48, nlinks := 2,
      zone := fun n => if n = 0 then 10 + ino.num else 0, indirect := [], count := 1 }
  inodeMap ino := ino.num ≤ 3
  zoneMap _ block := block ≤ 13
  block _ block :=
    if block = 11 then blockOf [(1, dot), (1, dotDot), (2, [0x61])]
    else if block = 12 then blockOf [(2, dot), (1, dotDot), (3, [0x62])]
    else blockOf [(3, dot), (2, dotDot)]
  searched := []
  rest := ()

def nestedDir (d : Ino) : Prop := d = ⟨1, 1⟩ ∨ d = ⟨1, 2⟩ ∨ d = ⟨1, 3⟩

instance : DecidablePred nestedDir := fun _ => inferInstanceAs (Decidable (_ ∨ _ ∨ _))

def nestedParent (d : Ino) : Ino := ⟨1, d.num - 1⟩

theorem nested_entry {d : Ino} {slot : Slot} (isDir : nestedDir d) (entry : EntryOf nested d slot) :
    ∃ i : Fin 3, slot = ⟨1, 10 + d.num, ⟨i.val, i.isLt.trans (by decide)⟩⟩ ∧ (d.num = 3 → i.val < 2) := by
  rcases slot with ⟨dev, block, index⟩
  rcases entry with ⟨device, some, n, mapped, inside⟩
  have zone : (nested.inode d).zone n = if n = 0 then 10 + d.num else 0 := rfl
  have size : (nested.inode d).size / dirEntrySize = if d.num = 3 then 2 else 3 := by
    rcases isDir with rfl | rfl | rfl <;> rfl
  have onDevice : d.dev = 1 := by rcases isDir with rfl | rfl | rfl <;> rfl
  dsimp only at *
  rw [mapped, zone] at some
  have first : n = 0 := by
    by_contra later
    exact some (if_neg later)
  rw [first, if_pos rfl] at zone
  rw [first] at mapped inside
  rw [size, Nat.zero_mul, Nat.zero_add] at inside
  have few : index.val < 3 := by
    split at inside <;> omega
  refine ⟨⟨index.val, few⟩, ?_, fun third => ?_⟩
  · rw [device, onDevice, mapped, zone]
  · rw [if_pos third] at inside
    exact inside

theorem nested_tree : DirectoryTree nested 1 ⟨1, 1⟩ nestedDir nestedParent where
  device isDir := by rcases isDir with rfl | rfl | rfl <;> rfl
  topmost isDir first := by
    rcases isDir with rfl | rfl | rfl
    · rfl
    · cases first
    · cases first
  here isDir entry named := by
    rcases nested_entry isDir entry with ⟨i, rfl, few⟩
    clear entry
    rcases isDir with rfl | rfl | rfl <;> revert i <;> decide
  up isDir inner entry named := by
    rcases nested_entry isDir entry with ⟨i, rfl, few⟩
    clear entry
    rcases isDir with rfl | rfl | rfl
    · exact absurd rfl inner
    · revert i
      decide
    · revert i
      decide
  down isDir entry single double same child := by
    rcases nested_entry isDir entry with ⟨i, rfl, few⟩
    clear entry child
    subst same
    rcases isDir with rfl | rfl | rfl <;> revert i <;> decide

/-- A process with '/a' as its root, in '/a/b'. -/
def jailed : Process where
  euid := 1
  egid := 1
  umask := 0
  suser := false
  root := some ⟨1, 2⟩
  pwd := some ⟨1, 3⟩

theorem jailed_below : Below nestedDir ⟨1, 1⟩ nestedParent ⟨1, 2⟩ ⟨1, 3⟩ :=
  .child (by decide) (by decide) (.root (by decide))

/-- '../../../b' -/
theorem jailed_stays :
    Leaves (namei cachedKernel jailed [0x2e, 0x2e, 0x2f, 0x2e, 0x2e, 0x2f, 0x2e, 0x2e, 0x2f, 0x62])
      (fun out fs' => Kept jailed nested nestedDir ⟨1, 1⟩ nestedParent ⟨1, 2⟩ fs' ∧
        ∀ x, out = some x → Inside nested nestedDir ⟨1, 1⟩ nestedParent ⟨1, 2⟩ x)
      (fun _ fs' => Kept jailed nested nestedDir ⟨1, 1⟩ nestedParent ⟨1, 2⟩ fs') nested :=
  stays_below_root cachedKernel_looks nested_tree rfl (cachedKernel_unmounted 1) rfl (by decide) jailed_below _

end Example

end Linux011.Fs

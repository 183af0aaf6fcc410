import Linux011.Fs.Runs

namespace Linux011.Fs

open Linux011.Library

variable {σ : Type} {k : Kernel σ} {current : Process} {fs fs' : FileSystem σ}

namespace Tree

variable {T T' : Tree} {d x y : Ino} {i n : Nat} {e f : DirEntry} {isDir : Prop} {pathname : List (BitVec 8)}

def Up (T : Tree) (d p : Ino) : Prop := ∃ f, T.live d 1 = some f ∧ target d f = p

/-- From each directory that has its entries, '..' after '..' lead to the root of the device. -/
def Rooted (T : Tree) : Prop := ∀ d e, T.live d 0 = some e → Relation.ReflTransGen T.Up d ⟨d.dev, rootIno⟩

theorem Rooted.congr (rooted : T.Rooted) (same : ∀ y j, j < 2 → T'.live y j = T.live y j) : T'.Rooted := by
  have up : T'.Up = T.Up := by
    funext y p
    unfold Up
    rw [same y 1 Nat.one_lt_two]
  intro y g first
  rw [same y 0 Nat.two_pos] at first
  rw [up]
  exact rooted y g first

theorem Rooted.enter (rooted : T.Rooted) (place : 2 ≤ i) : (T.enter d i e n isDir).Rooted :=
  rooted.congr fun _ _ low => if_neg (low_place place low)

theorem Rooted.furnish (rooted : T.Rooted) (bare : ∀ j, T.live x j = none) {g : DirEntry} (parent : T.live d 0 = some g)
    (up : target x f = d) (dev : x.dev = d.dev) : (T.furnish x d e f).Rooted := by
  have other {y : Ino} {j : Nat} (apart : y ≠ x) : (T.furnish x d e f).live y j = T.live y j :=
    (if_neg fun here => apart here.1).trans (if_neg fun here => apart here.1)
  have upward (a b : Ino) (step : T.Up a b) : (T.furnish x d e f).Up a b := by
    rcases step with ⟨g, there, same⟩
    have apart : a ≠ x := by
      rintro rfl
      rw [bare 1] at there
      cases there
    exact ⟨g, (other apart).trans there, same⟩
  intro y h there
  by_cases own : y = x
  · have first : (T.furnish x d e f).Up y d := by
      rw [own]
      exact ⟨f, (if_neg fun here => absurd here.2 Nat.one_ne_zero).trans (if_pos ⟨rfl, rfl⟩), up⟩
    rw [own] at first ⊢
    rw [dev]
    exact .head first (Relation.ReflTransGen.mono upward _ _ (rooted d g parent))
  · rw [other own] at there
    exact Relation.ReflTransGen.mono upward _ _ (rooted y h there)

theorem Rooted.remove (rooted : T.Rooted) (sane : T.Sane) (goes : T.Removable d i x) : (T.remove d i x).Rooted := by
  have place := goes.place sane
  have kept {y : Ino} {j : Nat} (apart : y ≠ x) (low : j < 2) : (T.remove d i x).live y j = T.live y j :=
    (if_neg apart).trans (if_neg (low_place place low))
  have past {a r : Ino} (path : Relation.ReflTransGen T.Up a r) : a ≠ x → Relation.ReflTransGen (T.remove d i x).Up a r := by
    induction path using Relation.ReflTransGen.head_induction_on with
    | refl => exact fun _ => .refl
    | @head a b step _ ih =>
      intro apart
      rcases step with ⟨g, there, same⟩
      refine .head ⟨g, (kept apart Nat.one_lt_two).trans there, same⟩ (ih ?_)
      -- were this directory in `x`, then `x` would not be empty
      rintro rfl
      have parent := (sane.made_of_live there).up there
      rw [same] at parent
      split at parent
      · exact apart parent.symm
      · rcases parent with ⟨j, high, u, inside, -⟩
        rw [goes.empty j high] at inside
        cases inside
  intro y g there
  rcases mem_remove.mp there with ⟨apart, -, before⟩
  exact past (rooted y g before) apart

theorem Does.rooted {answer : Answer} {call : Call} (does : T.Does current answer T' call) (rooted : T.Rooted) (sane : T.Sane) : T'.Rooted := by
  have entered {pathname : List (BitVec 8)} {x : Ino} {n : Nat} {isDir : Prop} (enters : T.Enters current pathname x n isDir T') :
      T'.Rooted := by
    rcases enters with ⟨d, i, -, -, vacant, rfl⟩
    exact rooted.enter (vacant.made.place vacant.empty)
  cases call with
  | openNamei pathname flag mode =>
    rcases does with ⟨out, -, opens⟩
    match out, opens with
    | .error _, same => exact same ▸ rooted
    | .ok x, .inl ⟨same, _⟩ => exact same ▸ rooted
    | .ok x, .inr ⟨_, enters⟩ => exact entered enters
  | sysMknod filename mode dev =>
    rcases does with ⟨out, -, creates⟩
    match out, creates with
    | .error _, same => exact same ▸ rooted
    | .ok _, ⟨x, _, enters⟩ => exact entered enters
  | sysMkdir pathname mode =>
    rcases does with ⟨out, -, makes⟩
    match out, makes with
    | .error _, same => exact same ▸ rooted
    | .ok _, ⟨x, d, i, free, _, _, vacant, same⟩ =>
      have place := vacant.made.place vacant.empty
      rcases vacant.made.dot with ⟨g, here, -⟩
      have apart : x ≠ d := fun own => free (own ▸ sane.used (sane.inDir d 0 g here))
      have bare (j : Nat) : (T.enter d i ⟨x.num, padded (lastName pathname)⟩ 0 True).live x j = none :=
        (if_neg fun here => apart here.1).trans (sane.unused free j)
      rw [same]
      refine (rooted.enter place).furnish bare ((if_neg (low_place place Nat.two_pos)).trans here) ?_ vacant.dev
      unfold target dotDotEntry
      rw [vacant.dev]
  | sysRmdir name =>
    rcases does with ⟨out, -, removes⟩
    match out, removes with
    | .error _, same => exact same ▸ rooted
    | .ok _, ⟨d, i, x, _, goes, same⟩ => exact same ▸ rooted.remove sane goes
  | sysUnlink name =>
    rcases does with ⟨out, -, unlinks⟩
    match out, unlinks with
    | .error _, same => exact same ▸ rooted
    | .ok _, ⟨d, i, x, ⟨_, _, e, there, _, target_⟩, file, gone⟩ =>
      have place := sane.place ⟨e, there, target_⟩ file
      rcases gone with same | ⟨-, same⟩
      · exact same ▸ rooted.congr fun _ _ low => if_neg (low_place place low)
      · exact same ▸ rooted.congr fun _ _ low => if_neg (low_place place low)
  | sysLink oldname newname =>
    rcases does with ⟨out, -, links⟩
    match out, links with
    | .error _, same => exact same ▸ rooted
    | .ok _, ⟨x, _, _, enters⟩ => exact entered enters
  | namei pathname => exact does.1 ▸ rooted
  | iput x =>
    rcases does with same | ⟨-, same⟩
    · exact same ▸ rooted
    · exact same ▸ rooted.congr fun _ _ _ => rfl

end Tree

/-- What the disks are like whenever no call is under way: each inode in use has as many links as there are names of it,
    names lead to inodes in use, no two entries of a directory have one name, and the directories make a tree. -/
structure Intact (fs : FileSystem σ) : Prop where
  links : ∀ x, fs.inodeMap x = true → (fs.tree.namers x).encard = (fs.inode x).nlinks.toNat
  used : ∀ d i e, fs.live d i = some e → fs.inodeMap ⟨d.dev, e.inode⟩ = true
  unique : ∀ d i j e f name, fs.live d i = some e → fs.live d j = some f → 0 ∉ name → entryMatches name e = true →
    entryMatches name f = true → i = j
  parent : ∀ d, fs.IsDir d → (fs.inode d).zone 0 ≠ 0 → d.num ≠ rootIno →
    ∃ p i, 2 ≤ i ∧ fs.tree.Up d p ∧ ∀ q j, fs.tree.Names q j d ∧ 2 ≤ j ↔ q = p ∧ j = i
  rooted : ∀ d, fs.IsDir d → (fs.inode d).zone 0 ≠ 0 → Relation.ReflTransGen fs.tree.Up d ⟨d.dev, rootIno⟩

theorem Consistent.intact (consistent : Consistent fs) (rooted : fs.tree.Rooted) : Intact fs where
  links x used := by
    rw [consistent.sane.exact x used, tree_nlinks used]
  used d i e there := consistent.sane.named d i _ ⟨e, there, rfl⟩
  unique := consistent.sane.unique
  parent d isDir mapped inner := by
    rcases (consistent.made isDir mapped).dotDot with ⟨f, p, up, -, same, parent⟩
    rw [if_neg inner] at parent
    rcases parent with ⟨i, place, names⟩
    refine ⟨p, i, place, ⟨f, up, same⟩, fun q j => ⟨fun other => ?_, ?_⟩⟩
    · have one := consistent.sane.one d isDir (q, j) (p, i) other.1 names other.2 place
      exact Prod.mk.inj one
    · rintro ⟨rfl, rfl⟩
      exact ⟨names, place⟩
  rooted d isDir mapped := by
    rcases (consistent.made isDir mapped).dot with ⟨e, here, -⟩
    exact rooted d e here

/-- After any calls of any processes the disks are as they should be. -/
theorem calls_keep_intact (serves : k.Serves) (consistent : Consistent fs) (rooted : fs.tree.Rooted) {events : List Event}
    (run : (fileSystem k).Run fs events fs') : Intact fs' := by
  have both : Consistent fs' ∧ fs'.tree.Rooted := by
    refine run.invariant (I := fun fs => Consistent fs ∧ fs.tree.Rooted) ?_ ⟨consistent, rooted⟩
    rintro fs₁ event fs₂ ⟨consistent₁, rooted₁⟩ step
    rcases step_refines serves consistent₁ step with ⟨consistent₂, does⟩
    exact ⟨consistent₂, does.rooted rooted₁ consistent₁.sane⟩
  exact both.1.intact both.2

theorem emptyDisk_rooted : emptyDisk.tree.Rooted := by
  intro d e there
  rw [(emptyDisk_live.mp there).1]
  exact .refl

theorem diskWithA_intact : Intact diskWithA :=
  calls_keep_intact plainKernel_serves emptyDisk_consistent emptyDisk_rooted makeA_runs

end Linux011.Fs

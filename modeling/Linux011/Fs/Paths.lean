import Linux011.Fs.Rooted

namespace Linux011.Fs

open Linux011.Library

variable {σ : Type} {k : Kernel σ} {current : Process} {fs fs₁ fs₂ : FileSystem σ} {name : Name} {pathname : List (BitVec 8)}

theorem sought_plain (current : Process) (d : Ino) (plain : 0 ∉ name) : 0 ∉ current.sought d name := by
  unfold Process.sought
  split
  next => decide
  next => exact fun there => plain (List.mem_of_mem_take there)

namespace Tree

variable {T T' : Tree} {d x y : Ino} {i n : Nat} {c : BitVec 8} {isDir : Prop}

section Deterministic

theorem Leads.inv (leads : T.Leads current (c :: pathname) name d y) : c = 0 ∧ y = d ∨
    c ≠ 0 ∧ c ≠ Fs.slash ∧ T.Leads current pathname (name ++ [c]) d y ∨
    c = Fs.slash ∧ ∃ x, T.Step current d name x ∧ T.Leads current pathname [] x y := by
  generalize whole : c :: pathname = path at leads
  cases leads with
  | nil => cases whole
  | zero =>
    cases whole
    exact .inl ⟨rfl, rfl⟩
  | char some' inside rest =>
    cases whole
    exact .inr (.inl ⟨some', inside, rest⟩)
  | slash step rest =>
    cases whole
    exact .inr (.inr ⟨rfl, _, step, rest⟩)

variable (sane : T.Sane)

include sane

theorem Step.det (plain : 0 ∉ name) (step : T.Step current d name x) (step' : T.Step current d name y) : x = y := by
  rcases step with ⟨i, e, there, named, rfl⟩
  rcases step' with ⟨j, f, there', named', rfl⟩
  have same := sane.unique d i j e f _ there there' (sought_plain current d plain) named named'
  subst same
  rw [there] at there'
  cases there'
  rfl

theorem Leads.det (plain : 0 ∉ name) (leads : T.Leads current pathname name d x) (leads' : T.Leads current pathname name d y) : x = y := by
  induction leads with
  | nil =>
    cases leads'
    rfl
  | zero =>
    rcases leads'.inv with ⟨-, same⟩ | ⟨some', -⟩ | ⟨same, -⟩
    · exact same.symm
    · exact absurd rfl some'
    · exact absurd same (by decide)
  | char some' inside _ ih =>
    rcases leads'.inv with ⟨zero, -⟩ | ⟨-, -, rest'⟩ | ⟨same, -⟩
    · exact absurd zero some'
    · exact ih (fun there => (List.mem_append.mp there).elim plain fun last => some' (List.mem_singleton.mp last).symm) rest'
    · exact absurd same inside
  | slash step _ ih =>
    rcases leads'.inv with ⟨zero, -⟩ | ⟨-, inside, -⟩ | ⟨-, z, step', rest'⟩
    · exact absurd zero (by decide)
    · exact absurd rfl inside
    · have same := step.det sane plain step'
      subst same
      exact ih List.not_mem_nil rest'

theorem DirectoryOf.det (directory : T.DirectoryOf current pathname x) (directory' : T.DirectoryOf current pathname y) : x = y := by
  rcases directory with ⟨root, pwd, start, rest, isRoot, isPwd, begins, leads⟩
  rcases directory' with ⟨root', pwd', start', rest', isRoot', isPwd', begins', leads'⟩
  cases isRoot.symm.trans isRoot'
  cases isPwd.symm.trans isPwd'
  cases begins.symm.trans begins'
  exact leads.det sane List.not_mem_nil leads'

theorem PathTo.det (path : T.PathTo current pathname x) (path' : T.PathTo current pathname y) : x = y := by
  unfold PathTo at path path'
  split at path
  next ends =>
    rw [if_pos ends] at path'
    exact path.det sane path'
  next some' =>
    rw [if_neg some'] at path'
    rcases path with ⟨d, directory, step⟩
    rcases path' with ⟨d', directory', step'⟩
    have same := directory.det sane directory'
    subst same
    have plain : 0 ∉ basenameFrom pathname [] := basenameFrom_plain pathname nofun
    exact step.det sane plain step'

end Deterministic

section Monotone

variable (kept : ∀ y j e, T.live y j = some e → T'.live y j = some e)

include kept

theorem Step.mono (step : T.Step current d name x) : T'.Step current d name x := by
  rcases step with ⟨i, e, there, named, same⟩
  exact ⟨i, e, kept d i e there, named, same⟩

theorem Leads.mono (leads : T.Leads current pathname name d x) : T'.Leads current pathname name d x := by
  induction leads with
  | nil thisname d => exact .nil thisname d
  | zero pathname thisname d => exact .zero pathname thisname d
  | char some' inside _ ih => exact .char some' inside ih
  | slash step _ ih => exact .slash (step.mono kept) ih

theorem DirectoryOf.mono (directory : T.DirectoryOf current pathname d) : T'.DirectoryOf current pathname d := by
  rcases directory with ⟨root, pwd, start, rest, isRoot, isPwd, begins, leads⟩
  exact ⟨root, pwd, start, rest, isRoot, isPwd, begins, leads.mono kept⟩

end Monotone

section Found

theorem Vacant.sought (vacant : T.Vacant d i (lastName pathname) x) :
    current.sought d (basenameFrom pathname []) = lastName pathname := by
  unfold Process.sought
  split
  next root =>
    rcases vacant.made.dotDot with ⟨f, p, there, named, -⟩
    have unlike := vacant.new 1 f there
    unfold lastName at unlike
    rw [root.1, named] at unlike
    cases unlike
  next => rfl

theorem Vacant.pathTo (vacant : T.Vacant d i (lastName pathname) x) (directory : T.DirectoryOf current pathname d)
    (some' : basenameFrom pathname [] ≠ []) (kept : ∀ y j e, T.live y j = some e → T'.live y j = some e)
    (new : T'.live d i = some ⟨x.num, padded (lastName pathname)⟩) : T'.PathTo current pathname x := by
  unfold PathTo
  rw [if_neg some']
  refine ⟨d, directory.mono kept, i, _, new, ?_, ?_⟩
  · rw [vacant.sought]
    exact padded_matches (List.length_take_le ..) vacant.num
  · exact target_eq vacant.dev _

theorem enter_kept (empty : T.live d i = none) (e : DirEntry) (j : Nat) (f : DirEntry) (there : T.live y j = some f) :
    (T.enter d i e n isDir).live y j = some f := by
  refine mem_setLive.mpr (.inr ⟨?_, there⟩)
  rintro ⟨rfl, rfl⟩
  rw [empty] at there
  cases there

theorem Enters.pathTo (enters : T.Enters current pathname x n isDir T') : T'.PathTo current pathname x := by
  rcases enters with ⟨d, i, directory, some', vacant, rfl⟩
  exact vacant.pathTo directory some' (fun _ j f => enter_kept vacant.empty _ j f) (if_pos ⟨rfl, rfl⟩)

theorem Makes.pathTo (sane : T.Sane) (makes : T.Makes current pathname T' (.ok ())) :
    ∃ x, x ∉ T.used ∧ x ∈ T'.dir ∧ T'.PathTo current pathname x := by
  rcases makes with ⟨x, d, i, free, directory, some', vacant, rfl⟩
  have other {y : Ino} {j : Nat} {f : DirEntry} (there : T.live y j = some f) : y ≠ x := by
    rintro rfl
    rw [sane.unused free j] at there
    cases there
  rcases vacant.made.dot with ⟨g, here, -⟩
  have past {y : Ino} (apart : y ≠ x) (j : Nat) : ((T.enter d i ⟨x.num, padded (lastName pathname)⟩ 0 True).furnish x d
      (dotEntry x) (dotDotEntry d)).live y j = (T.enter d i ⟨x.num, padded (lastName pathname)⟩ 0 True).live y j :=
    (if_neg fun same => apart same.1).trans (if_neg fun same => apart same.1)
  refine ⟨x, free, .inr ⟨trivial, (target_eq vacant.dev _).symm⟩, vacant.pathTo directory some' (fun y j f there => ?_) ?_⟩
  · rw [past (other there)]
    exact enter_kept vacant.empty _ j f there
  · rw [past (other here)]
    exact if_pos ⟨rfl, rfl⟩

theorem Denotes.gone (sane : T.Sane) (denotes : T.Denotes current pathname d i x)
    (less : ∀ y j e, T'.live y j = some e → T.live y j = some e) (cleared : T'.live d i = none) (y : Ino) :
    ¬ T'.PathTo current pathname y := by
  rcases denotes with ⟨directory, some', e, there, named, -⟩
  unfold PathTo
  rw [if_neg some']
  rintro ⟨d', directory', j, f, there', named', -⟩
  have same := (directory'.mono less).det sane directory
  subst same
  have plain : 0 ∉ basenameFrom pathname [] := basenameFrom_plain pathname nofun
  have place := sane.unique d' j i f e _ (less d' j f there') there (sought_plain current d' plain) named' named
  subst place
  rw [cleared] at there'
  cases there'

theorem Unlinks.gone (sane : T.Sane) (unlinks : T.Unlinks current pathname T' (.ok ())) (y : Ino) : ¬ T'.PathTo current pathname y := by
  rcases unlinks with ⟨d, i, x, denotes, -, left⟩
  have live : T'.live = (T.leave d i x).live := by
    rcases left with rfl | ⟨-, rfl⟩
    · rfl
    · rfl
  refine denotes.gone sane (fun z j e there => ?_) ?_ y
  · rw [live] at there
    exact (mem_leave.mp there).2
  · rw [live]
    exact if_pos ⟨rfl, rfl⟩

theorem Removes.gone (sane : T.Sane) (removes : T.Removes current pathname T' (.ok ())) (y : Ino) : ¬ T'.PathTo current pathname y := by
  rcases removes with ⟨d, i, x, denotes, goes, rfl⟩
  exact denotes.gone sane (fun _ _ _ there => (mem_remove.mp there).2.2)
    ((if_neg goes.apart.symm).trans (if_pos ⟨rfl, rfl⟩)) y

end Found

end Tree

section Lookups

/-- What a process that looks a path up right after its call on that path can find: what it opened, the inode it made,
    the inode it linked, and nothing where it removed the name. -/
def Call.Shows (fs fs₁ : FileSystem σ) (current : Process) (pathname : List (BitVec 8)) (found : Option Ino) (answer : Answer) :
    Call → Prop
  | .openNamei path _ _ | .namei path => path = pathname → ∀ x y, answer = .ok (some x) → found = some y → y = x
  | .sysMknod path _ _ => path = pathname → answer = .ok none → ∀ y, found = some y → fs.inodeMap y = false
  | .sysMkdir path _ => path = pathname → answer = .ok none → ∀ y, found = some y → fs.inodeMap y = false ∧ fs₁.IsDir y
  | .sysLink oldname path => path = pathname → answer = .ok none → ∀ y, found = some y → fs.tree.PathTo current oldname y
  | .sysRmdir path | .sysUnlink path => path = pathname → answer = .ok none → found = none
  | .iput _ => True

/-- A lookup after a call finds what the call did. -/
theorem lookup_finds_call (serves : k.Serves) (consistent : Consistent fs) {call : Call} {answer : Answer} {found : Option Ino}
    (first : (fileSystem k).step fs ⟨current, call, answer⟩ fs₁)
    (second : (fileSystem k).step fs₁ ⟨current, .namei pathname, .ok found⟩ fs₂) :
    call.Shows fs fs₁ current pathname found answer := by
  rcases step_refines serves consistent first with ⟨consistent₁, does⟩
  rcases step_refines serves consistent₁ second with ⟨-, -, leads⟩
  have sane := consistent.sane
  have sane₁ := consistent₁.sane
  have leads (y : Ino) (some' : found = some y) : fs₁.tree.PathTo current pathname y := leads y (some' ▸ rfl)
  have unused {y : Ino} (free : y ∉ fs.tree.used) : fs.inodeMap y = false := Bool.eq_false_iff.mpr free
  cases call with
  | openNamei path flag mode =>
    rintro rfl x y ok some'
    rcases does with ⟨out, same, opens⟩
    cases out with
    | error e => cases same.symm.trans ok
    | ok x' =>
      cases same.symm.trans ok
      rcases opens with ⟨kept, path⟩ | ⟨-, enters⟩
      · exact (leads y some').det sane₁ (kept ▸ path)
      · exact (leads y some').det sane₁ enters.pathTo
  | sysMknod path mode dev =>
    rintro rfl ok y some'
    rcases does with ⟨out, same, creates⟩
    cases out with
    | error e => cases same.symm.trans ok
    | ok _ =>
      rcases creates with ⟨x, free, enters⟩
      rw [(leads y some').det sane₁ enters.pathTo]
      exact unused free
  | sysMkdir path mode =>
    rintro rfl ok y some'
    rcases does with ⟨out, same, makes⟩
    cases out with
    | error e => cases same.symm.trans ok
    | ok _ =>
      rcases Tree.Makes.pathTo sane makes with ⟨x, free, isDir, path⟩
      rw [(leads y some').det sane₁ path]
      exact ⟨unused free, isDir⟩
  | sysRmdir path =>
    rintro rfl ok
    rcases does with ⟨out, same, removes⟩
    cases out with
    | error e => cases same.symm.trans ok
    | ok _ =>
      cases found with
      | none => rfl
      | some y => exact absurd (leads y rfl) (Tree.Removes.gone sane removes y)
  | sysUnlink path =>
    rintro rfl ok
    rcases does with ⟨out, same, unlinks⟩
    cases out with
    | error e => cases same.symm.trans ok
    | ok _ =>
      cases found with
      | none => rfl
      | some y => exact absurd (leads y rfl) (Tree.Unlinks.gone sane unlinks y)
  | sysLink oldname path =>
    rintro rfl ok y some'
    rcases does with ⟨out, same, links⟩
    cases out with
    | error e => cases same.symm.trans ok
    | ok _ =>
      rcases links with ⟨x, old, -, enters⟩
      rw [(leads y some').det sane₁ enters.pathTo]
      exact old
  | namei path =>
    rintro rfl x y ok some'
    exact (leads y some').det sane₁ (does.1 ▸ does.2 x ok)
  | iput x => trivial

/-- `namei("/a")` after `mkdir("/a")` -/
theorem lookup_finds_a : emptyDisk.inodeMap ⟨1, 2⟩ = false ∧ diskWithA.IsDir ⟨1, 2⟩ := by
  rcases Machine.Run.of_snoc [] _ makeA_runs with ⟨start, before, made⟩
  rw [before.of_nil] at made
  have found : (match (Call.namei [0x2f, 0x61]).run plainKernel superuser diskWithA with
      | .ok (.ok (some x)) _ => decide (x = ⟨1, 2⟩)
      | _ => false) = true := by decide +kernel
  split at found
  next x fs' same =>
    rw [of_decide_eq_true found] at same
    exact lookup_finds_call plainKernel_serves emptyDisk_consistent made ⟨trivial, same⟩ rfl rfl _ rfl
  next => cases found

end Lookups

end Linux011.Fs

import Linux011.Mm.Deeds
import Linux011.Mm.FailedFork

namespace Linux011.Mm

open Linux011.Library

/-- The kernel with a record of its shared pages: the gets of each page that are not attached yet, which tasks have
    asked for a key or come from one that has, and the key each page was last handed out for. -/
structure Lending where
  kernel : Kernel
  owed : Nat → Nat
  users : Fin 64 → Fin 64 → Bool
  lentFor : Nat → Option (Fin 64)

/-- The calls of a run with shared memory and without faults. -/
def Call.Sharing : Call → Prop
  | fork | exit | release | shmget _ _ | shmat _ => True
  | _ => False

def Call.lends : Call → Option (Fin 64)
  | shmget key _ => Memory.keyOf key
  | _ => none

namespace Lending

variable (b : Lending)

def count (key : Fin 64) : BitVec 32 := (b.kernel.memory.sharedPages key).count

def pageOf (key : Fin 64) : Nat := (b.kernel.memory.sharedPages key).physicalAddress

def owedAfter (e : Event) (k : Kernel) : Nat → Nat :=
  match e.call with
  | .shmget key _ =>
    match Memory.keyOf key with
    | some i =>
      if e.outcome = .returned i then
        Function.update b.owed (k.memory.sharedPages i).physicalAddress (b.owed (k.memory.sharedPages i).physicalAddress + 1)
      else b.owed
    | none => b.owed
  | .shmat shmid =>
    match Memory.keyOf shmid with
    | some i => if e.outcome = .returned (-EINVAL) then b.owed else Function.update b.owed (b.pageOf i) (b.owed (b.pageOf i) - 1)
    | none => b.owed
  | _ => b.owed

def asked (s : Fin 64) (key : BitVec 32) : Fin 64 → Fin 64 → Bool :=
  fun r i => b.users r i || decide (r = s ∧ Memory.keyOf key = some i)

/-- A child counts as a user of the keys of its parent. -/
def usersAfter (e : Event) : Fin 64 → Fin 64 → Bool :=
  match e.call with
  | .fork =>
    match b.kernel.findEmptyProcess with
    | some nr => if e.outcome = .returned nr then Function.update b.users nr (b.users e.caller) else b.users
    | none => b.users
  | .exit => Function.update b.users e.caller fun _ => false
  | .shmget key _ => b.asked e.caller key
  | .shmat shmid => b.asked e.caller shmid
  | _ => b.users

def after (e : Event) (k : Kernel) : Lending where
  kernel := k
  owed := b.owedAfter e k
  users := b.usersAfter e
  lentFor := fun page =>
    if lowMem ≤ page ∧ b.kernel.memory.memMap (mapNr page) = 0 ∧ k.memory.memMap (mapNr page) ≠ 0 then e.call.lends
    else b.lentFor page

end Lending

/-- Runs with shared memory, from where it has not been used. -/
def lending (files : Nat → File) (L : Layout) : Machine Lending Event where
  init b := ((kernel files L).restrict fun _ e => e.call.Plain).Reaches b.kernel ∧ b.owed = (fun _ => 0) ∧
    b.users = (fun _ _ => false) ∧ b.lentFor = fun _ => none
  step b e b' := e.call.Sharing ∧ (kernel files L).step b.kernel e b'.kernel ∧ b' = b.after e b'.kernel

/-- Every attachment uses up a get, replaces no page and is within the segments of the task; the last user of a key
    has left no get of its pages unattached; no count overflows. -/
def Call.PaidFor (call : Call) (b : Lending) (s : Fin 64) : Prop :=
  match call with
  | fork => b.kernel.memory.Room s
  | exit => ∀ key, b.users s key = true → (∀ r, r ≠ s → b.users r key = false) →
      ∀ page, b.lentFor page = some key → b.owed page = 0
  | shmget key _ => ∀ i, Memory.keyOf key = some i → b.count i ≠ BitVec.allOnes 32
  | shmat shmid => ∀ i t, Memory.keyOf shmid = some i → b.count i ≠ 0 → b.kernel.task s = some t →
      0 < b.owed (b.pageOf i) ∧ t.brk.toNat / 0x400000 < Memory.dirs t.dataLimit ∧
        (present (b.kernel.memory.pteOf (Memory.base s + t.brk.toNat)) = true →
          frame (b.kernel.memory.pteOf (Memory.base s + t.brk.toNat)) < lowMem)
  | _ => True

def paidLending (files : Nat → File) (L : Layout) : Machine Lending Event :=
  (lending files L).restrict fun b e => e.call.PaidFor b e.caller

variable {L : Layout} {files : Nat → File} {b b' : Lending} {k' : Kernel} {s nr : Fin 64} {t : Task} {m m' : Memory}
  {held : Nat → Nat} {e : Event} {p page : Nat} {key : Fin 64}

/-- What a page that was lent still is to the keys and tasks. -/
structure OnLoan (k : Kernel) (owed : Nat → Nat) (users : Fin 64 → Fin 64 → Bool) (page : Nat) (key : Fin 64) : Prop where
  untabled : k.memory.tables page = 0
  unstructured : k.taskPages page = 0
  mapped : ∀ s x, present (k.memory.window s x) = true → frame (k.memory.window s x) = page → users s key = true
  claimed : owed page ≠ 0 → ∃ s, users s key = true

/-- What holds in every run where all attachments are paid for. -/
structure Lent (L : Layout) (b : Lending) : Prop where
  tasks : Tasks L b.kernel
  sound : Sound L b.kernel.memory fun page => b.kernel.taskPages page + b.owed page
  settled : Settled b.kernel
  live : ∀ s key, b.users s key = true → ∃ t, b.kernel.task s = some t ∧ t.zombie = false
  keys : ∀ key, b.count key ≠ 0 → b.lentFor (b.pageOf key) = some key
  gets : ∀ page, b.owed page ≠ 0 → ∃ key, b.lentFor page = some key
  managed : ∀ page key, b.lentFor page = some key → L.Managed page
  loans : ∀ page key, b.lentFor page = some key → OnLoan b.kernel b.owed b.users page key

theorem Lent.gone (lent : Lent L b) (gone : ∀ s, b.users s key = false) :
    b.count key = 0 ∧ ∀ page, b.lentFor page = some key → b.kernel.memory.memMap (mapNr page) = 0 := by
  have free (page : Nat) (there : b.lentFor page = some key) : b.kernel.memory.memMap (mapNr page) = 0 := by
    have loan := lent.loans page key there
    have managed := lent.managed page key there
    have balanced := lent.sound.balanced page managed
    have unmapped : b.kernel.memory.mappings page = 0 := by
      rw [Memory.mappings, total_eq_zero_iff]
      rintro ⟨d, i⟩
      rcases dirOf_surjective d with ⟨r, j, rfl⟩
      by_contra use
      rcases pointsTo_pos.mp (Nat.pos_of_ne_zero use) with ⟨here, same⟩
      have user := loan.mapped r (j, i) here same
      rw [gone r] at user
      cases user
    have unclaimed : b.owed page = 0 := by
      by_contra owed
      rcases loan.claimed owed with ⟨r, user⟩
      rw [gone r] at user
      cases user
    rw [loan.untabled, loan.unstructured, unmapped, unclaimed, Memory.booked] at balanced
    exact BitVec.eq_of_toNat_eq (by simpa using (Nat.add_eq_zero_iff.mp balanced).1)
  refine ⟨?_, free⟩
  by_contra live
  exact (lent.sound.sharedPage key live).2 (free _ (lent.keys key live))

section Steps

theorem OnLoan.of_free {k : Kernel} {owed : Nat → Nat} {users : Fin 64 → Fin 64 → Bool}
    (sound : Sound L k.memory fun page => k.taskPages page + owed page) (managed : L.Managed page)
    (free : k.memory.memMap (mapNr page) = 0) : OnLoan k owed users page key := by
  rcases sound.free managed free with ⟨untabled, unmapped, unheld, -⟩
  refine ⟨untabled, by omega, ?_, fun claimed => absurd unheld (by omega)⟩
  intro s x here same
  have use := mappings_pos (dirOf s x.1) x.2 here
  rw [show frame (k.memory.pte (dirOf s x.1) x.2) = page from same, unmapped] at use
  cases use

theorem Lending.lentFor_used (inUse : b.kernel.memory.memMap (mapNr page) ≠ 0) :
    (b.after e k').lentFor page = b.lentFor page := if_neg fun handed => inUse handed.2.1

theorem Lent.used (lent : Lent L b) (owed : b.owed page ≠ 0) :
    ∃ key, b.lentFor page = some key ∧ b.kernel.memory.memMap (mapNr page) ≠ 0 := by
  rcases lent.gets page owed with ⟨key, there⟩
  exact ⟨key, there, lent.sound.mapped_used (lent.managed page key there) (by omega)⟩

theorem Lent.passed (lent : Lent L b) (tasks : Tasks L k')
    (sound : Sound L k'.memory fun page => k'.taskPages page + b.owedAfter e k' page) (settled : Settled k')
    (live : ∀ s key, b.usersAfter e s key = true → ∃ t, k'.task s = some t ∧ t.zombie = false)
    (handed : ∀ page, b.kernel.memory.memMap (mapNr page) = 0 → k'.memory.memMap (mapNr page) ≠ 0 → e.call.lends = none)
    (keys : ∀ key, (k'.memory.sharedPages key).count ≠ 0 →
      b.count key ≠ 0 ∧ (k'.memory.sharedPages key).physicalAddress = b.pageOf key)
    (gets : ∀ page, b.owedAfter e k' page ≠ 0 →
      ∃ key, b.lentFor page = some key ∧ b.kernel.memory.memMap (mapNr page) ≠ 0)
    (loans : ∀ page key, b.lentFor page = some key → b.kernel.memory.memMap (mapNr page) ≠ 0 →
      OnLoan k' (b.owedAfter e k') (b.usersAfter e) page key) : Lent L (b.after e k') := by
  have lentFor (page : Nat) (key : Fin 64) (there : (b.after e k').lentFor page = some key) :
      b.lentFor page = some key ∧
        (b.kernel.memory.memMap (mapNr page) ≠ 0 ∨ k'.memory.memMap (mapNr page) = 0) := by
    change (if _ then e.call.lends else b.lentFor page) = some key at there
    split at there
    · rename_i fresh
      rw [handed page fresh.2.1 fresh.2.2] at there
      cases there
    · rename_i kept
      refine ⟨there, ?_⟩
      by_contra both
      have managed := lent.managed page key there
      exact kept ⟨managed.physical.1, by tauto, by tauto⟩
  have managed (page : Nat) (key : Fin 64) (there : (b.after e k').lentFor page = some key) : L.Managed page :=
    lent.managed page key (lentFor page key there).1
  refine ⟨tasks, sound, settled, live, ?_, ?_, managed, ?_⟩
  · intro key counted
    rcases keys key counted with ⟨before, same⟩
    have inUse : b.kernel.memory.memMap (mapNr (b.pageOf key)) ≠ 0 := (lent.sound.sharedPage key before).2
    have page : (b.after e k').pageOf key = b.pageOf key := same
    rw [page, Lending.lentFor_used inUse]
    exact lent.keys key before
  · intro page owed
    rcases gets page owed with ⟨key, there, inUse⟩
    exact ⟨key, (Lending.lentFor_used inUse).trans there⟩
  · intro page key there
    rcases lentFor page key there with ⟨before, inUse | free⟩
    · exact loans page key before inUse
    · exact .of_free sound (managed page key there) free

end Steps

section Plain

theorem Walk.live {entries : Set (Fin 1024 × Fin 1024)} {c c' : Books} (walk : Walk L (Move.user entries) c c')
    (counted : (c'.memory.sharedPages key).count ≠ 0) : (c.memory.sharedPages key).count ≠ 0 ∧
      (c'.memory.sharedPages key).physicalAddress = (c.memory.sharedPages key).physicalAddress := by
  have kept : (c'.memory.sharedPages key).count ≠ 0 → (c.memory.sharedPages key).count ≠ 0 ∧
      (c'.memory.sharedPages key).physicalAddress = (c.memory.sharedPages key).physicalAddress := by
    apply walk.invariant (I := fun c' => (c'.memory.sharedPages key).count ≠ 0 →
      (c.memory.sharedPages key).count ≠ 0 ∧
        (c'.memory.sharedPages key).physicalAddress = (c.memory.sharedPages key).physicalAddress) fun live => ⟨live, rfl⟩
    intro move c'' user legal kept live
    rcases move.live legal live with ⟨before, same⟩ | ⟨p, rfl, -⟩
    · exact ⟨(kept before).1, same.trans (kept before).2⟩
    · rcases user with own | ⟨_, _, _, _, other, -⟩
      · exact own.elim
      · cases other
  exact kept counted

theorem Lent.served (lent : Lent L b) (served : Served L (fun page => b.kernel.taskPages page + b.owed page) b.kernel k')
    (none : e.call.lends = none) (same : b.owedAfter e k' = b.owed) (settled : Settled k')
    (live : ∀ s key, b.usersAfter e s key = true → ∃ t, k'.task s = some t ∧ t.zombie = false)
    (loans : ∀ page key, b.lentFor page = some key → b.kernel.memory.memMap (mapNr page) ≠ 0 →
      OnLoan k' b.owed (b.usersAfter e) page key) : Lent L (b.after e k') := by
  rcases served.walk with ⟨held', walk, even⟩
  have books : held' = fun page => k'.taskPages page + b.owed page := by
    funext page
    have moved := even page
    omega
  apply lent.passed served.tasks _ settled live fun _ _ _ => none
  · exact fun key counted => walk.live counted
  · rw [same]
    exact fun page owed => lent.used owed
  · rw [same]
    exact loans
  · rw [same, ← books]
    exact walk.sound lent.sound

theorem OnLoan.next {k : Kernel} {owed : Nat → Nat} {users users' : Fin 64 → Fin 64 → Bool}
    (loan : OnLoan k owed users page key) (tables : k.memory.tables page = 0 → k'.memory.tables page = 0)
    (structs : k.taskPages page = 0 → k'.taskPages page = 0)
    (mapped : ∀ s x, present (k'.memory.window s x) = true → frame (k'.memory.window s x) = page → users' s key = true)
    (claimed : (∃ s, users s key = true) → owed page ≠ 0 → ∃ s, users' s key = true) : OnLoan k' owed users' page key :=
  ⟨tables loan.untabled, structs loan.unstructured, mapped, fun owes => claimed (loan.claimed owes) owes⟩

theorem Lent.exit (lent : Lent L b) (there : b.kernel.task e.caller = some t) (exits : e.call = .exit)
    (paid : e.call.PaidFor b e.caller)
    (served : Served L (fun page => b.kernel.taskPages page + b.owed page) b.kernel k')
    (left : Left b.kernel e.caller t { t with zombie := true, executable := none } k') : Lent L (b.after e k') := by
  have users : b.usersAfter e = Function.update b.users e.caller fun _ => false := by
    rw [Lending.usersAfter, exits]
  have settled := lent.settled.left there left
  rw [exits] at paid
  have owed : b.owedAfter e k' = b.owed := by rw [Lending.owedAfter, exits]
  apply lent.served served (by rw [exits]; rfl) owed settled
  · intro r key user
    rw [users] at user
    by_cases same : r = e.caller
    · rw [same, Function.update_self] at user
      cases user
    · rw [Function.update_of_ne same] at user
      rcases lent.live r key user with ⟨u, here, alive⟩
      exact ⟨u, by rw [left.task, Function.update_of_ne same, here], alive⟩
  · intro page key lentFor _
    have positive := Sound.positive (lent.managed page key lentFor)
    rw [users]
    apply (lent.loans page key lentFor).next
    · exact fun plain => (left.vacated.untouched page positive plain).plain
    · intro unused
      rw [taskPages_change (u := { t with zombie := true, executable := none }) there left.task rfl]
      exact unused
    · intro r x here same
      by_cases own : r = e.caller
      · rw [own] at here
        rcases settled e.caller left.other x here with ⟨u, there', alive, -⟩
        rw [left.task, Function.update_self] at there'
        cases there'
        cases alive
      · rw [left.vacated.others r own] at here same
        rw [Function.update_of_ne own]
        exact (lent.loans page key lentFor).mapped r x here same
    · rintro ⟨r, user⟩ owes
      by_contra last
      have others (r : Fin 64) (other : r ≠ e.caller) : b.users r key = false := by
        by_contra user
        exact last ⟨r, by rw [Function.update_of_ne other]; simpa using user⟩
      have own : r = e.caller := by
        by_contra other
        rw [others r other] at user
        cases user
      exact owes (paid key (own ▸ user) others page lentFor)

theorem Lent.release (lent : Lent L b) (there : b.kernel.task e.caller = some t) (releases : e.call = .release)
    (dead : t.zombie = true) (served : Served L (fun page => b.kernel.taskPages page + b.owed page) b.kernel k')
    (words : k'.memory.words = b.kernel.memory.words)
    (task : k'.task = Function.update b.kernel.task e.caller none) : Lent L (b.after e k') := by
  have users : b.usersAfter e = b.users := by rw [Lending.usersAfter, releases]
  have owed : b.owedAfter e k' = b.owed := by rw [Lending.owedAfter, releases]
  apply lent.served served (by rw [releases]; rfl) owed (lent.settled.released there dead words task)
  · intro r key user
    rw [users] at user
    rcases lent.live r key user with ⟨u, here, alive⟩
    have other : r ≠ e.caller := by
      rintro rfl
      rw [there] at here
      cases here
      rw [dead] at alive
      cases alive
    exact ⟨u, by rw [task, Function.update_of_ne other, here], alive⟩
  · intro page key lentFor _
    rw [users]
    apply (lent.loans page key lentFor).next
    · intro plain
      rw [tables_eq (m := b.kernel.memory) (funext fun d : Fin 1024 => congrFun words d)]
      exact plain
    · intro unused
      have moved := taskPages_set task page
      rw [unused, there] at moved
      have zero : structAt page none = 0 := rfl
      omega
    · intro r x here same
      rw [window_words words] at here same
      exact (lent.loans page key lentFor).mapped r x here same
    · exact fun user _ => user

theorem MadeFork.dirs {k : Kernel} (made : MadeFork L held k s nr t p k') (sound : Sound L k.memory held) :
    (k.memory.take p).pdes = k.memory.pdes ∧ (k.memory.take p).ptes = k.memory.ptes :=
  take_views (Sound.positive made.managed) (sound.free made.managed made.free).1

theorem MadeFork.child {k : Kernel} (made : MadeFork L held k s nr t p k') (sound : Sound L k.memory held)
    (blank : ∀ x, present (k.memory.window nr x) = false) {x : Fin 16 × Fin 1024}
    (here : present (k'.memory.window nr x) = true) : Alike (k'.memory.window nr x) (k.memory.window s x) := by
  have views := made.dirs sound
  by_cases below : x.1.val < Memory.dirs t.dataLimit
  · have index := made.copied.child x below here
    have source := made.copied.source x
    rw [window_eq views.2] at source
    exact (made.copied.alike x (.inl below) index).trans source
  · rw [made.copied.beyond x (Nat.le_of_not_lt below), window_eq views.2, blank x] at here
    cases here

theorem MadeFork.other {k : Kernel} (made : MadeFork L held k s nr t p k') (sound : Sound L k.memory held) {r : Fin 64}
    (other : r ≠ nr) (x : Fin 16 × Fin 1024) : Alike (k'.memory.window r x) (k.memory.window r x) := by
  have views := made.dirs sound
  by_cases parent : r = s
  · have source := made.copied.source x
    rw [window_eq views.2] at source
    rw [parent]
    exact source
  · rw [made.copied.others r parent other, window_eq views.2]
    exact .refl _

theorem MadeFork.untabled {k : Kernel} (made : MadeFork L held k s nr t p k') (sound : Sound L k.memory held)
    (managed : L.Managed page) (used : k.memory.memMap (mapNr page) ≠ 0) (plain : k.memory.tables page = 0) :
    k'.memory.tables page = 0 := by
  have other : page ≠ p := fun same => used (same ▸ made.free)
  have taken : Sound L (k.memory.take p) (Function.update held p (held p + 1)) := sound.take made.managed made.free
  apply made.copied.untabled taken managed
  · rw [tables_eq (made.dirs sound).1]
    exact plain
  · have map : (k.memory.take p).memMap (mapNr page) = k.memory.memMap (mapNr page) :=
      setMap_other made.managed.physical.1 managed.physical.1 other
    rw [map]
    exact used

theorem Lent.forked (lent : Lent L b) (alive : t.zombie = false)
    (forks : e.call = .fork) (slot : b.kernel.findEmptyProcess = some nr) (answer : e.outcome = .returned nr)
    (served : Served L (fun page => b.kernel.taskPages page + b.owed page) b.kernel k') (settled : Settled k')
    (made : MadeFork L (fun page => b.kernel.taskPages page + b.owed page) b.kernel e.caller nr t p k') :
    Lent L (b.after e k') := by
  rcases findEmptyProcess_empty slot with ⟨empty, other⟩
  have users : b.usersAfter e = Function.update b.users nr (b.users e.caller) := by
    rw [Lending.usersAfter, forks, slot]
    exact if_pos answer
  have owed : b.owedAfter e k' = b.owed := by rw [Lending.owedAfter, forks]
  have idle (key : Fin 64) : b.users nr key = false := by
    by_contra user
    rcases lent.live nr key (by simpa using user) with ⟨u, here, -⟩
    rw [empty] at here
    cases here
  apply lent.served served (by rw [forks]; rfl) owed settled
  · intro r key user
    rw [users] at user
    rw [made.task]
    by_cases child : r = nr
    · rw [child, Function.update_self]
      exact ⟨_, rfl, alive⟩
    · rw [Function.update_of_ne child] at user ⊢
      exact lent.live r key user
  · intro page key lentFor used
    have managed := lent.managed page key lentFor
    have loan := lent.loans page key lentFor
    rw [users]
    apply loan.next
    · exact made.untabled lent.sound managed used
    · intro unused
      have moved := taskPages_set made.task page
      have apart : p ≠ page := fun same => used (same ▸ made.free)
      have zero : structAt page (some { t with page := p }) = 0 := if_neg apart
      rw [zero, unused] at moved
      omega
    · intro r x here same
      by_cases child : r = nr
      · rw [child] at here same
        have alike := made.child lent.sound (lent.settled.blank other empty) here
        rw [child, Function.update_self]
        exact loan.mapped _ x (alike.1.symm.trans here) ((alike.2 here).1.symm.trans same)
      · have alike := made.other lent.sound child x
        rw [Function.update_of_ne child]
        exact loan.mapped r x (alike.1.symm.trans here) ((alike.2 here).1.symm.trans same)
    · rintro ⟨r, user⟩ -
      have child : r ≠ nr := by
        rintro rfl
        rw [idle key] at user
        cases user
      exact ⟨r, by rw [Function.update_of_ne child]; exact user⟩

theorem Lent.unforked (lent : Lent L b) (forks : e.call = .fork) (answer : e.outcome = .returned (-EAGAIN))
    (served : Served L (fun page => b.kernel.taskPages page + b.owed page) b.kernel k') (settled : Settled k')
    (task : k'.task = b.kernel.task)
    (untabled : ∀ page, L.Managed page → b.kernel.memory.memMap (mapNr page) ≠ 0 → b.kernel.memory.tables page = 0 →
      k'.memory.tables page = 0)
    (alike : ∀ r x, present (k'.memory.window r x) = true → Alike (k'.memory.window r x) (b.kernel.memory.window r x)) :
    Lent L (b.after e k') := by
  have users : b.usersAfter e = b.users := by
    rw [Lending.usersAfter, forks]
    dsimp only
    split
    · rename_i nr _
      rw [answer, EAGAIN]
      apply if_neg
      intro same
      have value := Outcome.returned.inj same
      omega
    · rfl
  have owed : b.owedAfter e k' = b.owed := by rw [Lending.owedAfter, forks]
  apply lent.served served (by rw [forks]; rfl) owed settled
  · rw [users, task]
    exact lent.live
  · intro page key lentFor used
    have loan := lent.loans page key lentFor
    rw [users]
    apply loan.next
    · exact untabled page (lent.managed page key lentFor) used
    · have pages : k'.taskPages page = b.kernel.taskPages page := by
        rw [Kernel.taskPages, Kernel.taskPages, task]
      rw [pages]
      exact fun unused => unused
    · intro r x here same
      have alike := alike r x here
      exact loan.mapped r x (alike.1.symm.trans here) ((alike.2 here).1.symm.trans same)
    · exact fun user _ => user

theorem FailedFork.untabled {k : Fin 16} {h u : Memory} {n : Nat} (fork : FailedFork L held m s nr n p k h u)
    (sound : Sound L m held) (managed : L.Managed page) (used : m.memMap (mapNr page) ≠ 0) (plain : m.tables page = 0) :
    (u.unref p).tables page = 0 := by
  have other : page ≠ p := fun same => used (same ▸ fork.free)
  have halted : h.tables page = 0 := by
    apply fork.failed.untabled (fork.taken sound) managed
    · rw [tables_eq (fork.views sound).1]
      exact plain
    · have map : (m.take p).memMap (mapNr page) = m.memMap (mapNr page) :=
        setMap_other fork.managed.physical.1 managed.physical.1 other
      rw [map]
      exact used
  rw [tables_eq (m := u) (funext fun d : Fin 1024 => congrFun (unref_words u p) d)]
  exact ((fork.vacated sound).untouched page (Sound.positive managed) halted).plain

theorem FailedFork.alike {k : Fin 16} {h u : Memory} {n : Nat} (fork : FailedFork L held m s nr n p k h u)
    (sound : Sound L m held) (apart : s ≠ nr) (blank : ∀ x, present (m.window nr x) = false) (r : Fin 64)
    (x : Fin 16 × Fin 1024) (here : present ((u.unref p).window r x) = true) :
    Alike ((u.unref p).window r x) (m.window r x) := by
  rw [window_words (unref_words u p)] at here ⊢
  by_cases child : r = nr
  · rw [child] at here
    by_cases below : x.1.val < n
    · rw [(fork.vacated sound).gone x below] at here
      cases here
    · rw [fork.rest sound (Nat.le_of_not_lt below), blank x] at here
      cases here
  · by_cases parent : r = s
    · rw [parent]
      rcases fork.parent sound apart x with same | marked
      · rw [same]
        exact .refl _
      · rw [marked]
        exact .protect _
    · rw [fork.others sound parent child]
      exact .refl _

end Plain

section Shared

variable {asked size shmid : BitVec 32} {i : Fin 64}

theorem Lending.asked_kept {r : Fin 64} (user : b.users r key = true) : b.asked s asked r key = true := by
  simp [Lending.asked, user]

theorem Lending.asked_self (is : Memory.keyOf asked = some i) : b.asked s asked s i = true := by
  simp [Lending.asked, is]

theorem Lent.asked_live (lent : Lent L b) (there : b.kernel.task s = some t) (alive : t.zombie = false) {r : Fin 64}
    (user : b.asked s asked r key = true) : ∃ t, b.kernel.task r = some t ∧ t.zombie = false := by
  simp only [Lending.asked, Bool.or_eq_true, decide_eq_true_eq] at user
  rcases user with before | ⟨rfl, -⟩
  · exact lent.live r key before
  · exact ⟨t, there, alive⟩

variable (asked) in
theorem Lent.refused (lent : Lent L b) (there : b.kernel.task e.caller = some t) (alive : t.zombie = false)
    (asks : b.usersAfter e = b.asked e.caller asked) (same : b.owedAfter e b.kernel = b.owed) :
    Lent L (b.after e b.kernel) := by
  apply lent.passed lent.tasks (by rw [same]; exact lent.sound) lent.settled
  · rw [asks]
    exact fun r key user => lent.asked_live there alive user
  · exact fun page free used => absurd free used
  · exact fun key counted => ⟨counted, rfl⟩
  · rw [same]
    exact fun page owed => lent.used owed
  · intro page key lentFor _
    have loan := lent.loans page key lentFor
    rw [asks, same]
    refine loan.next (fun plain => plain) (fun unused => unused) ?_ ?_
    · exact fun r x here same => Lending.asked_kept (loan.mapped r x here same)
    · exact fun ⟨r, user⟩ _ => ⟨r, Lending.asked_kept user⟩

theorem Lending.owedAfter_get (gets : e.call = .shmget asked size) (is : Memory.keyOf asked = some i)
    (answer : e.outcome = .returned i) {k' : Kernel} (page : (k'.memory.sharedPages i).physicalAddress = p) :
    b.owedAfter e k' = Function.update b.owed p (b.owed p + 1) := by
  unfold Lending.owedAfter
  rw [gets]
  dsimp only
  rw [is]
  dsimp only
  rw [if_pos answer, page]

theorem owed_more (held owed : Nat → Nat) (p : Nat) : (fun f => held f + Function.update owed p (owed p + 1) f) =
    Function.update (fun f => held f + owed f) p (held p + owed p + 1) := by
  funext f
  by_cases same : f = p
  · rw [same, Function.update_self, Function.update_self, Nat.add_assoc]
  · rw [Function.update_of_ne same, Function.update_of_ne same]

def Kernel.getAgain (k : Kernel) (i : Fin 64) : Kernel := ⟨k.memory.setShared i (k.memory.sharedPages i).more, k.task⟩

theorem Lent.again (lent : Lent L b) (there : b.kernel.task e.caller = some t) (alive : t.zombie = false)
    (gets : e.call = .shmget asked size) (is : Memory.keyOf asked = some i) (answer : e.outcome = .returned i)
    (live : b.count i ≠ 0) (room : b.count i ≠ BitVec.allOnes 32) :
    Lent L (b.after e (b.kernel.getAgain i)) := by
  have asks : b.usersAfter e = b.asked e.caller asked := by rw [Lending.usersAfter, gets]
  have page : ((b.kernel.getAgain i).memory.sharedPages i).physicalAddress = b.pageOf i := by
    rw [Kernel.getAgain, setShared_same]
    rfl
  have owed : b.owedAfter e (b.kernel.getAgain i) =
      Function.update b.owed (b.pageOf i) (b.owed (b.pageOf i) + 1) := Lending.owedAfter_get gets is answer page
  have lentFor := lent.keys i live
  have used := (lent.sound.sharedPage i live).2
  have tasks : Tasks L (b.kernel.getAgain i) := lent.tasks.same rfl
  have settled : Settled (b.kernel.getAgain i) := lent.settled.kept fun _ => rfl
  apply lent.passed tasks _ settled
  · rw [asks]
    exact fun r key user => lent.asked_live there alive user
  · exact fun page free used => absurd free used
  · intro key counted
    by_cases same : key = i
    · rw [same]
      exact ⟨live, page⟩
    · have kept : (b.kernel.getAgain i).memory.sharedPages key = b.kernel.memory.sharedPages key := setShared_other same
      rw [kept] at counted
      exact ⟨counted, congrArg SharedPage.physicalAddress kept⟩
  · rw [owed]
    intro f owes
    by_cases same : f = b.pageOf i
    · exact ⟨i, same ▸ lentFor, same ▸ used⟩
    · rw [Function.update_of_ne same] at owes
      exact lent.used owes
  · intro f key there' _
    have loan := lent.loans f key there'
    rw [asks, owed]
    refine ⟨loan.untabled, loan.unstructured, ?_, ?_⟩
    · exact fun r x here same => Lending.asked_kept (loan.mapped r x here same)
    · intro owes
      by_cases same : f = b.pageOf i
      · rw [same, lentFor] at there'
        cases there'
        exact ⟨e.caller, Lending.asked_self is⟩
      · rw [Function.update_of_ne same] at owes
        rcases loan.claimed owes with ⟨r, user⟩
        exact ⟨r, Lending.asked_kept user⟩
  · rw [owed, owed_more]
    exact lent.sound.get live room

def Kernel.getFirst (k : Kernel) (i : Fin 64) (p : Nat) : Kernel := ⟨(k.memory.take p).setShared i ⟨1, p⟩, k.task⟩

theorem Lent.first (lent : Lent L b) (there : b.kernel.task e.caller = some t) (alive : t.zombie = false)
    (gets : e.call = .shmget asked size) (is : Memory.keyOf asked = some i) (answer : e.outcome = .returned i)
    (dead : b.count i = 0) (managed : L.Managed p) (free : b.kernel.memory.memMap (mapNr p) = 0) :
    Lent L (b.after e (b.kernel.getFirst i p)) := by
  have asks : b.usersAfter e = b.asked e.caller asked := by rw [Lending.usersAfter, gets]
  have page : (b.kernel.getFirst i p).memory.sharedPages i = ⟨1, p⟩ := setShared_same
  have owed : b.owedAfter e (b.kernel.getFirst i p) = Function.update b.owed p (b.owed p + 1) :=
    Lending.owedAfter_get gets is answer (congrArg SharedPage.physicalAddress page)
  rcases lent.sound.free managed free with ⟨untabled, unmapped, unheld, -⟩
  have views := take_views (Sound.positive managed) untabled
  have pages (f : Nat) : (b.kernel.getFirst i p).taskPages f = b.kernel.taskPages f := rfl
  have window (r : Fin 64) : (b.kernel.getFirst i p).memory.window r = b.kernel.memory.window r := window_eq views.2 r
  have tables (f : Nat) : (b.kernel.getFirst i p).memory.tables f = b.kernel.memory.tables f := tables_eq views.1
  have handed : (b.kernel.getFirst i p).memory.memMap (mapNr p) = 1 := setMap_same
  have map (f : Nat) (above : lowMem ≤ f) (other : f ≠ p) :
      (b.kernel.getFirst i p).memory.memMap (mapNr f) = b.kernel.memory.memMap (mapNr f) :=
    setMap_other managed.physical.1 above other
  have lentFor (f : Nat) : (b.after e (b.kernel.getFirst i p)).lentFor f = if f = p then some i else b.lentFor f := by
    change (if _ then e.call.lends else b.lentFor f) = _
    by_cases same : f = p
    · rw [if_pos same, if_pos ⟨same ▸ managed.physical.1, same ▸ free, by rw [same, handed]; decide⟩, gets]
      exact is
    · rw [if_neg same, if_neg]
      rintro ⟨above, before, after⟩
      rw [map f above same] at after
      exact after before
  have settled : Settled (b.kernel.getFirst i p) :=
    lent.settled.kept fun x => congrArg present (congrFun views.2 x)
  have sound : Sound L (b.kernel.getFirst i p).memory
      fun f => (b.kernel.getFirst i p).taskPages f + Function.update b.owed p (b.owed p + 1) f := by
    have taken := lent.sound.take managed free
    have inUse : (b.kernel.memory.take p).memMap (mapNr p) ≠ 0 := by
      rw [show (b.kernel.memory.take p).memMap (mapNr p) = 1 from handed]
      decide
    have claimed := taken.claim (k := i) (p := p) dead managed inUse
      fun j live same => (lent.sound.sharedPage j live).2 (same ▸ free)
    rw [owed_more]
    exact claimed
  have tasks : Tasks L (b.kernel.getFirst i p) := lent.tasks.same rfl
  rw [← owed] at sound
  refine ⟨tasks, sound, settled, ?_, ?_, ?_, ?_, ?_⟩
  · intro r key user
    change b.usersAfter e r key = true at user
    rw [asks] at user
    exact lent.asked_live there alive user
  · intro key counted
    rw [lentFor]
    by_cases same : key = i
    · have own : (b.after e (b.kernel.getFirst i p)).pageOf key = p := by
        rw [same]
        exact congrArg SharedPage.physicalAddress page
      rw [if_pos own, same]
    · have kept : (b.kernel.getFirst i p).memory.sharedPages key = b.kernel.memory.sharedPages key := setShared_other same
      have live : b.count key ≠ 0 := by
        change ((b.kernel.getFirst i p).memory.sharedPages key).count ≠ 0 at counted
        rw [kept] at counted
        exact counted
      have own : (b.after e (b.kernel.getFirst i p)).pageOf key = b.pageOf key :=
        congrArg SharedPage.physicalAddress kept
      have other : b.pageOf key ≠ p := by
        intro equal
        exact (lent.sound.sharedPage key live).2 (show b.kernel.memory.memMap (mapNr (b.pageOf key)) = 0 from equal ▸ free)
      rw [own, if_neg other]
      exact lent.keys key live
  · intro f owes
    change b.owedAfter e (b.kernel.getFirst i p) f ≠ 0 at owes
    rw [owed] at owes
    rw [lentFor]
    by_cases same : f = p
    · exact ⟨i, if_pos same⟩
    · rw [Function.update_of_ne same] at owes
      rw [if_neg same]
      exact lent.gets f owes
  · intro f key there'
    rw [lentFor] at there'
    by_cases same : f = p
    · exact same ▸ managed
    · rw [if_neg same] at there'
      exact lent.managed f key there'
  · intro f key there'
    change OnLoan (b.kernel.getFirst i p) (b.owedAfter e (b.kernel.getFirst i p)) (b.usersAfter e) f key
    rw [lentFor] at there'
    rw [asks, owed]
    by_cases same : f = p
    · rw [if_pos same] at there'
      cases there'
      subst same
      refine ⟨(tables f).trans untabled, by rw [pages]; omega, ?_, fun _ => ⟨e.caller, Lending.asked_self is⟩⟩
      intro r x here same
      rw [window] at here same
      have use := mappings_pos (dirOf r x.1) x.2 here
      rw [show frame (b.kernel.memory.pte (dirOf r x.1) x.2) = f from same, unmapped] at use
      cases use
    · rw [if_neg same] at there'
      have loan := lent.loans f key there'
      refine ⟨(tables f).trans loan.untabled, loan.unstructured, ?_, ?_⟩
      · intro r x here same
        rw [window] at here same
        exact Lending.asked_kept (loan.mapped r x here same)
      · intro owes
        rw [Function.update_of_ne same] at owes
        rcases loan.claimed owes with ⟨r, user⟩
        exact ⟨r, Lending.asked_kept user⟩

structure Attachment (L : Layout) (held : Nat → Nat) (m : Memory) (s : Fin 64) (y : Fin 16 × Fin 1024) (p : Nat)
    (m' : Memory) : Prop where
  sound : Sound L m' fun page => held page + pointsTo page (m.window s y) - pointsTo page (entry p)
  window : ∀ r z, m'.window r z = if r = s ∧ z = y then entry p else m.window r z
  tables : ∀ f, lowMem ≤ f → m.memMap (mapNr f) ≠ 0 → m'.tables f = m.tables f
  live : ∀ key, (m'.sharedPages key).count ≠ 0 → (m.sharedPages key).count ≠ 0 ∧
    (m'.sharedPages key).physicalAddress = (m.sharedPages key).physicalAddress

theorem Sound.attach {j : Fin 16} {x : Fin 1024} {address : Nat} (sound : Sound L m held) (place : At s address j x)
    (managed : L.Managed p) (untabled : m.tables p = 0) (holding : 0 < held p)
    (put : m.putPage p (Memory.base s + address) = some m') : Attachment L held m s (j, x) p m' := by
  rcases sound.putPage place.linear place.page managed untabled holding put with ⟨table, m₁, tabled, legal, -, rfl⟩
  have sound₁ := tabled.walk.sound sound
  have ptes := legal.ptes sound₁
  change (m₁.set (m₁.entryAt (dirOf s j) x) (entry p)).ptes = Function.update m₁.ptes (dirOf s j, x) (entry p) at ptes
  rw [tabled.ptes] at ptes
  constructor
  case sound =>
    have mapped := legal.sound sound₁
    have same : m₁.pte (dirOf s j) x = m.window s (j, x) := pte_congr tabled.ptes _ _
    simp only [Move.apply, same] at mapped
    exact mapped
  case window =>
    intro r z
    show (m₁.set (m₁.entryAt (dirOf s j) x) (entry p)).ptes (dirOf r z.1, z.2) = _
    rw [ptes]
    split
    · rename_i own
      rw [own.1, own.2, Function.update_self]
    · rename_i other
      apply Function.update_of_ne
      intro same
      rcases Prod.mk.inj same with ⟨dir, index⟩
      rcases dirOf_inj dir with ⟨rfl, first⟩
      exact other ⟨rfl, Prod.ext first index⟩
  case tables =>
    intro f above used
    exact (tables_eq (legal.pdes sound₁)).trans (tabled.inUse f above used).2
  case live => exact fun key counted => tabled.walk.as_user.live counted

theorem Lent.attached {j : Fin 16} {x : Fin 1024} (lent : Lent L b) (there : b.kernel.task e.caller = some t)
    (alive : t.zombie = false) (attaches : e.call = .shmat shmid) (is : Memory.keyOf shmid = some i)
    (answer : e.outcome ≠ .returned (-EINVAL)) (live : b.count i ≠ 0) (paid : 0 < b.owed (b.pageOf i))
    (inside : j.val < Memory.dirs t.dataLimit)
    (absent : present (b.kernel.memory.window e.caller (j, x)) = true →
      frame (b.kernel.memory.window e.caller (j, x)) < lowMem)
    (attachment : Attachment L (fun page => b.kernel.taskPages page + b.owed page) b.kernel.memory e.caller (j, x)
      (b.pageOf i) m') :
    Lent L (b.after e ⟨m', Function.update b.kernel.task e.caller (some { t with brk := t.brk + 4096 })⟩) := by
  have asks : b.usersAfter e = b.asked e.caller shmid := by rw [Lending.usersAfter, attaches]
  have managed := (lent.sound.sharedPage i live).1
  have lentFor := lent.keys i live
  generalize page : b.pageOf i = p at paid lentFor attachment
  have managed : L.Managed p := page ▸ managed
  generalize next : (⟨m', Function.update b.kernel.task e.caller (some { t with brk := t.brk + 4096 })⟩ : Kernel) = k'
  have memory : k'.memory = m' := by rw [← next]
  have task : k'.task = Function.update b.kernel.task e.caller (some { t with brk := t.brk + 4096 }) := by rw [← next]
  rw [← memory] at attachment
  have owed : b.owedAfter e k' = Function.update b.owed p (b.owed p - 1) := by
    unfold Lending.owedAfter
    rw [attaches]
    dsimp only
    rw [is]
    dsimp only
    rw [if_neg answer, page]
  have less (f : Nat) (owes : Function.update b.owed p (b.owed p - 1) f ≠ 0) : b.owed f ≠ 0 := by
    by_cases same : f = p
    · rw [same]
      omega
    · rw [Function.update_of_ne same] at owes
      exact owes
  have pages (f : Nat) : k'.taskPages f = b.kernel.taskPages f :=
    taskPages_change (u := { t with brk := t.brk + 4096 }) there task rfl f
  have fits := lent.tasks.fits _ t there
  have tasks : Tasks L k' := lent.tasks.change there task rfl ⟨fits.1, fits.2⟩
  have settled : Settled k' := by
    intro r other z here
    rw [attachment.window] at here
    rw [task]
    split at here
    · rename_i own
      rw [own.1, own.2, Function.update_self]
      exact ⟨_, rfl, alive, inside⟩
    · rcases lent.settled r other z here with ⟨u, there', alive', inside'⟩
      by_cases caller : r = e.caller
      · subst caller
        rw [there] at there'
        cases there'
        rw [Function.update_self]
        exact ⟨_, rfl, alive, inside'⟩
      · rw [Function.update_of_ne caller]
        exact ⟨u, there', alive', inside'⟩
  apply lent.passed tasks _ settled
  · intro r key user
    rw [asks] at user
    rcases lent.asked_live there alive user with ⟨u, there', alive'⟩
    rw [task]
    by_cases caller : r = e.caller
    · rw [caller, Function.update_self]
      exact ⟨_, rfl, alive⟩
    · rw [Function.update_of_ne caller]
      exact ⟨u, there', alive'⟩
  · intro _ _ _
    rw [attaches]
    rfl
  · exact attachment.live
  · rw [owed]
    exact fun f owes => lent.used (less f owes)
  · intro f key there' used
    have loan := lent.loans f key there'
    rw [asks, owed]
    refine ⟨?_, by rw [pages]; exact loan.unstructured, ?_, ?_⟩
    · rw [attachment.tables f (lent.managed f key there').physical.1 used]
      exact loan.untabled
    · intro r z here same
      rw [attachment.window] at here same
      split at same
      · rename_i own
        rw [frame_entry managed.physical.2] at same
        rw [← same, lentFor] at there'
        cases there'
        rw [own.1]
        exact Lending.asked_self is
      · rename_i other
        rw [if_neg other] at here
        exact Lending.asked_kept (loan.mapped r z here same)
    · intro owes
      rcases loan.claimed (less f owes) with ⟨r, user⟩
      exact ⟨r, Lending.asked_kept user⟩
  · rw [owed]
    apply attachment.sound.rebook
    intro f managed'
    have old : pointsTo f (b.kernel.memory.window e.caller (j, x)) = 0 := by
      by_contra points
      rcases pointsTo_pos.mp (Nat.pos_of_ne_zero points) with ⟨here, same⟩
      have low := absent here
      have above := managed'.physical.1
      omega
    rw [pages, old, pointsTo_entry managed.physical.2]
    by_cases same : f = p
    · rw [same, Function.update_self, if_pos rfl]
      omega
    · rw [Function.update_of_ne same, if_neg fun equal => same equal.symm, Nat.add_zero, Nat.sub_zero]

end Shared

section Runs

theorem Lent.fork (lent : Lent L b) (there : b.kernel.task e.caller = some t) (alive : t.zombie = false)
    (forks : e.call = .fork) (room : b.kernel.memory.Room e.caller)
    (served : Served L (fun page => b.kernel.taskPages page + b.owed page) b.kernel k')
    (performed : b.kernel.sysFork e.caller t = .ok (k', e.outcome)) : Lent L (b.after e k') := by
  have fits := lent.tasks.fits _ t there
  have blank (nr : Fin 64) (other : nr ≠ 0) (empty : b.kernel.task nr = none) :=
    lent.settled.blank other empty
  have settled : Settled k' := lent.settled.forked there alive ((lent.sound.forks there room fits blank).ok _ performed)
  unfold Kernel.sysFork at performed
  split at performed
  · rcases Prod.mk.inj (Except.ok.inj performed) with ⟨rfl, answer⟩
    exact lent.unforked forks answer.symm served settled rfl (fun _ _ _ plain => plain) fun _ _ _ => .refl _
  · rename_i nr slot
    rcases findEmptyProcess_empty slot with ⟨empty, other⟩
    have apart : e.caller ≠ nr := by
      intro same
      rw [← same, there] at empty
      cases empty
    rcases (lent.sound.copyProcess_fails apart other room fits).ok _ performed with
      ⟨answer, p, made⟩ | ⟨answer, task, ⟨-, same⟩ | ⟨p, k, h, u, failed, same⟩⟩
    · exact lent.forked alive forks slot answer served settled made
    · apply lent.unforked forks answer served settled task
      · rw [same]
        exact fun _ _ _ plain => plain
      · rw [same]
        exact fun _ _ _ => .refl _
    · apply lent.unforked forks answer served settled task
      · rw [same]
        exact fun page managed used plain => failed.untabled lent.sound managed used plain
      · rw [same]
        exact failed.alike lent.sound apart (blank nr other empty)

theorem Lent.shmget {asked size : BitVec 32} (lent : Lent L b) (there : b.kernel.task e.caller = some t)
    (alive : t.zombie = false) (gets : e.call = .shmget asked size) (paid : e.call.PaidFor b e.caller)
    (performed : b.kernel.sysShmget asked size = (k', e.outcome)) : Lent L (b.after e k') := by
  have got := lent.sound.sysShmget asked size
  have same : b.kernel.sysShmget asked size =
      (⟨(b.kernel.memory.sysShmget asked size).1, b.kernel.task⟩, .returned (b.kernel.memory.sysShmget asked size).2) := rfl
  rw [same] at performed
  generalize b.kernel.memory.sysShmget asked size = r at got performed
  rcases Prod.mk.inj performed with ⟨rfl, answer⟩
  rw [gets] at paid
  cases got with
  | refused value negative =>
    apply lent.refused asked there alive
    · rw [Lending.usersAfter, gets]
    · unfold Lending.owedAfter
      rw [gets]
      dsimp only
      split
      · rw [← answer]
        apply if_neg
        intro equal
        have zero := Outcome.returned.inj equal
        omega
      · rfl
  | again i is live => exact lent.again there alive gets is answer.symm live (paid i is)
  | first i p is dead managed free => exact lent.first there alive gets is answer.symm dead managed free

theorem Lent.shmat {shmid : BitVec 32} (lent : Lent L b) (there : b.kernel.task e.caller = some t)
    (alive : t.zombie = false) (attaches : e.call = .shmat shmid) (paid : e.call.PaidFor b e.caller)
    (performed : b.kernel.sysShmat e.caller t shmid = (k', e.outcome)) : Lent L (b.after e k') := by
  have fits := (lent.tasks.fits _ t there).2
  rw [attaches] at paid
  unfold Kernel.sysShmat at performed
  split at performed
  · rcases Prod.mk.inj performed with ⟨rfl, answer⟩
    apply lent.refused shmid there alive
    · rw [Lending.usersAfter, attaches]
    · unfold Lending.owedAfter
      rw [attaches]
      dsimp only
      split
      · exact if_pos answer.symm
      · rfl
  · rename_i m attached
    rcases Prod.mk.inj performed with ⟨rfl, answer⟩
    rcases sysShmat_live attached with ⟨i, is, live, put⟩
    rcases paid i t is live there with ⟨owes, inside, absent⟩
    have within : t.brk.toNat < 0x4000000 := by
      unfold Memory.dirs at inside
      omega
    have slot := e.caller.isLt
    have linear : (BitVec.ofNat 32 (Memory.base e.caller) + t.brk).toNat = Memory.base e.caller + t.brk.toNat := by
      rw [BitVec.toNat_add, BitVec.toNat_ofNat]
      unfold Memory.base
      omega
    rw [linear] at put
    have index : Memory.pageIndex t.brk.toNat < 1024 := Nat.mod_lt _ (by decide)
    have place : At e.caller t.brk.toNat (⟨t.brk.toNat / 0x400000, by omega⟩ : Fin 16) ⟨_, index⟩ := ⟨rfl, rfl⟩
    rw [place.pteOf] at absent
    have loan := lent.loans _ i (lent.keys i live)
    have attachment := lent.sound.attach place (lent.sound.sharedPage i live).1 loan.untabled
      (by show 0 < _ + b.owed (b.pageOf i); omega) put
    refine lent.attached there alive attaches is ?_ live owes inside absent attachment
    intro failed
    rw [← answer] at failed
    have value := Outcome.returned.inj failed
    have positive : t.brk.toInt = t.brk.toNat := BitVec.toInt_eq_toNat_of_lt (by omega)
    rw [positive, EINVAL] at value
    omega

theorem Lent.step (lent : Lent L b) (paid : e.call.PaidFor b e.caller) (step : (lending files L).step b e b') :
    Lent L b' := by
  rcases step with ⟨sharing, ⟨t, there, ready, performed⟩, after⟩
  rw [after]
  have cover (page : Nat) : b.kernel.taskPages page ≤ b.kernel.taskPages page + b.owed page := Nat.le_add_right _ _
  have fits := lent.tasks.fits _ t there
  have alive := ready.1
  have serve (plain : e.call.Plain) (roomy : e.call.Roomy b.kernel e.caller) :
      Served L (fun page => b.kernel.taskPages page + b.owed page) b.kernel b'.kernel :=
    (e.call.serve lent.sound lent.tasks cover there ready plain roomy).ok _ performed
  cases call : e.call with
  | fork =>
    rw [call] at paid serve performed alive
    exact lent.fork there alive call paid (serve trivial paid) performed
  | exit =>
    have served := serve (by rw [call]; trivial) (by rw [call]; trivial)
    rw [call] at performed
    rcases returned_map performed with ⟨k₁, gone, same⟩
    rw [← (Prod.mk.inj same).1] at served ⊢
    exact lent.exit there call paid served ((lent.sound.doExit_left fits).ok k₁ gone)
  | release =>
    have served := serve (by rw [call]; trivial) (by rw [call]; trivial)
    rw [call] at performed alive
    rcases returned_map performed with ⟨k₁, freed, same⟩
    rw [← (Prod.mk.inj same).1] at served ⊢
    unfold Kernel.release at freed
    split at freed
    · cases freed
    · rcases returned_map freed with ⟨m', given, same⟩
      subst same
      exact lent.release there call alive served ((freePage_words b.kernel.memory t.page).ok m' given) rfl
  | shmget asked size =>
    rw [call] at performed alive
    exact lent.shmget there alive call paid (Except.ok.inj performed)
  | shmat shmid =>
    rw [call] at performed alive
    exact lent.shmat there alive call paid (Except.ok.inj performed)
  | _ =>
    rw [call] at sharing
    exact sharing.elim

theorem lent_at_start (start : (lending files L).init b) : Lent L b := by
  rcases start with ⟨reached, owed, users, lentFor⟩
  rcases settled_of_reaches reached with ⟨exact, settled⟩
  have sound : Sound L b.kernel.memory b.kernel.taskPages := exact.orderly.sound
  refine ⟨exact.tasks, ?_, settled, ?_, ?_, ?_, ?_, ?_⟩
  · rw [owed]
    exact sound.rebook fun _ _ => Nat.add_zero _
  · intro s key user
    rw [users] at user
    cases user
  · exact fun key counted => absurd (exact.orderly.quiet key) counted
  · intro page owes
    rw [owed] at owes
    exact absurd rfl owes
  all_goals
    intro page key there
    rw [lentFor] at there
    cases there

/-- Where every attachment is paid for, and every get attached before the last user of its key exits, nothing is
    left of a key once all who used it have exited. -/
theorem nothing_leaks (reached : (paidLending files L).Reaches b)
    (gone : ∀ s, b.users s key = false) :
    b.count key = 0 ∧ ∀ page, b.lentFor page = some key → b.kernel.memory.memMap (mapNr page) = 0 := by
  have lent : Lent L b := by
    apply reached.invariant
    · exact fun b start => lent_at_start start
    · exact fun b e b' lent step => lent.step step.1 step.2
  exact lent.gone gone

end Runs

section Example

theorem lending_step {e : Event} (paid : e.call.PaidFor b e.caller) (sharing : e.call.Sharing)
    (some : (b.kernel.next files e).isSome = true) :
    (paidLending files L).step b e
      (b.after e ((b.kernel.next files e).getD b.kernel)) := ⟨paid, sharing, next_getD some, rfl⟩

def unlent : Lending := ⟨smallKernel, fun _ => 0, fun _ _ => false, fun _ => none⟩

/-- A child is forked, gets a page and attaches it. -/
def childLending : Lending := unlent.after ⟨0, .fork, .returned 1⟩ childKernel

def gotEvent : Event := ⟨1, .shmget 0 4096, .returned 0⟩

def gotLending : Lending := childLending.after gotEvent ((childKernel.next zeroImage gotEvent).getD childKernel)

def attachEvent : Event := ⟨1, .shmat 0, .returned 0x1000⟩

def attachedLending : Lending :=
  gotLending.after attachEvent ((gotLending.kernel.next zeroImage attachEvent).getD gotLending.kernel)

theorem unlent_start : (lending zeroImage sixteenMegabytes).init unlent :=
  ⟨⟨_, _, smallKernel_booted, .nil _⟩, rfl, rfl, rfl⟩

/-- What the exit of the child leaves of it. -/
def exitKernel : Kernel where
  memory := attachedLending.kernel.memory.returned
  task := Function.update attachedLending.kernel.task 1 (some { childTask with
    brk := childTask.brk + 4096, zombie := true, executable := none })

theorem exitKernel_step : (kernel zeroImage sixteenMegabytes).step attachedLending.kernel ⟨1, .exit, .done⟩ exitKernel := by
  have task : attachedLending.kernel.task 1 = some { childTask with brk := childTask.brk + 4096 } := by decide +kernel
  have round : attachedLending.kernel.memory.freeTable 16 = .ok attachedLending.kernel.memory.returned := by
    apply freeTable_one (j := 1)
    case low =>
      have all : ∀ i : Fin 1024, i.val ≠ 1 → present (attachedLending.kernel.memory.words (tableWord 4094 i)) = true →
          frame (attachedLending.kernel.memory.words (tableWord 4094 i)) < lowMem := by decide +kernel
      exact fun i index => all ⟨i, index⟩
    all_goals decide +kernel
  have gone : present (attachedLending.kernel.memory.returned.words 16) = false := by decide +kernel
  have exited := doExit_one (s := 1) (t := { childTask with brk := childTask.brk + 4096 }) (by decide) rfl rfl round gone
  refine ⟨_, task, ⟨rfl, trivial⟩, ?_⟩
  unfold Call.perform
  dsimp only
  rw [exited]
  rfl

theorem attachedLending_owed :
    attachedLending.owed = Function.update (Function.update (fun _ => 0) 4093 1) 4093 0 := by
  have got : (gotLending.kernel.memory.sharedPages 0).physicalAddress = 4093 := by decide +kernel
  have page : gotLending.pageOf 0 = 4093 := got
  have after : gotLending.owed = Function.update (fun _ => 0) (gotLending.kernel.memory.sharedPages 0).physicalAddress 1 :=
    rfl
  rw [got] at after
  have last : attachedLending.owed = Function.update gotLending.owed (gotLending.pageOf 0)
      (gotLending.owed (gotLending.pageOf 0) - 1) := rfl
  rw [last, page, after, Function.update_self]

def exitLending : Lending := attachedLending.after ⟨1, .exit, .done⟩ exitKernel

theorem exitLending_run : ∃ es, (paidLending zeroImage sixteenMegabytes).Run
    unlent es exitLending := by
  have first {i : Fin 64} (key : Memory.keyOf 0 = some i) : i = 0 := (Option.some.inj key).symm
  have fork : (paidLending zeroImage sixteenMegabytes).step unlent ⟨0, .fork, .returned 1⟩ childLending :=
    lending_step (smallKernel_booted.exact.room 0) trivial (by decide +kernel)
  have get : (paidLending zeroImage sixteenMegabytes).step childLending gotEvent gotLending :=
    lending_step (fun i key => first key ▸ by decide +kernel) trivial (by decide +kernel)
  have attach : (paidLending zeroImage sixteenMegabytes).step gotLending attachEvent attachedLending := by
    refine lending_step ?_ trivial (by decide +kernel)
    intro i t key _ there
    have task : gotLending.kernel.task 1 = some childTask := by decide +kernel
    cases task.symm.trans there
    rw [first key]
    exact ⟨by decide +kernel, by decide, by decide +kernel⟩
  have exit : (paidLending zeroImage sixteenMegabytes).step
      attachedLending ⟨1, .exit, .done⟩ exitLending := by
    refine ⟨?_, trivial, exitKernel_step, rfl⟩
    intro _ _ _ page _
    rw [attachedLending_owed]
    by_cases same : page = 4093
    · rw [same, Function.update_self]
    · rw [Function.update_of_ne same, Function.update_of_ne same]
  exact ⟨_, (((Machine.Run.one fork).snoc get).snoc attach).snoc exit⟩

/-- The page the child has got, attached and left is free. -/
theorem child_leaks_nothing : exitLending.lentFor 4093 = some 0 ∧ exitLending.count 0 = 0 ∧
    ∀ page, exitLending.lentFor page = some 0 → exitLending.kernel.memory.memMap (mapNr page) = 0 := by
  rcases exitLending_run with ⟨es, run⟩
  refine ⟨by decide +kernel, ?_⟩
  apply nothing_leaks ⟨unlent, es, unlent_start, run⟩
  intro s
  have users : ∀ s : Fin 64, exitLending.users s 0 = false := by decide +kernel
  exact users s

end Example

end Linux011.Mm

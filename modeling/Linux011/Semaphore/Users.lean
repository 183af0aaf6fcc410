import Linux011.Semaphore.RegistryRuns
import Linux011.Semaphore.Wait

namespace Linux011.Semaphore

open Linux011.Library Linux011.Sched

/-- The semaphores with the processes that use them: for a process inside `sys_sem_wait` the semaphore and the
    `tmp` of its `sleep_on`, the handles `sem_open` returned to it, and those of them whose semaphore was not
    unlinked since. -/
structure Users where
  heap : Heap
  state : Nat → TaskState
  inside : Nat → Option (Loc × Option Nat)
  handles : Nat → Finset Loc
  current : Nat → Finset Loc

namespace Users

/-- A semaphore as `sys_sem_wait` and `sys_sem_post` see it. -/
def view (s : Users) (l : Loc) : Sem Nat where
  value := (s.heap.node l).mValue
  queue :=
    { head := (s.heap.node l).mWait
      state := s.state
      tmp := fun t => (s.inside t).bind fun (l', tmp) => if l' = l then some tmp else none }

def put (s : Users) (p : Nat) (l : Loc) (sem : Sem Nat) : Users :=
  { s with
    heap := s.heap.write l { s.heap.node l with mValue := sem.value, mWait := sem.queue.head }
    state := sem.queue.state
    inside := Function.update s.inside p ((sem.queue.tmp p).map fun tmp => (l, tmp)) }

def given (s : Users) (p : Nat) (l : Loc) : Users :=
  { s with
    handles := Function.update s.handles p (insert l (s.handles p))
    current := Function.update s.current p (insert l (s.current p)) }

/-- The handles to an unlinked semaphore are out of date. -/
def unlinked (s : Users) (l : Loc) : Users := { s with current := fun p => (s.current p).erase l }

/-- A process that runs, and is not inside `sys_sem_wait`. -/
def Running (s : Users) (p : Nat) : Prop := s.state p = .running ∧ s.inside p = none

end Users

/-- `sys_sem_unlink` finds a semaphore under a name. -/
def Finds (h : Heap) (name : Nat → UInt8) (l : Loc) : Prop :=
  findSem h (getName name).1 = some l ∧ strCmp (h.node l).mName (getName name).1 = some 0

inductive UserEvent
  | opened (p : Nat) (name : Nat → UInt8) (value : BitVec 32) (malloc : Option (Nat × List UInt8))
      (result : Except Errno Loc)
  | unlinked (p : Nat) (name : Nat → UInt8) (result : Except Errno Unit)
  | wait (p : Nat) (sem : Loc) (returned : Bool)
  | resume (p : Nat) (returned : Bool)
  | post (p : Nat) (sem : Loc)

inductive UserStep (s : Users) : UserEvent → Users → Prop
  | opened {p : Nat} {name : Nat → UInt8} {value : BitVec 32} {malloc : Option (Nat × List UInt8)} {h : Heap}
      {l : Loc} (running : s.Running p) (block : MallocOk s.heap malloc)
      (call : sysSemOpen s.heap name value malloc = some (h, .ok l)) :
      UserStep s (.opened p name value malloc (.ok l)) ({ s with heap := h } |>.given p l)
  | notOpened {p : Nat} {name : Nat → UInt8} {value : BitVec 32} {malloc : Option (Nat × List UInt8)} {h : Heap}
      {e : Errno} (running : s.Running p) (block : MallocOk s.heap malloc)
      (call : sysSemOpen s.heap name value malloc = some (h, .error e)) :
      UserStep s (.opened p name value malloc (.error e)) { s with heap := h }
  | unlinked {p : Nat} {name : Nat → UInt8} {h : Heap} {l : Loc} (running : s.Running p)
      (call : sysSemUnlink s.heap name = some (h, .ok ())) (found : Finds s.heap name l) :
      UserStep s (.unlinked p name (.ok ())) ({ s with heap := h } |>.unlinked l)
  | notUnlinked {p : Nat} {name : Nat → UInt8} {h : Heap} {e : Errno} (running : s.Running p)
      (call : sysSemUnlink s.heap name = some (h, .error e)) :
      UserStep s (.unlinked p name (.error e)) { s with heap := h }
  | wait {p : Nat} {l : Loc} (running : s.Running p) (handle : l ∈ s.handles p) :
      UserStep s (.wait p l (sysSemWait (s.view l) p).2) (s.put p l (sysSemWait (s.view l) p).1)
  | resume {p : Nat} {l : Loc} {tmp : Option Nat} (woken : s.state p = .running)
      (inside : s.inside p = some (l, tmp)) :
      UserStep s (.resume p (resumeWait (s.view l) p).2) (s.put p l (resumeWait (s.view l) p).1)
  | post {p : Nat} {l : Loc} (running : s.Running p) (handle : l ∈ s.handles p) :
      UserStep s (.post p l) (s.put p l (sysSemPost (s.view l)))

def Users.Idle (s : Users) : Prop :=
  s.heap = initialHeap ∧ (∀ p, s.inside p = none) ∧ (∀ p, s.handles p = ∅) ∧ ∀ p, s.current p = ∅

def users : Machine Users UserEvent where
  init := Users.Idle
  step := UserStep

/-- A semaphore structure that `malloc` handed out and `sys_sem_unlink` did not free. -/
def Heap.Allocated (h : Heap) (l : Loc) : Prop := ∃ a ∈ h.blocks, l = .block a

/-- The semaphores a step of `sys_sem_wait` or `sys_sem_post` reads or writes. -/
def UserEvent.Uses (s : Users) (l : Loc) : UserEvent → Prop
  | .wait _ sem _ | .post _ sem => sem = l
  | .resume p _ => ∃ tmp, s.inside p = some (l, tmp)
  | .opened .. | .unlinked .. => False

/-- No one is inside a semaphore when it is unlinked, and no handle to it is used afterwards. -/
def Careful (s : Users) : UserEvent → Prop
  | .unlinked _ name _ => ∀ l, Finds s.heap name l → ∀ p tmp, s.inside p ≠ some (l, tmp)
  | .wait p sem _ | .post p sem => sem ∈ s.current p
  | .opened .. | .resume .. => True

section Calls

variable {h h' : Heap} {as : List Nat}

/-- The list is in order, and its head is named as it should be. -/
structure Ordered (h : Heap) (as : List Nat) : Prop where
  chain : Chain h as
  headName : 0 ∈ (h.node .semHead).mName ∧ cString (h.node .semHead).mName = semHeadName

theorem findLoop_mem {name : List UInt8} {p q : Loc} (linked : Linked h p as) {fuel : Nat}
    (found : findLoop h name fuel p = some q) :
    q ∈ locs p as ∧ (q = lastLoc p as ∨ strCmp (h.node q).mName name = some 0) := by
  induction as generalizing p fuel with
  | nil =>
    cases fuel with
    | zero => cases found
    | succ fuel =>
      simp only [findLoop, show (h.node p).mNext = none from linked, Option.some.injEq] at found
      subst found
      exact ⟨List.mem_cons_self .., .inl rfl⟩
  | cons a as ih =>
    cases fuel with
    | zero => cases found
    | succ fuel =>
      simp only [findLoop, linked.1, Option.bind_eq_bind, Option.bind_eq_some_iff] at found
      rcases found with ⟨d, compared, rest⟩
      split at rest
      · next zero =>
        cases rest
        exact ⟨List.mem_cons_self .., .inr (zero ▸ compared)⟩
      · have deeper := ih linked.2.2 rest
        exact ⟨List.mem_cons_of_mem _ deeper.1, deeper.2⟩

theorem findSem_mem {name : List UInt8} {q : Loc} (chain : Chain h as) (found : findSem h name = some q) :
    q ∈ locs .semHead as ∧ (q = lastLoc .semHead as ∨ strCmp (h.node q).mName name = some 0) :=
  findLoop_mem chain.linked found

theorem Ordered.named {n pad : List UInt8} {q : Loc} (ordered : Ordered h as) (free : 0 ∉ n) (notHead : n ≠ semHeadName)
    (member : q ∈ locs .semHead as) (same : strCmp (h.node q).mName (n ++ 0 :: pad) = some 0) :
    ∃ a ∈ as, q = .block a := by
  rcases List.mem_cons.mp member with rfl | block
  · have right : (0 : UInt8) ∈ n ++ 0 :: pad := by simp
    obtain ⟨d, compared, zero⟩ := strCmp_terminated ordered.headName.1 right
    rw [same] at compared
    cases compared
    rw [ordered.headName.2, cString_terminated pad free] at zero
    exact absurd (zero.mp rfl).symm notHead
  · rcases List.mem_map.mp block with ⟨a, inList, rfl⟩
    exact ⟨a, inList, rfl⟩

theorem searched {name : Nat → UInt8} {n pad : List UInt8} (copied : getName name = (n ++ 0 :: pad, 0))
    (free : 0 ∉ n) (notHead : n ≠ semHeadName) (h : Heap) :
    (∃ q d, findSem h (n ++ 0 :: pad) = some q ∧ strCmp (h.node q).mName (n ++ 0 :: pad) = some d) ∨
      (∀ value malloc, sysSemOpen h name value malloc = none) ∧ sysSemUnlink h name = none := by
  obtain ⟨d₀, compared₀, zero₀⟩ := head_compared pad free
  have nonzero : d₀ ≠ 0 := fun zero => notHead (zero₀.mp zero)
  cases found : findSem h (n ++ 0 :: pad) with
  | none =>
    right
    simp [sysSemOpen, sysSemUnlink, copied, compared₀, nonzero, found]
  | some q =>
    cases compared : strCmp (h.node q).mName (n ++ 0 :: pad) with
    | none =>
      right
      simp [sysSemOpen, sysSemUnlink, copied, compared₀, nonzero, found, compared]
    | some d => exact .inl ⟨q, d, rfl, compared⟩

theorem Ordered.create (ordered : Ordered h as) {a : Nat} {sem : SemT} (fresh : a ∉ h.blocks)
    (back : sem.mPrev = some (lastLoc .semHead as)) (ends : sem.mNext = none) :
    Ordered (linkNode h (lastLoc .semHead as) a sem) (as ++ [a]) where
  chain := ordered.chain.create fresh back ends
  headName := by
    have apart : lastLoc .semHead as ≠ .block a :=
      fun same => ordered.chain.fresh_loc fresh (same ▸ lastLoc_mem _ _)
    rw [(linkNode_old h sem (fun same => Loc.noConfusion same) apart).1]
    exact ordered.headName

theorem Ordered.delete {l r : List Nat} {a : Nat} (ordered : Ordered h (l ++ a :: r)) :
    Ordered (unlinkNode h (lastLoc .semHead l) a) (l ++ r) where
  chain := ordered.chain.delete
  headName := by
    rw [(unlinkNode_node _ ordered.chain.apart).1]
    exact ordered.headName

theorem Ordered.opened {name : Nat → UInt8} {value : BitVec 32} {malloc : Option (Nat × List UInt8)}
    {result : Except Errno Loc} (ordered : Ordered h as) (block : MallocOk h malloc)
    (call : sysSemOpen h name value malloc = some (h', result)) :
    (∃ as', Ordered h' as') ∧ h.blocks ⊆ h'.blocks ∧ ∀ l, result = .ok l → h'.Allocated l := by
  by_cases bad : userString name = none ∨ userString name = some semHeadName
  · rw [(rejected_name bad h value malloc).1] at call
    cases call
    exact ⟨⟨as, ordered⟩, subset_rfl, nofun⟩
  · obtain ⟨n, read⟩ : ∃ n, userString name = some n :=
      Option.ne_none_iff_exists'.mp fun none => bad (.inl none)
    have notHead : n ≠ semHeadName := fun same => bad (.inr (same ▸ read))
    obtain ⟨pad, copied, free⟩ := getName_split read
    rcases searched copied free notHead h with ⟨q, d, found, compared⟩ | stuck
    · rw [(accepted_name copied free notHead found compared).1] at call
      obtain ⟨member, which⟩ := findSem_mem ordered.chain found
      by_cases zero : d = 0
      · subst zero
        rw [if_pos rfl] at call
        cases call
        refine ⟨⟨as, ordered⟩, subset_rfl, ?_⟩
        intro l same
        cases same
        obtain ⟨a, inList, rfl⟩ := ordered.named free notHead member compared
        exact ⟨a, ordered.chain.blocks ▸ List.mem_toFinset.mpr inList, rfl⟩
      · rw [if_neg zero] at call
        have last : q = lastLoc .semHead as := by
          rcases which with last | same
          · exact last
          · cases compared.symm.trans same
            exact absurd rfl zero
        cases malloc with
        | none =>
          cases call
          exact ⟨⟨as, ordered⟩, subset_rfl, nofun⟩
        | some got =>
          obtain ⟨a, stale⟩ := got
          cases call
          obtain ⟨fresh, -⟩ := block a stale rfl
          subst last
          refine ⟨⟨_, ordered.create fresh rfl rfl⟩, ?_, ?_⟩
          · exact Finset.subset_insert ..
          · intro l same
            cases same
            exact ⟨a, Finset.mem_insert_self .., rfl⟩
    · rw [stuck.1] at call
      cases call

theorem Ordered.unlinked {name : Nat → UInt8} {result : Except Errno Unit} (ordered : Ordered h as)
    (call : sysSemUnlink h name = some (h', result)) :
    (∃ as', Ordered h' as') ∧
      ((h' = h ∧ result ≠ .ok ()) ∨
        ∃ a, result = .ok () ∧ Finds h name (.block a) ∧ h'.blocks = h.blocks.erase a) := by
  by_cases bad : userString name = none ∨ userString name = some semHeadName
  · rw [(rejected_name bad h 0 none).2] at call
    cases call
    exact ⟨⟨as, ordered⟩, .inl ⟨rfl, nofun⟩⟩
  · obtain ⟨n, read⟩ : ∃ n, userString name = some n :=
      Option.ne_none_iff_exists'.mp fun none => bad (.inl none)
    have notHead : n ≠ semHeadName := fun same => bad (.inr (same ▸ read))
    obtain ⟨pad, copied, free⟩ := getName_split read
    rcases searched copied free notHead h with ⟨q, d, found, compared⟩ | stuck
    · rw [(accepted_name copied free notHead found compared).2] at call
      by_cases zero : d = 0
      · subst zero
        obtain ⟨member, -⟩ := findSem_mem ordered.chain found
        obtain ⟨a, inList, rfl⟩ := ordered.named free notHead member compared
        obtain ⟨l, r, rfl⟩ := List.append_of_mem inList
        rw [if_pos rfl, ordered.chain.before] at call
        cases call
        refine ⟨⟨_, ordered.delete⟩, .inr ⟨a, rfl, ⟨?_, ?_⟩, unlinkNode_blocks⟩⟩
        · rw [copied]
          exact found
        · rw [copied]
          exact compared
      · rw [if_neg zero] at call
        cases call
        exact ⟨⟨as, ordered⟩, .inl ⟨rfl, nofun⟩⟩
    · rw [stuck.2] at call
      cases call

end Calls

section Runs

/-- What holds as long as everyone is careful. -/
structure Tidy (s : Users) : Prop where
  ordered : ∃ as, Ordered s.heap as
  current : ∀ p l, l ∈ s.current p → s.heap.Allocated l
  inside : ∀ p l tmp, s.inside p = some (l, tmp) → s.heap.Allocated l

variable {s t : Users}

theorem Heap.Allocated.mono {h h' : Heap} {l : Loc} (blocks : h.blocks ⊆ h'.blocks) (allocated : h.Allocated l) :
    h'.Allocated l := by
  rcases allocated with ⟨a, there, rfl⟩
  exact ⟨a, blocks there, rfl⟩

theorem Ordered.write {h : Heap} {as : List Nat} (ordered : Ordered h as) (l : Loc) (value : BitVec 32)
    (wait : Option Nat) : Ordered (h.write l { h.node l with mValue := value, mWait := wait }) as := by
  have node (x : Loc) : ((h.write l { h.node l with mValue := value, mWait := wait }).node x).mName = (h.node x).mName ∧
      ((h.write l { h.node l with mValue := value, mWait := wait }).node x).mPrev = (h.node x).mPrev ∧
      ((h.write l { h.node l with mValue := value, mWait := wait }).node x).mNext = (h.node x).mNext := by
    by_cases here : x = l
    · subst here
      simp [Heap.write]
    · simp [Heap.write, here]
  refine ⟨⟨?_, ordered.chain.addresses, ordered.chain.blocks⟩, ?_⟩
  · exact ordered.chain.linked.congr (fun x _ => (node x).2.2) fun a _ => (node (.block a)).2.1
  · rw [(node .semHead).1]
    exact ordered.headName

theorem Tidy.put (tidy : Tidy s) {p : Nat} {l : Loc} (allocated : s.heap.Allocated l) (sem : Sem Nat) :
    Tidy (s.put p l sem) where
  ordered := by
    obtain ⟨as, ordered⟩ := tidy.ordered
    exact ⟨as, ordered.write l _ _⟩
  current := tidy.current
  inside := by
    intro q l' tmp there
    replace there : Function.update s.inside p ((sem.queue.tmp p).map fun tmp => (l, tmp)) q = some (l', tmp) :=
      there
    by_cases here : q = p
    · rw [here, Function.update_self] at there
      obtain ⟨tmp', -, same⟩ := Option.map_eq_some_iff.mp there
      cases same
      exact allocated
    · rw [Function.update_of_ne here] at there
      exact tidy.inside q l' tmp there

theorem Tidy.heap (tidy : Tidy s) {h : Heap} (ordered : ∃ as, Ordered h as) (blocks : s.heap.blocks ⊆ h.blocks) :
    Tidy { s with heap := h } where
  ordered := ordered
  current p l there := (tidy.current p l there).mono blocks
  inside p l tmp there := (tidy.inside p l tmp there).mono blocks

theorem Tidy.step {e : UserEvent} (tidy : Tidy s) (careful : Careful s e) (step : UserStep s e t) : Tidy t := by
  obtain ⟨as, ordered⟩ := tidy.ordered
  cases step with
  | @opened p name value malloc h l running block call =>
    obtain ⟨after, blocks, allocated⟩ := ordered.opened block call
    have heap := tidy.heap after blocks
    refine ⟨after, ?_, heap.inside⟩
    intro q l' there
    replace there : l' ∈ Function.update s.current p (insert l (s.current p)) q := there
    by_cases here : q = p
    · rw [here, Function.update_self] at there
      rcases Finset.mem_insert.mp there with rfl | there
      · exact allocated _ rfl
      · exact heap.current p l' there
    · rw [Function.update_of_ne here] at there
      exact heap.current q l' there
  | notOpened running block call =>
    obtain ⟨after, blocks, -⟩ := ordered.opened block call
    exact tidy.heap after blocks
  | @unlinked p name h l running call found =>
    obtain ⟨after, ⟨-, impossible⟩ | ⟨a, -, finds, blocks⟩⟩ := ordered.unlinked call
    · exact absurd rfl impossible
    · have same : l = .block a := Option.some.inj (found.1.symm.trans finds.1)
      have kept {l' : Loc} (allocated : s.heap.Allocated l') (other : l' ≠ l) : h.Allocated l' := by
        rcases allocated with ⟨b, there, rfl⟩
        refine ⟨b, ?_, rfl⟩
        rw [blocks]
        exact Finset.mem_erase.mpr ⟨fun is => other (same.symm ▸ congrArg Loc.block is), there⟩
      refine ⟨after, ?_, ?_⟩
      · intro q l' there
        have member := Finset.mem_erase.mp there
        exact kept (tidy.current q l' member.2) member.1
      · intro q l' tmp there
        apply kept (tidy.inside q l' tmp there)
        rintro rfl
        exact careful l' found q tmp there
  | notUnlinked running call =>
    obtain ⟨after, ⟨same, -⟩ | ⟨a, impossible, -⟩⟩ := ordered.unlinked call
    · subst same
      exact tidy
    · cases impossible
  | wait running handle => exact tidy.put (tidy.current _ _ careful) _
  | resume woken inside => exact tidy.put (tidy.inside _ _ _ inside) _
  | post running handle => exact tidy.put (tidy.current _ _ careful) _

theorem tidy_of_reaches (reached : (users.restrict Careful).Reaches s) : Tidy s := by
  apply reached.invariant
  · rintro s ⟨heap, inside, -, current⟩
    refine ⟨⟨[], ?_⟩, ?_, ?_⟩
    · rw [heap]
      exact ⟨⟨rfl, .nil, rfl⟩, by decide, by decide⟩
    · intro p l there
      rw [current] at there
      cases there
    · intro p l tmp there
      rw [inside] at there
      cases there
  · intro s e t tidy step
    exact tidy.step step.1 step.2

/-- As long as everyone is careful, every semaphore someone is inside or that is used is an allocated one. -/
theorem users_on_allocated (reached : (users.restrict Careful).Reaches s) :
    (∀ p l tmp, s.inside p = some (l, tmp) → s.heap.Allocated l) ∧
      ∀ e t, (users.restrict Careful).step s e t → ∀ l, e.Uses s l → s.heap.Allocated l := by
  have tidy := tidy_of_reaches reached
  refine ⟨tidy.inside, ?_⟩
  rintro e t ⟨careful, step⟩ l uses
  cases step with
  | wait running handle =>
    cases uses
    exact tidy.current _ _ careful
  | post running handle =>
    cases uses
    exact tidy.current _ _ careful
  | resume woken inside =>
    obtain ⟨tmp, there⟩ := uses
    exact tidy.inside _ l tmp there
  | opened => exact uses.elim
  | notOpened => exact uses.elim
  | unlinked => exact uses.elim
  | notUnlinked => exact uses.elim

end Runs

section Unlinked

def idle : Users where
  heap := initialHeap
  state _ := .running
  inside _ := none
  handles _ := ∅
  current _ := ∅

/-- Process 1 has opened a semaphore with the value 0. -/
def oneOpened : Users :=
  { idle with heap := heapAfterOpen initialHeap (oneByte 98) 0 1 (filledBlock 0) } |>.given 1 (.block 1)

def oneAsleep : Users := oneOpened.put 1 (.block 1) (sysSemWait (oneOpened.view (.block 1)) 1).1

def oneStranded : Users :=
  { oneAsleep with
    heap := ((sysSemUnlink oneAsleep.heap (oneByte 98)).getD (oneAsleep.heap, .error .EINVAL)).1 }
    |>.unlinked (.block 1)

def openOne : UserEvent := .opened 1 (oneByte 98) 0 (some (1, filledBlock 0)) (.ok (.block 1))

theorem oneOpened_step : UserStep idle openOne oneOpened := by
  have result : (sysSemOpen initialHeap (oneByte 98) 0 (some (1, filledBlock 0))).map Prod.snd =
      some (.ok (.block 1)) := by decide +kernel
  obtain ⟨block, call⟩ : MallocOk initialHeap (some (1, filledBlock 0)) ∧
      sysSemOpen initialHeap (oneByte 98) 0 (some (1, filledBlock 0)) =
        some (heapAfterOpen initialHeap (oneByte 98) 0 1 (filledBlock 0), .ok (.block 1)) := by
    have step := opened_of_result initialHeap (oneByte 98) 0 1 (filledBlock 0) (by decide) List.length_replicate result
    cases step with
    | opened block call => exact ⟨block, call⟩
  exact .opened ⟨rfl, rfl⟩ block call

/-- The process that sleeps is inside an allocated semaphore. -/
theorem oneAsleep_allocated : oneAsleep.inside 1 = some (.block 1, none) ∧
    (∀ p l tmp, oneAsleep.inside p = some (l, tmp) → oneAsleep.heap.Allocated l) ∧
      ∀ e t, (users.restrict Careful).step oneAsleep e t → ∀ l, e.Uses oneAsleep l → oneAsleep.heap.Allocated l :=
  have careful : Careful idle openOne := trivial
  have opened : (users.restrict Careful).Reaches oneOpened :=
    ⟨idle, _, ⟨rfl, fun _ => rfl, fun _ => rfl, fun _ => rfl⟩, .one ⟨careful, oneOpened_step⟩⟩
  have held : Careful oneOpened (.wait 1 (.block 1) (sysSemWait (oneOpened.view (.block 1)) 1).2) := by
    show _ ∈ oneOpened.current 1
    decide
  have asleep : (users.restrict Careful).Reaches oneAsleep := opened.step ⟨held, .wait ⟨by decide, by decide⟩ (by decide)⟩
  ⟨by decide, users_on_allocated asleep⟩

/-- A process sleeps on a semaphore that another one has freed. -/
theorem asleep_on_freed : ∃ s, users.Reaches s ∧ s.inside 1 = some (.block 1, none) ∧
    s.state 1 = .uninterruptible ∧ ¬ s.heap.Allocated (.block 1) := by
  have opened : users.Reaches oneOpened :=
    ⟨idle, _, ⟨rfl, fun _ => rfl, fun _ => rfl, fun _ => rfl⟩, .one oneOpened_step⟩
  have asleep : users.Reaches oneAsleep := opened.step (.wait ⟨by decide, by decide⟩ (by decide))
  have result : (sysSemUnlink oneAsleep.heap (oneByte 98)).any (fun r => r.2.toOption.isSome) = true := by
    decide +kernel
  have finds : Finds oneAsleep.heap (oneByte 98) (.block 1) := ⟨by decide +kernel, by decide +kernel⟩
  have call : sysSemUnlink oneAsleep.heap (oneByte 98) =
      some (((sysSemUnlink oneAsleep.heap (oneByte 98)).getD (oneAsleep.heap, .error .EINVAL)).1, .ok ()) := by
    obtain ⟨r, ran, ok⟩ := (Option.any_eq_true _ _).mp result
    obtain ⟨h, e⟩ := r
    rw [ran]
    cases e with
    | ok => rfl
    | error => cases ok
  have stranded : users.Reaches oneStranded :=
    asleep.step (.unlinked (p := 2) ⟨by decide, by decide⟩ call finds)
  refine ⟨oneStranded, stranded, by decide, by decide, ?_⟩
  rintro ⟨a, there, same⟩
  cases same
  exact absurd there (by decide +kernel)

end Unlinked

end Linux011.Semaphore

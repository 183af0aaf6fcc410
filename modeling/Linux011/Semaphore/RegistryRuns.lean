import Linux011.Library.Machine
import Linux011.Semaphore.Refinement

namespace Linux011.Semaphore

open Linux011.Library

/-- A block `malloc` returns is not in use, and holds a whole `m_name`. -/
def MallocOk (h : Heap) (malloc : Option (Nat × List UInt8)) : Prop :=
  ∀ a stale, malloc = some (a, stale) → a ∉ h.blocks ∧ stale.length = MAXSEMNAME + 1

/-- `sys_sem_open` gets as far as `malloc`: the name is acceptable and not on the list. -/
def Creates (h : Heap) (name : Nat → UInt8) : Prop :=
  (getName name).2 = 0 ∧ ∃ q d, findSem h (getName name).1 = some q ∧
    strCmp (h.node q).mName (getName name).1 = some d ∧ d ≠ 0

/-- In the block for a new semaphore, the byte behind the copied name is already a NUL. -/
def CleanBlock (h : Heap) (name : Nat → UInt8) (malloc : Option (Nat × List UInt8)) : Prop :=
  ∀ a stale, malloc = some (a, stale) → Creates h name → stale[strlen (getName name).1]? = some 0

theorem clean_name {stale n : List UInt8} (nul : stale[n.length]? = some 0) (free : 0 ∉ n) :
    0 ∈ n ++ stale.drop n.length ∧ cString (n ++ stale.drop n.length) = n := by
  obtain ⟨bound, byte⟩ := List.getElem?_eq_some_iff.mp nul
  rw [List.drop_eq_getElem_cons bound, byte]
  exact ⟨by simp, cString_terminated _ free⟩

theorem sysSemOpen_refines {h : Heap} {m : Registry} (represents : Represents h m) (name : Nat → UInt8)
    (value : BitVec 32) {malloc : Option (Nat × List UInt8)} (block : MallocOk h malloc)
    (clean : CleanBlock h name malloc) :
    ∃ h', sysSemOpen h name value malloc = some (h', (m.opened name value malloc).2) ∧
      Represents h' (m.opened name value malloc).1 := by
  by_cases bad : userString name = none ∨ userString name = some semHeadName
  · refine ⟨h, ?_, ?_⟩
    · rw [(rejected_name bad h value malloc).1]
      rcases bad with read | read <;> simp [Registry.opened, read]
    · rcases bad with read | read <;> simpa [Registry.opened, read]
  · obtain ⟨n, read⟩ : ∃ n, userString name = some n :=
      Option.ne_none_iff_exists'.mp fun none => bad (.inl none)
    have notHead : n ≠ semHeadName := fun same => bad (.inr (same ▸ read))
    obtain ⟨pad, copied, free⟩ := getName_split read
    obtain ⟨sems, listed, registered⟩ := represents
    obtain ⟨q, d, found, compared, answer⟩ := find_listed listed pad free notHead
    have result := (accepted_name copied free notHead found compared).1 value malloc
    rcases answer with ⟨rfl, a, rfl, member⟩ | ⟨other, last, absent⟩
    · have entry := (registered n a _).mpr ⟨member, rfl⟩
      refine ⟨h, ?_, ?_⟩
      · rw [result]
        simp [Registry.opened, read, notHead, entry]
      · simp only [Registry.opened, read, notHead, if_false, entry]
        exact ⟨sems, listed, registered⟩
    · have unknown := represents_none registered absent
      cases malloc with
      | none =>
        refine ⟨h, ?_, ?_⟩
        · rw [result]
          simp [Registry.opened, read, notHead, unknown, other]
        · simp only [Registry.opened, read, notHead, if_false, unknown]
          exact ⟨sems, listed, registered⟩
      | some given =>
        obtain ⟨a, stale⟩ := given
        obtain ⟨fresh, _⟩ := block a stale rfl
        have nul := clean a stale rfl ⟨by rw [copied], q, d, by rw [copied]; exact found, by rw [copied]; exact compared, other⟩
        rw [copied, show strlen (n ++ 0 :: pad) = n.length by rw [strlen, cString_terminated _ free]] at nul
        obtain ⟨terminated, named⟩ := clean_name nul free
        subst last
        let last := lastLoc .semHead (sems.map Prod.snd)
        let sem : SemT := ⟨n ++ stale.drop n.length, value, some last, none, none⟩
        have created : Listed (linkNode h last a sem) (sems ++ [(n, a)]) :=
          listed.create fresh absent notHead terminated named rfl rfl
        refine ⟨linkNode h last a sem, ?_, ?_⟩
        · rw [result, if_neg other]
          simp [Registry.opened, read, notHead, unknown, sem, last]
        · simp only [Registry.opened, read, notHead, if_false, unknown]
          exact ⟨_, created, registered_create registered listed sem fresh absent⟩

theorem sysSemUnlink_refines {h : Heap} {m : Registry} (represents : Represents h m) (name : Nat → UInt8) :
    ∃ h', sysSemUnlink h name = some (h', (m.unlinked name).2) ∧
      Represents h' (m.unlinked name).1 := by
  by_cases bad : userString name = none ∨ userString name = some semHeadName
  · refine ⟨h, ?_, ?_⟩
    · rw [(rejected_name bad h 0 none).2]
      rcases bad with read | read <;> simp [Registry.unlinked, read]
    · rcases bad with read | read <;> simpa [Registry.unlinked, read]
  · obtain ⟨n, read⟩ : ∃ n, userString name = some n :=
      Option.ne_none_iff_exists'.mp fun none => bad (.inl none)
    have notHead : n ≠ semHeadName := fun same => bad (.inr (same ▸ read))
    obtain ⟨pad, copied, free⟩ := getName_split read
    obtain ⟨sems, listed, registered⟩ := represents
    obtain ⟨q, d, found, compared, answer⟩ := find_listed listed pad free notHead
    have result := (accepted_name copied free notHead found compared).2
    rcases answer with ⟨rfl, a, rfl, member⟩ | ⟨other, last, absent⟩
    · have entry := (registered n a _).mpr ⟨member, rfl⟩
      obtain ⟨l, r, rfl⟩ := List.append_of_mem member
      have prev := listed.chain_split.before
      refine ⟨unlinkNode h (lastLoc .semHead (l.map Prod.snd)) a, ?_, ?_⟩
      · rw [result, prev]
        simp [Registry.unlinked, read, notHead, entry, unlinkFound]
      · simp only [Registry.unlinked, read, notHead, if_false, entry]
        exact ⟨l ++ r, listed.delete, registered_delete registered listed⟩
    · have unknown := represents_none registered absent
      refine ⟨h, ?_, ?_⟩
      · rw [result]
        simp [Registry.unlinked, read, notHead, unknown, other]
      · simp only [Registry.unlinked, read, notHead, if_false, unknown]
        exact ⟨sems, listed, registered⟩

inductive RegistryEvent
  | opened (name : Nat → UInt8) (value : BitVec 32) (malloc : Option (Nat × List UInt8))
      (result : Except Errno Loc)
  | unlinked (name : Nat → UInt8) (result : Except Errno Unit)

inductive RegistryStep : Heap → RegistryEvent → Heap → Prop
  | opened {h h' : Heap} {name : Nat → UInt8} {value : BitVec 32} {malloc : Option (Nat × List UInt8)}
      {result : Except Errno Loc} (block : MallocOk h malloc)
      (call : sysSemOpen h name value malloc = some (h', result)) :
      RegistryStep h (.opened name value malloc result) h'
  | unlinked {h h' : Heap} {name : Nat → UInt8} {result : Except Errno Unit}
      (call : sysSemUnlink h name = some (h', result)) :
      RegistryStep h (.unlinked name result) h'

def semRegistry : Machine Heap RegistryEvent where
  init := fun h => h = initialHeap
  step := RegistryStep

def namedMap : Machine Registry RegistryEvent where
  init := fun m => m = fun _ => none
  step := fun m e m' => match e with
    | .opened name value malloc result => m.opened name value malloc = (m', result)
    | .unlinked name result => m.unlinked name = (m', result)

/-- A creating `sys_sem_open` gets a block with a NUL behind the place of the name. -/
def CleanOpen (h : Heap) : RegistryEvent → Prop
  | .opened name _ malloc _ => CleanBlock h name malloc
  | .unlinked _ _ => True

/-- The calls so far answered as the map answers them, and every next call returns. -/
structure Refines (es : List RegistryEvent) (h : Heap) : Prop where
  answers : ∃ m, namedMap.Run (fun _ => none) es m ∧ Represents h m
  opens : ∀ name value malloc, MallocOk h malloc → CleanBlock h name malloc →
    ∃ h' result, RegistryStep h (.opened name value malloc result) h'
  unlinks : ∀ name, ∃ h' result, RegistryStep h (.unlinked name result) h'

theorem step_refines {h h' : Heap} {e : RegistryEvent} {m : Registry} (represents : Represents h m)
    (clean : CleanOpen h e) (step : RegistryStep h e h') :
    ∃ m', namedMap.step m e m' ∧ Represents h' m' := by
  cases step with
  | @opened _ name value malloc result block call =>
    obtain ⟨h'', returned, after⟩ := sysSemOpen_refines represents name value block clean
    rw [call] at returned
    obtain ⟨rfl, rfl⟩ := Prod.mk.inj (Option.some.inj returned)
    exact ⟨_, rfl, after⟩
  | @unlinked _ name result call =>
    obtain ⟨h'', returned, after⟩ := sysSemUnlink_refines represents name
    rw [call] at returned
    obtain ⟨rfl, rfl⟩ := Prod.mk.inj (Option.some.inj returned)
    exact ⟨_, rfl, after⟩

theorem run_represents {es : List RegistryEvent} {h : Heap}
    (run : (semRegistry.restrict CleanOpen).Run initialHeap es h) :
    ∃ m, namedMap.Run (fun _ => none) es m ∧ Represents h m := by
  induction run with
  | nil => exact ⟨_, .nil _, initial_represents⟩
  | snoc _ step ih =>
    obtain ⟨m, answers, represents⟩ := ih
    obtain ⟨m', answer, after⟩ := step_refines represents step.1 step.2
    exact ⟨m', answers.snoc answer, after⟩

theorem registry_refines_map {es : List RegistryEvent} {h : Heap}
    (run : (semRegistry.restrict CleanOpen).Run initialHeap es h) : Refines es h := by
  obtain ⟨m, answers, represents⟩ := run_represents run
  refine ⟨⟨m, answers, represents⟩, ?_, ?_⟩
  · intro name value malloc block clean
    obtain ⟨h', returned, _⟩ := sysSemOpen_refines represents name value block clean
    exact ⟨h', _, .opened block returned⟩
  · intro name
    obtain ⟨h', returned, _⟩ := sysSemUnlink_refines represents name
    exact ⟨h', _, .unlinked returned⟩

def oneByte (b : UInt8) : Nat → UInt8 := fun i => if i = 0 then b else 0

def filledBlock (b : UInt8) : List UInt8 := List.replicate (MAXSEMNAME + 1) b

def heapAfterOpen (h : Heap) (name : Nat → UInt8) (value : BitVec 32) (a : Nat) (stale : List UInt8) : Heap :=
  ((sysSemOpen h name value (some (a, stale))).getD (h, .error .EINVAL)).1

theorem opened_of_result (h : Heap) (name : Nat → UInt8) (value : BitVec 32) (a : Nat) (stale : List UInt8)
    {result : Except Errno Loc} (fresh : a ∉ h.blocks) (size : stale.length = MAXSEMNAME + 1)
    (returned : (sysSemOpen h name value (some (a, stale))).map Prod.snd = some result) :
    RegistryStep h (.opened name value (some (a, stale)) result) (heapAfterOpen h name value a stale) := by
  refine .opened ?_ ?_
  · rintro a stale is
    cases is
    exact ⟨fresh, size⟩
  · obtain ⟨⟨h', r⟩, call, rfl⟩ := Option.map_eq_some_iff.mp returned
    simp [heapAfterOpen, call]

/-- A semaphore is made, opened again, and unlinked. -/
theorem oneByte_refined : ∃ h, Refines [.opened (oneByte 98) 1 (some (1, filledBlock 0)) (.ok (.block 1)),
    .opened (oneByte 98) 0 (some (2, filledBlock 0)) (.ok (.block 1)), .unlinked (oneByte 98) (.ok ())] h := by
  let made : Heap := heapAfterOpen initialHeap (oneByte 98) 1 1 (filledBlock 0)
  let again : Heap := heapAfterOpen made (oneByte 98) 0 2 (filledBlock 0)
  have clean (h : Heap) (a : Nat) : CleanBlock h (oneByte 98) (some (a, filledBlock 0)) := by
    rintro a stale is _
    cases is
    decide +kernel
  have first : (semRegistry.restrict CleanOpen).step initialHeap
      (.opened (oneByte 98) 1 (some (1, filledBlock 0)) (.ok (.block 1))) made :=
    ⟨clean _ 1, opened_of_result _ _ _ _ _ (by decide) List.length_replicate (by decide +kernel)⟩
  have second : (semRegistry.restrict CleanOpen).step made
      (.opened (oneByte 98) 0 (some (2, filledBlock 0)) (.ok (.block 1))) again :=
    ⟨clean _ 2, opened_of_result _ _ _ _ _ (by decide +kernel) List.length_replicate (by decide +kernel)⟩
  have gone : (sysSemUnlink again (oneByte 98)).any (fun r => r.2.toOption.isSome) = true := by decide +kernel
  obtain ⟨⟨h, result⟩, call, ok⟩ := (Option.any_eq_true _ _).mp gone
  cases result with
  | error => cases ok
  | ok _ => exact ⟨h, registry_refines_map (((Machine.Run.one first).snoc second).snoc ⟨trivial, .unlinked call⟩)⟩

/-- After one open of `"b"` in a block full of `'a'`. -/
def oneOpen : Heap := heapAfterOpen initialHeap (oneByte 98) 1 1 (filledBlock 97)

def twoOpens : Heap := heapAfterOpen oneOpen (oneByte 98) 1 2 (filledBlock 97)

theorem twoOpens_run : semRegistry.Run initialHeap
    [.opened (oneByte 98) 1 (some (1, filledBlock 97)) (.ok (.block 1)),
      .opened (oneByte 98) 1 (some (2, filledBlock 97)) (.ok (.block 2))] twoOpens := by
  have first : semRegistry.step initialHeap
      (.opened (oneByte 98) 1 (some (1, filledBlock 97)) (.ok (.block 1))) oneOpen :=
    opened_of_result _ _ _ _ _ (by decide) List.length_replicate (by decide +kernel)
  have second : semRegistry.step oneOpen
      (.opened (oneByte 98) 1 (some (2, filledBlock 97)) (.ok (.block 2))) twoOpens :=
    opened_of_result _ _ _ _ _ (by decide +kernel) List.length_replicate (by decide +kernel)
  exact (Machine.Run.one first).snoc second

/-- Two opens of `"b"` in blocks full of `'a'` make two semaphores: the first is named `"baa..."`. -/
theorem stale_bytes_make_two :
    ∃ h,
      semRegistry.Run initialHeap
        [.opened (oneByte 98) 1 (some (1, filledBlock 97)) (.ok (.block 1)),
          .opened (oneByte 98) 1 (some (2, filledBlock 97)) (.ok (.block 2))] h ∧
      ¬ Refines
        [.opened (oneByte 98) 1 (some (1, filledBlock 97)) (.ok (.block 1)),
          .opened (oneByte 98) 1 (some (2, filledBlock 97)) (.ok (.block 2))] h := by
  refine ⟨_, twoOpens_run, ?_⟩
  intro refines
  obtain ⟨m, answers, _⟩ := refines.answers
  obtain ⟨m₁, before, again⟩ := Machine.Run.of_snoc [_] _ answers
  obtain ⟨m₀, start, creating⟩ := Machine.Run.of_snoc [] _ before
  have read : userString (oneByte 98) = some [98] := by decide +kernel
  have notHead : ([98] : List UInt8) ≠ semHeadName := by decide
  cases start.of_nil
  simp only [namedMap, Registry.opened, read, notHead, if_false, Prod.mk.injEq, and_true] at creating
  subst creating
  simp [namedMap, Registry.opened, read, notHead] at again

end Linux011.Semaphore

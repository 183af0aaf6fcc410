import Linux011.Threads.Pool

namespace Linux011.Threads

open Linux011.Library

variable {S : Type} {m m' : Manager S} {P : Pool S} {d : Option Ptr} {i : Option S} {c p : Ptr} {rest : List Ptr}

/-- The threads, semaphores and memory of the manager are those of the pool, and perhaps a block that is to be freed. -/
structure Core (m : Manager S) (P : Pool S) (d : Option Ptr) : Prop where
  queued : Queued m P.queue
  alone : ∀ p i, P.current = some p → p ∉ P.queue i
  allocated : ∀ p, m.allocated p = true ↔ P.Live p ∨ P.block p = true ∨ d = some p
  apart : ∀ p, P.Live p → P.block p = false
  doomed : ∀ p, d = some p → ¬ P.Live p ∧ P.block p = false
  count : ∀ s, (m.semaphore s).count = P.count s
  thread : ∀ p, P.Live p → m.thread p = P.saved p

/-- The manager is where the pool is. -/
structure Represents (m : Manager S) (P : Pool S) : Prop where
  core : Core m P none
  current : m.current = P.current
  control : m.control = P.control
  running : P.control.inThread = true → ∃ c, P.current = some c
  idle : P.control = .main → P.current = none
  freed : P.control = .main ∨ P.control.inThread = true → m.memToFree = none

section Parts

theorem Core.current (core : Core m P d) (runs : P.current = some c) : m.allocated c = true :=
  (core.allocated c).mpr (.inl (.inl runs))

theorem Core.congr (core : Core m P d) (current memToFree : Option Ptr) (control : Control) :
    Core { m with current := current, memToFree := memToFree, control := control } { P with control := control } d where
  queued := core.queued.congr (fun i => by cases i <;> rfl) (fun _ _ _ => rfl) core.queued.allocated
  alone := core.alone
  allocated := core.allocated
  apart := core.apart
  doomed := core.doomed
  count := core.count
  thread := core.thread

theorem Core.heap (core : Core m P d) (current memToFree : Option Ptr) :
    Core { m with current := current, memToFree := memToFree } P d :=
  have same := core.congr current memToFree P.control
  ⟨same.queued.congr (fun i => by cases i <;> rfl) (fun _ _ _ => rfl) core.queued.allocated, core.alone, core.allocated,
    core.apart, core.doomed, core.count, core.thread⟩

theorem Core.requeue (core : Core m P d) {Q : Pool S} (queued : Queued m' Q.queue)
    (alone : ∀ p i, Q.current = some p → p ∉ Q.queue i) (live : ∀ p, Q.Live p ↔ P.Live p)
    (allocated : m'.allocated = m.allocated) (thread : m'.thread = m.thread) (block : Q.block = P.block)
    (saved : Q.saved = P.saved) (count : ∀ s, (m'.semaphore s).count = Q.count s) : Core m' Q d where
  queued := queued
  alone := alone
  allocated p := by
    rw [allocated, block, live]
    exact core.allocated p
  apart p here := by
    rw [block]
    exact core.apart p ((live p).mp here)
  doomed p same := by
    rw [block, live]
    exact core.doomed p same
  count := count
  thread p here := by
    rw [thread, saved]
    exact core.thread p ((live p).mp here)

theorem Core.setjmp (core : Core m P d) (runs : P.current = some c) (current : m.current = some c) (at_ : Resume) :
    m.setjmp at_ = .ok (m.setThread c { m.thread c with state := at_ }) ∧
      Core (m.setThread c { m.thread c with state := at_ }) (P.leave at_) d := by
  have live : P.Live c := .inl runs
  have left : P.leave at_ = { P with saved := Function.update P.saved c { P.saved c with state := at_ } } := by
    unfold Pool.leave
    rw [runs]
  constructor
  · unfold Manager.setjmp
    rw [current, deref_allocated (core.current runs), ok_bind]
    rfl
  · rw [left]
    refine ⟨core.queued.congr (fun i => by cases i <;> rfl) (fun _ _ _ => rfl) core.queued.allocated, core.alone,
      core.allocated, core.apart, core.doomed, core.count, ?_⟩
    intro p here
    show Function.update m.thread c _ p = Function.update P.saved c _ p
    by_cases same : p = c
    · rw [same, Function.update_self, Function.update_self, core.thread c live]
    · rw [Function.update_of_ne same, Function.update_of_ne same]
      exact core.thread p here

theorem Core.nextReady_nil (core : Core m P d) (empty : P.queue none = []) :
    m.nextReady = .ok { m with current := none } := by
  unfold Manager.nextReady
  rw [show m.readylist = m.fifo none from rfl, core.queued.dequeue_nil empty, ok_bind]
  rfl

theorem Core.jump (core : Core m P d) (runs : P.current = some p) (current : m.current = some p) :
    m.jump = .ok { m with control := (P.goOn p).control } := by
  unfold Manager.jump
  rw [current, deref_allocated (core.current runs), ok_bind, core.thread p (.inl runs)]
  rfl

theorem Core.free (core : Core m P d) (freed : m.memToFree = d) :
    ∃ m', m.free m.memToFree = .ok m' ∧ Core m' P none ∧ m'.current = m.current := by
  rw [freed]
  cases d with
  | none => exact ⟨m, rfl, core, rfl⟩
  | some q =>
    have there : m.allocated q = true := (core.allocated q).mpr (.inr (.inr rfl))
    rcases core.doomed q rfl with ⟨dead, unused⟩
    refine ⟨_, if_pos there, ?_, rfl⟩
    have allocated (p : Ptr) : Function.update m.allocated q false p = true ↔ p ≠ q ∧ m.allocated p = true := by
      by_cases same : p = q
      · rw [same, Function.update_self]
        simp
      · rw [Function.update_of_ne same]
        simp [same]
    refine ⟨core.queued.congr (fun i => by cases i <;> rfl) (fun _ _ _ => rfl) ?_, core.alone, ?_, core.apart, ?_,
      core.count, core.thread⟩
    · intro i p here
      exact (allocated p).mpr ⟨fun same => dead (.inr ⟨i, same ▸ here⟩), core.queued.allocated i p here⟩
    · intro p
      rw [allocated, core.allocated]
      constructor
      · rintro ⟨other, live | block | same⟩
        · exact .inl live
        · exact .inr (.inl block)
        · exact absurd (Option.some.inj same).symm other
      · rintro (live | block | none)
        · exact ⟨fun same => dead (same ▸ live), .inl live⟩
        · refine ⟨?_, .inr (.inl block)⟩
          rintro rfl
          rw [unused] at block
          cases block
        · cases none
    · intro p none
      cases none

theorem Core.goes (core : Core m P none) (runs : P.current = some p) (current : m.current = some p)
    (freed : m.memToFree = none) : Represents { m with control := (P.goOn p).control } (P.goOn p) := by
  have same : P.goOn p = { P with control := (P.goOn p).control } := by
    unfold Pool.goOn
    rw [← runs]
  rw [same]
  have moved : Core { m with control := (P.goOn p).control } { P with control := (P.goOn p).control } none :=
    core.congr m.current m.memToFree _
  refine ⟨moved, current.trans runs.symm, rfl, fun _ => ⟨p, runs⟩, ?_, fun _ => freed⟩
  intro main
  have never : (P.goOn p).control ≠ .main := by
    unfold Pool.goOn
    dsimp only
    split <;> simp
  exact absurd main never

theorem Core.dies (core : Core m P none) (current : m.current = P.current) {control : Control}
    (dead : control ≠ .main ∧ control.inThread = false) :
    Represents { m with control := control } { P with control := control } := by
  refine ⟨core.congr m.current m.memToFree control, current, rfl, ?_, ?_, ?_⟩
  · intro running
    rw [show control.inThread = true from running] at dead
    exact absurd dead.2 (by decide)
  · exact fun main => absurd main dead.1
  · rintro (main | running)
    · exact absurd main dead.1
    · rw [show control.inThread = true from running] at dead
      exact absurd dead.2 (by decide)

theorem Represents.thread (repr : Represents m P) (runs : m.control.inThread = true) :
    ∃ c, P.current = some c ∧ m.current = some c ∧ m.memToFree = none := by
  rw [repr.control] at runs
  rcases repr.running runs with ⟨c, current⟩
  exact ⟨c, current, repr.current.trans current, repr.freed (.inr runs)⟩

/-- What a call does to a manager: no fault, and what a pool does. -/
def Refines (x : Except Fault (Manager S)) (P : Pool S) : Prop := ∃ m', x = .ok m' ∧ Represents m' P

theorem Core.threadDeath (core : Core m P d) (freed : m.memToFree = d) (current : m.current = P.current) (error : String) :
    Refines (m.threadDeath error) { P with control := .dead error } := by
  rcases core.free freed with ⟨m₁, gone, core₁, same⟩
  refine ⟨{ m₁ with control := .dead error }, ?_, core₁.dies (same.trans current) ⟨by simp, rfl⟩⟩
  unfold Manager.threadDeath
  rw [gone, ok_bind]
  rfl

theorem Represents.same (repr : Represents m P) {Q : Pool S} (core : Core m' Q none) (current : m'.current = m.current)
    (current' : Q.current = P.current) (control : m'.control = m.control) (control' : Q.control = P.control)
    (freed : m'.memToFree = m.memToFree) : Represents m' Q where
  core := core
  current := by rw [current, current', repr.current]
  control := by rw [control, control', repr.control]
  running := by
    rw [control', current']
    exact repr.running
  idle := by
    rw [control', current']
    exact repr.idle
  freed := by
    rw [control', freed]
    exact repr.freed

end Parts

section Moves

variable [DecidableEq S]

theorem count_setFifo (m : Manager S) (q : Fifo Ptr) (i : Option S) (s : S) :
    ((m.setFifo q i).semaphore s).count = (m.semaphore s).count := by
  cases i with
  | none => rfl
  | some r =>
    show (Function.update m.semaphore r _ s).count = _
    by_cases same : s = r
    · rw [same, Function.update_self]
    · rw [Function.update_of_ne same]

theorem Core.enqueue (core : Core m P d) (runs : P.current = some c) (i : Option S) :
    ∃ next q, m.threadEnqueue (some c) (m.fifo i) = .ok ({ m with next := next }, q) ∧
      Core ({ m with next := next }.setFifo q i) (P.stop.enqueue i c) d := by
  rcases core.queued.enqueue i (core.current runs) fun j => core.alone c j runs with ⟨next, q, done, queued⟩
  refine ⟨next, q, done, core.requeue queued ?_ ?_ (by cases i <;> rfl) (by cases i <;> rfl) rfl rfl ?_⟩
  · intro p j none
    cases none
  · intro p
    show none = some p ∨ (∃ j, p ∈ Function.update P.queue i (P.queue i ++ [c]) j) ↔ P.current = some p ∨ ∃ j, p ∈ P.queue j
    rw [runs, enqueued_somewhere]
    simp [eq_comm, or_comm]
  · intro s
    rw [count_setFifo]
    exact core.count s

theorem Core.makeReady (core : Core m P d) (runs : P.current = some c) : ∃ m', m.makeReady (some c) = .ok m' ∧
    Core m' (P.stop.enqueue none c) d ∧ m'.memToFree = m.memToFree := by
  rcases core.enqueue runs none with ⟨next, q, queued, core'⟩
  refine ⟨_, ?_, core', rfl⟩
  unfold Manager.makeReady
  rw [show m.readylist = m.fifo none from rfl, queued, ok_bind]
  rfl

theorem Core.dequeue (core : Core m P d) (some' : P.queue i = p :: rest) : ∃ q, m.threadDequeue (m.fifo i) = .ok (some p, q) ∧
    m.allocated p = true ∧ Queued (m.setFifo q i) (Function.update P.queue i rest) ∧
      (∀ j, p ∉ Function.update P.queue i rest j) ∧
        ∀ r, (∃ j, r ∈ P.queue j) ↔ r = p ∨ ∃ j, r ∈ Function.update P.queue i rest j := by
  rcases core.queued.dequeue_cons some' with ⟨q, done, there, queued, out⟩
  refine ⟨q, done, there, queued, out, ?_⟩
  intro r
  constructor
  · rintro ⟨j, here⟩
    by_cases own : j = i
    · rw [own, some'] at here
      rcases List.mem_cons.mp here with rfl | later
      · exact .inl rfl
      · exact .inr ⟨i, by rw [Function.update_self]; exact later⟩
    · exact .inr ⟨j, by rw [Function.update_of_ne own]; exact here⟩
  · rintro (rfl | ⟨j, here⟩)
    · exact ⟨i, by rw [some']; exact List.mem_cons_self ..⟩
    · by_cases own : j = i
      · rw [own, Function.update_self] at here
        exact ⟨i, by rw [some']; exact List.mem_cons_of_mem _ here⟩
      · rw [Function.update_of_ne own] at here
        exact ⟨j, here⟩

theorem Core.nextReady_cons (core : Core m P d) (idle : P.current = none) (some' : P.queue none = p :: rest) :
    ∃ q, m.nextReady = .ok { m with readylist := q, current := some p } ∧
      Core { m with readylist := q, current := some p }
        { P with queue := Function.update P.queue none rest, current := some p } d := by
  rcases core.dequeue some' with ⟨q, done, -, queued, out, members⟩
  refine ⟨q, ?_, ?_⟩
  · unfold Manager.nextReady
    rw [show m.readylist = m.fifo none from rfl, done, ok_bind]
    rfl
  · refine core.requeue (queued.congr (fun i => by cases i <;> rfl) (fun _ _ _ => rfl) queued.allocated) ?_ ?_ rfl rfl
      rfl rfl core.count
    · intro r j same
      cases same
      exact out j
    · intro r
      unfold Pool.Live
      rw [members r, idle]
      simp [eq_comm]

end Moves

section Calls

variable [DecidableEq S]

theorem switch_cons (some' : P.queue none = p :: rest) (otherwise : Control) : P.switch otherwise =
    { P with queue := Function.update P.queue none rest, current := some p }.goOn p := by
  unfold Pool.switch
  rw [some']
  rfl

theorem Core.switch_free (core : Core m P d) (idle : P.current = none) (freed : m.memToFree = d)
    (some' : P.queue none = p :: rest) (otherwise : Control) :
    ∃ m₁, m.nextReady = .ok m₁ ∧ m₁.current = some p ∧ Refines m₁.goFreeIt (P.switch otherwise) := by
  rcases core.nextReady_cons idle some' with ⟨q, next, core'⟩
  rcases core'.free (d := d) freed with ⟨m₂, gone, core₂, current⟩
  refine ⟨_, next, rfl, ?_⟩
  rw [switch_cons some']
  have last : Core { m₂ with memToFree := none }
      { P with queue := Function.update P.queue none rest, current := some p } none := core₂.heap m₂.current none
  refine ⟨_, ?_, last.goes rfl current rfl⟩
  unfold Manager.goFreeIt
  rw [gone, ok_bind]
  exact last.jump rfl current

theorem Core.switch (core : Core m P none) (idle : P.current = none) (freed : m.memToFree = none)
    (some' : P.queue none = p :: rest) (otherwise : Control) :
    ∃ m₁, m.nextReady = .ok m₁ ∧ m₁.current = some p ∧ Refines m₁.jump (P.switch otherwise) := by
  rcases core.nextReady_cons idle some' with ⟨q, next, core'⟩
  refine ⟨_, next, rfl, ?_⟩
  rw [switch_cons some']
  exact ⟨_, core'.jump rfl rfl, core'.goes rfl rfl freed⟩

theorem switch_nil (empty : P.queue none = []) (otherwise : Control) :
    P.switch otherwise = { P with control := otherwise } := by
  unfold Pool.switch
  rw [empty]

theorem Represents.start (repr : Represents m P) (main : m.control = .main) : Refines m.threadManagerStart (P.perform .start) := by
  have control := repr.control.symm.trans main
  have idle := repr.idle control
  have freed := repr.freed (.inl control)
  unfold Manager.threadManagerStart Pool.perform
  cases ready : P.queue none with
  | nil =>
    rw [repr.core.nextReady_nil ready, ok_bind, switch_nil ready]
    exact ⟨_, rfl, (repr.core.heap none m.memToFree).dies idle.symm ⟨by simp, rfl⟩⟩
  | cons p rest =>
    rcases repr.core.switch_free idle freed ready .exit with ⟨m₁, next, current, refines⟩
    rw [next, ok_bind, current]
    exact refines

theorem Represents.relinquish (repr : Represents m P) (runs : m.control.inThread = true) :
    Refines m.threadRelinquish (P.perform .relinquish) := by
  rcases repr.thread runs with ⟨c, current, current', freed⟩
  rcases repr.core.setjmp current current' .relinquish with ⟨saved, core⟩
  have left : (P.leave .relinquish).current = some c := by
    unfold Pool.leave
    rw [current]
  rcases core.makeReady left with ⟨m₁, queued, core₁, freed₁⟩
  have some' : ∃ p rest, ((P.leave .relinquish).stop.enqueue none c).queue none = p :: rest := by
    apply List.exists_cons_of_ne_nil
    show Function.update (P.leave .relinquish).queue none _ none ≠ []
    rw [Function.update_self]
    exact List.append_ne_nil_of_right_ne_nil _ (List.cons_ne_nil c [])
  rcases some' with ⟨p, rest, some'⟩
  rcases core₁.switch rfl (freed₁.trans freed) some' .exit with ⟨m₂, next, -, refines⟩
  unfold Manager.threadRelinquish Pool.perform
  rw [current]
  dsimp only
  rw [saved, ok_bind, show (m.setThread c { m.thread c with state := .relinquish }).current = some c from current', queued,
    ok_bind, next, ok_bind]
  exact refines

theorem Represents.exit (repr : Represents m P) (runs : m.control.inThread = true) :
    Refines m.threadExit (P.perform .exit) := by
  rcases repr.thread runs with ⟨c, current, current', -⟩
  have live : P.Live c := .inl current
  have gone (p : Ptr) : P.stop.Live p ↔ P.Live p ∧ p ≠ c := by
    constructor
    · rintro (none | ⟨i, here⟩)
      · cases none
      · refine ⟨.inr ⟨i, here⟩, ?_⟩
        rintro rfl
        exact repr.core.alone p i current here
    · rintro ⟨same | here, other⟩
      · rw [current] at same
        exact absurd (Option.some.inj same).symm other
      · exact .inr here
  -- the thread that exits is what is to be freed
  have core : Core { m with memToFree := m.current } P.stop (some c) := by
    have before := repr.core.heap m.current m.current
    refine ⟨before.queued, ?_, ?_, ?_, ?_, before.count, ?_⟩
    · intro p i none
      cases none
    · intro p
      rw [before.allocated, gone]
      constructor
      · rintro (here | block | none)
        · by_cases same : p = c
          · exact .inr (.inr (congrArg some same.symm))
          · exact .inl ⟨here, same⟩
        · exact .inr (.inl block)
        · cases none
      · rintro (⟨here, -⟩ | block | same)
        · exact .inl here
        · exact .inr (.inl block)
        · cases same
          exact .inl live
    · exact fun p here => before.apart p ((gone p).mp here).1
    · intro p same
      cases same
      exact ⟨fun here => ((gone c).mp here).2 rfl, before.apart c live⟩
    · exact fun p here => before.thread p ((gone p).mp here).1
  unfold Manager.threadExit Pool.perform
  dsimp only
  cases ready : P.stop.queue none with
  | nil =>
    rw [core.nextReady_nil ready, ok_bind, switch_nil ready]
    exact (core.heap none m.current).threadDeath current' rfl _
  | cons p rest =>
    rcases core.switch_free rfl current' ready (.dead "ready list empty") with ⟨m₁, next, some', refines⟩
    rw [next, ok_bind, some']
    exact refines

theorem Core.setCount (core : Core m P d) (s : S) (v : Int) :
    Core (m.setCount s v) { P with count := Function.update P.count s v } d := by
  have fifo (i : Option S) : (m.setCount s v).fifo i = m.fifo i := by
    cases i with
    | none => rfl
    | some r =>
      show (Function.update m.semaphore s _ r).queue = (m.semaphore r).queue
      by_cases same : r = s
      · rw [same, Function.update_self]
      · rw [Function.update_of_ne same]
  refine ⟨core.queued.congr fifo (fun _ _ _ => rfl) core.queued.allocated, core.alone, core.allocated, core.apart,
    core.doomed, ?_, core.thread⟩
  intro r
  show (Function.update m.semaphore s _ r).count = Function.update P.count s v r
  by_cases same : r = s
  · rw [same, Function.update_self, Function.update_self]
  · rw [Function.update_of_ne same, Function.update_of_ne same]
    exact core.count r

theorem Represents.wait (repr : Represents m P) (runs : m.control.inThread = true) (s : S) :
    Refines (m.threadWait s) (P.perform (.wait s)) := by
  rcases repr.thread runs with ⟨c, current, current', freed⟩
  unfold Manager.threadWait Pool.perform
  dsimp only
  rw [repr.core.count s]
  by_cases positive : 0 < P.count s
  · rw [if_pos positive, if_pos positive]
    exact ⟨_, rfl, repr.same (repr.core.setCount s _) rfl rfl rfl rfl rfl⟩
  · rw [if_neg positive, if_neg positive]
    rcases repr.core.setjmp current current' .wait with ⟨saved, core⟩
    have left : (P.leave .wait).current = some c := by
      unfold Pool.leave
      rw [current]
    rcases core.enqueue left (some s) with ⟨next, q, queued, core₁⟩
    generalize there : m.setThread c { m.thread c with state := .wait } = m₁ at saved core queued core₁
    have runs₁ : m₁.current = some c := by rw [← there]; exact current'
    have freed₁ : m₁.memToFree = none := by rw [← there]; exact freed
    rw [current]
    dsimp only
    rw [saved, ok_bind, runs₁, show (m₁.semaphore s).queue = m₁.fifo (some s) from rfl, queued, ok_bind]
    dsimp only
    have same : Manager.setQueue { m₁ with next := next } s q = Manager.setFifo { m₁ with next := next } q (some s) := rfl
    rw [same]
    cases ready : ((P.leave .wait).stop.enqueue (some s) c).queue none with
    | nil =>
      rw [core₁.nextReady_nil ready, ok_bind, switch_nil ready]
      exact (core₁.heap none m₁.memToFree).threadDeath freed₁ rfl _
    | cons p rest =>
      rcases core₁.switch rfl freed₁ ready (.dead "possible deadlock") with ⟨m₂, next', some', refines⟩
      rw [next', ok_bind, some']
      exact refines

theorem Represents.free (repr : Represents m P) (runs : m.control.inThread = true)
    (own : ∀ q, d = some q → P.block q = true) : Refines (m.threadFree d) (P.perform (.free d)) := by
  rcases repr.thread runs with ⟨c, current, current', -⟩
  -- the block is the manager's, not the thread's, from here on
  have core : Core { m with memToFree := d } (P.surrender d) d := by
    have before := repr.core.heap m.current d
    cases d with
    | none => exact before
    | some q =>
      have used := own q rfl
      have block (p : Ptr) : Function.update P.block q false p = true ↔ P.block p = true ∧ p ≠ q := by
        by_cases same : p = q
        · rw [same, Function.update_self]
          simp
        · rw [Function.update_of_ne same]
          simp [same]
      refine ⟨before.queued, before.alone, ?_, ?_, ?_, before.count, before.thread⟩
      · intro p
        show m.allocated p = true ↔ P.Live p ∨ Function.update P.block q false p = true ∨ some q = some p
        rw [before.allocated, block]
        constructor
        · rintro (live | here | none)
          · exact .inl live
          · by_cases same : p = q
            · exact .inr (.inr (congrArg some same.symm))
            · exact .inr (.inl ⟨here, same⟩)
          · cases none
        · rintro (live | ⟨here, -⟩ | same)
          · exact .inl live
          · exact .inr (.inl here)
          · cases same
            exact .inr (.inl used)
      · intro p live
        show Function.update P.block q false p = false
        by_contra still
        have here := (block p).mp (Bool.eq_true_of_not_eq_false still)
        rw [before.apart p live] at here
        cases here.1
      · intro p same
        cases same
        refine ⟨?_, Function.update_self ..⟩
        intro live
        rw [before.apart q live] at used
        cases used
  have runs' : (P.surrender d).current = some c := by cases d <;> exact current
  rcases core.setjmp runs' current' .free with ⟨saved, core₁⟩
  generalize there : Manager.setThread { m with memToFree := d } c { m.thread c with state := .free } = m₁ at saved core₁
  have runs₁ : m₁.current = some c := by rw [← there]; exact current'
  have freed₁ : m₁.memToFree = d := by rw [← there]; rfl
  rcases core₁.free freed₁ with ⟨m₂, gone, core₂, same⟩
  have core₃ := core₂.heap m₂.current none
  have left : ((P.surrender d).leave .free).current = some c := by
    unfold Pool.leave
    rw [runs']
  unfold Manager.threadFree Pool.perform
  rw [current]
  dsimp only
  rw [saved, ok_bind]
  refine ⟨_, ?_, core₃.goes left (same.trans runs₁) rfl⟩
  unfold Manager.goFreeIt
  rw [gone, ok_bind]
  exact core₃.jump left (same.trans runs₁)

theorem Represents.check (repr : Represents m P) (runs : m.control.inThread = true) (below above : Bool) :
    Refines (m.threadSafetyCheck below above) (P.perform (.check below above)) := by
  rcases repr.thread runs with ⟨c, current, current', freed⟩
  cases below with
  | true => exact repr.core.threadDeath freed repr.current _
  | false =>
    unfold Manager.threadSafetyCheck
    rw [if_neg Bool.false_ne_true, current', deref_allocated (repr.core.current current), ok_bind]
    cases above with
    | false => exact ⟨m, rfl, repr⟩
    | true => exact repr.core.threadDeath freed repr.current _

theorem Represents.malloc (repr : Represents m P) (new : ¬ P.Live p) :
    Represents { m with allocated := Function.update m.allocated p true } (P.perform (.malloc p)) := by
  have allocated (r : Ptr) : Function.update m.allocated p true r = true ↔ r = p ∨ m.allocated r = true := by
    by_cases same : r = p
    · rw [same, Function.update_self]
      simp
    · rw [Function.update_of_ne same]
      simp [same]
  have block (r : Ptr) : Function.update P.block p true r = true ↔ r = p ∨ P.block r = true := by
    by_cases same : r = p
    · rw [same, Function.update_self]
      simp
    · rw [Function.update_of_ne same]
      simp [same]
  have core := repr.core
  refine repr.same (P := P) (m := m) ⟨core.queued.congr (fun i => by cases i <;> rfl) (fun _ _ _ => rfl) ?_, core.alone,
    ?_, ?_, ?_, core.count, core.thread⟩ rfl rfl rfl rfl rfl
  · exact fun i r here => (allocated r).mpr (.inr (core.queued.allocated i r here))
  · intro r
    show Function.update m.allocated p true r = true ↔ P.Live r ∨ Function.update P.block p true r = true ∨ none = some r
    rw [allocated, block, core.allocated]
    tauto
  · intro r live
    show Function.update P.block p true r = false
    rw [Function.update_of_ne fun same : r = p => new (same ▸ live)]
    exact core.apart r live
  · intro r none
    cases none

theorem Represents.init (repr : Represents m P) (s : S) (v : Int) (empty : P.queue (some s) = []) :
    Represents (m.threadSemaphoreInit s v) (P.perform (.init s v)) := by
  have core := repr.core
  have same : Function.update P.queue (some s) [] = P.queue := by rw [← empty, Function.update_eq_self]
  have pool : P.perform (.init s v) = { P with count := Function.update P.count s v } := by
    unfold Pool.perform
    dsimp only
    rw [same]
  have fifo (i : Option S) (other : i ≠ some s) : (m.threadSemaphoreInit s v).fifo i = m.fifo i := by
    cases i with
    | none => rfl
    | some r =>
      have apart : r ≠ s := fun same => other (congrArg some same)
      show (Function.update m.semaphore s _ r).queue = (m.semaphore r).queue
      rw [Function.update_of_ne apart]
  rw [pool]
  refine repr.same ⟨⟨?_, core.queued.apart, core.queued.allocated⟩, core.alone, core.allocated, core.apart, core.doomed,
    ?_, core.thread⟩ rfl rfl rfl rfl rfl
  · intro i
    by_cases own : i = some s
    · rw [own, empty]
      refine ⟨?_, by simp, List.nodup_nil⟩
      show (Function.update m.semaphore s ⟨v, ⟨none, none⟩⟩ s).queue.head = none
      rw [Function.update_self]
    · rw [fifo i own]
      exact core.queued.holds i
  · intro r
    show (Function.update m.semaphore s ⟨v, ⟨none, none⟩⟩ r).count = Function.update P.count s v r
    by_cases own : r = s
    · rw [own, Function.update_self, Function.update_self]
    · rw [Function.update_of_ne own, Function.update_of_ne own]
      exact core.count r

def born (m : Manager S) (p : Ptr) (t : Thread) : Manager S :=
  { m with allocated := Function.update m.allocated p true, thread := Function.update m.thread p t }

theorem Core.launch (core : Core m P none) (t : Thread) (new : ¬ P.Live p) (unused : P.block p = false) :
    ∃ next q, (born m p t).threadEnqueue (some p) (m.fifo none) = .ok ({ born m p t with next := next }, q) ∧
      Core { born m p t with next := next, readylist := q }
        (Pool.enqueue { P with saved := Function.update P.saved p t } none p) none := by
  have allocated (r : Ptr) : Function.update m.allocated p true r = true ↔ r = p ∨ m.allocated r = true := by
    by_cases same : r = p
    · rw [same, Function.update_self]
      simp
    · rw [Function.update_of_ne same]
      simp [same]
  have queued : Queued (born m p t) P.queue :=
    core.queued.congr (fun i => by cases i <;> rfl) (fun _ _ _ => rfl)
      fun i r here => (allocated r).mpr (.inr (core.queued.allocated i r here))
  have live (r : Ptr) :
      (Pool.enqueue { P with saved := Function.update P.saved p t } none p).Live r ↔ P.Live r ∨ r = p := by
    show P.current = some r ∨ (∃ j, r ∈ Function.update P.queue none (P.queue none ++ [p]) j) ↔ _
    rw [enqueued_somewhere]
    exact or_assoc.symm
  rcases queued.enqueue none (Function.update_self ..) fun i here => new (.inr ⟨i, here⟩) with ⟨next, q, done, queued'⟩
  refine ⟨next, q, done, queued', ?_, ?_, ?_, ?_, core.count, ?_⟩
  · intro r i runs here
    rcases mem_enqueued.mp here with old | ⟨-, rfl⟩
    · exact core.alone r i runs old
    · exact new (.inl runs)
  · intro r
    rw [live]
    show Function.update m.allocated p true r = true ↔ _
    rw [allocated, core.allocated]
    show _ ↔ (P.Live r ∨ r = p) ∨ P.block r = true ∨ none = some r
    tauto
  · intro r here
    rcases (live r).mp here with old | rfl
    · exact core.apart r old
    · exact unused
  · intro r none
    cases none
  · intro r here
    show Function.update m.thread p t r = Function.update P.saved p t r
    by_cases same : r = p
    · rw [same, Function.update_self, Function.update_self]
    · rw [Function.update_of_ne same, Function.update_of_ne same]
      exact core.thread r (((live r).mp here).resolve_right same)

theorem Represents.launch (repr : Represents m P) (proc : Nat) (param : BitVec 32) (new : ¬ P.Live p) (unused : P.block p = false) :
    Refines (m.threadLaunch (some p) proc param) (P.perform (.launch (some p) proc param)) := by
  rcases repr.core.launch ⟨proc, param, .launch⟩ new unused with ⟨next, q, done, core⟩
  refine ⟨_, ?_, repr.same core rfl rfl rfl rfl rfl⟩
  have there : Manager.deref { m with allocated := Function.update m.allocated p true } (some p) = .ok p :=
    deref_allocated (Function.update_self ..)
  have ready : Manager.makeReady (born m p ⟨proc, param, .launch⟩) (some p) =
      .ok { born m p ⟨proc, param, .launch⟩ with next := next, readylist := q } := by
    unfold Manager.makeReady
    rw [show (born m p ⟨proc, param, .launch⟩).readylist = m.fifo none from rfl, done, ok_bind]
    rfl
  unfold Manager.threadLaunch
  dsimp only
  rw [there, ok_bind]
  exact ready

theorem Represents.signal (repr : Represents m P) (s : S) (small : P.queue (some s) = [] → P.count s < 2 ^ 31 - 1) :
    Refines (m.threadSignal s) (P.perform (.signal s)) := by
  have core := repr.core
  unfold Manager.threadSignal Pool.perform
  rw [show (m.semaphore s).queue = m.fifo (some s) from rfl]
  dsimp only
  cases waiting : P.queue (some s) with
  | nil =>
    have bound := small waiting
    have same : m.setQueue s (m.fifo (some s)) = m := by
      show { m with semaphore := Function.update m.semaphore s (m.semaphore s) } = m
      rw [Function.update_eq_self]
    have below : (m.semaphore s).count ≠ 2 ^ 31 - 1 := by
      rw [core.count]
      omega
    rw [core.queued.dequeue_nil waiting, ok_bind]
    dsimp only
    rw [same, if_neg below, core.count]
    exact ⟨_, rfl, repr.same (core.setCount s _) rfl rfl rfl rfl rfl⟩
  | cons t rest =>
    rcases core.dequeue waiting with ⟨q, done, there, queued, out, members⟩
    rcases queued.enqueue none there out with ⟨next, q', done', queued'⟩
    have woken : Core { m.setQueue s q with next := next, readylist := q' }
        (Pool.enqueue { P with queue := Function.update P.queue (some s) rest } none t) none := by
      refine core.requeue queued' ?_ ?_ rfl rfl rfl rfl fun r => (count_setFifo m q (some s) r).trans (core.count r)
      · intro p i runs here
        have somewhere : ∃ j, p ∈ P.queue j := (members p).mpr ((enqueued_somewhere.mp ⟨i, here⟩).symm)
        rcases somewhere with ⟨j, old⟩
        exact core.alone p j runs old
      · intro p
        show P.current = some p ∨ (∃ j, p ∈ Function.update (Function.update P.queue (some s) rest) none
          (Function.update P.queue (some s) rest none ++ [t]) j) ↔ _
        rw [enqueued_somewhere, or_comm (b := p = t), ← members p]
        rfl
    refine ⟨_, ?_, repr.same woken rfl rfl rfl rfl rfl⟩
    rw [done, ok_bind]
    dsimp only
    unfold Manager.makeReady
    rw [show (m.setQueue s q).readylist = (m.setFifo q (some s)).fifo none from rfl,
      show m.setQueue s q = m.setFifo q (some s) from rfl, done', ok_bind]
    rfl

theorem Represents.perform (repr : Represents m P) {call : Call S} (allowed : call.Allowed m) (proper : call.Proper P) :
    Refines (call.perform m) (P.perform call) := by
  cases call with
  | launch block proc param =>
    rcases proper with ⟨p, rfl, new, unused⟩
    exact repr.launch proc param new unused
  | start => exact repr.start allowed
  | relinquish => exact repr.relinquish allowed
  | exit => exact repr.exit allowed
  | malloc p => exact ⟨_, rfl, repr.malloc proper.1⟩
  | free d => exact repr.free allowed proper
  | check below above => exact repr.check allowed below above
  | init s v => exact ⟨_, rfl, repr.init s v proper⟩
  | wait s => exact repr.wait allowed s
  | signal s => exact repr.signal s proper

end Calls

end Linux011.Threads

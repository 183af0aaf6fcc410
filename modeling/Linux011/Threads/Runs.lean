import Linux011.Threads.Refinement

namespace Linux011.Threads

open Linux011.Library

variable {S : Type} [DecidableEq S] {s s' : Manager S × Pool S} {m : Manager S} {P : Pool S}
  {es : List (Call S)} {call : Call S} {p : Ptr} {j : Option S} {i : Nat}

/-- The manager as `thread_manager_init` leaves it, with the semaphores initialised, and its pool. -/
structure Initial (m : Manager S) (P : Pool S) : Prop where
  readylist : m.readylist = ⟨none, none⟩
  current : m.current = none
  memToFree : m.memToFree = none
  semaphores : ∀ s, m.semaphore s = ⟨P.count s, ⟨none, none⟩⟩
  control : m.control = .main
  pool : P = { current := none, queue := fun _ => [], count := P.count, saved := P.saved, block := m.allocated, control := .main }

/-- The manager, with the pool it is to be as calls are made. -/
def machine (S : Type) [DecidableEq S] : Machine (Manager S × Pool S) (Call S) where
  init s := Initial s.1 s.2
  step s call s' := call.Allowed s.1 ∧ call.perform s.1 = .ok s'.1 ∧ s'.2 = s.2.perform call

def properMachine (S : Type) [DecidableEq S] : Machine (Manager S × Pool S) (Call S) :=
  (machine S).restrict fun s call => call.Proper s.2

section Safety

omit [DecidableEq S] in
theorem Initial.represents (start : Initial m P) : Represents m P := by
  have current : P.current = none := by rw [start.pool]
  have queue (i : Option S) : P.queue i = [] := by rw [start.pool]
  have block : P.block = m.allocated := by rw [start.pool]
  have control : P.control = .main := by rw [start.pool]
  have dead (p : Ptr) : ¬ P.Live p := by
    rintro (runs | ⟨i, here⟩)
    · rw [current] at runs
      cases runs
    · rw [queue i] at here
      cases here
  refine ⟨⟨⟨?_, ?_, ?_⟩, ?_, ?_, fun p live => absurd live (dead p), ?_, ?_, fun p live => absurd live (dead p)⟩,
    start.current.trans current.symm, start.control.trans control.symm, ?_, fun _ => current, fun _ => start.memToFree⟩
  · intro i
    rw [queue i]
    refine ⟨?_, by simp, List.nodup_nil⟩
    cases i with
    | none =>
      show m.readylist.head = none
      rw [start.readylist]
    | some x =>
      show (m.semaphore x).queue.head = none
      rw [start.semaphores]
  · intro i j p here
    rw [queue i] at here
    cases here
  · intro i p here
    rw [queue i] at here
    cases here
  · intro p i runs
    rw [current] at runs
    cases runs
  · intro p
    rw [block]
    simp [dead p]
  · intro p none
    cases none
  · intro x
    rw [start.semaphores]
  · intro running
    rw [control] at running
    cases running

theorem represented (reached : (properMachine S).Reaches s) : Represents s.1 s.2 := by
  apply reached.invariant
  · exact fun s start => start.represents
  · rintro s call s' repr ⟨proper, allowed, performed, pool⟩
    rcases repr.perform allowed proper with ⟨m', same, repr'⟩
    rw [performed] at same
    rw [Except.ok.inj same, pool]
    exact repr'

/-- What a call makes of a manager and its pool. -/
def afterCall (s : Manager S × Pool S) (call : Call S) : Manager S × Pool S :=
  (((call.perform s.1).toOption).getD s.1, s.2.perform call)

theorem step_afterCall (repr : Represents s.1 s.2) (allowed : call.Allowed s.1) (proper : call.Proper s.2) :
    (properMachine S).step s call (afterCall s call) := by
  rcases repr.perform allowed proper with ⟨m', done, -⟩
  refine ⟨proper, allowed, ?_, rfl⟩
  show call.perform s.1 = .ok ((call.perform s.1).toOption.getD s.1)
  rw [done]
  rfl

/-- A manager with no thread, and a semaphore that no thread may pass. -/
def fresh : Manager Unit × Pool Unit :=
  (⟨fun _ => none, fun _ => ⟨0, 0, .launch⟩, fun _ => false, ⟨none, none⟩, none, none, fun _ => ⟨0, ⟨none, none⟩⟩, .main⟩,
    ⟨none, fun _ => [], fun _ => 0, fun _ => ⟨0, 0, .launch⟩, fun _ => false, .main⟩)

theorem fresh_initial : Initial fresh.1 fresh.2 := ⟨rfl, rfl, rfl, fun _ => rfl, rfl, rfl⟩

/-- Two threads are launched, and the first of them waits for the semaphore. -/
def opening : List (Call Unit) := [.launch (some 1) 7 0, .launch (some 2) 8 0, .start, .wait ()]

def opened (n : Nat) : Manager Unit × Pool Unit := (opening.take n).foldl afterCall fresh

theorem launched : (properMachine Unit).Run fresh (opening.take 2) (opened 2) := by
  have first : (properMachine Unit).Run fresh (opening.take 1) (opened 1) := by
    refine .one (step_afterCall fresh_initial.represents (.inl rfl) ⟨1, rfl, ?_, rfl⟩)
    rintro (runs | ⟨i, here⟩)
    · cases runs
    · cases here
  refine first.snoc (step_afterCall (represented ⟨_, _, fresh_initial, first⟩) (.inl rfl) ⟨2, rfl, ?_, rfl⟩)
  rintro (runs | ⟨_ | _, here⟩)
  · cases runs
  · exact absurd (List.mem_singleton.mp here) (by decide)
  · cases here

theorem started : (properMachine Unit).Run (opened 2) [.start] (opened 3) :=
  .one (step_afterCall (represented ⟨_, _, fresh_initial, launched⟩) rfl trivial)

theorem blocked : (properMachine Unit).Run (opened 3) [.wait ()] (opened 4) :=
  .one (step_afterCall (represented ⟨_, _, fresh_initial, launched.append started⟩) rfl trivial)

/-- No call dereferences a null or dangling pointer or frees a block twice: the manager does what the pool does. -/
theorem runs_safely (reached : (properMachine S).Reaches s) : Represents s.1 s.2 ∧
    ∀ call : Call S, call.Allowed s.1 → call.Proper s.2 →
      ∃ m', call.perform s.1 = .ok m' ∧ Represents m' (s.2.perform call) := by
  have repr := represented reached
  exact ⟨repr, fun _ allowed proper => repr.perform allowed proper⟩

theorem relinquish_runs : ∃ m', Manager.threadRelinquish (opened 3).1 = .ok m' ∧ m'.current = some 2 := by
  rcases (runs_safely ⟨_, _, fresh_initial, launched.append started⟩).2 .relinquish rfl trivial with ⟨m', done, repr⟩
  exact ⟨m', done, repr.current⟩

end Safety

section Order

/-- The first thread of a queue is taken out: of the ready list where the processor is handed over, and of the queue of
    a semaphore by its signal. -/
def Pool.takes (P : Pool S) : Option S → Call S → Bool
  | none, .start => true
  | none, .relinquish => true
  | none, .exit => true
  | none, .wait x => decide (P.count x ≤ 0)
  | some x, .signal y => decide (x = y)
  | _, _ => false

def Pool.turns (j : Option S) : Pool S → List (Call S) → Nat
  | _, [] => 0
  | P, call :: calls => (if P.takes j call then 1 else 0) + (P.perform call).turns j calls

def Pool.performAll (P : Pool S) (calls : List (Call S)) : Pool S := calls.foldl Pool.perform P

/-- What a queue is for: to run, or to be ready after the others that are. -/
def Pool.Served (P : Pool S) (p : Ptr) : Option S → Prop
  | none => P.current = some p
  | some _ => (P.queue none).getLast? = some p

theorem turns_snoc (P : Pool S) (es : List (Call S)) (call : Call S) :
    P.turns j (es ++ [call]) = P.turns j es + if (P.performAll es).takes j call then 1 else 0 := by
  induction es generalizing P with
  | nil => exact Nat.add_comm ..
  | cons e es ih =>
    show _ + (P.perform e).turns j (es ++ [call]) = _ + (P.perform e).turns j es + _
    rw [ih, Nat.add_assoc]
    rfl

theorem run_pool (run : (properMachine S).Run s es s') : s'.2 = s.2.performAll es := by
  induction run with
  | nil => rfl
  | snoc _ step ih =>
    rw [step.2.2.2, ih, Pool.performAll, Pool.performAll, List.foldl_append]
    rfl

theorem switch_queue (P : Pool S) (otherwise : Control) :
    (P.switch otherwise).queue = Function.update P.queue none (P.queue none).tail := by
  unfold Pool.switch
  split
  next empty =>
    rw [empty]
    show P.queue = Function.update P.queue none []
    rw [← empty, Function.update_eq_self]
  next some' =>
    rw [some']
    rfl

omit [DecidableEq S] in
theorem leave_queue (P : Pool S) (at_ : Resume) : (P.leave at_).queue = P.queue := by
  unfold Pool.leave
  split <;> rfl

omit [DecidableEq S] in
theorem leave_count (P : Pool S) (at_ : Resume) : (P.leave at_).count = P.count := by
  unfold Pool.leave
  split <;> rfl

omit [DecidableEq S] in
theorem surrender_queue (P : Pool S) (d : Option Ptr) : (P.surrender d).queue = P.queue := by
  unfold Pool.surrender
  split <;> rfl

omit [DecidableEq S] in
theorem surrender_count (P : Pool S) (d : Option Ptr) : (P.surrender d).count = P.count := by
  unfold Pool.surrender
  split <;> rfl

/-- Threads join a queue behind those that are in it, and only the first leaves it. -/
theorem step_queue (repr : Represents m P) (allowed : call.Allowed m) (proper : call.Proper P) (j : Option S) :
    ∃ joined, (P.perform call).queue j = (if P.takes j call then (P.queue j).tail else P.queue j) ++ joined := by
  have running (inThread : m.control.inThread = true) : ∃ c, P.current = some c :=
    repr.running (repr.control ▸ inThread)
  cases call with
  | launch block proc param =>
    rcases proper with ⟨p, rfl, -⟩
    cases j with
    | none => exact ⟨[p], by simp [Pool.perform, Pool.enqueue, Pool.takes]⟩
    | some x => exact ⟨[], by simp [Pool.perform, Pool.enqueue, Pool.takes]⟩
  | start =>
    unfold Pool.perform
    rw [switch_queue]
    cases j <;> exact ⟨[], by simp [Pool.takes]⟩
  | relinquish =>
    rcases running allowed with ⟨c, runs⟩
    unfold Pool.perform
    rw [runs]
    dsimp only [Pool.stop, Pool.enqueue]
    rw [switch_queue, leave_queue]
    cases j with
    | some x => exact ⟨[], by simp [Pool.takes]⟩
    | none =>
      cases ready : P.queue none with
      | nil => exact ⟨[], by simp [Pool.takes]⟩
      | cons p rest => exact ⟨[c], by simp [Pool.takes]⟩
  | exit =>
    unfold Pool.perform
    rw [switch_queue]
    cases j <;> exact ⟨[], by simp [Pool.takes, Pool.stop]⟩
  | malloc p => exact ⟨[], by cases j <;> simp [Pool.takes, Pool.perform]⟩
  | free d =>
    rcases running allowed with ⟨c, runs⟩
    unfold Pool.perform
    rw [runs]
    dsimp only [Pool.goOn]
    rw [leave_queue, surrender_queue]
    exact ⟨[], by cases j <;> simp [Pool.takes]⟩
  | check below above => exact ⟨[], by cases j <;> cases below <;> cases above <;> simp [Pool.takes, Pool.perform]⟩
  | init s v =>
    have same : (P.perform (.init s v)).queue = P.queue := by
      show Function.update P.queue (some s) [] = P.queue
      rw [← show P.queue (some s) = [] from proper, Function.update_eq_self]
    rw [same]
    exact ⟨[], by cases j <;> simp [Pool.takes]⟩
  | wait s =>
    rcases running allowed with ⟨c, runs⟩
    unfold Pool.perform
    dsimp only
    by_cases positive : 0 < P.count s
    · rw [if_pos positive]
      exact ⟨[], by cases j <;> simp [Pool.takes, positive]⟩
    · rw [if_neg positive, runs]
      dsimp only [Pool.stop, Pool.enqueue]
      rw [switch_queue, leave_queue]
      cases j with
      | none => exact ⟨[], by simp [Pool.takes, Int.not_lt.mp positive]⟩
      | some x =>
        by_cases own : x = s
        · exact ⟨[c], by simp [Pool.takes, own]⟩
        · exact ⟨[], by simp [Pool.takes, own]⟩
  | signal s =>
    unfold Pool.perform
    dsimp only
    cases waiting : P.queue (some s) with
    | nil =>
      refine ⟨[], ?_⟩
      cases j with
      | none => simp [Pool.takes]
      | some x =>
        by_cases own : x = s
        · simp [Pool.takes, own, waiting]
        · simp [Pool.takes, own]
    | cons t rest =>
      cases j with
      | none => exact ⟨[t], by simp [Pool.takes, Pool.enqueue]⟩
      | some x =>
        refine ⟨[], ?_⟩
        by_cases own : x = s
        · simp [Pool.takes, Pool.enqueue, own, waiting]
        · simp [Pool.takes, Pool.enqueue, own]

theorem switch_served {Q : Pool S} (first : (Q.queue none).head? = some p) (otherwise : Control) :
    (Q.switch otherwise).current = some p := by
  cases ready : Q.queue none with
  | nil =>
    rw [ready] at first
    cases first
  | cons r rest =>
    rw [ready] at first
    rw [switch_cons ready]
    exact first

theorem step_served (repr : Represents m P) (allowed : call.Allowed m) (takes : P.takes j call = true)
    (first : (P.queue j).head? = some p) : (P.perform call).Served p j := by
  have running (inThread : m.control.inThread = true) : ∃ c, P.current = some c :=
    repr.running (repr.control ▸ inThread)
  cases j with
  | none =>
    show (P.perform call).current = some p
    cases call with
    | start => exact switch_served first _
    | relinquish =>
      rcases running allowed with ⟨c, runs⟩
      unfold Pool.perform
      rw [runs]
      apply switch_served
      show (Function.update (P.leave .relinquish).queue none _ none).head? = some p
      rw [Function.update_self]
      show ((P.leave .relinquish).queue none ++ [c]).head? = some p
      rw [leave_queue, List.head?_append, first]
      rfl
    | exit =>
      have kept : (P.stop.queue none).head? = some p := first
      exact switch_served kept _
    | wait s =>
      rcases running allowed with ⟨c, runs⟩
      have spent : ¬ 0 < P.count s := Int.not_lt.mpr (of_decide_eq_true takes)
      unfold Pool.perform
      dsimp only
      rw [if_neg spent, runs]
      apply switch_served
      show (Function.update (P.leave .wait).queue (some s) ((P.leave .wait).queue (some s) ++ [c]) none).head? = some p
      rw [Function.update_of_ne (Option.some_ne_none s).symm, leave_queue]
      exact first
    | _ => cases takes
  | some x =>
    show ((P.perform call).queue none).getLast? = some p
    cases call with
    | signal s =>
      have same : x = s := of_decide_eq_true takes
      rw [← same]
      unfold Pool.perform
      dsimp only
      cases waiting : P.queue (some x) with
      | nil =>
        rw [waiting] at first
        cases first
      | cons t rest =>
        rw [waiting] at first
        dsimp only [Pool.enqueue]
        rw [Function.update_self, List.getLast?_append, List.getLast?_singleton]
        exact first
    | _ => cases takes

/-- First come, first served: a thread is in its place in the queue, or has been served when it was its turn. -/
theorem served_in_turn (reached : (properMachine S).Reaches s) (place : (s.2.queue j)[i]? = some p)
    (run : (properMachine S).Run s es s') :
    (s.2.turns j es ≤ i ∧ (s'.2.queue j)[i - s.2.turns j es]? = some p) ∨
      (i < s.2.turns j es ∧ ∃ before after t, es = before ++ after ∧ (properMachine S).Run s before t ∧
        (properMachine S).Run t after s' ∧ s.2.turns j before = i + 1 ∧ t.2.Served p j) := by
  induction run with
  | nil => exact .inl ⟨Nat.zero_le i, place⟩
  | @snoc t u es call run step ih =>
    rcases ih with ⟨few, here⟩ | ⟨many, before, after, w, rfl, first, second, turn, served⟩
    · rcases reached with ⟨s₀, fs, start, earlier⟩
      have repr := represented ⟨s₀, _, start, earlier.append run⟩
      rcases step with ⟨proper, allowed, performed, pool⟩
      rcases step_queue repr allowed proper j with ⟨joined, queue⟩
      have turns := turns_snoc (j := j) s.2 es call
      rw [← run_pool run] at turns
      rw [turns, pool, queue]
      by_cases takes : t.2.takes j call = true
      · rw [if_pos takes, if_pos takes]
        cases left : i - s.2.turns j es with
        | zero =>
          rw [left] at here
          refine .inr ⟨by omega, es ++ [call], [], u, (List.append_nil _).symm, run.snoc ⟨proper, allowed, performed, pool⟩,
            .nil u, ?_, ?_⟩
          · rw [turns, if_pos takes]
            omega
          · rw [pool]
            exact step_served repr allowed takes (List.head?_eq_getElem?.trans here)
        | succ n =>
          rw [left] at here
          refine .inl ⟨by omega, ?_⟩
          have less : i - (s.2.turns j es + 1) = n := by omega
          rw [less, List.getElem?_append_left, List.getElem?_tail]
          · exact here
          · have inside := (List.getElem?_eq_some_iff.mp here).1
            rw [List.length_tail]
            omega
      · rw [if_neg takes, if_neg takes, Nat.add_zero]
        refine .inl ⟨few, ?_⟩
        rw [List.getElem?_append_left]
        · exact here
        · exact (List.getElem?_eq_some_iff.mp here).1
    · refine .inr ⟨?_, before, after ++ [call], w, List.append_assoc .., first, second.snoc step, turn, served⟩
      rw [turns_snoc]
      exact Nat.lt_of_lt_of_le many (Nat.le_add_right ..)

theorem second_served : ∃ t after, (properMachine Unit).Run t after (opened 4) ∧ t.2.current = some 2 := by
  have place : ((opened 2).2.queue none)[1]? = some 2 := rfl
  rcases served_in_turn ⟨_, _, fresh_initial, launched⟩ place (started.append blocked) with
    ⟨few, -⟩ | ⟨-, -, after, t, -, -, rest, -, served⟩
  · exact absurd few (by decide)
  · exact ⟨t, after, rest, served⟩

end Order

section Semaphores

variable {x : S} {v : Int}

def Call.waits (x : S) : Call S → Bool
  | .wait y => decide (x = y)
  | _ => false

def Call.signals (x : S) : Call S → Bool
  | .signal y => decide (x = y)
  | _ => false

def Call.inits (x : S) : Call S → Bool
  | .init y _ => decide (x = y)
  | _ => false

/-- What is left for those that are still to wait, or are waiting. -/
structure Pool.Account (P : Pool S) (x : S) (v : Int) : Prop where
  balance : P.count x - (P.queue (some x)).length = v
  spent : P.queue (some x) ≠ [] → P.count x = 0
  nonneg : 0 ≤ P.count x

theorem switch_count (P : Pool S) (otherwise : Control) : (P.switch otherwise).count = P.count := by
  unfold Pool.switch
  split <;> rfl

theorem step_elsewhere (repr : Represents m P) (allowed : call.Allowed m) (init : call.inits x = false)
    (wait : call.waits x = false) (signal : call.signals x = false) :
    (P.perform call).count x = P.count x ∧ (P.perform call).queue (some x) = P.queue (some x) := by
  have running (inThread : m.control.inThread = true) : ∃ c, P.current = some c :=
    repr.running (repr.control ▸ inThread)
  cases call with
  | launch block proc param => cases block <;> simp [Pool.perform, Pool.enqueue]
  | start => simp [Pool.perform, switch_count, switch_queue]
  | relinquish =>
    rcases running allowed with ⟨c, runs⟩
    simp [Pool.perform, runs, switch_count, switch_queue, Pool.enqueue, Pool.stop, leave_count, leave_queue]
  | exit => simp [Pool.perform, switch_count, switch_queue, Pool.stop]
  | malloc p => simp [Pool.perform]
  | free d =>
    rcases running allowed with ⟨c, runs⟩
    simp [Pool.perform, runs, Pool.goOn, leave_count, leave_queue, surrender_count, surrender_queue]
  | check below above => cases below <;> cases above <;> simp [Pool.perform]
  | init y v =>
    have other : x ≠ y := of_decide_eq_false init
    simp [Pool.perform, other]
  | wait y =>
    rcases running allowed with ⟨c, runs⟩
    have other : x ≠ y := of_decide_eq_false wait
    by_cases positive : 0 < P.count y
    · simp [Pool.perform, positive, other]
    · simp [Pool.perform, positive, runs, switch_count, switch_queue, Pool.enqueue, Pool.stop, leave_count, leave_queue, other]
  | signal y =>
    have other : x ≠ y := of_decide_eq_false signal
    cases waiting : P.queue (some y) with
    | nil => simp [Pool.perform, waiting, other]
    | cons t rest => simp [Pool.perform, waiting, Pool.enqueue, other]

theorem Pool.Account.wait (account : P.Account x v) (running : ∃ c, P.current = some c) :
    (P.perform (.wait x)).Account x (v - 1) := by
  have balance := account.balance
  have nonneg := account.nonneg
  rcases running with ⟨c, runs⟩
  by_cases positive : 0 < P.count x
  · have count : (P.perform (.wait x)).count x = P.count x - 1 := by simp [Pool.perform, positive]
    have queue : (P.perform (.wait x)).queue = P.queue := by simp [Pool.perform, positive]
    refine ⟨?_, ?_, ?_⟩
    · rw [count, queue]
      omega
    · intro some'
      rw [queue] at some'
      have := account.spent some'
      omega
    · rw [count]
      omega
  · have count : (P.perform (.wait x)).count x = P.count x := by
      simp [Pool.perform, positive, runs, switch_count, Pool.enqueue, Pool.stop, leave_count]
    have queue : (P.perform (.wait x)).queue (some x) = P.queue (some x) ++ [c] := by
      simp [Pool.perform, positive, runs, switch_queue, Pool.enqueue, Pool.stop, leave_queue]
    refine ⟨?_, ?_, ?_⟩
    · rw [count, queue, List.length_append]
      simp only [List.length_singleton, Nat.cast_add, Nat.cast_one]
      omega
    · intro
      rw [count]
      omega
    · rw [count]
      exact nonneg

theorem Pool.Account.signal (account : P.Account x v) : (P.perform (.signal x)).Account x (v + 1) := by
  have balance := account.balance
  have nonneg := account.nonneg
  cases waiting : P.queue (some x) with
  | nil =>
    have count : (P.perform (.signal x)).count x = P.count x + 1 := by simp [Pool.perform, waiting]
    have queue : (P.perform (.signal x)).queue (some x) = [] := by simp [Pool.perform, waiting]
    rw [waiting, List.length_nil] at balance
    refine ⟨?_, fun some' => absurd queue some', ?_⟩
    · rw [count, queue, List.length_nil]
      omega
    · rw [count]
      omega
  | cons t rest =>
    have count : (P.perform (.signal x)).count x = P.count x := by simp [Pool.perform, waiting, Pool.enqueue]
    have queue : (P.perform (.signal x)).queue (some x) = rest := by simp [Pool.perform, waiting, Pool.enqueue]
    have spent := account.spent (by simp [waiting])
    rw [waiting, List.length_cons] at balance
    refine ⟨?_, fun _ => count.trans spent, ?_⟩
    · rw [count, queue]
      omega
    · rw [count]
      exact nonneg

theorem Pool.Account.step (account : P.Account x v) (repr : Represents m P) (allowed : call.Allowed m)
    (init : call.inits x = false) : (P.perform call).Account x
      (v + (if call.signals x then 1 else 0) - (if call.waits x then 1 else 0)) := by
  by_cases waits : call.waits x = true
  · cases call with
    | wait y =>
      have same : x = y := of_decide_eq_true waits
      rw [← same]
      have next := account.wait (repr.running (repr.control ▸ allowed))
      simpa [Call.waits, Call.signals] using next
    | _ => cases waits
  · by_cases signals : call.signals x = true
    · cases call with
      | signal y =>
        have same : x = y := of_decide_eq_true signals
        rw [← same]
        simpa [Call.waits, Call.signals] using account.signal
      | _ => cases signals
    · rcases step_elsewhere repr allowed init (by simpa using waits) (by simpa using signals) with ⟨count, queue⟩
      rw [if_neg waits, if_neg signals, Int.add_zero, Int.sub_zero]
      refine ⟨?_, ?_, ?_⟩
      · rw [count, queue]
        exact account.balance
      · rw [count, queue]
        exact account.spent
      · rw [count]
        exact account.nonneg

theorem run_account (reached : (properMachine S).Reaches s) (account : s.2.Account x v)
    (run : (properMachine S).Run s es s') (inits : ∀ call ∈ es, call.inits x = false) :
    s'.2.Account x (v + es.countP (Call.signals x) - es.countP (Call.waits x)) := by
  induction run with
  | nil => simpa using account
  | @snoc t u es call run step ih =>
    rcases reached with ⟨s₀, fs, start, earlier⟩
    have repr := represented ⟨s₀, _, start, earlier.append run⟩
    rcases step with ⟨-, allowed, -, pool⟩
    have before := ih fun call here => inits call (List.mem_append_left _ here)
    have next := before.step repr allowed (inits call (by simp))
    rw [pool, List.countP_append, List.countP_append, List.countP_singleton, List.countP_singleton]
    convert next using 1
    simp only [Nat.cast_add, Nat.cast_ite, Nat.cast_one, Nat.cast_zero]
    omega

/-- As many waits come through as the count and the signals pay for, and the others wait. -/
theorem waits_paid (reached : (properMachine S).Reaches s) (idle : (s.1.semaphore x).queue.head = none)
    (nonneg : 0 ≤ (s.1.semaphore x).count) (run : (properMachine S).Run s es s') (inits : ∀ call ∈ es, call.inits x = false) :
    let left := (s.1.semaphore x).count + es.countP (Call.signals x) - es.countP (Call.waits x)
    (s'.1.semaphore x).count = max 0 left ∧
      ∃ waiting, Fifo.Holds s'.1.next (s'.1.semaphore x).queue waiting ∧ (waiting.length : Int) = max 0 (-left) := by
  intro left
  have repr := represented reached
  have empty : s.2.queue (some x) = [] := (repr.core.queued.holds (some x)).eq_nil idle
  rw [repr.core.count] at nonneg
  have account : s.2.Account x (s.2.count x) := ⟨by simp [empty], fun some' => absurd empty some', nonneg⟩
  rcases reached with ⟨s₀, fs, start, earlier⟩
  have repr' := represented ⟨s₀, _, start, earlier.append run⟩
  have after := run_account ⟨s₀, fs, start, earlier⟩ account run inits
  rw [← repr.core.count] at after
  have balance : s'.2.count x - (s'.2.queue (some x)).length = left := after.balance
  have nonneg' := after.nonneg
  refine ⟨?_, s'.2.queue (some x), repr'.core.queued.holds (some x), ?_⟩
  · rw [repr'.core.count]
    by_cases waiting : s'.2.queue (some x) = []
    · rw [waiting, List.length_nil] at balance
      omega
    · rw [after.spent waiting] at balance ⊢
      omega
  · by_cases waiting : s'.2.queue (some x) = []
    · rw [waiting, List.length_nil] at balance ⊢
      omega
    · rw [after.spent waiting] at balance
      omega

theorem wait_unpaid : ∃ waiting, Fifo.Holds (opened 4).1.next ((opened 4).1.semaphore ()).queue waiting ∧
    waiting.length = 1 := by
  have run := (launched.append started).append blocked
  rcases (waits_paid (x := ()) ⟨_, _, fresh_initial, .nil _⟩ rfl (by decide) run (by decide)).2 with ⟨waiting, holds, length⟩
  exact ⟨waiting, holds, Int.ofNat.inj (length.trans rfl)⟩

end Semaphores

end Linux011.Threads

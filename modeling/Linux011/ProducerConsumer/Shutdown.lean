import Linux011.ProducerConsumer.Delivery

namespace Linux011.ProducerConsumer

open Linux011.Library

variable {c : Config}

/-- `main` and all its children have returned. -/
def State.Finished (s : State c) : Prop :=
  s.producer.pc = .done ∧ ∀ n, (s.consumers n).pc = .done ∨ (s.consumers n).pc = .reaped

instance (s : State c) : Decidable s.Finished := inferInstanceAs (Decidable (_ ∧ _))

/-- There is no deadlock, and at the end all items are consumed and no token is left over. -/
structure Shutdown (c : Config) (es : List Event) (s : State c) : Prop where
  live : ¬ s.Finished → ∃ e t, (pcMachine c).step s e t
  clean : s.Finished → (consumptions es).length = c.maxDataNumber.toNat ∧
    s.shared.bufferMutex = 1 ∧ s.shared.full = 0

/-- A consumer that cannot take its next step waits for a token, or is not running. -/
inductive Consumer.Blocked (m : Shared) (p : Consumer) : Prop
  | full (pc : p.pc = .waitFull) (none : m.full = 0)
  | mutex (pc : p.pc = .waitMutex) (none : m.bufferMutex = 0)
  | unborn (pc : p.pc = .unborn)
  | gone (pc : p.pc = .done ∨ p.pc = .reaped)

inductive Producer.Blocked (c : Config) (m : Shared) (p : Producer) : Prop
  | empty (pc : p.pc = .waitEmpty) (more : p.data < c.maxDataNumber) (none : m.empty = 0)
  | mutex (pc : p.pc = .waitMutex) (none : m.bufferMutex = 0)
  | waiting (pc : p.pc = .waitpid)
  | gone (pc : p.pc = .done)

theorem semWait_none {value : Nat} (blocked : semWait value = none) : value = 0 := by
  cases value with
  | zero => rfl
  | succ n => cases blocked

theorem consumer_blocked {m : Shared} {p : Consumer} (stuck : consumerStep c m p = none) :
    p.Blocked m := by
  revert stuck
  fun_cases consumerStep c m p
  all_goals
    intro stuck
    simp only [Option.map_eq_none_iff, reduceCtorEq] at stuck
  case case1 pc _ => exact .full pc (semWait_none stuck)
  case case3 pc => exact .mutex pc (semWait_none stuck)
  case case16 pc => exact .unborn pc
  case case17 pc => exact .gone (.inl pc)
  case case18 pc => exact .gone (.inr pc)

theorem main_blocked {s : State c} (stuck : mainStep c s = none) :
    s.producer.Blocked c s.shared ∧
      (s.producer.pc = .waitpid → ¬ ∀ n, (s.consumers n).pc = .reaped) := by
  revert stuck
  fun_cases mainStep c s
  all_goals
    intro stuck
    simp only [Option.map_eq_none_iff, reduceCtorEq] at stuck
  case case4 waiting some_left =>
    exact ⟨.waiting waiting, fun _ => some_left⟩
  case case5 notFork notWait =>
    refine ⟨?_, fun waiting => absurd waiting notWait⟩
    revert stuck
    fun_cases producerStep c s.shared s.producer
    all_goals
      intro stuck
      simp only [Option.map_eq_none_iff, reduceCtorEq] at stuck
    case case1 pc more => exact .empty pc more (semWait_none stuck)
    case case3 pc => exact .mutex pc (semWait_none stuck)
    case case9 pc => exact absurd pc notFork
    case case10 pc => exact absurd pc notWait
    case case11 pc => exact .gone pc

theorem Consumer.Blocked.outside {m : Shared} {p : Consumer} (blocked : p.Blocked m) :
    p.pc.critical = 0 ∧ p.pc.unreturned = 0 ∧ p.pc.storing = 0 := by
  rcases blocked with ⟨pc⟩ | ⟨pc⟩ | ⟨pc⟩ | ⟨pc | pc⟩ <;> rw [pc] <;> exact ⟨rfl, rfl, rfl⟩

theorem Producer.Blocked.outside {m : Shared} {p : Producer} (blocked : p.Blocked c m) :
    p.pc.critical = 0 ∧ p.pc ≠ .fork := by
  rcases blocked with ⟨pc⟩ | ⟨pc⟩ | ⟨pc⟩ | ⟨pc⟩ <;> rw [pc] <;> exact ⟨rfl, nofun⟩

structure Stuck (s : State c) : Prop where
  main : mainStep c s = none
  child : ∀ n, consumerStep c s.shared (s.consumers n) = none
  reap : ∀ n, reapStep c s n = none

theorem stuck_of_no_step {s : State c} (none : ¬ ∃ e t, (pcMachine c).step s e t) : Stuck s := by
  have no_act (act : Act c) : actStep c s act = .none := by
    apply Option.eq_none_iff_forall_ne_some.mpr
    intro (t, e) step
    exact none ⟨e, t, act, step⟩
  constructor
  · exact no_act .main
  · intro n
    exact Option.map_eq_none_iff.mp (no_act (.child n))
  · exact fun n => no_act (.reap n)

namespace Stuck

variable {s : State c} {items : Nat}

/-- Nobody is inside the critical section, so only the tokens of `full` can be missing. -/
theorem waits_full (stuck : Stuck s) (inv : Invariant c items s) (n : Fin c.childNumber.toNat) :
    (s.consumers n).pc = .waitFull ∧ s.shared.full = 0 ∨
      (s.consumers n).pc = .done ∨ (s.consumers n).pc = .reaped := by
  have producer := (main_blocked stuck.main).1.outside
  have idle : total (·.pc.critical) s.consumers = 0 :=
    (total_eq_zero_iff _ _).mpr fun k => (consumer_blocked (stuck.child k)).outside.1
  have mutex := inv.mutex
  rcases consumer_blocked (stuck.child n) with ⟨pc, none⟩ | ⟨pc, none⟩ | ⟨pc⟩ | ⟨gone⟩
  · exact .inl ⟨pc, none⟩
  · omega
  · have late := (inv.unborn n).mp pc
    have all : c.childNumber.toNat ≤ s.producer.i.toNat := inv.forked producer.2
    omega
  · exact .inr gone

/-- While items are left, every consumer waits on `full`, and no token is there. -/
theorem all_wait (stuck : Stuck s) (inv : Invariant c items s) (more : s.shared.pos c < c.maxDataNumber)
    (n : Fin c.childNumber.toNat) : (s.consumers n).pc = .waitFull ∧ s.shared.full = 0 := by
  rcases stuck.waits_full inv n with wait | gone
  · exact wait
  · have ready := inv.consumers n
    unfold Consumer.Ready at ready
    rcases gone with pc | pc
    all_goals
      simp only [pc] at ready
      rw [ready] at more
      exact absurd more (BitVec.lt_irrefl _)

theorem no_tokens (stuck : Stuck s) (inv : Invariant c items s)
    (more : s.shared.pos c < c.maxDataNumber) : items = s.producer.data.toNat ∧ (s.shared.pos c).toNat = items := by
  have some_child : 0 < c.childNumber.toNat := c.someChild
  have none : total (·.tokens c) s.consumers = 0 := by
    apply (total_eq_zero_iff _ _).mpr
    intro n
    simp only [Consumer.tokens, (stuck.all_wait inv more n).1]
  have idle : total (·.pc.storing) s.consumers = 0 :=
    (total_eq_zero_iff _ _).mpr fun k => (consumer_blocked (stuck.child k)).outside.2.2
  have empty := (stuck.all_wait inv more ⟨0, some_child⟩).2
  have full := inv.full
  have position := inv.position
  rw [spare_eq more] at full
  omega

/-- The producer does not wait for a place: the ring would be full of items nobody takes. -/
theorem not_empty (stuck : Stuck s) (inv : Invariant c items s) (pc : s.producer.pc = .waitEmpty)
    (less : s.producer.data < c.maxDataNumber) (none : s.shared.empty = 0) : False := by
  have left : s.producer.data.toNat < c.maxDataNumber.toNat := less
  have behind := inv.behind
  have position := inv.position
  have more : s.shared.pos c < c.maxDataNumber := by
    apply BitVec.lt_def.mpr
    omega
  have all := (stuck.no_tokens inv more).1
  have owed : total (·.pc.unreturned) s.consumers = 0 :=
    (total_eq_zero_iff _ _).mpr fun k => (consumer_blocked (stuck.child k)).outside.2.1
  have room := inv.empty
  have started : s.producer.started = s.producer.data.toNat := by rw [Producer.started, pc]; rfl
  have some_slot : 0 < c.bufferSize.toNat := c.someSlot
  rw [finished_eq more] at room
  omega

/-- With all items produced, the tokens of the last consumer let every other one go. -/
theorem all_gone (stuck : Stuck s) (inv : Invariant c items s) (produced : s.producer.data = c.maxDataNumber)
    (n : Fin c.childNumber.toNat) : (s.consumers n).pc = .done ∨ (s.consumers n).pc = .reaped := by
  rcases stuck.waits_full inv n with ⟨waiting, none⟩ | gone
  · exfalso
    have idle : total (·.pc.storing) s.consumers = 0 :=
      (total_eq_zero_iff _ _).mpr fun k => (consumer_blocked (stuck.child k)).outside.2.2
    have position := inv.position
    by_cases last : s.shared.pos c = c.maxDataNumber
    · have light (k : Fin c.childNumber.toNat) : (s.consumers k).tokens c ≤ 1 := by
        rcases stuck.waits_full inv k with ⟨pc, _⟩ | pc | pc <;> simp [Consumer.tokens, pc]
      have short := total_lt_card (·.tokens c) s.consumers light (i := n)
        (by simp only [Consumer.tokens, waiting])
      have full := inv.full
      rw [Fintype.card_fin] at short
      rw [Shared.spare, if_pos last, produced] at full
      rw [last] at position
      omega
    · have more : s.shared.pos c < c.maxDataNumber := BitVec.lt_of_le_ne inv.bounded last
      have all := stuck.no_tokens inv more
      rw [produced] at all
      apply last
      apply BitVec.eq_of_toNat_eq
      omega
  · exact gone

theorem finished (stuck : Stuck s) (inv : Invariant c items s) : s.Finished := by
  obtain ⟨blocked, left⟩ := main_blocked stuck.main
  have ready := inv.producer
  unfold Producer.Ready at ready
  rcases blocked with ⟨pc, more, none⟩ | ⟨pc, none⟩ | ⟨pc⟩ | ⟨pc⟩
  · exact absurd none (fun none => stuck.not_empty inv pc more none)
  · have idle : total (·.pc.critical) s.consumers = 0 :=
      (total_eq_zero_iff _ _).mpr fun k => (consumer_blocked (stuck.child k)).outside.1
    have mutex := inv.mutex
    rw [pc, idle, none] at mutex
    cases mutex
  · simp only [pc] at ready
    exfalso
    apply left pc
    intro n
    rcases stuck.all_gone inv ready n with returned | reaped
    · have reap := stuck.reap n
      rw [reapStep, if_pos ⟨pc, returned⟩] at reap
      cases reap
    · exact reaped
  · exact ⟨pc, fun n => .inr (inv.reaped pc n)⟩

end Stuck

theorem finished_clean {s : State c} {items : Nat} (inv : Invariant c items s) (done : s.Finished) :
    items = c.maxDataNumber.toNat ∧ s.shared.bufferMutex = 1 ∧ s.shared.full = 0 := by
  obtain ⟨pc, children⟩ := done
  have some_child : 0 < c.childNumber.toNat := c.someChild
  have idle : total (·.pc.critical) s.consumers = 0 := by
    apply (total_eq_zero_iff _ _).mpr
    intro n
    rcases children n with pc | pc <;> rw [pc] <;> rfl
  have stored : total (·.pc.storing) s.consumers = 0 := by
    apply (total_eq_zero_iff _ _).mpr
    intro n
    rcases children n with pc | pc <;> rw [pc] <;> rfl
  have tokens : total (·.tokens c) s.consumers = c.childNumber.toNat := by
    rw [total_ones, Fintype.card_fin]
    intro n
    rcases children n with pc | pc <;> simp only [Consumer.tokens, pc]
  have last : s.shared.pos c = c.maxDataNumber := by
    have ready := inv.consumers ⟨0, some_child⟩
    unfold Consumer.Ready at ready
    rcases children ⟨0, some_child⟩ with pc | pc <;> simpa only [pc] using ready
  have produced : s.producer.data = c.maxDataNumber := by
    have ready := inv.producer
    simp only [Producer.Ready, pc] at ready
    exact ready
  have mutex := inv.mutex
  have full := inv.full
  have position := inv.position
  rw [pc, show ProducerPc.done.critical = 0 from rfl] at mutex
  rw [Shared.spare, if_pos last, produced] at full
  rw [last] at position
  omega

theorem shuts_down (fits : c.Fits) {s₀ s : State c} {es : List Event} (initial : (pcMachine c).init s₀)
    (run : (pcMachine c).Run s₀ es s) : Shutdown c es s := by
  have inv := (run_account fits initial run).invariant
  constructor
  · intro unfinished
    apply Classical.byContradiction
    intro none
    exact unfinished ((stuck_of_no_step none).finished inv)
  · exact finished_clean inv

def pairConfig : Config where
  childNumber := 2
  bufferSize := 1
  maxDataNumber := 2
  someChild := two_positive
  someSlot := one_positive
  someData := two_positive

/-- Each child takes one item; the second one ends the first. -/
def pairSchedule : List (Act pairConfig) :=
  List.replicate 10 .main ++ List.replicate 11 (.child ⟨0, by decide⟩) ++ List.replicate 7 .main ++
    List.replicate 11 (.child ⟨1, by decide⟩) ++ List.replicate 5 (.child ⟨0, by decide⟩) ++
    [.main, .reap ⟨1, by decide⟩, .reap ⟨0, by decide⟩, .main]

theorem pair_shuts_down : ∃ es s, (pcMachine pairConfig).Run (initialState pairConfig fun _ => 7) es s ∧
    s.Finished ∧ Shutdown pairConfig es s := by
  have ran : (exec pairConfig (initialState pairConfig fun _ => 7) pairSchedule).map
      (fun r => decide r.1.Finished) = some true := by decide +kernel
  rw [Option.map_eq_some_iff] at ran
  obtain ⟨⟨s, es⟩, ends, finished⟩ := ran
  exact ⟨es, s, exec_run ends, of_decide_eq_true finished,
    shuts_down (by decide) ⟨_, rfl⟩ (exec_run ends)⟩

/-- The schedule goes on until everybody has returned. -/
theorem wide_ring_loses_item :
    ∃ es s, (pcMachine wideConfig).Run (initialState wideConfig fun _ => 0) es s ∧
      s.Finished ∧ (consumptions es).length = 1 ∧ s.shared.full = 1 ∧ ¬ Shutdown wideConfig es s := by
  have ran : (exec wideConfig (initialState wideConfig fun _ => 0)
        (wideSchedule ++ [.child ⟨0, by decide⟩, .main, .reap ⟨0, by decide⟩, .main])).map
      (fun r => (decide r.1.Finished, (consumptions r.2).length, r.1.shared.full)) =
        some (true, 1, 1) := by decide +kernel
  rw [Option.map_eq_some_iff] at ran
  obtain ⟨⟨s, es⟩, ends, all⟩ := ran
  simp only [Prod.mk.injEq, decide_eq_true_eq] at all
  obtain ⟨finished, items, full⟩ := all
  refine ⟨es, s, exec_run ends, finished, items, full, ?_⟩
  intro shutdown
  have both := (shutdown.clean finished).1
  rw [items] at both
  cases both

end Linux011.ProducerConsumer

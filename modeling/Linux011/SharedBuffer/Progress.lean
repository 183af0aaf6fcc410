import Linux011.SharedBuffer.Consumer

namespace Linux011.SharedBuffer

open Linux011.Library Linux011.Mm Linux011.Semaphore

variable {c : Config} {m : Registry} {page : Nat} {s t : State} {malloc : Malloc} {k : Kernel}

/-- The producer is in a `sem_wait` and there is no token. -/
inductive Producer.Blocked (c : Config) (p : Producer) (q : Consumer) : Prop
  | empty (pc : p.pc = .loop .waitEmpty) (more : p.item < c.maxData) (none : Balanced c p q .empty 0)
  | mutex (pc : p.pc = .loop .waitMutex) (none : Balanced c p q .bufferMutex 0)

inductive Consumer.Blocked (c : Config) (q : Consumer) (p : Producer) : Prop
  | full (pc : q.pc = .loop .waitFull) (none : Balanced c p q .full 0)
  | mutex (pc : q.pc = .loop .waitMutex) (none : Balanced c p q .bufferMutex 0)

section Enabled

variable {Loop : Type} {p : Process Loop} {n : SemName}

theorem semOpenStep_returns (represents : Represents k.heap m) : ∃ r, semOpenStep c k p n none = some r := by
  have nothing : MallocOk k.heap none := nofun
  obtain ⟨h, returned, _⟩ := sysSemOpen_refines represents n.literal (n.value c) nothing nofun
  rw [semOpenStep, returned]
  exact ⟨_, rfl⟩

theorem waitStep_returns {place : Loop} {a : Nat} {v : BitVec 32} (represents : Represents k.heap m)
    (holds : p.sems n = .block a) (entry : m n.bytes = some (a, v)) (token : v ≠ 0) :
    ∃ r, waitStep k p n place = some r := by
  have value := (represents_value represents entry).1
  rw [waitStep, holds, semWait, value, if_neg token]
  exact ⟨_, rfl⟩

end Enabled

namespace Invariant

theorem producer_moves (inv : Invariant c m page s) :
    s.producer.pc = .done ∨ s.producer.Blocked c s.consumer ∨
      ∃ r, producerStep c s.kernel s.producer none = some r := by
  cases pc : s.producer.pc with
  | semOpen n =>
    refine .inr (.inr ?_)
    simp only [producerStep, pc]
    exact semOpenStep_returns inv.represents
  | shmget | shmat =>
    refine .inr (.inr ?_)
    simp only [producerStep, pc]
    exact ⟨_, rfl⟩
  | loop place =>
    cases place with
    | waitEmpty =>
      by_cases more : s.producer.item < c.maxData
      · obtain ⟨a, v, holds, entry, balanced⟩ := inv.producer_entry (n := .empty) more (by rw [pc]; rfl)
        by_cases token : v = 0
        · rw [token] at balanced
          exact .inr (.inl (.empty pc more balanced))
        · refine .inr (.inr ?_)
          simp only [producerStep, pc, if_pos more]
          exact waitStep_returns inv.represents holds entry token
      · refine .inr (.inr ?_)
        simp only [producerStep, pc, if_neg more]
        exact ⟨_, rfl⟩
    | waitMutex =>
      have placed := inv.producer
      simp only [Producer.Placed, pc] at placed
      obtain ⟨a, v, holds, entry, balanced⟩ := inv.producer_entry (n := .bufferMutex) placed.2 (by rw [pc]; rfl)
      by_cases token : v = 0
      · rw [token] at balanced
        exact .inr (.inl (.mutex pc balanced))
      · refine .inr (.inr ?_)
        simp only [producerStep, pc]
        exact waitStep_returns inv.represents holds entry token
    | store =>
      refine .inr (.inr ?_)
      simp only [producerStep, pc, (inv.producer_stores pc).1]
      exact ⟨_, rfl⟩
    | postMutex | postFull =>
      refine .inr (.inr ?_)
      simp only [producerStep, pc]
      exact ⟨_, rfl⟩
  | exit =>
    obtain ⟨memory, left, _⟩ := inv.producer_frees pc
    refine .inr (.inr ?_)
    simp only [producerStep, pc]
    exact ⟨_, left⟩
  | done => exact .inl rfl

theorem consumer_moves (inv : Invariant c m page s) :
    s.consumer.pc = .done ∨ s.consumer.Blocked c s.producer ∨
      ∃ r, consumerStep c s.kernel s.consumer none = some r := by
  cases pc : s.consumer.pc with
  | semOpen n =>
    refine .inr (.inr ?_)
    simp only [consumerStep, pc]
    exact semOpenStep_returns inv.represents
  | shmget | shmat =>
    refine .inr (.inr ?_)
    simp only [consumerStep, pc]
    exact ⟨_, rfl⟩
  | loop place =>
    cases place with
    | waitFull =>
      have placed := inv.consumer
      simp only [Consumer.Placed, pc] at placed
      obtain ⟨a, v, holds, entry, balanced⟩ := inv.consumer_entry (n := .full) (by rw [pc]; rfl) (by rw [pc]; rfl)
      by_cases token : v = 0
      · rw [token] at balanced
        exact .inr (.inl (.full pc balanced))
      · refine .inr (.inr ?_)
        simp only [consumerStep, pc, BitVec.lt_def, if_pos placed.2]
        exact waitStep_returns inv.represents holds entry token
    | waitMutex =>
      obtain ⟨a, v, holds, entry, balanced⟩ := inv.consumer_entry (n := .bufferMutex) (by rw [pc]; rfl) (by rw [pc]; rfl)
      by_cases token : v = 0
      · rw [token] at balanced
        exact .inr (.inl (.mutex pc balanced))
      · refine .inr (.inr ?_)
        simp only [consumerStep, pc]
        exact waitStep_returns inv.represents holds entry token
    | load =>
      refine .inr (.inr ?_)
      simp only [consumerStep, pc, (inv.consumer_loads pc).1]
      exact ⟨_, rfl⟩
    | postMutex | postEmpty =>
      refine .inr (.inr ?_)
      simp only [consumerStep, pc]
      exact ⟨_, rfl⟩
    | unlink n =>
      obtain ⟨heap, m', unlinked, _⟩ := inv.consumer_unlinks pc
      refine .inr (.inr ?_)
      simp only [consumerStep, pc, unlinked]
      exact ⟨_, rfl⟩
  | exit =>
    obtain ⟨k, p, left, _⟩ := inv.consumer_exits pc
    refine .inr (.inr ?_)
    simp only [consumerStep, pc]
    exact ⟨_, left⟩
  | done => exact .inl rfl

theorem exited_posted (inv : Invariant c m page s) (exited : s.consumer.pc = .done) :
    c.maxData.toNat ≤ s.producer.item.toNat := by
  have placed := inv.consumer
  have behind := inv.behind
  simp only [Consumer.Placed, exited] at placed
  simp only [Consumer.begun, exited] at behind
  rw [placed.2] at placed
  omega

theorem consumer_unblocked (inv : Invariant c m page s) (exited : s.producer.pc = .done) :
    ¬ s.consumer.Blocked c s.producer := by
  have placed := inv.producer
  have placed' := inv.consumer
  simp only [Producer.Placed, exited] at placed
  rintro (⟨pc, none⟩ | ⟨pc, none⟩)
  · simp only [Consumer.Placed, pc] at placed'
    simp only [Balanced, Consumer.begun, pc, placed.2] at none
    omega
  · simp only [Balanced, Producer.critical, exited, Consumer.critical, pc] at none
    omega

theorem never_both (inv : Invariant c m page s) (blocked : s.producer.Blocked c s.consumer) :
    ¬ (s.consumer.pc = .done ∨ s.consumer.Blocked c s.producer) := by
  have placed := inv.producer
  have slots : 0 < c.bufferSize.toNat := c.someSlot
  rintro (exited | blocked')
  · have posted := inv.exited_posted exited
    cases blocked with
    | empty pc more none => exact absurd more (Nat.not_lt.mpr posted)
    | mutex pc none =>
      simp only [Producer.Placed, pc] at placed
      omega
  · cases blocked with
    | empty pc more none =>
      simp only [Balanced, Producer.begun, pc] at none
      cases blocked' with
      | full pc' none' =>
        simp only [Balanced, Consumer.begun, pc'] at none'
        omega
      | mutex pc' none' =>
        simp only [Balanced, Producer.critical, pc, Consumer.critical, pc'] at none'
        omega
    | mutex pc none =>
      cases blocked' with
      | full pc' _ | mutex pc' _ =>
        simp only [Balanced, Producer.critical, pc, Consumer.critical, pc'] at none
        omega

theorem unblocked (inv : Invariant c m page s) (unfinished : ¬ (s.producer.pc = .done ∧ s.consumer.pc = .done)) :
    ∃ e t, perform c s e = some t := by
  have give : Heap.CanGive s.kernel.heap none := nofun
  rcases inv.producer_moves with exited | blocked | ⟨r, step⟩
  · rcases inv.consumer_moves with exited' | blocked | ⟨r, step⟩
    · exact absurd ⟨exited, exited'⟩ unfinished
    · exact absurd blocked (inv.consumer_unblocked exited)
    · exact ⟨.consumer none, _, by simp only [perform, Event.malloc, if_pos give, step]; rfl⟩
  · have still := inv.never_both blocked
    rcases inv.consumer_moves with exited' | blocked' | ⟨r, step⟩
    · exact absurd (.inl exited') still
    · exact absurd (.inr blocked') still
    · exact ⟨.consumer none, _, by simp only [perform, Event.malloc, if_pos give, step]; rfl⟩
  · exact ⟨.producer none, _, by simp only [perform, Event.malloc, if_pos give, step]; rfl⟩

end Invariant

def SemName.rank : SemName → Nat
  | bufferMutex => 0
  | empty => 1
  | full => 2

def Producer.steps (p : Producer) : Nat :=
  match p.pc with
  | .semOpen n => n.rank
  | .shmget => 3
  | .shmat => 4
  | .loop .waitEmpty => 5 + 5 * p.item.toNat
  | .loop .waitMutex => 6 + 5 * p.item.toNat
  | .loop .store => 7 + 5 * p.item.toNat
  | .loop .postMutex => 8 + 5 * p.item.toNat
  | .loop .postFull => 9 + 5 * p.item.toNat
  | .exit => 6 + 5 * p.item.toNat
  | .done => 7 + 5 * p.item.toNat

def Consumer.steps (p : Consumer) : Nat :=
  match p.pc with
  | .semOpen n => n.rank
  | .shmget => 3
  | .shmat => 4
  | .loop .waitFull => 5 + 5 * p.item.toNat
  | .loop .waitMutex => 6 + 5 * p.item.toNat
  | .loop .load => 7 + 5 * p.item.toNat
  | .loop .postMutex => 8 + 5 * p.item.toNat
  | .loop .postEmpty => 9 + 5 * p.item.toNat
  | .loop (.unlink n) => 8 + n.rank + 5 * p.item.toNat
  | .exit => 11 + 5 * p.item.toNat
  | .done => 12 + 5 * p.item.toNat

section Counting

variable {Loop : Type} {k' : Kernel} {p p' : Process Loop} {n : SemName}

theorem semOpenStep_cases {malloc : Malloc} (step : semOpenStep c k p n malloc = some (k', p')) :
    (p'.item = p.item ∧ p'.pos = p.pos) ∧ (p'.pc = .exit ∨ p'.pc = n.opened) := by
  obtain ⟨⟨h, result⟩, _, same⟩ := Option.map_eq_some_iff.mp step
  cases result with
  | ok sem =>
    cases same
    exact ⟨⟨rfl, rfl⟩, .inr rfl⟩
  | error =>
    cases same
    exact ⟨⟨rfl, rfl⟩, .inl rfl⟩

theorem shmgetStep_cases (step : shmgetStep c k p = (k', p')) :
    (p'.item = p.item ∧ p'.pos = p.pos) ∧ (p'.pc = .exit ∨ p'.pc = .shmat) := by
  unfold shmgetStep at step
  dsimp only at step
  split at step
  · cases step
    exact ⟨⟨rfl, rfl⟩, .inl rfl⟩
  · cases step
    exact ⟨⟨rfl, rfl⟩, .inr rfl⟩

theorem shmatStep_cases {start : Loop} (step : shmatStep k p start = (k', p')) :
    (p'.item = p.item ∧ p'.pos = p.pos) ∧ (p'.pc = .exit ∨ p'.pc = .loop start) := by
  unfold shmatStep at step
  split at step
  · cases step
    exact ⟨⟨rfl, rfl⟩, .inr rfl⟩
  · cases step
    exact ⟨⟨rfl, rfl⟩, .inl rfl⟩

theorem waitStep_process {place : Loop} (step : waitStep k p n place = some (k', p')) :
    p' = { p with pc := .loop place } := by
  obtain ⟨h, _, same⟩ := Option.map_eq_some_iff.mp step
  cases same
  rfl

theorem exitStep_process (step : exitStep k p = some (k', p')) : p' = { p with pc := .done } := by
  unfold exitStep at step
  split at step
  · cases step
    rfl
  · split at step
    · cases step
      rfl
    · cases step

end Counting

namespace Invariant

theorem producer_succeeds (inv : Invariant c m page t) (early : t.producer.item = 0) : t.producer.pc ≠ .exit := by
  intro failed
  have placed := inv.producer
  have some_data := c.someData
  simp only [Producer.Placed, failed] at placed
  rw [← placed.2, early] at some_data
  exact absurd some_data (by decide)

theorem consumer_succeeds (inv : Invariant c m page t) (early : t.consumer.item = 0 ∧ t.consumer.pos = 0) :
    t.consumer.pc ≠ .exit := by
  intro failed
  have placed := inv.consumer
  simp only [Consumer.Placed, failed] at placed
  rw [early.1, early.2] at placed
  cases placed.1

theorem producer_counts (inv : Invariant c m page s) {p : Producer} {m' : Registry} {page' : Nat}
    (after : Invariant c m' page' { s with kernel := k, producer := p })
    (step : producerStep c s.kernel s.producer malloc = some (k, p)) : p.steps = s.producer.steps + 1 := by
  have placed := inv.producer
  unfold Producer.Placed at placed
  unfold producerStep at step
  cases pc : s.producer.pc with
  | semOpen n =>
    simp only [pc] at placed step
    obtain ⟨⟨item, _⟩, failed | next⟩ := semOpenStep_cases step
    · exact absurd failed (after.producer_succeeds (item.trans placed.1))
    · cases n <;> simp only [Producer.steps, next, pc, SemName.opened, SemName.rank]
  | shmget =>
    simp only [pc] at placed step
    obtain ⟨⟨item, _⟩, failed | next⟩ := shmgetStep_cases (Option.some.inj step)
    · exact absurd failed (after.producer_succeeds (item.trans placed.1))
    · simp only [Producer.steps, next, pc]
  | shmat =>
    simp only [pc] at placed step
    obtain ⟨⟨item, _⟩, failed | next⟩ := shmatStep_cases (Option.some.inj step)
    · exact absurd failed (after.producer_succeeds (item.trans placed.1))
    · simp only [Producer.steps, next, pc, item, placed.1]
      rfl
  | loop place =>
    cases place with
    | waitEmpty =>
      simp only [pc] at step
      split at step
      · simp only [waitStep_process step, Producer.steps, pc]
        omega
      · cases step
        simp only [Producer.steps, pc]
        omega
    | waitMutex =>
      simp only [pc] at step
      simp only [waitStep_process step, Producer.steps, pc]
      omega
    | store =>
      simp only [pc] at step
      obtain ⟨_, _, same⟩ := Option.map_eq_some_iff.mp step
      cases same
      simp only [Producer.steps, pc]
      omega
    | postMutex =>
      simp only [pc] at step
      cases step
      simp only [Producer.steps, pc]
      omega
    | postFull =>
      simp only [pc] at placed step
      cases step
      have bound := c.maxData.isLt
      simp only [Producer.steps, pc, succ_toNat (by omega : s.producer.item.toNat + 1 < 2 ^ 32)]
      omega
  | exit =>
    simp only [pc] at step
    simp only [exitStep_process step, Producer.steps, pc]
    omega
  | done =>
    simp only [pc] at step
    cases step

theorem consumer_counts (inv : Invariant c m page s) {p : Consumer} {m' : Registry} {page' : Nat}
    (after : Invariant c m' page' { s with kernel := k, consumer := p })
    (step : consumerStep c s.kernel s.consumer malloc = some (k, p)) : p.steps = s.consumer.steps + 1 := by
  have placed := inv.consumer
  unfold Consumer.Placed at placed
  unfold consumerStep at step
  cases pc : s.consumer.pc with
  | semOpen n =>
    simp only [pc] at placed step
    obtain ⟨⟨item, pos⟩, failed | next⟩ := semOpenStep_cases step
    · exact absurd failed (after.consumer_succeeds ⟨item.trans placed.1, pos.trans placed.2⟩)
    · cases n <;> simp only [Consumer.steps, next, pc, SemName.opened, SemName.rank]
  | shmget =>
    simp only [pc] at placed step
    obtain ⟨⟨item, pos⟩, failed | next⟩ := shmgetStep_cases (Option.some.inj step)
    · exact absurd failed (after.consumer_succeeds ⟨item.trans placed.1, pos.trans placed.2⟩)
    · simp only [Consumer.steps, next, pc]
  | shmat =>
    simp only [pc] at placed step
    obtain ⟨⟨item, pos⟩, failed | next⟩ := shmatStep_cases (Option.some.inj step)
    · exact absurd failed (after.consumer_succeeds ⟨item.trans placed.1, pos.trans placed.2⟩)
    · simp only [Consumer.steps, next, pc, item, placed.1]
      rfl
  | loop place =>
    cases place with
    | waitFull =>
      simp only [pc] at placed step
      rw [if_pos (BitVec.lt_def.mpr placed.2)] at step
      simp only [waitStep_process step, Consumer.steps, pc]
      omega
    | waitMutex =>
      simp only [pc] at step
      simp only [waitStep_process step, Consumer.steps, pc]
      omega
    | load =>
      simp only [pc] at step
      obtain ⟨_, _, same⟩ := Option.map_eq_some_iff.mp step
      cases same
      by_cases last : c.maxData ≤ s.consumer.pos + 1
      · simp only [Consumer.steps, pc, last, if_true, SemName.rank]
        omega
      · simp only [Consumer.steps, pc, last, if_false]
        omega
    | postMutex =>
      simp only [pc] at step
      cases step
      simp only [Consumer.steps, pc]
      omega
    | postEmpty =>
      simp only [pc] at placed step
      cases step
      have bound := c.maxData.isLt
      simp only [Consumer.steps, pc, succ_toNat (by omega : s.consumer.item.toNat + 1 < 2 ^ 32)]
      omega
    | unlink n =>
      simp only [pc] at step
      obtain ⟨_, _, same⟩ := Option.map_eq_some_iff.mp step
      cases same
      cases n <;> simp only [Consumer.steps, pc, SemName.unlinked, SemName.rank] <;> omega
  | exit =>
    simp only [pc] at step
    simp only [exitStep_process step, Consumer.steps, pc]
    omega
  | done =>
    simp only [pc] at step
    cases step

/-- Neither program takes more than seven steps besides the five for each item. -/
theorem steps_le (inv : Invariant c m page s) :
    s.producer.steps + s.consumer.steps ≤ 10 * c.maxData.toNat + 14 := by
  have placed := inv.producer
  have placed' := inv.consumer
  have some_data : 0 < c.maxData.toNat := c.someData
  have first : s.producer.steps ≤ 5 * c.maxData.toNat + 7 := by
    unfold Producer.Placed at placed
    unfold Producer.steps
    cases pc : s.producer.pc with
    | semOpen n => cases n <;> simp only [SemName.rank] <;> omega
    | loop place => cases place <;> simp only [pc] at placed ⊢ <;> omega
    | exit | done =>
      simp only [pc] at placed ⊢
      rw [placed.2]
      omega
    | _ =>
      simp only
      omega
  have second : s.consumer.steps ≤ 5 * c.maxData.toNat + 7 := by
    unfold Consumer.Placed at placed'
    unfold Consumer.steps
    cases pc : s.consumer.pc with
    | semOpen n => cases n <;> simp only [SemName.rank] <;> omega
    | loop place =>
      cases place with
      | unlink n =>
        simp only [pc] at placed' ⊢
        rw [placed'.2] at placed'
        cases n <;> simp only [SemName.rank] <;> omega
      | _ =>
        simp only [pc] at placed' ⊢
        omega
    | exit | done =>
      simp only [pc] at placed' ⊢
      rw [placed'.2] at placed'
      omega
    | _ =>
      simp only
      omega
  omega

end Invariant

end Linux011.SharedBuffer

import Linux011.ProducerConsumer.Balance
import Linux011.Library.Count

namespace Linux011.ProducerConsumer

open Linux011.Library

variable {c : Config}

/-- The byte offsets of the ring and of the place after it are below `2^32`. -/
def Config.Fits (c : Config) : Prop := c.bufferSize.toNat * dataSize.toNat < 2 ^ 32

instance : Decidable c.Fits := inferInstanceAs (Decidable (_ < _))

section Slots

theorem slot_toNat (fits : c.Fits) (pos : BitVec 32) :
    (c.slot pos).toNat = pos.toNat % c.bufferSize.toNat * 4 := by
  have some_slot : 0 < c.bufferSize.toNat := c.someSlot
  have within := Nat.mod_lt pos.toNat some_slot
  have room : c.bufferSize.toNat * 4 < 2 ^ 32 := fits
  simp only [Config.slot, dataSize, BitVec.toNat_mul, BitVec.toNat_umod, show (4 : BitVec 32).toNat = 4 from rfl]
  omega

theorem posSlot_toNat (fits : c.Fits) : c.posSlot.toNat = c.bufferSize.toNat * 4 := by
  have room : c.bufferSize.toNat * 4 < 2 ^ 32 := fits
  simp only [Config.posSlot, dataSize, BitVec.toNat_mul, show (4 : BitVec 32).toNat = 4 from rfl]
  omega

theorem slot_ne_posSlot (fits : c.Fits) (pos : BitVec 32) : c.slot pos ≠ c.posSlot := by
  intro same
  have some_slot : 0 < c.bufferSize.toNat := c.someSlot
  have within := Nat.mod_lt pos.toNat some_slot
  have offsets := congrArg BitVec.toNat same
  rw [slot_toNat fits, posSlot_toNat fits] at offsets
  omega

theorem slot_ne_slot (fits : c.Fits) {pos next : BitVec 32} (less : pos.toNat < next.toNat)
    (near : next.toNat < pos.toNat + c.bufferSize.toNat) : c.slot pos ≠ c.slot next := by
  intro same
  have offsets := congrArg BitVec.toNat same
  rw [slot_toNat fits, slot_toNat fits] at offsets
  have apart : (next.toNat - pos.toNat) % c.bufferSize.toNat = 0 := by
    apply Nat.sub_mod_eq_zero_of_mod_eq
    omega
  rw [Nat.mod_eq_of_lt (by omega)] at apart
  omega

end Slots

/-- What holds in every state, when the run so far has consumed a number of items. -/
structure Invariant (c : Config) (items : Nat) (s : State c) : Prop where
  mutex : s.shared.bufferMutex + s.producer.pc.critical + total (·.pc.critical) s.consumers = 1
  empty : s.shared.empty + s.producer.started + total (·.pc.unreturned) s.consumers +
    s.shared.finished c = c.bufferSize.toNat + items
  full : s.shared.full + items + total (·.tokens c) s.consumers =
    s.producer.data.toNat + s.shared.spare c
  counted : total (·.i.toNat) s.consumers + total (·.pc.unreturned) s.consumers + s.shared.finished c = items
  position : (s.shared.pos c).toNat + total (·.pc.storing) s.consumers = items
  behind : items ≤ s.producer.data.toNat
  bounded : s.shared.pos c ≤ c.maxDataNumber
  producer : s.producer.Ready c s.shared
  consumers : ∀ n, (s.consumers n).Ready c s.shared
  ring : ∀ k : BitVec 32, items ≤ k.toNat → k.toNat < s.producer.stored →
    s.shared.bufferFd.cells (c.slot k) = k
  unborn : ∀ n, (s.consumers n).pc = .unborn ↔ s.producer.i.toNat ≤ n
  forked : s.producer.pc ≠ .fork → c.childNumber ≤ s.producer.i
  reaped : s.producer.pc = .done → ∀ n, (s.consumers n).pc = .reaped

namespace Invariant

variable {items : Nat} {s : State c}

theorem data_le {m : Shared} {p : Producer} (ready : p.Ready c m) : p.data ≤ c.maxDataNumber := by
  unfold Producer.Ready at ready
  cases pc : p.pc <;> simp only [pc] at ready
  case fork =>
    rw [ready.1]
    exact Nat.zero_le _
  case waitEmpty => exact ready.2
  case waitpid | done => exact BitVec.le_of_eq ready
  case write => exact BitVec.le_of_lt ready.2.2
  all_goals exact BitVec.le_of_lt ready.2

theorem items_le (inv : Invariant c items s) : items ≤ c.maxDataNumber.toNat :=
  inv.behind.trans (data_le inv.producer)

theorem alone (inv : Invariant c items s) (n : Fin c.childNumber.toNat)
    (inside : (s.consumers n).pc.critical = 1) :
    s.producer.pc.critical = 0 ∧ ∀ k, k ≠ n → (s.consumers k).pc.critical = 0 := by
  have all := inv.mutex
  have one := weight_le_total (fun p : Consumer => p.pc.critical) s.consumers n
  constructor
  · omega
  · intro k other
    have two := two_le_total (fun p : Consumer => p.pc.critical) s.consumers other
    omega

theorem outside (inv : Invariant c items s) (inside : s.producer.pc.critical = 1)
    (n : Fin c.childNumber.toNat) : (s.consumers n).pc.critical = 0 := by
  have all := inv.mutex
  have one := weight_le_total (fun p : Consumer => p.pc.critical) s.consumers n
  omega

/-- No consumer has been through its loop as often as there are items and comes round once more:
    the one that consumes the last item breaks out. -/
theorem within (inv : Invariant c items s) (n : Fin c.childNumber.toNat) : (s.consumers n).Within c := by
  have passes := weight_le_total (fun p : Consumer => p.i.toNat) s.consumers n
  have owing := weight_le_total (fun p : Consumer => p.pc.unreturned) s.consumers n
  have storing : total (·.pc.storing) s.consumers ≤ total (·.pc.unreturned) s.consumers :=
    total_le_total _ fun p => p.pc.storing_le
  have counted := inv.counted
  have position := inv.position
  have few := inv.items_le
  constructor
  · intro pc
    apply Nat.lt_of_not_le
    intro beyond
    have last : s.shared.pos c = c.maxDataNumber := by
      apply BitVec.eq_of_toNat_eq
      omega
    have finished : s.shared.finished c = 1 := if_pos last
    rw [last] at position
    omega
  · intro pc
    rw [pc] at owing
    have owes : ConsumerPc.postEmpty.unreturned = 1 := rfl
    apply BitVec.lt_def.mpr
    omega

/-- Inside the critical section, before its item is printed, the shared position is the number of items
    consumed so far. -/
theorem settled (inv : Invariant c items s) (n : Fin c.childNumber.toNat)
    (inside : (s.consumers n).pc.critical = 1) (before : (s.consumers n).pc.storing = 0) :
    (s.shared.pos c).toNat = items := by
  have others := (inv.alone n inside).2
  have idle : total (·.pc.storing) s.consumers = 0 := by
    apply (total_eq_zero_iff _ _).mpr
    intro k
    by_cases same : k = n
    · rw [same, before]
    · have out := others k same
      cases pc : (s.consumers k).pc <;> simp_all [ConsumerPc.critical, ConsumerPc.storing]
  have position := inv.position
  omega

theorem kept (inv : Invariant c items s) (n : Fin c.childNumber.toNat)
    (reading : (s.consumers n).pc = .readData) :
    s.shared.bufferFd.cells (c.slot (s.shared.pos c)) = s.shared.pos c := by
  have ready := inv.consumers n
  simp only [Consumer.Ready, reading] at ready
  obtain ⟨-, pos, more⟩ := ready
  rw [pos] at more
  have position := inv.settled n (by rw [reading]; rfl) (by rw [reading]; rfl)
  have token := weight_le_total (fun p : Consumer => p.tokens c) s.consumers n
  have holds : (s.consumers n).tokens c = 1 := by simp only [Consumer.tokens, reading]
  have full := inv.full
  rw [spare_eq more] at full
  have stored : s.producer.stored = s.producer.data.toNat + s.producer.pc.stored := rfl
  apply inv.ring
  · omega
  · omega

variable {p : Consumer} {m : Shared} {e : Event}

theorem last_kept {m m' : Shared} {p p' : Consumer} (move : ConsumerMove c m p p' m' e)
    (ready : p.Ready c m) (last : m.pos c = c.maxDataNumber) : m'.pos c = c.maxDataNumber := by
  by_cases at_store : p.pc = .writeStore
  · have more := (move.stored ready at_store).1
    rw [last] at more
    exact absurd more (BitVec.lt_irrefl _)
  · rw [Shared.pos, move.cells at_store]
    exact last

theorem pos_bounded {m m' : Shared} {p p' : Consumer} (move : ConsumerMove c m p p' m' e)
    (ready : p.Ready c m) (bounded : m.pos c ≤ c.maxDataNumber) : m'.pos c ≤ c.maxDataNumber := by
  by_cases at_store : p.pc = .writeStore
  · obtain ⟨more, next, -⟩ := move.stored ready at_store
    rw [next]
    exact succ_le more
  · rw [Shared.pos, move.cells at_store]
    exact bounded

theorem slots_kept (fits : c.Fits) {m m' : Shared} {p p' : Consumer} (move : ConsumerMove c m p p' m' e)
    (ready : p.Ready c m) (k : BitVec 32) :
    m'.bufferFd.cells (c.slot k) = m.bufferFd.cells (c.slot k) := by
  by_cases at_store : p.pc = .writeStore
  · rw [(move.stored ready at_store).2.2, Function.update_of_ne (slot_ne_posSlot fits k)]
  · rw [move.cells at_store]

theorem items_fresh {m m' : Shared} {p p' : Consumer} (move : ConsumerMove c m p p' m' e)
    (ready : p.Ready c m) : e.items = 0 ∨ e.items = 1 ∧ m'.spare c = 0 := by
  cases move with
  | print pc =>
    simp only [Consumer.Ready, pc] at ready
    exact .inr ⟨rfl, spare_eq (ready.2.1 ▸ ready.2.2)⟩
  | _ => exact .inl rfl

theorem child (fits : c.Fits) (inv : Invariant c items s) (n : Fin c.childNumber.toNat)
    (move : ConsumerMove c s.shared (s.consumers n) p m e) :
    Invariant c (items + e.items)
      { s with shared := m, consumers := Function.update s.consumers n p } := by
  have ready := inv.consumers n
  have full : m.full + (items + e.items) + total (·.tokens c) (Function.update s.consumers n p) =
      s.producer.data.toNat + m.spare c := by
    have moved := move.full ready (inv.within n)
    have tokens := total_update (·.tokens c) s.consumers n p
    have before := inv.full
    omega
  constructor
  case mutex =>
    have moved := move.mutex
    have critical := total_update (·.pc.critical) s.consumers n p
    have before := inv.mutex
    simp only at critical ⊢
    omega
  case empty =>
    have moved := move.empty ready
    have unreturned := total_update (·.pc.unreturned) s.consumers n p
    have before := inv.empty
    simp only at unreturned ⊢
    omega
  case full => exact full
  case counted =>
    have moved := move.empty ready
    have passes := move.counted (inv.within n)
    have unreturned := total_update (·.pc.unreturned) s.consumers n p
    have rounds := total_update (·.i.toNat) s.consumers n p
    have before := inv.counted
    simp only at unreturned rounds ⊢
    omega
  case position =>
    have moved := move.position ready
    have storing := total_update (·.pc.storing) s.consumers n p
    have before := inv.position
    simp only at storing ⊢
    omega
  case behind =>
    have before := inv.behind
    rcases items_fresh move ready with none | ⟨one, spare⟩
    · simp only
      omega
    · simp only
      omega
  case bounded => exact pos_bounded move ready inv.bounded
  case producer =>
    rcases move.buffer with inside | same
    · exact inv.producer.outside (inv.alone n inside).1
    · exact inv.producer.buffer same
  case consumers =>
    intro k
    by_cases same : k = n
    · subst same
      simp only [Function.update_self]
      exact move.ready ready inv.bounded (inv.within k) (inv.kept k)
    · simp only [Function.update_of_ne same]
      rcases move.buffer with inside | untouched
      · exact (inv.consumers k).outside ((inv.alone n inside).2 k same) (last_kept move ready)
      · exact (inv.consumers k).buffer untouched
  case ring =>
    intro k older newer
    simp only at newer ⊢
    rw [slots_kept fits move ready k]
    exact inv.ring k (by omega) newer
  case unborn =>
    intro k
    by_cases same : k = n
    · subst same
      have born := move.born
      have alive := inv.unborn k
      simp only [Function.update_self]
      exact ⟨fun pc => absurd pc born.2, fun late => absurd (alive.mpr late) born.1⟩
    · simp only [Function.update_of_ne same]
      exact inv.unborn k
  case forked => exact inv.forked
  case reaped =>
    intro finished
    have pc := inv.reaped finished n
    cases move <;> simp_all

/-- Writing an item fills its slot and clobbers none that still waits to be consumed. -/
theorem ring_written (fits : c.Fits) (inv : Invariant c items s) {p : Producer}
    (move : ProducerMove c s.shared s.producer p m e) (k : BitVec 32) (older : items ≤ k.toNat)
    (newer : k.toNat < p.stored) : m.bufferFd.cells (c.slot k) = k := by
  have writes := move.writes inv.producer
  by_cases at_write : s.producer.pc = .write
  · have room := inv.empty
    have stored : s.producer.stored = s.producer.data.toNat := by rw [Producer.stored, at_write]; rfl
    have started : s.producer.started = s.producer.data.toNat + 1 := by
      rw [Producer.started, at_write]; rfl
    rw [move.stored inv.producer at_write]
    by_cases last : k = s.producer.data
    · rw [last, Function.update_self]
    · have apart : k.toNat ≠ s.producer.data.toNat := fun same => last (BitVec.eq_of_toNat_eq same)
      have one : e.writes ≤ 1 := by cases e <;> simp [Event.writes]
      rw [Function.update_of_ne (slot_ne_slot fits (by omega) (by omega))]
      exact inv.ring k older (by omega)
  · rw [move.cells at_write]
    apply inv.ring k older
    have none : e.writes = 0 := by cases move <;> first | rfl | exact absurd ‹_› at_write
    omega

theorem producer_step (fits : c.Fits) (inv : Invariant c items s) {p : Producer}
    (move : ProducerMove c s.shared s.producer p m e) :
    Invariant c items { s with shared := m, producer := p } := by
  have ready := inv.producer
  have pos : m.pos c = s.shared.pos c := by
    by_cases at_write : s.producer.pc = .write
    · rw [Shared.pos, move.stored ready at_write, Function.update_of_ne (slot_ne_posSlot fits _).symm]
      rfl
    · rw [Shared.pos, move.cells at_write]
      rfl
  have finished : m.finished c = s.shared.finished c := by rw [Shared.finished, pos]; rfl
  have spare : m.spare c = s.shared.spare c := by rw [Shared.spare, pos]; rfl
  have posted := move.data ready
  obtain ⟨sameI, notFork, stillNot, notDone⟩ := move.running
  constructor
  case mutex =>
    have moved := move.mutex
    have before := inv.mutex
    simp only
    omega
  case empty =>
    have moved := move.empty ready
    have before := inv.empty
    simp only [finished]
    omega
  case full =>
    have before := inv.full
    simp only [spare]
    omega
  case counted =>
    simp only [finished]
    exact inv.counted
  case position =>
    simp only [pos]
    exact inv.position
  case behind =>
    have before := inv.behind
    have grows : s.shared.full ≤ m.full := by cases move <;> simp
    simp only
    omega
  case bounded =>
    simp only [pos]
    exact inv.bounded
  case producer => exact move.ready ready
  case consumers =>
    intro k
    rcases move.buffer with inside | untouched
    · apply (inv.consumers k).outside (inv.outside inside k)
      intro last
      rw [pos]
      exact last
    · exact (inv.consumers k).buffer untouched
  case ring => exact ring_written fits inv move
  case unborn =>
    intro k
    simp only [sameI]
    exact inv.unborn k
  case forked =>
    intro _
    simp only [sameI]
    exact inv.forked notFork
  case reaped =>
    intro done
    exact absurd done notDone

/-- Two states of a consumer that weigh the same in every account. -/
structure Alike (c : Config) (p q : Consumer) : Prop where
  critical : p.pc.critical = q.pc.critical
  unreturned : p.pc.unreturned = q.pc.unreturned
  storing : p.pc.storing = q.pc.storing
  tokens : p.tokens c = q.tokens c
  rounds : p.i.toNat = q.i.toNat

theorem relabel (inv : Invariant c items s) {p : Producer} {children : Fin c.childNumber.toNat → Consumer}
    (data : p.data = s.producer.data) (critical : p.pc.critical = s.producer.pc.critical)
    (started : p.pc.started = s.producer.pc.started) (stored : p.pc.stored = s.producer.pc.stored)
    (alike : ∀ n, Alike c (children n) (s.consumers n)) (producer : p.Ready c s.shared)
    (consumers : ∀ n, (children n).Ready c s.shared)
    (unborn : ∀ n, (children n).pc = .unborn ↔ p.i.toNat ≤ n)
    (forked : p.pc ≠ .fork → c.childNumber ≤ p.i)
    (reaped : p.pc = .done → ∀ n, (children n).pc = .reaped) :
    Invariant c items { s with producer := p, consumers := children } := by
  have totals (weight : Consumer → Nat) (same : ∀ n, weight (children n) = weight (s.consumers n)) :
      total weight children = total weight s.consumers := total_congr weight same
  have owed := totals (·.pc.unreturned) fun n => (alike n).unreturned
  constructor
  case mutex =>
    simp only
    rw [critical, totals (·.pc.critical) fun n => (alike n).critical]
    exact inv.mutex
  case empty =>
    simp only [Producer.started]
    rw [data, started, owed]
    exact inv.empty
  case full =>
    simp only
    rw [data, totals (·.tokens c) fun n => (alike n).tokens]
    exact inv.full
  case counted =>
    simp only
    rw [totals (·.i.toNat) fun n => (alike n).rounds, owed]
    exact inv.counted
  case position =>
    simp only
    rw [totals (·.pc.storing) fun n => (alike n).storing]
    exact inv.position
  case behind =>
    simp only [data]
    exact inv.behind
  case bounded => exact inv.bounded
  case producer => exact producer
  case consumers => exact consumers
  case ring =>
    simp only [Producer.stored]
    rw [data, stored]
    exact inv.ring
  case unborn => exact unborn
  case forked => exact forked
  case reaped => exact reaped

theorem fork_step (inv : Invariant c items s) (forking : s.producer.pc = .fork)
    (more : s.producer.i < c.childNumber) :
    Invariant c items
      { s with producer := { s.producer with i := s.producer.i + 1 },
               consumers := Function.update s.consumers ⟨s.producer.i.toNat, more⟩ .start } := by
  have next := succ_toNat more
  have here := (inv.unborn ⟨s.producer.i.toNat, more⟩).mpr (Nat.le_refl _)
  have still := inv.consumers ⟨s.producer.i.toNat, more⟩
  simp only [Consumer.Ready, here] at still
  apply inv.relabel
  case data | critical | started | stored => rfl
  · intro n
    by_cases same : n = ⟨s.producer.i.toNat, more⟩
    · subst same
      rw [Function.update_self]
      constructor <;> simp [here, still, Consumer.start, Consumer.tokens, ConsumerPc.critical,
        ConsumerPc.unreturned, ConsumerPc.storing]
    · rw [Function.update_of_ne same]
      exact ⟨rfl, rfl, rfl, rfl, rfl⟩
  · have ready := inv.producer
    simp only [Producer.Ready, forking] at ready ⊢
    exact ready
  · intro n
    by_cases same : n = ⟨s.producer.i.toNat, more⟩
    · subst same
      rw [Function.update_self]
      trivial
    · rw [Function.update_of_ne same]
      exact inv.consumers n
  · intro n
    simp only [next]
    by_cases same : n = ⟨s.producer.i.toNat, more⟩
    · subst same
      simp [Consumer.start]
    · have apart : n.val ≠ s.producer.i.toNat := fun equal => same (Fin.ext equal)
      rw [Function.update_of_ne same, inv.unborn n]
      omega
  · intro left
    exact absurd forking left
  · intro done
    rw [forking] at done
    cases done

theorem main (fits : c.Fits) (inv : Invariant c items s) {t : State c} (step : mainStep c s = some (t, e)) :
    Invariant c items t := by
  revert step
  fun_cases mainStep c s
  all_goals
    intro step
    simp only [Option.map_eq_some_iff, Option.some.injEq, Prod.mk.injEq, reduceCtorEq] at step
  case case1 forking more =>
    obtain ⟨rfl, -⟩ := step
    exact inv.fork_step forking more
  case case2 forking all =>
    obtain ⟨rfl, -⟩ := step
    have ready := inv.producer
    simp only [Producer.Ready, forking] at ready
    apply inv.relabel
    case data => exact ready.1.symm
    case critical | started | stored => rw [forking]; rfl
    · exact fun n => ⟨rfl, rfl, rfl, rfl, rfl⟩
    · exact ⟨ready.2, Nat.zero_le _⟩
    · exact inv.consumers
    · exact inv.unborn
    · exact fun _ => BitVec.not_lt.mp all
    · intro done
      cases done
  case case3 waiting gone =>
    obtain ⟨rfl, -⟩ := step
    have ready := inv.producer
    simp only [Producer.Ready, waiting] at ready
    apply inv.relabel
    case data => rfl
    case critical | started | stored => rw [waiting]; rfl
    · exact fun n => ⟨rfl, rfl, rfl, rfl, rfl⟩
    · exact ready
    · exact inv.consumers
    · exact inv.unborn
    · exact fun _ => inv.forked (by simp [waiting])
    · exact fun _ => gone
  case case5 =>
    obtain ⟨⟨p, m, event⟩, loop, rfl, rfl⟩ := step
    exact inv.producer_step fits (producerStep_move loop)

theorem reap (inv : Invariant c items s) {n : Fin c.childNumber.toNat} {t : State c}
    (step : reapStep c s n = some (t, e)) : Invariant c items t := by
  unfold reapStep at step
  split at step
  · rename_i both
    obtain ⟨waiting, returned⟩ := both
    obtain ⟨rfl, -⟩ := step
    have ready := inv.consumers n
    simp only [Consumer.Ready, returned] at ready
    apply inv.relabel
    case data | critical | started | stored => rfl
    · intro k
      by_cases same : k = n
      · subst same
        rw [Function.update_self]
        constructor <;> simp [returned, Consumer.tokens, ConsumerPc.critical, ConsumerPc.unreturned,
          ConsumerPc.storing]
      · rw [Function.update_of_ne same]
        exact ⟨rfl, rfl, rfl, rfl, rfl⟩
    · exact inv.producer
    · intro k
      by_cases same : k = n
      · subst same
        rw [Function.update_self]
        exact ready
      · rw [Function.update_of_ne same]
        exact inv.consumers k
    · intro k
      have born := inv.unborn k
      by_cases same : k = n
      · subst same
        rw [Function.update_self]
        rw [returned] at born
        simpa using born
      · rw [Function.update_of_ne same]
        exact born
    · exact inv.forked
    · intro done
      rw [waiting] at done
      cases done
  · cases step

theorem initial (old : BitVec 32 → BitVec 32) : Invariant c 0 (initialState c old) := by
  have outside (weight : Consumer → Nat) (weightless : weight .unborn = 0) :
      total weight (initialState c old).consumers = 0 :=
    (total_eq_zero_iff _ _).mpr fun _ => weightless
  have pos : (initialState c old).shared.pos c = 0 := write_pos (m := ⟨_, _, _, _⟩) initPos rfl
  have unfinished : (initialState c old).shared.pos c < c.maxDataNumber := pos ▸ c.someData
  have start : (initialState c old).producer.data = 0 := rfl
  constructor
  case mutex => rw [outside _ rfl]; rfl
  case empty => rw [outside _ rfl, finished_eq unfinished]; rfl
  case full => rw [outside _ rfl, spare_eq unfinished]; rfl
  case counted => rw [outside _ rfl, outside _ rfl, finished_eq unfinished]
  case position => rw [outside _ rfl, pos]; rfl
  case behind => exact Nat.zero_le _
  case bounded => exact BitVec.le_of_lt unfinished
  case producer => exact ⟨rfl, rfl⟩
  case consumers => exact fun n => rfl
  case ring => exact fun k _ newer => absurd newer (Nat.not_lt_zero _)
  case unborn => exact fun n => ⟨fun _ => Nat.zero_le _, fun _ => rfl⟩
  case forked => exact fun left => absurd rfl left
  case reaped => exact fun done => nomatch done

end Invariant

theorem mainStep_counts {s t : State c} {e : Event} (ready : s.producer.Ready c s.shared)
    (step : mainStep c s = some (t, e)) :
    e.items = 0 ∧ t.producer.stored = s.producer.stored + e.writes := by
  revert step
  fun_cases mainStep c s
  all_goals
    intro step
    simp only [Option.map_eq_some_iff, Option.some.injEq, Prod.mk.injEq, reduceCtorEq] at step
  case case1 =>
    obtain ⟨rfl, rfl⟩ := step
    exact ⟨rfl, rfl⟩
  case case2 forking _ =>
    obtain ⟨rfl, rfl⟩ := step
    simp only [Producer.Ready, forking] at ready
    simp [Event.items, Event.writes, Producer.stored, forking, ready.1, ProducerPc.stored]
  case case3 waiting _ =>
    obtain ⟨rfl, rfl⟩ := step
    simp [Event.items, Event.writes, Producer.stored, waiting, ProducerPc.stored]
  case case5 =>
    obtain ⟨⟨p, m, event⟩, loop, rfl, rfl⟩ := step
    have move := producerStep_move loop
    exact ⟨move.items, move.writes ready⟩

theorem step_keeps (fits : c.Fits) {items : Nat} {s t : State c} {e : Event}
    (inv : Invariant c items s) (step : (pcMachine c).step s e t) :
    Invariant c (items + e.items) t ∧ t.producer.stored = s.producer.stored + e.writes ∧
      ∀ data position, e = .consumed data position → data.toNat = items ∧ position.toNat = items := by
  obtain ⟨act, step⟩ := step
  cases act with
  | main =>
    obtain ⟨none, writes⟩ := mainStep_counts inv.producer step
    have next := inv.main fits step
    refine ⟨by rw [none]; exact next, writes, ?_⟩
    intro data position consumed
    rw [consumed] at none
    cases none
  | child n =>
    simp only [actStep, childStep, Option.map_eq_some_iff, Prod.mk.injEq] at step
    obtain ⟨⟨p, m, event⟩, loop, rfl, rfl⟩ := step
    have move := consumerStep_move loop
    refine ⟨inv.child fits n move, by rw [move.writes]; rfl, ?_⟩
    intro data position consumed
    simp only at consumed
    rw [consumed] at move
    obtain ⟨printing, rfl, rfl⟩ := move.consumed (inv.consumers n)
    have pos := inv.settled n (by rw [printing]; rfl) (by rw [printing]; rfl)
    exact ⟨pos, pos⟩
  | reap n =>
    have next := inv.reap step
    simp only [actStep, reapStep, Option.ite_none_right_eq_some, Option.some.injEq, Prod.mk.injEq] at step
    obtain ⟨-, rfl, rfl⟩ := step
    exact ⟨next, rfl, fun _ _ consumed => nomatch consumed⟩

end Linux011.ProducerConsumer

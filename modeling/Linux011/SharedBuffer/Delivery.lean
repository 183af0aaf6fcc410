import Linux011.SharedBuffer.Progress

namespace Linux011.SharedBuffer

open Linux011.Library Linux011.Mm Linux011.Semaphore

variable {c : Config} {m : Registry} {page : Nat} {s₀ s t : State} {e : Event} {es : List Event}

/-- The semaphore the producer is at, in `sem_wait` or before `sem_post`. -/
def Producer.operand (c : Config) (p : Producer) : Option SemName :=
  match p.pc with
  | .loop .waitEmpty => if p.item < c.maxData then some .empty else none
  | .loop .waitMutex | .loop .postMutex => some .bufferMutex
  | .loop .postFull => some .full
  | _ => none

def Consumer.operand (c : Config) (p : Consumer) : Option SemName :=
  match p.pc with
  | .loop .waitFull => if p.item < c.maxData then some .full else none
  | .loop .waitMutex | .loop .postMutex => some .bufferMutex
  | .loop .postEmpty => some .empty
  | _ => none

/-- A process that has attached the page and not exited has it: the key leads to it, and it is not free. -/
def Process.KeepsPage {Loop : Type} (p : Process Loop) (memory : Memory) : Prop :=
  p.pc.attached = true → p.pc ≠ .done →
    ∃ page, p.p = some page ∧ attachedPage memory key = some page ∧ memory.memMap (mapNr page) ≠ 0

/-- What the two programs achieve together, in every state of a run. -/
structure Delivered (c : Config) (es : List Event) (s : State) : Prop where
  inOrder : s.consumer.printed = lines s.consumer.printed.length
  few : s.consumer.printed.length ≤ c.maxData.toNat
  complete : s.consumer.pc = .done → s.consumer.printed.length = c.maxData.toNat
  sameSems : ∀ n, s.producer.pc.opened n = true → s.consumer.pc.opened n = true →
    s.producer.sems n = s.consumer.sems n
  registered : ∃ m, Represents s.kernel.heap m ∧ ∀ n l, goneAt s.consumer.pc n = false →
    s.producer.holds n = some l ∨ s.consumer.holds n = some l → ∃ a v, l = .block a ∧ m n.bytes = some (a, v)
  samePage : s.producer.pc.attached = true → s.consumer.pc.attached = true → s.producer.p = s.consumer.p
  producerPage : s.producer.KeepsPage s.kernel.memory
  consumerPage : s.consumer.KeepsPage s.kernel.memory
  producerUses : ∀ n ∈ s.producer.operand c, ∃ a ∈ s.kernel.heap.blocks, s.producer.sems n = .block a
  consumerUses : ∀ n ∈ s.consumer.operand c, ∃ a ∈ s.kernel.heap.blocks, s.consumer.sems n = .block a
  live : ¬ (s.producer.pc = .done ∧ s.consumer.pc = .done) → ∃ e t, (pair c).step s e t
  bounded : es.length ≤ 10 * c.maxData.toNat + 14

theorem Fresh.invariant (fresh : Fresh s) : ∃ m, Invariant c m 0 s := by
  obtain ⟨m, represents, free⟩ := fresh.names
  obtain ⟨sems, producer⟩ := fresh.producer
  obtain ⟨sems', consumer⟩ := fresh.consumer
  refine ⟨m, ?_⟩
  obtain ⟨k, p, q⟩ := s
  subst producer
  subst consumer
  exact {
    represents := represents
    sems := fun n => ⟨fun _ _ => free n, fun held => absurd held (by simp [Process.holds, Process.start, Pc.opened])⟩
    producerBound := ⟨nofun, nofun⟩
    consumerBound := ⟨nofun, nofun⟩
    producer := ⟨rfl, rfl⟩
    consumer := ⟨rfl, rfl⟩
    behind := Nat.zero_le _
    ahead := Nat.zero_le _
    memory := ⟨fun _ _ => ⟨fresh.unused, fresh.physical, fresh.inUse⟩, fun busy => absurd rfl busy⟩
    stayed := nofun
    ring := fun _ _ below => absurd below (Nat.not_lt_zero _)
    printed := rfl }

namespace Invariant

theorem perform_keeps (inv : Invariant c m page s) (orderly : Orderly c s e) (step : perform c s e = some t) :
    (∃ m' page', Invariant c m' page' t) ∧
      t.producer.steps + t.consumer.steps = s.producer.steps + s.consumer.steps + 1 := by
  unfold perform at step
  split at step
  · rename_i block
    cases e with
    | producer malloc =>
      obtain ⟨⟨k, p⟩, performed, rfl⟩ := Option.map_eq_some_iff.mp step
      obtain ⟨m', page', after⟩ := inv.producerStep_keeps block orderly performed
      have counts := inv.producer_counts after performed
      refine ⟨⟨m', page', after⟩, ?_⟩
      simp only [counts]
      omega
    | consumer malloc =>
      obtain ⟨⟨k, p⟩, performed, rfl⟩ := Option.map_eq_some_iff.mp step
      obtain ⟨m', page', after⟩ := inv.consumerStep_keeps block orderly performed
      have counts := inv.consumer_counts after performed
      refine ⟨⟨m', page', after⟩, ?_⟩
      simp only [counts]
      omega
  · cases step

theorem producer_uses (inv : Invariant c m page s) {n : SemName} (operand : s.producer.operand c = some n) :
    ∃ a ∈ s.kernel.heap.blocks, s.producer.sems n = .block a := by
  have placed := inv.producer
  unfold Producer.Placed at placed
  unfold Producer.operand at operand
  have more : s.producer.item.toNat < c.maxData.toNat ∧ s.producer.pc.opened n = true := by
    cases pc : s.producer.pc with
    | loop place =>
      cases place with
      | waitEmpty =>
        simp only [pc] at operand
        split at operand
        · rename_i more
          exact ⟨more, rfl⟩
        · cases operand
      | store =>
        simp only [pc] at operand
        cases operand
      | _ =>
        simp only [pc] at placed
        exact ⟨placed.2, rfl⟩
    | _ =>
      simp only [pc] at operand
      cases operand
  obtain ⟨a, v, holds, entry, _⟩ := inv.producer_entry more.1 more.2
  exact ⟨a, (represents_value inv.represents entry).2, holds⟩

theorem consumer_uses (inv : Invariant c m page s) {n : SemName} (operand : s.consumer.operand c = some n) :
    ∃ a ∈ s.kernel.heap.blocks, s.consumer.sems n = .block a := by
  unfold Consumer.operand at operand
  have here : s.consumer.pc.opened n = true ∧ goneAt s.consumer.pc n = false := by
    cases pc : s.consumer.pc with
    | loop place =>
      cases place with
      | load | unlink =>
        simp only [pc] at operand
        cases operand
      | _ => exact ⟨rfl, rfl⟩
    | _ =>
      simp only [pc] at operand
      cases operand
  obtain ⟨a, v, holds, entry, _⟩ := inv.consumer_entry here.1 here.2
  exact ⟨a, (represents_value inv.represents entry).2, holds⟩

theorem printed_few (inv : Invariant c m page s) : s.consumer.pos.toNat ≤ c.maxData.toNat ∧
    (s.consumer.pc = .done → s.consumer.pos.toNat = c.maxData.toNat) := by
  have placed := inv.consumer
  unfold Consumer.Placed at placed
  constructor
  · split at placed
    case h_1 | h_2 | h_3 =>
      rw [placed.2]
      exact Nat.zero_le _
    case h_4 | h_5 | h_6 =>
      rw [placed.1]
      exact placed.2.le
    case h_7 | h_8 => exact placed.2.le
    all_goals rw [placed.2]
  · intro exited
    simp only [exited] at placed
    rw [placed.2]

theorem users_of {Loop : Type} {pc : Pc Loop} (attached : pc.attached = true) (going : pc ≠ .done) : pc.users = 1 := by
  cases pc with
  | semOpen | shmget | shmat => first | rfl | cases attached
  | loop | exit => rfl
  | done => exact absurd rfl going

theorem delivered (inv : Invariant c m page s) (counted : es.length = s.producer.steps + s.consumer.steps) :
    Delivered c es s := by
  have length : s.consumer.printed.length = s.consumer.pos.toNat := by
    rw [inv.printed, lines, List.length_map, List.length_range]
  have kept (lent : Lent s.kernel.memory (s.producer.pc.users + s.consumer.pc.users) page)
      (busy : s.producer.pc.users + s.consumer.pc.users ≠ 0) :
      attachedPage s.kernel.memory key = some page ∧ s.kernel.memory.memMap (mapNr page) ≠ 0 := by
    refine ⟨lent.attached busy, ?_⟩
    rw [lent.used]
    decide
  constructor
  · rw [length]
    exact inv.printed
  · rw [length]
    exact inv.printed_few.1
  · rw [length]
    exact inv.printed_few.2
  · intro n opened opened'
    have ok := inv.sems n
    rw [Process.holds, Process.holds, if_pos opened, if_pos opened'] at ok
    obtain ⟨a, first, second, _⟩ := ok.held (.inl (Option.some_ne_none _))
    rw [first _ rfl, second _ rfl]
  · refine ⟨m, inv.represents, ?_⟩
    intro n l here held
    have ok := inv.sems n
    rw [here] at ok
    rcases held with mine | yours
    · rw [mine] at ok
      obtain ⟨a, v, is, entry, _⟩ := ok.mine_entry
      exact ⟨a, v, is, entry⟩
    · rw [yours] at ok
      obtain ⟨a, v, is, entry, _⟩ := ok.swap.mine_entry
      exact ⟨a, v, is, entry⟩
  · intro attached attached'
    rw [inv.producerBound.address attached, inv.consumerBound.address attached']
  · intro attached going
    have one := users_of attached going
    have busy : s.producer.pc.users + s.consumer.pc.users ≠ 0 := by omega
    exact ⟨page, inv.producerBound.address attached, kept (inv.memory.lent busy) busy⟩
  · intro attached going
    have one := users_of attached going
    have busy : s.producer.pc.users + s.consumer.pc.users ≠ 0 := by omega
    exact ⟨page, inv.consumerBound.address attached, kept (inv.memory.lent busy) busy⟩
  · exact fun n is => inv.producer_uses is
  · exact fun n is => inv.consumer_uses is
  · exact inv.unblocked
  · rw [counted]
    exact inv.steps_le

end Invariant

theorem start_steps (fresh : Fresh s) : s.producer.steps + s.consumer.steps = 0 := by
  obtain ⟨_, producer⟩ := fresh.producer
  obtain ⟨_, consumer⟩ := fresh.consumer
  rw [producer, consumer]
  rfl

theorem delivers_everything (fresh : (pair c).init s₀) (run : ((pair c).restrict (Orderly c)).Run s₀ es s) :
    Delivered c es s := by
  have kept : (∃ m page, Invariant c m page s) ∧ es.length = s.producer.steps + s.consumer.steps := by
    apply run.trace_invariant (I := fun es s => (∃ m page, Invariant c m page s) ∧
      es.length = s.producer.steps + s.consumer.steps)
    · rintro es s e t ⟨⟨m, page, inv⟩, counted⟩ ⟨orderly, step⟩
      obtain ⟨after, counts⟩ := inv.perform_keeps orderly step
      refine ⟨after, ?_⟩
      rw [List.length_append, counted, counts]
      rfl
    · obtain ⟨m, inv⟩ := fresh.invariant
      exact ⟨⟨m, 0, inv⟩, (start_steps fresh).symm⟩
  obtain ⟨⟨m, page, inv⟩, counted⟩ := kept
  exact inv.delivered counted

section Runs

def bootState : State where
  kernel := ⟨initialHeap, .cleared⟩
  producer := .start fun _ => .semHead
  consumer := .start fun _ => .semHead

theorem bootState_fresh : Fresh bootState where
  names := ⟨_, initial_represents, fun _ => rfl⟩
  unused := rfl
  physical := by
    intro i free
    by_cases below : i < pagingPages
    · exact (Nat.add_comm i lowMem).trans_lt (Nat.add_lt_add_left below lowMem)
    · simp [bootState, Memory.cleared, below, used] at free
  inUse := fun _ busy => absurd rfl busy
  producer := ⟨_, rfl⟩
  consumer := ⟨_, rfl⟩

def zeros : List UInt8 := List.replicate (MAXSEMNAME + 1) 0

theorem zeros_clean (h : Heap) (n : SemName) (a : Nat) : CleanBlock h n.literal (some (a, zeros)) := by
  intro b stale is _
  cases is
  cases n <;> decide +kernel

/-- Steps whose blocks are cleared, with a page left, for more items than slots. -/
def performClean (c : Config) (s : State) (e : Event) : Option State :=
  if c.bufferSize < c.maxData ∧ s.kernel.memory.getFreePage.isSome = true ∧ e.malloc.map Prod.snd = some zeros then
    perform c s e
  else none

theorem performClean_orderly (step : performClean c s e = some t) : ((pair c).restrict (Orderly c)).step s e t := by
  unfold performClean at step
  split at step
  · rename_i clean
    obtain ⟨more, page, blank⟩ := clean
    obtain ⟨⟨a, stale⟩, given, rfl⟩ := Option.map_eq_some_iff.mp blank
    have left : s.kernel.memory.getFreePage ≠ none := Option.isSome_iff_ne_none.mp page
    refine ⟨?_, step⟩
    cases e with
    | producer malloc =>
      cases given
      exact ⟨⟨fun n _ => ⟨Option.some_ne_none _, zeros_clean _ n a⟩, fun _ _ => left⟩, fun _ => .inl more⟩
    | consumer malloc =>
      cases given
      exact ⟨fun n _ => ⟨Option.some_ne_none _, zeros_clean _ n a⟩, fun _ _ => left⟩
  · cases step

def oneSlot : Config where
  bufferSize := 1
  maxData := 2
  offset := 5
  someSlot := one_positive
  someData := two_positive
  room := by decide

/-- The consumer is first; block `a` is free where a semaphore is made. -/
def oneSlotRun : List Event :=
  [.consumer (some (1, zeros)), .producer (some (2, zeros)), .producer (some (2, zeros))] ++
    List.replicate 2 (.consumer (some (3, zeros))) ++ List.replicate 2 (.consumer (some (4, zeros))) ++
    List.replicate 8 (.producer (some (4, zeros))) ++ List.replicate 5 (.consumer (some (4, zeros))) ++
    List.replicate 7 (.producer (some (4, zeros))) ++ List.replicate 7 (.consumer (some (4, zeros)))

theorem oneSlot_delivered : ∃ s, s.producer.pc = .done ∧ s.consumer.pc = .done ∧
    s.consumer.printed = [(0, 0), (1, 1)] ∧ Delivered oneSlot oneSlotRun s := by
  have ran : (oneSlotRun.foldlM (performClean oneSlot) bootState).any (fun s =>
      s.producer.pc = .done ∧ s.consumer.pc = .done ∧ s.consumer.printed = [(0, 0), (1, 1)]) = true := by decide +kernel
  obtain ⟨s, ends, found⟩ := (Option.any_eq_true _ _).mp ran
  have run := Machine.run_of_foldlM (fun _ _ _ => performClean_orderly) ends
  have reached := of_decide_eq_true found
  exact ⟨s, reached.1, reached.2.1, reached.2.2, delivers_everything bootState_fresh run⟩

def labPair : Config where
  bufferSize := 10
  maxData := 512
  offset := 0
  someSlot := ten_positive
  someData := sector_positive
  room := by decide

/-- What an unlinked `bufferMutex` leaves in its block when the list of free blocks has taken four bytes. -/
def staleMutex : List UInt8 := [0, 0, 0, 0, 101, 114, 77, 117, 116, 101, 120] ++ List.replicate 118 0

/-- The third block the producer gets is one of an earlier run. -/
def secondRun : List Event :=
  [.producer (some (1, zeros)), .producer (some (2, zeros)), .producer (some (3, staleMutex))] ++
    List.replicate 3 (.consumer (some (4, zeros)))

def twoSlots : Config where
  bufferSize := 2
  maxData := 2
  offset := 0
  someSlot := two_positive
  someData := two_positive
  room := by decide

/-- The producer is through before the consumer starts. -/
def lateConsumer : List Event :=
  [.producer (some (1, zeros)), .producer (some (2, zeros)), .producer (some (3, zeros))] ++
    List.replicate 14 (.producer (some (4, zeros))) ++ List.replicate 13 (.consumer (some (4, zeros)))

theorem renamed_or_released : Fresh bootState ∧
    (∃ s, (pair labPair).Run bootState secondRun s ∧ ¬ Delivered labPair secondRun s) ∧
      ∃ s, (pair twoSlots).Run bootState lateConsumer s ∧ s.consumer.printed = [(0, 0), (0, 1)] ∧
        ¬ Delivered twoSlots lateConsumer s := by
  refine ⟨bootState_fresh, ?_, ?_⟩
  · have ran : (secondRun.foldlM (perform labPair) bootState).any (fun s => s.producer.pc.opened .full &&
        s.consumer.pc.opened .full && (s.producer.sems .full != s.consumer.sems .full)) = true := by decide +kernel
    obtain ⟨s, ends, found⟩ := (Option.any_eq_true _ _).mp ran
    have run : (pair labPair).Run bootState secondRun s := Machine.run_of_foldlM (fun _ _ _ step => step) ends
    refine ⟨s, run, fun delivered => ?_⟩
    simp only [Bool.and_eq_true, bne_iff_ne, ne_eq] at found
    exact found.2 (delivered.sameSems .full found.1.1 found.1.2)
  · have ran : (lateConsumer.foldlM (perform twoSlots) bootState).any (fun s =>
        s.consumer.printed = [(0, 0), (0, 1)]) = true := by decide +kernel
    obtain ⟨s, ends, found⟩ := (Option.any_eq_true _ _).mp ran
    have run : (pair twoSlots).Run bootState lateConsumer s := Machine.run_of_foldlM (fun _ _ _ step => step) ends
    have printed := of_decide_eq_true found
    refine ⟨s, run, printed, fun delivered => ?_⟩
    have order := delivered.inOrder
    rw [printed] at order
    revert order
    decide

end Runs

end Linux011.SharedBuffer

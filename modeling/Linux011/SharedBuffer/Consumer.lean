import Linux011.SharedBuffer.Producer

namespace Linux011.SharedBuffer

open Linux011.Library Linux011.Mm Linux011.Semaphore

variable {c : Config} {m : Registry} {page : Nat} {s : State} {malloc : Malloc} {k : Kernel} {p : Consumer}

theorem lines_succ (n : Nat) : lines (n + 1) = lines n ++ [(BitVec.ofNat 32 n, BitVec.ofNat 32 n)] := by
  simp [lines, List.range_succ]

namespace Invariant

theorem consumer_entry (inv : Invariant c m page s) {n : SemName} (opened : s.consumer.pc.opened n = true)
    (here : goneAt s.consumer.pc n = false) : ∃ a v, s.consumer.sems n = .block a ∧
      m n.bytes = some (a, v) ∧ Balanced c s.producer s.consumer n v.toNat := by
  have ok := (inv.sems n).swap
  rw [here, Process.holds, if_pos opened] at ok
  exact ok.mine_entry

theorem producer_idle (inv : Invariant c m page s) {n : SemName} (closed : s.producer.holds n = none) :
    s.producer.critical = 0 ∧ s.producer.begun = 0 ∧ s.producer.item = 0 := by
  have placed := inv.producer
  unfold Producer.Placed at placed
  unfold Process.holds at closed
  cases pc : s.producer.pc with
  | semOpen =>
    simp only [pc] at placed
    refine ⟨?_, ?_, placed.1⟩
    · simp only [Producer.critical, pc]
    · simp only [Producer.begun, pc, placed.1]
      rfl
  | _ => simp [pc, Pc.opened] at closed

theorem producer_ahead (inv : Invariant c m page s) : s.producer.item.toNat ≤ s.producer.pos.toNat := by
  have placed := inv.producer
  unfold Producer.Placed at placed
  split at placed
  all_goals first
    | omega
    | rw [placed.1, placed.2]
    | rw [placed.1]

theorem consumer_moved (inv : Invariant c m page s) {m' : Registry} {heap : Heap} {p : Consumer}
    (represents : Represents heap m')
    (sems : SemsOk m' s.producer.holds p.holds (goneAt p.pc) (Balanced c s.producer p))
    (placed : p.Placed c) (item : s.consumer.item.toNat ≤ p.item.toNat)
    (behind : p.begun ≤ s.producer.item.toNat) (shmid : p.shmid = s.consumer.shmid)
    (address : p.p = s.consumer.p) (pos : p.pos = s.consumer.pos) (printed : p.printed = s.consumer.printed)
    (got : p.pc.got = s.consumer.pc.got) (attached : p.pc.attached = s.consumer.pc.attached)
    (users : p.pc.users = s.consumer.pc.users) :
    Invariant c m' page { s with kernel := ⟨heap, s.kernel.memory⟩, consumer := p } where
  represents := represents
  sems := sems
  producerBound := inv.producerBound
  consumerBound := ⟨by rw [shmid, got]; exact inv.consumerBound.shmid, by rw [address, attached]; exact inv.consumerBound.address⟩
  producer := inv.producer
  consumer := placed
  behind := behind
  ahead := inv.ahead.trans (Nat.add_le_add_left item _)
  memory := ⟨by rw [got]; exact inv.memory.unused, by rw [users]; exact inv.memory.lent⟩
  stayed := by rw [got]; exact inv.stayed
  ring := by rw [pos]; exact inv.ring
  printed := by rw [printed, pos]; exact inv.printed

theorem consumer_opens (inv : Invariant c m page s) {n : SemName} (pc : s.consumer.pc = .semOpen n)
    (block : Heap.CanGive s.kernel.heap malloc) (provided : Provided s.kernel s.consumer malloc)
    (step : semOpenStep c s.kernel s.consumer n malloc = some (k, p)) :
    ∃ m', Invariant c m' page { s with kernel := k, consumer := p } := by
  obtain ⟨given, clean⟩ := provided.block n pc
  obtain ⟨a, v, found, represents, memory, rfl⟩ := semOpenStep_opened inv.represents block given clean step
  obtain ⟨heap, _⟩ := k
  subst memory
  have placed := inv.consumer
  have behind := inv.behind
  simp only [Consumer.Placed, pc] at placed
  simp only [Consumer.begun, pc] at behind
  have gone : goneAt s.consumer.pc = goneAt (SemName.opened n) := by
    funext n'
    rw [pc]
    cases n <;> rfl
  have sems := inv.sems
  rw [gone] at sems
  refine ⟨_, inv.consumer_moved represents ?_ ?_ le_rfl ?_ rfl rfl rfl rfl ?_ ?_ ?_⟩
  · apply SemsOk.swap
    apply sems.swap.opened
    · cases n <;> simp [Process.holds, Pc.opened, pc]
    · cases n <;> rfl
    · exact found.imp And.left id
    · cases n <;> simp [Process.holds, Pc.opened, SemName.opened]
    · intro n' other
      cases n <;> cases n' <;> simp [Process.holds, Pc.opened, SemName.opened, pc] at other ⊢
    · intro n' u before
      cases n' <;> cases n <;>
        simpa only [Balanced, Consumer.begun, Consumer.critical, SemName.opened, pc] using before
    · intro closed fresh
      obtain ⟨critical, begun, item⟩ := inv.producer_idle closed
      rcases found with ⟨_, value⟩ | other
      · cases n <;> simp [Balanced, Consumer.begun, Consumer.critical, SemName.opened, SemName.value, value,
          critical, begun, item, placed.1]
      · rw [fresh] at other
        cases other
  · cases n <;> simpa only [Consumer.Placed, SemName.opened] using placed
  · cases n <;> simpa only [Consumer.begun, SemName.opened] using behind
  · cases n <;> simp only [SemName.opened, Pc.got, pc]
  · cases n <;> simp only [SemName.opened, Pc.attached, pc]
  · cases n <;> simp only [SemName.opened, Pc.users, pc]

/-- A wait or a post of the consumer moves one semaphore from its entry to another balanced value. -/
theorem consumer_changes (inv : Invariant c m page s) {n : SemName} {a : Nat} {v w : BitVec 32}
    (entry : m n.bytes = some (a, v)) {p : Consumer} (opened : s.consumer.pc.opened = p.pc.opened)
    (sems : p.sems = s.consumer.sems) (gone : goneAt s.consumer.pc = goneAt p.pc) (here : goneAt p.pc n = false)
    (moved : Balanced c s.producer s.consumer n v.toNat → Balanced c s.producer p n w.toNat)
    (others : ∀ n', n' ≠ n → ∀ u, Balanced c s.producer s.consumer n' u → Balanced c s.producer p n' u) :
    SemsOk (Function.update m n.bytes (some (a, w))) s.producer.holds p.holds (goneAt p.pc)
      (Balanced c s.producer p) := by
  have holds : p.holds = s.consumer.holds := by
    funext n'
    rw [Process.holds, Process.holds, opened, sems]
  have ok := inv.sems
  rw [gone] at ok
  rw [holds]
  exact ok.value entry here moved others

theorem consumer_keeps (inv : Invariant c m page s) {p : Consumer} (opened : s.consumer.pc.opened = p.pc.opened)
    (sems : p.sems = s.consumer.sems) (gone : goneAt s.consumer.pc = goneAt p.pc) (item : p.item = s.consumer.item)
    (begun : p.begun = s.consumer.begun) (critical : p.critical = s.consumer.critical) :
    SemsOk m s.producer.holds p.holds (goneAt p.pc) (Balanced c s.producer p) := by
  have holds : p.holds = s.consumer.holds := by
    funext n
    rw [Process.holds, Process.holds, opened, sems]
  rw [holds, ← gone]
  apply inv.sems.mono
  intro n u before
  cases n <;> simpa only [Balanced, begun, critical, item] using before

theorem consumer_waits_full (inv : Invariant c m page s) (pc : s.consumer.pc = .loop .waitFull)
    (step : waitStep s.kernel s.consumer .full .waitMutex = some (k, p)) :
    ∃ m', Invariant c m' page { s with kernel := k, consumer := p } := by
  have placed := inv.consumer
  simp only [Consumer.Placed, pc] at placed
  obtain ⟨a, v, holds, entry, balanced⟩ := inv.consumer_entry (n := .full) (by rw [pc]; rfl) (by rw [pc]; rfl)
  obtain ⟨token, represents, memory, rfl⟩ := waitStep_took inv.represents holds entry step
  obtain ⟨heap, _⟩ := k
  subst memory
  have pred := pred_toNat token
  simp only [Balanced, Consumer.begun, pc] at balanced
  refine ⟨_, inv.consumer_moved represents ?_ placed le_rfl ?_ rfl rfl rfl rfl ?_ ?_ ?_⟩
  · apply inv.consumer_changes entry
    · rw [pc]; rfl
    · rfl
    · rw [pc]; rfl
    · rfl
    · intro _
      simp only [Balanced, Consumer.begun]
      omega
    · intro n other u before
      cases n <;> simp only [Balanced, Consumer.critical, pc, ne_eq, not_true_eq_false] at before other ⊢ <;> exact before
  · simp only [Consumer.begun]
    omega
  · rw [pc]; rfl
  · rw [pc]; rfl
  · rw [pc]; rfl

theorem consumer_waits_mutex (inv : Invariant c m page s) (pc : s.consumer.pc = .loop .waitMutex)
    (step : waitStep s.kernel s.consumer .bufferMutex .load = some (k, p)) :
    ∃ m', Invariant c m' page { s with kernel := k, consumer := p } := by
  have placed := inv.consumer
  have behind := inv.behind
  simp only [Consumer.Placed, pc] at placed
  simp only [Consumer.begun, pc] at behind
  obtain ⟨a, v, holds, entry, balanced⟩ := inv.consumer_entry (n := .bufferMutex) (by rw [pc]; rfl) (by rw [pc]; rfl)
  obtain ⟨token, represents, memory, rfl⟩ := waitStep_took inv.represents holds entry step
  obtain ⟨heap, _⟩ := k
  subst memory
  have pred := pred_toNat token
  simp only [Balanced, Consumer.critical, pc] at balanced
  refine ⟨_, inv.consumer_moved represents ?_ placed le_rfl behind rfl rfl rfl rfl ?_ ?_ ?_⟩
  · apply inv.consumer_changes entry
    · rw [pc]; rfl
    · rfl
    · rw [pc]; rfl
    · rfl
    · intro _
      simp only [Balanced, Consumer.critical]
      omega
    · intro n other u before
      cases n <;> simp only [Balanced, Consumer.begun, pc, ne_eq, not_true_eq_false] at before other ⊢ <;> exact before
  · rw [pc]; rfl
  · rw [pc]; rfl
  · rw [pc]; rfl

theorem consumer_posts_mutex (inv : Invariant c m page s) (pc : s.consumer.pc = .loop .postMutex) :
    ∃ m', Invariant c m' page
      { s with kernel := { s.kernel with heap := semPost s.kernel.heap (s.consumer.sems .bufferMutex) },
               consumer := { s.consumer with pc := .loop .postEmpty } } := by
  have placed := inv.consumer
  have behind := inv.behind
  simp only [Consumer.Placed, pc] at placed
  simp only [Consumer.begun, pc] at behind
  obtain ⟨a, v, holds, entry, balanced⟩ := inv.consumer_entry (n := .bufferMutex) (by rw [pc]; rfl) (by rw [pc]; rfl)
  rw [holds]
  simp only [Balanced, Consumer.critical, pc] at balanced
  refine ⟨_, inv.consumer_moved (semPost_represents inv.represents entry) ?_ placed le_rfl behind rfl rfl rfl rfl ?_ ?_ ?_⟩
  · apply inv.consumer_changes entry
    · rw [pc]; rfl
    · rfl
    · rw [pc]; rfl
    · rfl
    · intro _
      simp only [Balanced, Consumer.critical, succ_toNat (by omega : v.toNat + 1 < 2 ^ 32)]
      omega
    · intro n other u before
      cases n <;> simp only [Balanced, Consumer.begun, pc, ne_eq, not_true_eq_false] at before other ⊢ <;> exact before
  · rw [pc]; rfl
  · rw [pc]; rfl
  · rw [pc]; rfl

theorem consumer_posts_empty (inv : Invariant c m page s) (pc : s.consumer.pc = .loop .postEmpty) :
    ∃ m', Invariant c m' page
      { s with kernel := { s.kernel with heap := semPost s.kernel.heap (s.consumer.sems .empty) },
               consumer := { s.consumer with pc := .loop .waitFull, item := s.consumer.item + 1 } } := by
  have placed := inv.consumer
  have behind := inv.behind
  have room := c.room
  have begun : s.producer.item.toNat ≤ s.producer.begun := by
    unfold Producer.begun
    split <;> omega
  simp only [Consumer.Placed, pc] at placed
  simp only [Consumer.begun, pc] at behind
  obtain ⟨a, v, holds, entry, balanced⟩ := inv.consumer_entry (n := .empty) (by rw [pc]; rfl) (by rw [pc]; rfl)
  rw [holds]
  have bound := c.maxData.isLt
  have item := succ_toNat (by omega : s.consumer.item.toNat + 1 < 2 ^ 32)
  simp only [Balanced] at balanced
  refine ⟨_, inv.consumer_moved (semPost_represents inv.represents entry) ?_ ⟨BitVec.eq_of_toNat_eq ?_, ?_⟩ ?_ ?_ rfl rfl rfl rfl ?_ ?_ ?_⟩
  · apply inv.consumer_changes entry
    · rw [pc]; rfl
    · rfl
    · rw [pc]; rfl
    · rfl
    · intro _
      simp only [Balanced, item, succ_toNat (by omega : v.toNat + 1 < 2 ^ 32)]
      omega
    · intro n other u before
      cases n <;> simp only [Balanced, Consumer.begun, Consumer.critical, pc, item, ne_eq, not_true_eq_false] at before other ⊢ <;>
        exact before
  · simp only [item]
    exact placed.1
  · simp only [item]
    omega
  · simp only [item]
    omega
  · simpa only [Consumer.begun, item] using behind
  · rw [pc]; rfl
  · rw [pc]; rfl
  · rw [pc]; rfl

theorem consumer_shmget (inv : Invariant c m page s) (pc : s.consumer.pc = .shmget)
    (provided : Provided s.kernel s.consumer malloc) :
    ∃ page', Invariant c m page'
      { s with kernel := (shmgetStep c s.kernel s.consumer).1, consumer := (shmgetStep c s.kernel s.consumer).2 } := by
  have placed := inv.consumer
  have behind := inv.behind
  have bound := inv.producerBound
  simp only [Consumer.Placed, pc] at placed
  simp only [Consumer.begun, pc] at behind
  have sems := inv.consumer_keeps (p := { s.consumer with pc := .shmat, shmid := key }) (by rw [pc]; rfl) rfl
    (by rw [pc]; rfl) rfl (by simp only [Consumer.begun, pc]) (by simp only [Consumer.critical, pc])
  cases got : s.producer.pc.got with
  | true =>
    have users : s.producer.pc.users = 1 := by
      cases pc' : s.producer.pc with
      | done =>
        have stayed := inv.stayed pc'
        rw [pc] at stayed
        cases stayed
      | semOpen | shmget =>
        rw [pc'] at got
        cases got
      | _ => rfl
    have lent := inv.memory.lent
    rw [pc, users] at lent
    obtain ⟨memory, granted, words, lent'⟩ := (lent (by decide)).shmget (by decide) (by decide) (small_size (c := c))
    rw [shmgetStep_got granted]
    refine ⟨page, inv.represents, sems, bound, ⟨fun _ => rfl, fun set => Bool.noConfusion set⟩, inv.producer, placed, behind, inv.ahead, ?_, fun _ => rfl, ?_, inv.printed⟩
    · refine ⟨fun _ unset => Bool.noConfusion unset, fun _ => ?_⟩
      rw [users]
      exact lent'
    · rw [words]
      exact inv.ring
  | false =>
    have unused := inv.memory.unused got (by rw [pc]; rfl)
    obtain ⟨memory, page', granted, lent⟩ := shmget_first unused.count unused.physical unused.inUse
      (small_size (c := c)) (provided.page pc unused.count)
    have placed' := inv.producer
    unfold Producer.Placed at placed'
    have early : s.producer.pc.users = 0 ∧ s.producer.pos = 0 := by
      cases pc' : s.producer.pc with
      | semOpen | shmget =>
        simp only [pc'] at placed'
        exact ⟨rfl, placed'.2⟩
      | _ =>
        rw [pc'] at got
        cases got
    rw [shmgetStep_got granted]
    refine ⟨page', inv.represents, sems, ⟨bound.shmid, ?_⟩, ⟨fun _ => rfl, fun set => Bool.noConfusion set⟩, inv.producer, placed, behind, inv.ahead, ?_, fun _ => rfl, ?_, inv.printed⟩
    · intro attached
      rw [Pc.attached_got got] at attached
      cases attached
    · refine ⟨fun _ unset => Bool.noConfusion unset, fun _ => ?_⟩
      rw [early.1]
      exact lent
    · intro n _ below
      rw [early.2] at below
      exact absurd below (Nat.not_lt_zero _)

theorem consumer_shmat (inv : Invariant c m page s) (pc : s.consumer.pc = .shmat) :
    Invariant c m page
      { s with kernel := (shmatStep s.kernel s.consumer ConsumerPc.waitFull).1,
               consumer := (shmatStep s.kernel s.consumer ConsumerPc.waitFull).2 } := by
  have placed := inv.consumer
  have behind := inv.behind
  have bound := inv.consumerBound
  simp only [Consumer.Placed, pc] at placed
  simp only [Consumer.begun, pc] at behind
  have lent := inv.memory.lent
  rw [pc] at lent
  have busy : s.producer.pc.users + 1 ≠ 0 := by omega
  have attached := (lent busy).attached busy
  rw [← bound.shmid (by rw [pc]; rfl)] at attached
  have sems := inv.consumer_keeps (p := { s.consumer with pc := .loop .waitFull, p := some page }) (by rw [pc]; rfl)
    rfl (by rw [pc]; rfl) rfl (by simp only [Consumer.begun, pc]) (by simp only [Consumer.critical, pc])
  rw [shmatStep_attached attached]
  refine ⟨inv.represents, sems, inv.producerBound, ⟨fun _ => bound.shmid (by rw [pc]; rfl), fun _ => rfl⟩, inv.producer, ⟨?_, ?_⟩, behind, inv.ahead, ⟨fun _ unset => Bool.noConfusion unset, lent⟩, fun _ => rfl, inv.ring, inv.printed⟩
  · rw [placed.1, placed.2]
  · rw [placed.1]
    exact c.someData

theorem consumer_finds (inv : Invariant c m page s) (pc : s.consumer.pc = .loop .load) :
    s.kernel.memory.words (c.slot page s.consumer.pos) = s.consumer.pos := by
  have placed := inv.consumer
  have behind := inv.behind
  have ahead := inv.producer_ahead
  simp only [Consumer.Placed, pc] at placed
  simp only [Consumer.begun, pc] at behind
  apply inv.ring _ le_rfl
  rw [placed.1]
  omega

theorem consumer_loads (inv : Invariant c m page s) (pc : s.consumer.pc = .loop .load) :
    s.consumer.p = some page ∧ Invariant c m page
      { s with consumer := { s.consumer with
          pc := .loop (if c.maxData ≤ s.consumer.pos + 1 then .unlink .bufferMutex else .postMutex)
          pos := s.consumer.pos + 1
          printed := s.consumer.printed ++ [(s.kernel.memory.words (c.slot page s.consumer.pos), s.consumer.pos)] } } := by
  have placed := inv.consumer
  have behind := inv.behind
  have bound := inv.consumerBound
  have lent := inv.memory.lent
  have found := inv.consumer_finds pc
  simp only [Consumer.Placed, pc] at placed
  simp only [Consumer.begun, pc] at behind
  rw [pc] at lent
  have limit := c.maxData.isLt
  have pos : (s.consumer.pos + 1).toNat = s.consumer.item.toNat + 1 := by
    rw [placed.1]
    exact succ_toNat (by omega)
  have lines' : s.consumer.printed ++ [(s.kernel.memory.words (c.slot page s.consumer.pos), s.consumer.pos)] =
      lines (s.consumer.pos + 1).toNat := by
    rw [pos, lines_succ, inv.printed, found, placed.1, BitVec.ofNat_toNat, BitVec.setWidth_eq]
  refine ⟨bound.address (by rw [pc]; rfl), ?_⟩
  have shape (place : ConsumerPc) (next : place = .unlink .bufferMutex ∨ place = .postMutex)
      (here : Consumer.Placed c { s.consumer with
        pc := .loop place, pos := s.consumer.pos + 1, printed := lines (s.consumer.pos + 1).toNat }) :
      Invariant c m page { s with consumer := { s.consumer with
        pc := .loop place, pos := s.consumer.pos + 1, printed := lines (s.consumer.pos + 1).toNat } } := by
    have sems := inv.consumer_keeps (p := { s.consumer with
        pc := .loop place, pos := s.consumer.pos + 1, printed := lines (s.consumer.pos + 1).toNat })
      (by rw [pc]; rfl) rfl (by rw [pc]; rcases next with rfl | rfl <;> rfl) rfl
      (by rcases next with rfl | rfl <;> simp only [Consumer.begun, pc])
      (by rcases next with rfl | rfl <;> simp only [Consumer.critical, pc])
    refine ⟨inv.represents, sems, inv.producerBound,
      ⟨fun _ => bound.shmid (by rw [pc]; rfl), fun _ => bound.address (by rw [pc]; rfl)⟩, inv.producer, here, ?_, inv.ahead, ⟨fun _ unset => Bool.noConfusion unset, lent⟩, fun _ => rfl, ?_, rfl⟩
    · rcases next with rfl | rfl <;> exact behind
    · intro n above below
      apply inv.ring n _ below
      simp only [pos] at above
      rw [placed.1]
      omega
  rw [lines']
  by_cases last : c.maxData ≤ s.consumer.pos + 1
  · rw [if_pos last]
    refine shape _ (.inl rfl) ⟨pos, BitVec.eq_of_toNat_eq ?_⟩
    rw [BitVec.le_def] at last
    simp only
    omega
  · rw [if_neg last]
    refine shape _ (.inr rfl) ⟨pos, ?_⟩
    rw [BitVec.le_def] at last
    simp only
    omega

theorem consumer_unlinks (inv : Invariant c m page s) {n : SemName} (pc : s.consumer.pc = .loop (.unlink n)) :
    ∃ heap m', sysSemUnlink s.kernel.heap n.literal = some (heap, .ok ()) ∧ Invariant c m' page
      { s with kernel := { s.kernel with heap := heap }, consumer := { s.consumer with pc := n.unlinked } } := by
  have placed := inv.consumer
  have behind := inv.behind
  simp only [Consumer.Placed, pc] at placed
  simp only [Consumer.begun, pc] at behind
  have here : goneAt s.consumer.pc n = false := by
    rw [pc]
    cases n <;> rfl
  obtain ⟨a, v, holds, entry, _⟩ := inv.consumer_entry (by rw [pc]; rfl) here
  obtain ⟨heap, unlinked, represents⟩ := semUnlink_gone inv.represents entry
  have open_ : s.consumer.holds n ≠ none := by
    simp only [Process.holds, Pc.opened, pc, if_true]
    exact Option.some_ne_none _
  have holds' : { s.consumer with pc := n.unlinked }.holds = s.consumer.holds := by
    funext n'
    cases n <;> simp only [Process.holds, Pc.opened, SemName.unlinked, pc]
  refine ⟨heap, _, unlinked, inv.consumer_moved represents ?_ ?_ le_rfl ?_ rfl rfl rfl rfl ?_ ?_ ?_⟩
  · apply SemsOk.swap
    rw [holds']
    apply inv.sems.swap.unlinked open_ here
    · cases n <;> rfl
    · intro n' other
      rw [pc]
      cases n <;> cases n' <;> simp [goneAt, SemName.unlinked] at other ⊢
    · intro n' other u before
      cases n <;> cases n' <;>
        simpa only [Balanced, Consumer.begun, Consumer.critical, SemName.unlinked, pc] using before
  · cases n <;> exact placed
  · cases n <;> exact behind
  · rw [pc]
    cases n <;> rfl
  · rw [pc]
    cases n <;> rfl
  · rw [pc]
    cases n <;> rfl

theorem consumer_exits (inv : Invariant c m page s) (pc : s.consumer.pc = .exit) :
    ∃ k p, exitStep s.kernel s.consumer = some (k, p) ∧ Invariant c m page { s with kernel := k, consumer := p } := by
  have placed := inv.consumer
  have behind := inv.behind
  have bound := inv.consumerBound
  simp only [Consumer.Placed, pc] at placed
  simp only [Consumer.begun, pc] at behind
  have address := bound.address (by rw [pc]; rfl)
  have busy : s.producer.pc.users + 1 ≠ 0 := by omega
  have lent : Lent s.kernel.memory (s.producer.pc.users + 1) page := by
    have ok := inv.memory.lent
    rw [pc] at ok
    exact ok busy
  obtain ⟨memory, freed, words, rest⟩ := lent.freePage busy
  have sems := inv.consumer_keeps (p := { s.consumer with pc := .done }) (by rw [pc]; rfl) rfl (by rw [pc]; rfl) rfl
    (by simp only [Consumer.begun, pc]) (by simp only [Consumer.critical, pc])
  refine ⟨⟨s.kernel.heap, memory⟩, { s.consumer with pc := .done }, exitStep_freed address freed, inv.represents, sems,
    inv.producerBound, ⟨fun _ => bound.shmid (by rw [pc]; rfl), fun _ => address⟩, inv.producer, placed, behind, inv.ahead, ?_, fun _ => rfl, ?_, inv.printed⟩
  · refine ⟨fun _ unset => Bool.noConfusion unset, fun left => ?_⟩
    have only : s.producer.pc.users + 0 ≠ 0 := left
    exact rest (by omega)
  · rw [words]
    exact inv.ring

theorem consumerStep_keeps (inv : Invariant c m page s) (block : Heap.CanGive s.kernel.heap malloc)
    (orderly : Orderly c s (.consumer malloc)) (step : consumerStep c s.kernel s.consumer malloc = some (k, p)) :
    ∃ m' page', Invariant c m' page' { s with kernel := k, consumer := p } := by
  unfold consumerStep at step
  split at step
  case h_1 n pc =>
    obtain ⟨m', after⟩ := inv.consumer_opens pc block orderly step
    exact ⟨m', page, after⟩
  case h_2 pc =>
    obtain ⟨page', after⟩ := inv.consumer_shmget pc orderly
    rw [Option.some.inj step] at after
    exact ⟨m, page', after⟩
  case h_3 pc =>
    have after := inv.consumer_shmat pc
    rw [Option.some.inj step] at after
    exact ⟨m, page, after⟩
  case h_4 pc =>
    split at step
    · obtain ⟨m', after⟩ := inv.consumer_waits_full pc step
      exact ⟨m', page, after⟩
    · rename_i all
      have placed := inv.consumer
      simp only [Consumer.Placed, pc] at placed
      exact absurd placed.2 all
  case h_5 pc =>
    obtain ⟨m', after⟩ := inv.consumer_waits_mutex pc step
    exact ⟨m', page, after⟩
  case h_6 pc =>
    obtain ⟨address, after⟩ := inv.consumer_loads pc
    obtain ⟨page', there, same⟩ := Option.map_eq_some_iff.mp step
    rw [address] at there
    cases there
    cases same
    exact ⟨m, page, after⟩
  case h_7 pc =>
    cases step
    obtain ⟨m', after⟩ := inv.consumer_posts_mutex pc
    exact ⟨m', page, after⟩
  case h_8 pc =>
    cases step
    obtain ⟨m', after⟩ := inv.consumer_posts_empty pc
    exact ⟨m', page, after⟩
  case h_9 n pc =>
    obtain ⟨heap, m', unlinked, after⟩ := inv.consumer_unlinks pc
    rw [unlinked] at step
    cases step
    exact ⟨m', page, after⟩
  case h_10 pc =>
    obtain ⟨_, _, left, after⟩ := inv.consumer_exits pc
    rw [step] at left
    cases left
    exact ⟨m, page, after⟩
  case h_11 => cases step

end Invariant

end Linux011.SharedBuffer

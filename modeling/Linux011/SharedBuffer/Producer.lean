import Linux011.SharedBuffer.Invariant

namespace Linux011.SharedBuffer

open Linux011.Library Linux011.Mm Linux011.Semaphore

variable {c : Config} {m : Registry} {page : Nat} {s : State} {malloc : Malloc} {k : Kernel} {p : Producer}

theorem succ_toNat {v : BitVec 32} (room : v.toNat + 1 < 2 ^ 32) : (v + 1).toNat = v.toNat + 1 := by
  rw [BitVec.toNat_add, show (1 : BitVec 32).toNat = 1 from rfl]
  exact Nat.mod_eq_of_lt room

theorem slot_ne_slot {pos next : BitVec 32} (less : pos.toNat < next.toNat)
    (near : next.toNat < pos.toNat + c.bufferSize.toNat) : c.slot page pos ≠ c.slot page next := by
  intro same
  simp only [Config.slot, BitVec.toNat_umod] at same
  have apart : (next.toNat - pos.toNat) % c.bufferSize.toNat = 0 := by
    apply Nat.sub_mod_eq_zero_of_mod_eq
    omega
  rw [Nat.mod_eq_of_lt (by omega)] at apart
  omega

namespace Invariant

theorem not_gone (inv : Invariant c m page s) (more : s.producer.item.toNat < c.maxData.toNat) (n : SemName) :
    goneAt s.consumer.pc n = false := by
  have placed := inv.consumer
  have behind := inv.behind
  unfold Consumer.Placed at placed
  unfold Consumer.begun at behind
  cases pc : s.consumer.pc with
  | loop place =>
    cases place with
    | unlink =>
      simp only [pc] at placed behind
      rw [placed.2] at placed
      omega
    | _ => rfl
  | exit | done =>
    simp only [pc] at placed behind
    rw [placed.2] at placed
    omega
  | _ => rfl

theorem producer_entry (inv : Invariant c m page s) (more : s.producer.item.toNat < c.maxData.toNat) {n : SemName}
    (opened : s.producer.pc.opened n = true) : ∃ a v, s.producer.sems n = .block a ∧
      m n.bytes = some (a, v) ∧ Balanced c s.producer s.consumer n v.toNat := by
  have ok := inv.sems n
  rw [inv.not_gone more n, Process.holds, if_pos opened] at ok
  exact ok.mine_entry

theorem consumer_idle (inv : Invariant c m page s) {n : SemName} (closed : s.consumer.holds n = none) :
    s.consumer.critical = 0 ∧ s.consumer.begun = 0 ∧ s.consumer.item = 0 := by
  have placed := inv.consumer
  unfold Consumer.Placed at placed
  unfold Process.holds at closed
  cases pc : s.consumer.pc with
  | semOpen =>
    simp only [pc] at placed
    refine ⟨?_, ?_, placed.1⟩
    · simp only [Consumer.critical, pc]
    · simp only [Consumer.begun, pc, placed.1]
      rfl
  | _ => simp [pc, Pc.opened] at closed

theorem producer_moved (inv : Invariant c m page s) {m' : Registry} {heap : Heap} {p : Producer}
    (represents : Represents heap m')
    (sems : SemsOk m' p.holds s.consumer.holds (goneAt s.consumer.pc) (Balanced c p s.consumer))
    (placed : p.Placed c) (item : s.producer.item.toNat ≤ p.item.toNat)
    (ahead : p.begun ≤ c.bufferSize.toNat + s.consumer.item.toNat) (shmid : p.shmid = s.producer.shmid)
    (address : p.p = s.producer.p) (pos : p.pos = s.producer.pos) (got : p.pc.got = s.producer.pc.got)
    (attached : p.pc.attached = s.producer.pc.attached) (users : p.pc.users = s.producer.pc.users)
    (going : p.pc ≠ .done) :
    Invariant c m' page { s with kernel := ⟨heap, s.kernel.memory⟩, producer := p } where
  represents := represents
  sems := sems
  producerBound := ⟨by rw [shmid, got]; exact inv.producerBound.shmid, by rw [address, attached]; exact inv.producerBound.address⟩
  consumerBound := inv.consumerBound
  producer := placed
  consumer := inv.consumer
  behind := inv.behind.trans item
  ahead := ahead
  memory := ⟨by rw [got]; exact inv.memory.unused, by rw [users]; exact inv.memory.lent⟩
  stayed done := absurd done going
  ring := by rw [pos]; exact inv.ring
  printed := inv.printed

theorem consumer_behind (inv : Invariant c m page s) : s.consumer.item.toNat ≤ s.consumer.pos.toNat := by
  have placed := inv.consumer
  unfold Consumer.Placed at placed
  split at placed
  all_goals first
    | omega
    | rw [placed.1, placed.2]
    | rw [placed.1]

theorem producer_opens (inv : Invariant c m page s) {n : SemName} (pc : s.producer.pc = .semOpen n)
    (block : Heap.CanGive s.kernel.heap malloc) (provided : Provided s.kernel s.producer malloc)
    (step : semOpenStep c s.kernel s.producer n malloc = some (k, p)) :
    ∃ m', Invariant c m' page { s with kernel := k, producer := p } := by
  obtain ⟨given, clean⟩ := provided.block n pc
  obtain ⟨a, v, found, represents, memory, rfl⟩ := semOpenStep_opened inv.represents block given clean step
  obtain ⟨heap, _⟩ := k
  subst memory
  have placed := inv.producer
  have ahead := inv.ahead
  simp only [Producer.Placed, pc] at placed
  simp only [Producer.begun, pc] at ahead
  refine ⟨_, inv.producer_moved represents ?_ ?_ le_rfl ?_ rfl rfl rfl ?_ ?_ ?_ ?_⟩
  · apply inv.sems.opened
    · cases n <;> simp [Process.holds, Pc.opened, pc]
    · apply inv.not_gone
      rw [placed.1]
      exact c.someData
    · exact found.imp And.left id
    · cases n <;> simp [Process.holds, Pc.opened, SemName.opened]
    · intro n' other
      cases n <;> cases n' <;> simp [Process.holds, Pc.opened, SemName.opened, pc] at other ⊢
    · intro n' u before
      cases n' <;> cases n <;>
        simpa only [Balanced, Producer.begun, Producer.critical, SemName.opened, pc] using before
    · intro closed fresh
      obtain ⟨critical, begun, item⟩ := inv.consumer_idle closed
      rcases found with ⟨_, value⟩ | other
      · cases n <;> simp [Balanced, Producer.begun, Producer.critical, SemName.opened, SemName.value, value,
          critical, begun, item, placed.1]
      · rw [fresh] at other
        cases other
  · cases n <;> simpa only [Producer.Placed, SemName.opened] using placed
  · cases n <;> simpa only [Producer.begun, SemName.opened] using ahead
  · cases n <;> simp only [SemName.opened, Pc.got, pc]
  · cases n <;> simp only [SemName.opened, Pc.attached, pc]
  · cases n <;> simp only [SemName.opened, Pc.users, pc]
  · cases n <;> simp only [SemName.opened, ne_eq, reduceCtorEq, not_false_eq_true]

theorem producer_changes (inv : Invariant c m page s) (more : s.producer.item.toNat < c.maxData.toNat)
    {n : SemName} {a : Nat} {v w : BitVec 32} (entry : m n.bytes = some (a, v)) {p : Producer}
    (opened : s.producer.pc.opened = p.pc.opened) (sems : p.sems = s.producer.sems)
    (moved : Balanced c s.producer s.consumer n v.toNat → Balanced c p s.consumer n w.toNat)
    (others : ∀ n', n' ≠ n → ∀ u, Balanced c s.producer s.consumer n' u → Balanced c p s.consumer n' u) :
    SemsOk (Function.update m n.bytes (some (a, w))) p.holds s.consumer.holds (goneAt s.consumer.pc)
      (Balanced c p s.consumer) := by
  have holds : p.holds = s.producer.holds := by
    funext n'
    rw [Process.holds, Process.holds, opened, sems]
  rw [holds]
  exact inv.sems.value entry (inv.not_gone more n) moved others

theorem producer_keeps (inv : Invariant c m page s) {p : Producer} (opened : s.producer.pc.opened = p.pc.opened)
    (sems : p.sems = s.producer.sems) (item : p.item = s.producer.item) (begun : p.begun = s.producer.begun)
    (critical : p.critical = s.producer.critical) :
    SemsOk m p.holds s.consumer.holds (goneAt s.consumer.pc) (Balanced c p s.consumer) := by
  have holds : p.holds = s.producer.holds := by
    funext n
    rw [Process.holds, Process.holds, opened, sems]
  rw [holds]
  apply inv.sems.mono
  intro n u before
  cases n <;> simpa only [Balanced, begun, critical, item] using before

theorem producer_waits_empty (inv : Invariant c m page s) (pc : s.producer.pc = .loop .waitEmpty)
    (more : s.producer.item < c.maxData) (step : waitStep s.kernel s.producer .empty .waitMutex = some (k, p)) :
    ∃ m', Invariant c m' page { s with kernel := k, producer := p } := by
  have placed := inv.producer
  simp only [Producer.Placed, pc] at placed
  obtain ⟨a, v, holds, entry, balanced⟩ := inv.producer_entry (n := .empty) more (by rw [pc]; rfl)
  obtain ⟨token, represents, memory, rfl⟩ := waitStep_took inv.represents holds entry step
  obtain ⟨heap, _⟩ := k
  subst memory
  have pred := pred_toNat token
  simp only [Balanced, Producer.begun, pc] at balanced
  refine ⟨_, inv.producer_moved represents ?_ ?_ le_rfl ?_ rfl rfl rfl ?_ ?_ ?_ nofun⟩
  · apply inv.producer_changes more entry
    · rw [pc]; rfl
    · rfl
    · intro _
      simp only [Balanced, Producer.begun]
      omega
    · intro n other u before
      cases n <;> simp only [Balanced, Producer.critical, pc, ne_eq, not_true_eq_false] at before other ⊢ <;> exact before
  · exact ⟨placed.1, more⟩
  · simp only [Producer.begun]
    omega
  · rw [pc]; rfl
  · rw [pc]; rfl
  · rw [pc]; rfl

theorem producer_waits_mutex (inv : Invariant c m page s) (pc : s.producer.pc = .loop .waitMutex)
    (step : waitStep s.kernel s.producer .bufferMutex .store = some (k, p)) :
    ∃ m', Invariant c m' page { s with kernel := k, producer := p } := by
  have placed := inv.producer
  have ahead := inv.ahead
  simp only [Producer.Placed, pc] at placed
  simp only [Producer.begun, pc] at ahead
  obtain ⟨a, v, holds, entry, balanced⟩ := inv.producer_entry (n := .bufferMutex) placed.2 (by rw [pc]; rfl)
  obtain ⟨token, represents, memory, rfl⟩ := waitStep_took inv.represents holds entry step
  obtain ⟨heap, _⟩ := k
  subst memory
  have pred := pred_toNat token
  simp only [Balanced, Producer.critical, pc] at balanced
  refine ⟨_, inv.producer_moved represents ?_ ?_ le_rfl ?_ rfl rfl rfl ?_ ?_ ?_ nofun⟩
  · apply inv.producer_changes placed.2 entry
    · rw [pc]; rfl
    · rfl
    · intro _
      simp only [Balanced, Producer.critical]
      omega
    · intro n other u before
      cases n <;> simp only [Balanced, Producer.begun, pc, ne_eq, not_true_eq_false] at before other ⊢ <;> exact before
  · exact placed
  · exact ahead
  · rw [pc]; rfl
  · rw [pc]; rfl
  · rw [pc]; rfl

theorem producer_posts_mutex (inv : Invariant c m page s) (pc : s.producer.pc = .loop .postMutex) :
    ∃ m', Invariant c m' page
      { s with kernel := { s.kernel with heap := semPost s.kernel.heap (s.producer.sems .bufferMutex) },
               producer := { s.producer with pc := .loop .postFull } } := by
  have placed := inv.producer
  have ahead := inv.ahead
  simp only [Producer.Placed, pc] at placed
  simp only [Producer.begun, pc] at ahead
  obtain ⟨a, v, holds, entry, balanced⟩ := inv.producer_entry (n := .bufferMutex) placed.2 (by rw [pc]; rfl)
  rw [holds]
  simp only [Balanced, Producer.critical, pc] at balanced
  refine ⟨_, inv.producer_moved (semPost_represents inv.represents entry) ?_ ?_ le_rfl ?_ rfl rfl rfl ?_ ?_ ?_ nofun⟩
  · apply inv.producer_changes placed.2 entry
    · rw [pc]; rfl
    · rfl
    · intro _
      simp only [Balanced, Producer.critical, succ_toNat (by omega : v.toNat + 1 < 2 ^ 32)]
      omega
    · intro n other u before
      cases n <;> simp only [Balanced, Producer.begun, pc, ne_eq, not_true_eq_false] at before other ⊢ <;> exact before
  · exact placed
  · exact ahead
  · rw [pc]; rfl
  · rw [pc]; rfl
  · rw [pc]; rfl

theorem producer_posts_full (inv : Invariant c m page s) (pc : s.producer.pc = .loop .postFull) :
    ∃ m', Invariant c m' page
      { s with kernel := { s.kernel with heap := semPost s.kernel.heap (s.producer.sems .full) },
               producer := { s.producer with pc := .loop .waitEmpty, item := s.producer.item + 1 } } := by
  have placed := inv.producer
  have ahead := inv.ahead
  simp only [Producer.Placed, pc] at placed
  simp only [Producer.begun, pc] at ahead
  obtain ⟨a, v, holds, entry, balanced⟩ := inv.producer_entry (n := .full) placed.2 (by rw [pc]; rfl)
  rw [holds]
  have bound := c.maxData.isLt
  have item := succ_toNat (by omega : s.producer.item.toNat + 1 < 2 ^ 32)
  simp only [Balanced] at balanced
  refine ⟨_, inv.producer_moved (semPost_represents inv.represents entry) ?_ ?_ ?_ ?_ rfl rfl rfl ?_ ?_ ?_ nofun⟩
  · apply inv.producer_changes placed.2 entry
    · rw [pc]; rfl
    · rfl
    · intro _
      simp only [Balanced, item, succ_toNat (by omega : v.toNat + 1 < 2 ^ 32)]
      omega
    · intro n other u before
      cases n <;> simp only [Balanced, Producer.begun, Producer.critical, pc, item, ne_eq, not_true_eq_false] at before other ⊢ <;>
        exact before
  · refine ⟨BitVec.eq_of_toNat_eq ?_, ?_⟩
    · rw [item]
      exact placed.1
    · simp only [item]
      omega
  · simp only [item]
    omega
  · simpa only [Producer.begun, item] using ahead
  · rw [pc]; rfl
  · rw [pc]; rfl
  · rw [pc]; rfl

theorem producer_shmget (inv : Invariant c m page s) (pc : s.producer.pc = .shmget)
    (provided : Provided s.kernel s.producer malloc) :
    ∃ page', Invariant c m page'
      { s with kernel := (shmgetStep c s.kernel s.producer).1, producer := (shmgetStep c s.kernel s.producer).2 } := by
  have placed := inv.producer
  have ahead := inv.ahead
  have behind := inv.behind
  have bound := inv.consumerBound
  simp only [Producer.Placed, pc] at placed
  simp only [Producer.begun, pc] at ahead
  have sems := inv.producer_keeps (p := { s.producer with pc := .shmat, shmid := key }) (by rw [pc]; rfl) rfl rfl
    (by simp only [Producer.begun, pc]) (by simp only [Producer.critical, pc])
  cases got : s.consumer.pc.got with
  | true =>
    have users : s.consumer.pc.users = 1 := by
      rw [placed.1] at behind
      unfold Consumer.begun at behind
      cases pc' : s.consumer.pc with
      | done =>
        simp only [pc'] at behind
        exact absurd behind (Nat.not_succ_le_zero _)
      | semOpen | shmget =>
        rw [pc'] at got
        cases got
      | _ => rfl
    have lent := inv.memory.lent
    rw [pc, users] at lent
    obtain ⟨memory, granted, words, lent'⟩ := (lent nofun).shmget nofun (by decide) (small_size (c := c))
    rw [shmgetStep_got granted]
    refine ⟨page, inv.represents, sems, ⟨fun _ => rfl, nofun⟩, bound, placed, inv.consumer, behind, ahead, ?_, nofun, ?_, inv.printed⟩
    · refine ⟨nofun, fun _ => ?_⟩
      rw [users]
      exact lent'
    · rw [words]
      exact inv.ring
  | false =>
    have unused := inv.memory.unused (by rw [pc]; rfl) got
    obtain ⟨memory, page', granted, lent⟩ := shmget_first unused.count unused.physical unused.inUse
      (small_size (c := c)) (provided.page pc unused.count)
    have users : s.consumer.pc.users = 0 := by
      cases pc' : s.consumer.pc <;> first | rfl | (rw [pc'] at got; cases got)
    rw [shmgetStep_got granted]
    refine ⟨page', inv.represents, sems, ⟨fun _ => rfl, nofun⟩, ⟨bound.shmid, ?_⟩, placed, inv.consumer, behind, ahead, ?_, nofun, ?_, inv.printed⟩
    · intro attached
      rw [Pc.attached_got got] at attached
      cases attached
    · refine ⟨nofun, fun _ => ?_⟩
      rw [users]
      exact lent
    · intro n _ below
      rw [placed.2] at below
      exact absurd below (Nat.not_lt_zero _)

theorem producer_shmat (inv : Invariant c m page s) (pc : s.producer.pc = .shmat) :
    Invariant c m page
      { s with kernel := (shmatStep s.kernel s.producer ProducerPc.waitEmpty).1,
               producer := (shmatStep s.kernel s.producer ProducerPc.waitEmpty).2 } := by
  have placed := inv.producer
  have ahead := inv.ahead
  have bound := inv.producerBound
  simp only [Producer.Placed, pc] at placed
  simp only [Producer.begun, pc] at ahead
  have lent := inv.memory.lent
  rw [pc] at lent
  have busy : 1 + s.consumer.pc.users ≠ 0 := by omega
  have attached := (lent busy).attached busy
  rw [← bound.shmid (by rw [pc]; rfl)] at attached
  have sems := inv.producer_keeps (p := { s.producer with pc := .loop .waitEmpty, p := some page }) (by rw [pc]; rfl)
    rfl rfl (by simp only [Producer.begun, pc]) (by simp only [Producer.critical, pc])
  rw [shmatStep_attached attached]
  refine ⟨inv.represents, sems, ⟨fun _ => bound.shmid (by rw [pc]; rfl), fun _ => rfl⟩, inv.consumerBound, ?_, inv.consumer, inv.behind, ahead, ⟨nofun, lent⟩, nofun, inv.ring, inv.printed⟩
  refine ⟨?_, ?_⟩
  · rw [placed.1, placed.2]
  · rw [placed.1]
    exact Nat.zero_le _

theorem producer_leaves (inv : Invariant c m page s) (pc : s.producer.pc = .loop .waitEmpty)
    (all : ¬ s.producer.item < c.maxData) : Invariant c m page { s with producer := { s.producer with pc := .exit } } := by
  have placed := inv.producer
  have ahead := inv.ahead
  simp only [Producer.Placed, pc] at placed
  simp only [Producer.begun, pc] at ahead
  have sems := inv.producer_keeps (p := { s.producer with pc := .exit }) (by rw [pc]; rfl) rfl rfl
    (by simp only [Producer.begun, pc]) (by simp only [Producer.critical, pc])
  have last : s.producer.item = c.maxData := by
    apply BitVec.eq_of_toNat_eq
    rw [BitVec.lt_def] at all
    omega
  refine inv.producer_moved inv.represents sems ⟨placed.1, last⟩ le_rfl ahead rfl rfl rfl ?_ ?_ ?_ nofun
  · rw [pc]; rfl
  · rw [pc]; rfl
  · rw [pc]; rfl

theorem producer_stores (inv : Invariant c m page s) (pc : s.producer.pc = .loop .store) :
    s.producer.p = some page ∧ Invariant c m page
      { s with kernel := { s.kernel with memory := s.kernel.memory.set (c.slot page s.producer.pos) s.producer.item },
               producer := { s.producer with pc := .loop .postMutex, pos := s.producer.pos + 1,
                                             printed := s.producer.printed ++ [(s.producer.item, s.producer.pos)] } } := by
  have placed := inv.producer
  have ahead := inv.ahead
  have bound := inv.producerBound
  have behind := inv.consumer_behind
  have lent := inv.memory.lent
  simp only [Producer.Placed, pc] at placed
  simp only [Producer.begun, pc] at ahead
  rw [pc] at lent
  have limit := c.maxData.isLt
  have pos : (s.producer.pos + 1).toNat = s.producer.item.toNat + 1 := by
    rw [placed.1]
    exact succ_toNat (by omega)
  have sems := inv.producer_keeps (p := { s.producer with
      pc := .loop .postMutex, pos := s.producer.pos + 1,
      printed := s.producer.printed ++ [(s.producer.item, s.producer.pos)] }) (by rw [pc]; rfl) rfl rfl
    (by simp only [Producer.begun, pc]) (by simp only [Producer.critical, pc])
  refine ⟨bound.address (by rw [pc]; rfl), inv.represents, sems,
    ⟨fun _ => bound.shmid (by rw [pc]; rfl), fun _ => bound.address (by rw [pc]; rfl)⟩, inv.consumerBound, ⟨pos, placed.2⟩, inv.consumer, inv.behind, ahead, ?_, nofun, ?_, inv.printed⟩
  · exact ⟨nofun, fun busy => (lent busy).congr rfl rfl rfl⟩
  · intro n above below
    simp only [pos] at below
    by_cases last : n = s.producer.pos
    · rw [last, set_self, placed.1]
    · have other : n.toNat ≠ s.producer.pos.toNat := fun same => last (BitVec.eq_of_toNat_eq same)
      rw [placed.1] at other
      have before : n.toNat < s.producer.pos.toNat := by
        rw [placed.1]
        omega
      have near : s.producer.pos.toNat < n.toNat + c.bufferSize.toNat := by
        have reached : s.consumer.pos.toNat ≤ n.toNat := above
        rw [placed.1]
        omega
      have apart : c.slot page n ≠ c.slot page s.producer.pos := slot_ne_slot before near
      rw [set_other apart]
      exact inv.ring n above before

/-- With more items than slots, a producer that is through has waited for the consumer. -/
theorem consumer_got (inv : Invariant c m page s) (pc : s.producer.pc = .exit)
    (orderly : c.bufferSize < c.maxData ∨ s.consumer.pc.got = true) : s.consumer.pc.got = true := by
  rcases orderly with more | got
  · have placed := inv.producer
    have ahead := inv.ahead
    have placed' := inv.consumer
    simp only [Producer.Placed, pc] at placed
    simp only [Producer.begun, pc, placed.2] at ahead
    rw [BitVec.lt_def] at more
    have begun : s.consumer.item ≠ 0 := by
      intro zero
      rw [zero] at ahead
      exact absurd more (Nat.not_lt.mpr ahead)
    unfold Consumer.Placed at placed'
    cases pc' : s.consumer.pc with
    | semOpen | shmget =>
      simp only [pc'] at placed'
      exact absurd placed'.1 begun
    | _ => rfl
  · exact got

theorem producer_frees (inv : Invariant c m page s) (pc : s.producer.pc = .exit) :
    ∃ memory, exitStep s.kernel s.producer = some (⟨s.kernel.heap, memory⟩, { s.producer with pc := .done }) ∧
      memory.words = s.kernel.memory.words ∧ PageOk memory .done s.consumer.pc page := by
  have address := inv.producerBound.address (by rw [pc]; rfl)
  have busy : 1 + s.consumer.pc.users ≠ 0 := by omega
  have lent : Lent s.kernel.memory (1 + s.consumer.pc.users) page := by
    have ok := inv.memory.lent
    rw [pc] at ok
    exact ok busy
  obtain ⟨memory, freed, words, rest⟩ := lent.freePage busy
  refine ⟨memory, exitStep_freed address freed, words, nofun, fun left => ?_⟩
  have only : 0 + s.consumer.pc.users ≠ 0 := left
  have others := rest (by omega)
  rw [Nat.add_sub_cancel_left] at others
  rw [← Nat.zero_add s.consumer.pc.users] at others
  exact others

theorem producer_exits (inv : Invariant c m page s) (pc : s.producer.pc = .exit)
    (orderly : c.bufferSize < c.maxData ∨ s.consumer.pc.got = true) :
    ∃ k p, exitStep s.kernel s.producer = some (k, p) ∧ Invariant c m page { s with kernel := k, producer := p } := by
  have placed := inv.producer
  have ahead := inv.ahead
  have bound := inv.producerBound
  simp only [Producer.Placed, pc] at placed
  simp only [Producer.begun, pc] at ahead
  obtain ⟨memory, left, words, ok⟩ := inv.producer_frees pc
  have sems := inv.producer_keeps (p := { s.producer with pc := .done }) (by rw [pc]; rfl) rfl rfl
    (by simp only [Producer.begun, pc]) (by simp only [Producer.critical, pc])
  refine ⟨_, _, left, inv.represents, sems,
    ⟨fun _ => bound.shmid (by rw [pc]; rfl), fun _ => bound.address (by rw [pc]; rfl)⟩, inv.consumerBound, placed, inv.consumer, inv.behind, ahead, ok, fun _ => inv.consumer_got pc orderly, ?_, inv.printed⟩
  rw [words]
  exact inv.ring

theorem producerStep_keeps (inv : Invariant c m page s) (block : Heap.CanGive s.kernel.heap malloc)
    (orderly : Orderly c s (.producer malloc)) (step : producerStep c s.kernel s.producer malloc = some (k, p)) :
    ∃ m' page', Invariant c m' page' { s with kernel := k, producer := p } := by
  unfold producerStep at step
  split at step
  case h_1 n pc =>
    obtain ⟨m', after⟩ := inv.producer_opens pc block orderly.1 step
    exact ⟨m', page, after⟩
  case h_2 pc =>
    obtain ⟨page', after⟩ := inv.producer_shmget pc orderly.1
    rw [Option.some.inj step] at after
    exact ⟨m, page', after⟩
  case h_3 pc =>
    have after := inv.producer_shmat pc
    rw [Option.some.inj step] at after
    exact ⟨m, page, after⟩
  case h_4 pc =>
    split at step
    · rename_i more
      obtain ⟨m', after⟩ := inv.producer_waits_empty pc more step
      exact ⟨m', page, after⟩
    · rename_i all
      cases step
      exact ⟨m, page, inv.producer_leaves pc all⟩
  case h_5 pc =>
    obtain ⟨m', after⟩ := inv.producer_waits_mutex pc step
    exact ⟨m', page, after⟩
  case h_6 pc =>
    obtain ⟨address, after⟩ := inv.producer_stores pc
    obtain ⟨page', there, same⟩ := Option.map_eq_some_iff.mp step
    rw [address] at there
    cases there
    cases same
    exact ⟨m, page, after⟩
  case h_7 pc =>
    cases step
    obtain ⟨m', after⟩ := inv.producer_posts_mutex pc
    exact ⟨m', page, after⟩
  case h_8 pc =>
    cases step
    obtain ⟨m', after⟩ := inv.producer_posts_full pc
    exact ⟨m', page, after⟩
  case h_9 pc =>
    obtain ⟨_, _, left, after⟩ := inv.producer_exits pc (orderly.2 pc)
    rw [step] at left
    cases left
    exact ⟨m, page, after⟩
  case h_10 => cases step

end Invariant

end Linux011.SharedBuffer

import Linux011.ProducerConsumer.Accounts

namespace Linux011.ProducerConsumer

variable {c : Config} {m m' : Shared} {e : Event}

section Buffer

theorem read_pos (at_pos : m.bufferFd.offset = c.posSlot) : m.bufferFd.read = m.pos c := by
  rw [BufferFile.read, at_pos]
  rfl

theorem write_pos (value : BitVec 32) (at_pos : m.bufferFd.offset = c.posSlot) :
    Shared.pos c { m with bufferFd := m.bufferFd.write value } = value := by
  simp [Shared.pos, BufferFile.write, BufferFile.advance, at_pos]

theorem write_cells (f : BufferFile) (value : BitVec 32) :
    (f.write value).cells = Function.update f.cells f.offset value := rfl

end Buffer

section Consumer

variable {p p' : Consumer}

/-- A consumer that is about to wait on `full`, or has consumed one more item, is within the items. -/
def Consumer.Within (c : Config) (p : Consumer) : Prop :=
  (p.pc = .waitFull → p.i < c.maxDataNumber) ∧ (p.pc = .postEmpty → p.i < c.maxDataNumber)

theorem ConsumerMove.ready (move : ConsumerMove c m p p' m' e) (ready : p.Ready c m)
    (bounded : m.pos c ≤ c.maxDataNumber) (within : p.Within c)
    (kept : p.pc = .readData → m.bufferFd.cells (c.slot (m.pos c)) = m.pos c) : p'.Ready c m' := by
  cases move with
  | waitFull | waitMutex | postMutex | postEmpty => trivial
  | leave pc last => exact absurd (within.1 pc) last
  | seekPos => rfl
  | noMore pc beyond =>
    simp only [Consumer.Ready, pc] at ready
    rw [read_pos ready] at beyond
    exact BitVec.le_antisymm bounded beyond
  | readPos pc more =>
    simp only [Consumer.Ready, pc] at ready
    exact ⟨read_pos ready, more⟩
  | postNoMore pc =>
    simp only [Consumer.Ready, pc] at ready
    exact ready
  | seekData pc =>
    simp only [Consumer.Ready, pc] at ready
    exact ⟨rfl, ready⟩
  | readData pc =>
    simp only [Consumer.Ready, pc] at ready
    obtain ⟨offset, pos, more⟩ := ready
    have read : m.bufferFd.read = p.consumerPos := by
      rw [BufferFile.read, offset, pos, kept pc]
    exact ⟨read, pos, more⟩
  | print pc =>
    simp only [Consumer.Ready, pc] at ready
    obtain ⟨-, pos, more⟩ := ready
    rw [pos] at more
    exact ⟨congrArg (· + 1) pos, more⟩
  | seekStore pc =>
    simp only [Consumer.Ready, pc] at ready
    exact ⟨rfl, ready⟩
  | storeLast pc last =>
    simp only [Consumer.Ready, pc] at ready
    obtain ⟨offset, pos, more⟩ := ready
    have next : p.consumerPos = c.maxDataNumber := BitVec.le_antisymm (pos ▸ succ_le more) last
    exact ⟨(write_pos _ offset).trans next, Nat.zero_le _⟩
  | store pc => trivial
  | postRest pc more =>
    simp only [Consumer.Ready, pc] at ready ⊢
    exact ⟨ready.1, succ_le more⟩
  | postLast pc =>
    simp only [Consumer.Ready, pc] at ready
    exact ready.1

theorem ConsumerMove.mutex (move : ConsumerMove c m p p' m' e) :
    m'.bufferMutex + p'.pc.critical = m.bufferMutex + p.pc.critical := by
  cases move <;> simp_all [ConsumerPc.critical]

theorem ConsumerMove.cells (move : ConsumerMove c m p p' m' e) (elsewhere : p.pc ≠ .writeStore) :
    m'.bufferFd.cells = m.bufferFd.cells := by
  cases move with
  | storeLast pc | store pc => exact absurd pc elsewhere
  | _ => rfl

theorem ConsumerMove.stored (move : ConsumerMove c m p p' m' e) (ready : p.Ready c m)
    (at_store : p.pc = .writeStore) :
    m.pos c < c.maxDataNumber ∧ m'.pos c = m.pos c + 1 ∧
      m'.bufferFd.cells = Function.update m.bufferFd.cells c.posSlot (m.pos c + 1) := by
  simp only [Consumer.Ready, at_store] at ready
  obtain ⟨offset, pos, more⟩ := ready
  cases move with
  | storeLast | store =>
    refine ⟨more, (write_pos _ offset).trans pos, ?_⟩
    rw [write_cells, offset, pos]
  | waitFull _ pc | waitMutex _ pc | leave pc | seekPos pc | noMore pc | readPos pc | postNoMore pc
  | seekData pc | readData pc | print pc | seekStore pc | postRest pc | postLast pc | postMutex pc
  | postEmpty pc =>
    rw [pc] at at_store
    cases at_store

theorem ConsumerMove.position (move : ConsumerMove c m p p' m' e) (ready : p.Ready c m) :
    (m'.pos c).toNat + p'.pc.storing = (m.pos c).toNat + p.pc.storing + e.items := by
  cases move with
  | storeLast pc | store pc =>
    simp only [Consumer.Ready, pc] at ready
    obtain ⟨offset, pos, more⟩ := ready
    rw [write_pos _ offset, pos, succ_toNat more, pc]
    rfl
  | waitFull _ pc | waitMutex _ pc | leave pc | seekPos pc | noMore pc | readPos pc | postNoMore pc
  | seekData pc | readData pc | print pc | seekStore pc | postRest pc | postLast pc | postMutex pc
  | postEmpty pc =>
    rw [pc]
    rfl

theorem ConsumerMove.empty (move : ConsumerMove c m p p' m' e) (ready : p.Ready c m) :
    m'.empty + p'.pc.unreturned + m'.finished c = m.empty + p.pc.unreturned + m.finished c + e.items := by
  cases move with
  | storeLast pc last =>
    simp only [Consumer.Ready, pc] at ready
    obtain ⟨offset, pos, more⟩ := ready
    have next : p.consumerPos = c.maxDataNumber := BitVec.le_antisymm (pos ▸ succ_le more) last
    rw [finished_eq more, Shared.finished, write_pos _ offset, if_pos next, pc]
    rfl
  | store pc less =>
    simp only [Consumer.Ready, pc] at ready
    obtain ⟨offset, pos, more⟩ := ready
    rw [finished_eq more, finished_eq (by rw [write_pos _ offset]; exact less), pc]
    rfl
  | waitFull _ pc | waitMutex _ pc | leave pc | seekPos pc | noMore pc | readPos pc | postNoMore pc
  | seekData pc | readData pc | print pc | seekStore pc | postRest pc | postLast pc | postMutex pc
  | postEmpty pc =>
    show _ + _ + m.finished c = _
    simp only [pc, ConsumerPc.unreturned, Event.items]
    omega

theorem ConsumerMove.full (move : ConsumerMove c m p p' m' e) (ready : p.Ready c m)
    (within : p.Within c) :
    m'.full + e.items + p'.tokens c + m.spare c = m.full + p.tokens c + m'.spare c := by
  cases move with
  | storeLast pc last =>
    simp only [Consumer.Ready, pc] at ready
    obtain ⟨offset, pos, more⟩ := ready
    have next : p.consumerPos = c.maxDataNumber := BitVec.le_antisymm (pos ▸ succ_le more) last
    rw [spare_eq more, Shared.spare, write_pos _ offset, if_pos next]
    simp [Consumer.tokens, pc, Event.items]
  | store pc less =>
    simp only [Consumer.Ready, pc] at ready
    obtain ⟨offset, pos, more⟩ := ready
    rw [spare_eq more, spare_eq (by rw [write_pos _ offset]; exact less)]
    simp [Consumer.tokens, pc, Event.items]
  | leave pc last => exact absurd (within.1 pc) last
  | postRest pc more =>
    have less : p.j.toNat < (c.childNumber - 1).toNat := more
    have pred := pred_childNumber c
    show _ + _ + _ + m.spare c = _ + m.spare c
    simp only [Consumer.tokens, pc, Event.items, succ_toNat more]
    omega
  | postLast pc last =>
    simp only [Consumer.Ready, pc] at ready
    have same : p.j = c.childNumber - 1 := BitVec.le_antisymm ready.2 (BitVec.not_lt.mp last)
    have pred := pred_childNumber c
    show _ + _ + _ + m.spare c = _ + m.spare c
    simp only [Consumer.tokens, pc, Event.items, same]
    omega
  | waitFull full pc more taken =>
    show _ + _ + _ + m.spare c = _ + m.spare c
    simp only [Consumer.tokens, pc, Event.items]
    omega
  | waitMutex _ pc | seekPos pc | noMore pc | readPos pc | postNoMore pc | seekData pc | readData pc
  | print pc | seekStore pc | postMutex pc | postEmpty pc =>
    show _ + _ + _ + m.spare c = _ + m.spare c
    simp only [Consumer.tokens, pc, Event.items]

theorem ConsumerMove.counted (move : ConsumerMove c m p p' m' e) (within : p.Within c) :
    p'.i.toNat + m.empty = p.i.toNat + m'.empty := by
  cases move with
  | postEmpty pc =>
    show (p.i + 1).toNat + m.empty = p.i.toNat + (m.empty + 1)
    rw [succ_toNat (within.2 pc)]
    omega
  | _ => rfl

theorem ConsumerMove.buffer (move : ConsumerMove c m p p' m' e) :
    p.pc.critical = 1 ∨ m'.bufferFd = m.bufferFd := by
  cases move with
  | seekPos pc | noMore pc | readPos pc | seekData pc | readData pc | seekStore pc | storeLast pc
  | store pc => exact .inl (by rw [pc]; rfl)
  | _ => exact .inr rfl

theorem ConsumerMove.consumed {data position : BitVec 32} (ready : p.Ready c m)
    (move : ConsumerMove c m p p' m' (.consumed data position)) :
    p.pc = .print ∧ data = m.pos c ∧ position = m.pos c := by
  cases move with
  | print pc =>
    simp only [Consumer.Ready, pc] at ready
    exact ⟨pc, ready.1.trans ready.2.1, ready.2.1⟩

theorem ConsumerMove.writes (move : ConsumerMove c m p p' m' e) : e.writes = 0 := by
  cases move <;> rfl

theorem ConsumerMove.born (move : ConsumerMove c m p p' m' e) : p.pc ≠ .unborn ∧ p'.pc ≠ .unborn := by
  cases move <;> simp_all

/-- What a consumer outside the critical section knows does not depend on the offset. -/
theorem Consumer.Ready.outside (ready : p.Ready c m) (out : p.pc.critical = 0)
    (last : m.pos c = c.maxDataNumber → m'.pos c = c.maxDataNumber) : p.Ready c m' := by
  unfold Consumer.Ready at ready ⊢
  cases pc : p.pc <;> simp_all [ConsumerPc.critical]

theorem Consumer.Ready.buffer (ready : p.Ready c m) (same : m'.bufferFd = m.bufferFd) :
    p.Ready c m' := by
  unfold Consumer.Ready Shared.pos at ready ⊢
  rw [same]
  exact ready

end Consumer

section Producer

variable {p p' : Producer}

theorem ProducerMove.ready (move : ProducerMove c m p p' m' e) (ready : p.Ready c m) :
    p'.Ready c m' := by
  cases move with
  | waitEmpty _ pc more =>
    simp only [Producer.Ready, pc] at ready
    exact ⟨ready.1, more⟩
  | leave pc last =>
    simp only [Producer.Ready, pc] at ready
    exact BitVec.le_antisymm ready.2 (BitVec.not_lt.mp last)
  | waitMutex _ pc | postMutex pc =>
    simp only [Producer.Ready, pc] at ready
    exact ready
  | seek pc =>
    simp only [Producer.Ready, pc] at ready
    exact ⟨congrArg c.slot ready.1, ready⟩
  | write pc =>
    simp only [Producer.Ready, pc] at ready
    exact ready.2
  | print pc =>
    simp only [Producer.Ready, pc] at ready
    exact ⟨congrArg (· + 1) ready.1, ready.2⟩
  | postFull pc =>
    simp only [Producer.Ready, pc] at ready
    exact ⟨ready.1, succ_le ready.2⟩

theorem ProducerMove.mutex (move : ProducerMove c m p p' m' e) :
    m'.bufferMutex + p'.pc.critical = m.bufferMutex + p.pc.critical := by
  cases move <;> simp_all [ProducerPc.critical]

theorem ProducerMove.data (move : ProducerMove c m p p' m' e) (ready : p.Ready c m) :
    m'.full + p.data.toNat = m.full + p'.data.toNat := by
  cases move with
  | postFull pc =>
    simp only [Producer.Ready, pc] at ready
    simp only [succ_toNat ready.2]
    omega
  | _ => rfl

theorem ProducerMove.empty (move : ProducerMove c m p p' m' e) (ready : p.Ready c m) :
    m'.empty + p'.started = m.empty + p.started := by
  cases move with
  | waitEmpty empty pc _ taken =>
    simp only [Producer.started, pc, ProducerPc.started]
    omega
  | postFull pc =>
    simp only [Producer.Ready, pc] at ready
    simp only [Producer.started, pc, ProducerPc.started, succ_toNat ready.2]
  | leave pc | waitMutex _ pc | seek pc | write pc | print pc | postMutex pc =>
    simp only [Producer.started, pc, ProducerPc.started]

theorem ProducerMove.writes (move : ProducerMove c m p p' m' e) (ready : p.Ready c m) :
    p'.stored = p.stored + e.writes := by
  cases move with
  | postFull pc =>
    simp only [Producer.Ready, pc] at ready
    simp only [Producer.stored, pc, ProducerPc.stored, Event.writes, succ_toNat ready.2]
  | waitEmpty _ pc | leave pc | waitMutex _ pc | seek pc | write pc | print pc | postMutex pc =>
    simp only [Producer.stored, pc, ProducerPc.stored, Event.writes]

theorem ProducerMove.items (move : ProducerMove c m p p' m' e) : e.items = 0 := by
  cases move <;> rfl

theorem ProducerMove.buffer (move : ProducerMove c m p p' m' e) :
    p.pc.critical = 1 ∨ m'.bufferFd = m.bufferFd := by
  cases move with
  | seek pc | write pc => exact .inl (by rw [pc]; rfl)
  | _ => exact .inr rfl

theorem ProducerMove.cells (move : ProducerMove c m p p' m' e) (elsewhere : p.pc ≠ .write) :
    m'.bufferFd.cells = m.bufferFd.cells := by
  cases move with
  | write pc => exact absurd pc elsewhere
  | _ => rfl

theorem ProducerMove.stored (move : ProducerMove c m p p' m' e) (ready : p.Ready c m)
    (at_write : p.pc = .write) :
    m'.bufferFd.cells = Function.update m.bufferFd.cells (c.slot p.data) p.data := by
  simp only [Producer.Ready, at_write] at ready
  cases move with
  | write => rw [write_cells, ready.1]
  | waitEmpty _ pc | leave pc | waitMutex _ pc | seek pc | print pc | postMutex pc | postFull pc =>
    rw [pc] at at_write
    cases at_write

theorem ProducerMove.running (move : ProducerMove c m p p' m' e) :
    p'.i = p.i ∧ p.pc ≠ .fork ∧ p'.pc ≠ .fork ∧ p'.pc ≠ .done := by
  cases move <;> simp_all

theorem Producer.Ready.outside (ready : p.Ready c m) (out : p.pc.critical = 0) : p.Ready c m' := by
  unfold Producer.Ready at ready ⊢
  cases pc : p.pc <;> simp_all [ProducerPc.critical]

theorem Producer.Ready.buffer (ready : p.Ready c m) (same : m'.bufferFd = m.bufferFd) :
    p.Ready c m' := by
  unfold Producer.Ready at ready ⊢
  rw [same]
  exact ready

end Producer

end Linux011.ProducerConsumer

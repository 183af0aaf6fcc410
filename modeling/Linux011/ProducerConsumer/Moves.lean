import Linux011.ProducerConsumer.Program

namespace Linux011.ProducerConsumer

variable {c : Config} {m m' : Shared} {e : Event}

theorem semWait_eq {value rest : Nat} : semWait value = some rest ↔ value = rest + 1 := by
  cases value with
  | zero => simp [semWait]
  | succ n => simp [semWait]

/-- What one step of the producer's loop can do. -/
inductive ProducerMove (c : Config) (m : Shared) (p : Producer) : Producer → Shared → Event → Prop
  | waitEmpty (empty : Nat) (pc : p.pc = .waitEmpty) (more : p.data < c.maxDataNumber)
      (taken : m.empty = empty + 1) :
      ProducerMove c m p { p with pc := .waitMutex } { m with empty := empty } .silent
  | leave (pc : p.pc = .waitEmpty) (last : ¬ p.data < c.maxDataNumber) :
      ProducerMove c m p { p with pc := .waitpid } m .silent
  | waitMutex (value : Nat) (pc : p.pc = .waitMutex) (taken : m.bufferMutex = value + 1) :
      ProducerMove c m p { p with pc := .seek } { m with bufferMutex := value } .silent
  | seek (pc : p.pc = .seek) :
      ProducerMove c m p { p with pc := .write }
        { m with bufferFd := m.bufferFd.lseek (c.slot p.producerPos) } .silent
  | write (pc : p.pc = .write) :
      ProducerMove c m p { p with pc := .print } { m with bufferFd := m.bufferFd.write p.data } .written
  | print (pc : p.pc = .print) :
      ProducerMove c m p { p with pc := .postMutex, producerPos := p.producerPos + 1 } m
        (.produced p.data p.producerPos)
  | postMutex (pc : p.pc = .postMutex) :
      ProducerMove c m p { p with pc := .postFull } { m with bufferMutex := m.bufferMutex + 1 } .silent
  | postFull (pc : p.pc = .postFull) :
      ProducerMove c m p { p with pc := .waitEmpty, data := p.data + 1 } { m with full := m.full + 1 }
        .silent

/-- What one step of a child in `consumer` can do. -/
inductive ConsumerMove (c : Config) (m : Shared) (p : Consumer) : Consumer → Shared → Event → Prop
  | waitFull (full : Nat) (pc : p.pc = .waitFull) (more : p.i < c.maxDataNumber)
      (taken : m.full = full + 1) :
      ConsumerMove c m p { p with pc := .waitMutex } { m with full := full } .silent
  | leave (pc : p.pc = .waitFull) (last : ¬ p.i < c.maxDataNumber) :
      ConsumerMove c m p { p with pc := .done } m .silent
  | waitMutex (value : Nat) (pc : p.pc = .waitMutex) (taken : m.bufferMutex = value + 1) :
      ConsumerMove c m p { p with pc := .seekPos } { m with bufferMutex := value } .silent
  | seekPos (pc : p.pc = .seekPos) :
      ConsumerMove c m p { p with pc := .readPos } { m with bufferFd := m.bufferFd.lseek c.posSlot } .silent
  | noMore (pc : p.pc = .readPos) (beyond : c.maxDataNumber ≤ m.bufferFd.read) :
      ConsumerMove c m p { p with pc := .postNoMore, consumerPos := m.bufferFd.read }
        { m with bufferFd := m.bufferFd.advance } .silent
  | readPos (pc : p.pc = .readPos) (more : m.bufferFd.read < c.maxDataNumber) :
      ConsumerMove c m p { p with pc := .seekData, consumerPos := m.bufferFd.read }
        { m with bufferFd := m.bufferFd.advance } .silent
  | postNoMore (pc : p.pc = .postNoMore) :
      ConsumerMove c m p { p with pc := .done } { m with bufferMutex := m.bufferMutex + 1 } .silent
  | seekData (pc : p.pc = .seekData) :
      ConsumerMove c m p { p with pc := .readData }
        { m with bufferFd := m.bufferFd.lseek (c.slot p.consumerPos) } .silent
  | readData (pc : p.pc = .readData) :
      ConsumerMove c m p { p with pc := .print, data := m.bufferFd.read }
        { m with bufferFd := m.bufferFd.advance } .silent
  | print (pc : p.pc = .print) :
      ConsumerMove c m p { p with pc := .seekStore, consumerPos := p.consumerPos + 1 } m
        (.consumed p.data p.consumerPos)
  | seekStore (pc : p.pc = .seekStore) :
      ConsumerMove c m p { p with pc := .writeStore } { m with bufferFd := m.bufferFd.lseek c.posSlot }
        .silent
  | storeLast (pc : p.pc = .writeStore) (last : c.maxDataNumber ≤ p.consumerPos) :
      ConsumerMove c m p { p with pc := .postRest, j := 0 }
        { m with bufferFd := m.bufferFd.write p.consumerPos } .silent
  | store (pc : p.pc = .writeStore) (more : p.consumerPos < c.maxDataNumber) :
      ConsumerMove c m p { p with pc := .postMutex, j := 0 }
        { m with bufferFd := m.bufferFd.write p.consumerPos } .silent
  | postRest (pc : p.pc = .postRest) (more : p.j < c.childNumber - 1) :
      ConsumerMove c m p { p with j := p.j + 1 } { m with full := m.full + 1 } .silent
  | postLast (pc : p.pc = .postRest) (last : ¬ p.j < c.childNumber - 1) :
      ConsumerMove c m p { p with pc := .done } { m with bufferMutex := m.bufferMutex + 1 } .silent
  | postMutex (pc : p.pc = .postMutex) :
      ConsumerMove c m p { p with pc := .postEmpty } { m with bufferMutex := m.bufferMutex + 1 } .silent
  | postEmpty (pc : p.pc = .postEmpty) :
      ConsumerMove c m p { p with pc := .waitFull, i := p.i + 1 } { m with empty := m.empty + 1 } .silent

theorem producerStep_move {p p' : Producer} (step : producerStep c m p = some (p', m', e)) :
    ProducerMove c m p p' m' e := by
  revert step
  fun_cases producerStep c m p
  all_goals
    intro step
    simp only [Option.map_eq_some_iff, semWait_eq, Option.some.injEq, Prod.mk.injEq, reduceCtorEq] at step
  case case1 pc more =>
    obtain ⟨empty, taken, rfl, rfl, rfl⟩ := step
    exact .waitEmpty empty pc more taken
  case case3 pc =>
    obtain ⟨value, taken, rfl, rfl, rfl⟩ := step
    exact .waitMutex value pc taken
  all_goals obtain ⟨rfl, rfl, rfl⟩ := step
  case case2 pc last => exact .leave pc last
  case case4 pc => exact .seek pc
  case case5 pc => exact .write pc
  case case6 pc => exact .print pc
  case case7 pc => exact .postMutex pc
  case case8 pc => exact .postFull pc

theorem consumerStep_move {p p' : Consumer} (step : consumerStep c m p = some (p', m', e)) :
    ConsumerMove c m p p' m' e := by
  revert step
  fun_cases consumerStep c m p
  all_goals
    intro step
    simp only [Option.map_eq_some_iff, semWait_eq, Option.some.injEq, Prod.mk.injEq, reduceCtorEq] at step
  case case1 pc more =>
    obtain ⟨full, taken, rfl, rfl, rfl⟩ := step
    exact .waitFull full pc more taken
  case case3 pc =>
    obtain ⟨value, taken, rfl, rfl, rfl⟩ := step
    exact .waitMutex value pc taken
  all_goals obtain ⟨rfl, rfl, rfl⟩ := step
  case case2 pc last => exact .leave pc last
  case case4 pc => exact .seekPos pc
  case case5 pc pos =>
    split
    · exact .noMore pc ‹_›
    · exact .readPos pc (BitVec.not_le.mp ‹_›)
  case case6 pc => exact .postNoMore pc
  case case7 pc => exact .seekData pc
  case case8 pc => exact .readData pc
  case case9 pc => exact .print pc
  case case10 pc => exact .seekStore pc
  case case11 pc =>
    split
    · exact .storeLast pc ‹_›
    · exact .store pc (BitVec.not_le.mp ‹_›)
  case case12 pc more => exact .postRest pc more
  case case13 pc last => exact .postLast pc last
  case case14 pc => exact .postMutex pc
  case case15 pc => exact .postEmpty pc

end Linux011.ProducerConsumer

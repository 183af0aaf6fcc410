import Linux011.Library.Machine
import Linux011.Sched.WaitQueue
import Mathlib.Tactic.Push

namespace Linux011.Semaphore

open Relation Linux011.Library Linux011.Sched

/-- The fields of a `sem_t` that `sys_sem_wait` and `sys_sem_post` use. `m_value` is an
    `unsigned long`, 32 bits wide, and `queue` is the wait queue at `m_wait`. -/
structure Sem (Task : Type*) where
  value : BitVec 32
  queue : WaitQueue Task

variable {Task : Type*} [DecidableEq Task]

/-- The `while` loop of `sys_sem_wait` from a test of `m_value` to its return (`true`)
    or to the call of `schedule` inside `sleep_on` (`false`). -/
def waitLoop (s : Sem Task) (current : Task) : Sem Task × Bool :=
  if s.value = 0 then ({ s with queue := s.queue.sleepOn current }, false)
  else ({ s with value := s.value - 1 }, true)

def sysSemWait (s : Sem Task) (current : Task) : Sem Task × Bool := waitLoop s current

/-- A woken waiter leaves `sleep_on` and tests `m_value` again. -/
def resumeWait (s : Sem Task) (current : Task) : Sem Task × Bool :=
  waitLoop { s with queue := s.queue.sleepOnResume current } current

def sysSemPost (s : Sem Task) : Sem Task where
  value := s.value + 1
  queue := s.queue.wakeUp

/-- What the kernel runs without preemption; `returned` tells whether the wait came back. -/
inductive SemEvent (Task : Type*)
  | wait (p : Task) (returned : Bool)
  | resume (p : Task) (returned : Bool)
  | post (p : Task)

def SemEvent.isPost : SemEvent Task → Bool
  | .post _ => true
  | _ => false

def SemEvent.isWait : SemEvent Task → Bool
  | .wait _ returned | .resume _ returned => returned
  | .post _ => false

inductive SemStep : Sem Task → SemEvent Task → Sem Task → Prop
  | wait {s : Sem Task} {p : Task} (outside : s.queue.tmp p = none) (current : s.queue.state p = .running) :
      SemStep s (.wait p (sysSemWait s p).2) (sysSemWait s p).1
  | resume {s : Sem Task} {p : Task} (woken : s.queue.Woken p) :
      SemStep s (.resume p (resumeWait s p).2) (resumeWait s p).1
  | post {s : Sem Task} {p : Task} (outside : s.queue.tmp p = none) (current : s.queue.state p = .running) :
      SemStep s (.post p) (sysSemPost s)

/-- As `sys_sem_open` leaves a new semaphore: any value, `m_wait` empty, nobody inside. -/
def Sem.Fresh (s : Sem Task) : Prop :=
  s.queue.head = none ∧ ∀ t, s.queue.tmp t = none

def semMachine (Task : Type*) [DecidableEq Task] : Machine (Sem Task) (SemEvent Task) where
  init := Sem.Fresh
  step := SemStep

/-- The queue is chained, and it is empty while there is something to take. -/
structure Sem.Sound (s : Sem Task) : Prop where
  chained : s.queue.Chained
  drained : s.value ≠ 0 → s.queue.head = none

theorem waitLoop_sound {s : Sem Task} {p : Task} (sound : s.Sound) (outside : s.queue.tmp p = none) :
    (waitLoop s p).1.Sound := by
  unfold waitLoop
  split
  · rename_i zero
    exact ⟨sound.chained.sleepOn outside, fun positive => absurd zero positive⟩
  · rename_i positive
    exact ⟨sound.chained, fun _ => sound.drained positive⟩

theorem step_sound {s t : Sem Task} {e : SemEvent Task} (sound : s.Sound) (step : SemStep s e t) :
    t.Sound := by
  cases step with
  | wait outside _ => exact waitLoop_sound sound outside
  | resume woken =>
    apply waitLoop_sound
    · exact ⟨sound.chained.sleepOnResume woken, sound.drained⟩
    · exact WaitQueue.resume_outside
  | post => exact ⟨sound.chained.wakeUp, fun _ => WaitQueue.wakeUp_head⟩

theorem reached_sound {s : Sem Task} (reached : (semMachine Task).Reaches s) : s.Sound := by
  apply reached.invariant
  · intro s₀ fresh
    exact ⟨WaitQueue.chained_empty fresh.1 fresh.2, fun _ => fresh.1⟩
  · intro s e t sound step
    exact step_sound sound step

/-- While `m_value` is positive, every sleeper hangs on a waiter that is already awake. -/
theorem positive_value_sleepers_on_woken {s : Sem Task} (reached : (semMachine Task).Reaches s)
    (positive : s.value ≠ 0) (t : Task) (asleep : s.queue.Asleep t) :
    ∃ w, s.queue.Woken w ∧ ReflTransGen s.queue.Link w t := by
  have sound := reached_sound reached
  rcases sound.chained.found t asleep with ⟨h, is, _⟩ | woken
  · rw [sound.drained positive] at is
    cases is
  · exact woken

def freshSem (value : BitVec 32) : Sem Nat where
  value := value
  queue := { head := none, state := fun _ => .running, tmp := fun _ => none }

/-- Tasks 1 and 2 went to sleep on an empty semaphore, and task 3 has posted. -/
def postedOverTwo : Sem Nat := sysSemPost (sysSemWait (sysSemWait (freshSem 0) 1).1 2).1

theorem postedOverTwo_reached : (semMachine Nat).Reaches postedOverTwo := by
  have start : (semMachine Nat).Reaches (freshSem 0) := ⟨freshSem 0, [], ⟨rfl, fun _ => rfl⟩, .nil _⟩
  have first := start.step (SemStep.wait (p := 1) rfl rfl)
  have second := first.step (SemStep.wait (p := 2) rfl rfl)
  exact second.step (SemStep.post (p := 3) rfl rfl)

theorem posted_sleeper_on_woken :
    ∃ w, postedOverTwo.queue.Woken w ∧ ReflTransGen postedOverTwo.queue.Link w 1 :=
  positive_value_sleepers_on_woken postedOverTwo_reached (by decide) 1 ⟨by decide, rfl⟩

end Linux011.Semaphore

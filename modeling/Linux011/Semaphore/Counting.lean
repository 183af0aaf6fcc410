import Linux011.Semaphore.Wait
import Mathlib.Algebra.Order.Ring.Int

namespace Linux011.Semaphore

open Linux011.Library Linux011.Sched

variable {Task : Type*}

def posts (es : List (SemEvent Task)) : Nat := es.countP SemEvent.isPost

def waits (es : List (SemEvent Task)) : Nat := es.countP SemEvent.isWait

theorem posts_snoc (es : List (SemEvent Task)) (e : SemEvent Task) :
    posts (es ++ [e]) = posts es + e.isPost.toNat := by
  cases is : e.isPost <;> simp [posts, List.countP_append, is]

theorem waits_snoc (es : List (SemEvent Task)) (e : SemEvent Task) :
    waits (es ++ [e]) = waits es + e.isWait.toNat := by
  cases is : e.isWait <;> simp [waits, List.countP_append, is]

variable [DecidableEq Task]

/-- `m_value` is the initial value plus the completed posts minus the completed waits, so the
    waits never outrun the tokens, and a wait that finds a token left does not sleep. -/
structure Counted (s₀ : Sem Task) (es : List (SemEvent Task)) (s : Sem Task) : Prop where
  value : (s.value.toNat : Int) = s₀.value.toNat + posts es - waits es
  bound : waits es ≤ s₀.value.toNat + posts es
  prompt : ∀ p returned t, SemStep s (.wait p returned) t →
    waits es < s₀.value.toNat + posts es → returned = true

/-- No post is made on a semaphore whose `m_value` is the largest `unsigned long`. -/
def NoWrap (s : Sem Task) (e : SemEvent Task) : Prop :=
  e.isPost = true → s.value ≠ BitVec.allOnes 32

omit [DecidableEq Task] in
theorem noWrap_wait (s : Sem Task) (p : Task) (returned : Bool) : NoWrap s (.wait p returned) := by
  intro post
  cases post

theorem waitLoop_value (s : Sem Task) (p : Task) :
    (waitLoop s p).1.value.toNat + (waitLoop s p).2.toNat = s.value.toNat := by
  unfold waitLoop
  split
  · simp
  · rename_i positive
    have bound := s.value.isLt
    have nonzero : s.value.toNat ≠ 0 := fun h => positive (BitVec.eq_of_toNat_eq (by simpa using h))
    simp only [Bool.toNat_true, BitVec.toNat_sub, show (1 : BitVec 32).toNat = 1 from rfl]
    omega

theorem post_value {s : Sem Task} (room : s.value ≠ BitVec.allOnes 32) :
    (sysSemPost s).value.toNat = s.value.toNat + 1 := by
  have bound := s.value.isLt
  have below : s.value.toNat ≠ 2^32 - 1 := by
    intro h
    apply room
    apply BitVec.eq_of_toNat_eq
    rw [h, BitVec.toNat_allOnes]
  simp only [sysSemPost, BitVec.toNat_add, show (1 : BitVec 32).toNat = 1 from rfl]
  omega

theorem step_value {s t : Sem Task} {e : SemEvent Task} (room : NoWrap s e) (step : SemStep s e t) :
    t.value.toNat + e.isWait.toNat = s.value.toNat + e.isPost.toNat := by
  cases step with
  | @wait p => exact waitLoop_value s p
  | @resume p => exact waitLoop_value { s with queue := s.queue.sleepOnResume p } p
  | @post p => exact post_value (room rfl)

theorem run_value {s₀ s : Sem Task} {es : List (SemEvent Task)}
    (run : ((semMachine Task).restrict NoWrap).Run s₀ es s) :
    s.value.toNat + waits es = s₀.value.toNat + posts es := by
  induction run with
  | nil => simp [waits, posts]
  | snoc _ step ih =>
    have moved := step_value step.1 step.2
    rw [waits_snoc, posts_snoc]
    omega

theorem wait_prompt {s t : Sem Task} {p : Task} {returned : Bool} (positive : s.value.toNat ≠ 0)
    (step : SemStep s (.wait p returned) t) : returned = true := by
  cases step with
  | wait =>
    have nonzero : ¬ s.value = 0 := fun h => positive (by rw [h]; rfl)
    rw [sysSemWait, waitLoop, if_neg nonzero]

theorem counted_without_wrap {s₀ s : Sem Task} {es : List (SemEvent Task)}
    (run : ((semMachine Task).restrict NoWrap).Run s₀ es s) : Counted s₀ es s := by
  have exact := run_value run
  constructor
  · omega
  · omega
  · intro p returned t step left
    apply wait_prompt _ step
    omega

theorem counted_five_one_two : ∃ s, Counted (freshSem 5) [.wait 1 true, .post 2, .wait 2 true] s := by
  have first : ((semMachine Nat).restrict NoWrap).Run (freshSem 5) _ _ :=
    .one ⟨noWrap_wait _ _ _, SemStep.wait (p := 1) rfl rfl⟩
  have second := first.snoc ⟨fun _ => by decide, SemStep.post (p := 2) rfl rfl⟩
  have third := second.snoc ⟨noWrap_wait _ _ _, SemStep.wait (p := 2) rfl rfl⟩
  exact ⟨_, counted_without_wrap third⟩

/-- A post on a semaphore at `2^32 - 1` returns, and all its tokens are gone. -/
theorem post_wraps_to_zero :
    ∃ s, (semMachine Nat).Run (freshSem (BitVec.allOnes 32)) [.post 1] s ∧ s.value = 0 ∧
      ¬ Counted (freshSem (BitVec.allOnes 32)) [.post 1] s := by
  refine ⟨sysSemPost (freshSem (BitVec.allOnes 32)), .one (SemStep.post rfl rfl), by decide, ?_⟩
  intro counted
  have value := counted.value
  revert value
  decide

end Linux011.Semaphore

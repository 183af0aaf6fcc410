import Linux011.LifeCycle.Table

namespace Linux011.LifeCycle

open Linux011.Library
open Linux011.Sched (TaskState)

variable {Queue : Type}

namespace Kernel

def Dead (k : Kernel Queue) (t : Task) : Prop := (k.info t).state = .zombie

def Present (k : Kernel Queue) (t : Task) : Prop := ∃ i, k.task i = some t

/-- A task that exits is on no wait queue, and no sleeper will wake it. -/
def Unlinked (k : Kernel Queue) : Event Queue → Prop
  | .exit => ¬ k.Points k.current
  | _ => True

/-- Pointers lead to living tasks, and the tasks that have left the table are dead. -/
structure Mortal (k : Kernel Queue) : Prop where
  shape : k.Shape
  linked : ∀ t, k.Points t → ¬ k.Dead t
  gone : ∀ t, t < k.fresh → ¬ k.Present t → k.Dead t

theorem Shape.current_alive {k : Kernel Queue} (shape : k.Shape) (back : k.calling = false) : ¬ k.Dead k.current := by
  intro dead
  rcases shape.active back with idle | running
  · exact shape.alive (idle ▸ dead)
  · exact absurd (running.symm.trans dead) TaskState.noConfusion

theorem Started.mortal {k : Kernel Queue} (started : k.Started) : k.Mortal where
  shape := started.shape
  linked t points := by
    rcases points with ⟨p, is⟩ | ⟨u, is⟩
    · cases (started.head p).symm.trans is
    · rw [started.frame] at is
      cases is
  gone t born absent := by
    rw [started.fresh] at born
    have idle : t = initTask := Nat.lt_one_iff.mp born
    exact absurd ⟨0, idle ▸ started.shape.idle⟩ absent

variable [DecidableEq Queue] {k k' : Kernel Queue} {e : Event Queue} {t : Task}

theorem Mortal.dead_move (mortal : k.Mortal) {s : Lives} {m : Move} (made : Made k e s m) (born : t < k.fresh)
    (dead : s.state t = .zombie) (before : k.Dead t) : (s.apply m).state t = .zombie := by
  have away {u : Task} {state : TaskState} (other : t ≠ u) : Function.update s.state u state t = .zombie := by
    rw [Function.update_of_ne other]
    exact dead
  have current (back : k.calling = false) : t ≠ k.current := by
    rintro rfl
    exact mortal.shape.current_alive back before
  cases made with
  | called target =>
    apply away
    rintro rfl
    exact mortal.linked t (target_points target) before
  | slept _ back => exact away (current back)
  | again back => exact away (current back)
  | dozed back => exact away (current back)
  | signalled _ _ asleep =>
    apply away
    rintro rfl
    exact absurd (asleep.symm.trans dead) TaskState.noConfusion
  | switched => exact dead
  | forked => exact away (Nat.ne_of_lt born)
  | exited back => exact away (current back)
  | ticked => exact dead

theorem Mortal.dead (mortal : k.Mortal) (step : Step k e k') (born : t < k.fresh) (dead : k.Dead t) :
    k'.Dead t := by
  obtain ⟨ms, run⟩ := step.walks mortal.shape
  apply run.invariant (I := fun s => s.state t = .zombie)
  · rintro s m _ still ⟨made, rfl⟩
    exact mortal.dead_move made born still dead
  · exact dead

theorem alive_move {s : Lives} {m : Move} (made : Made k e s m) (stays : e = .exit → t ≠ k.current)
    (alive : s.state t ≠ .zombie) : (s.apply m).state t ≠ .zombie := by
  have set {u : Task} {state : TaskState} (other : state ≠ .zombie) :
      Function.update s.state u state t ≠ .zombie := by
    rw [Function.update_apply]
    split
    · exact other
    · exact alive
  cases made with
  | slept asleep =>
    apply set
    rcases asleep with rfl | rfl <;> exact TaskState.noConfusion
  | exited =>
    have apart := Function.update_of_ne (stays rfl) TaskState.zombie k.lives.state
    exact fun dead => alive (apart.symm.trans dead)
  | switched => exact alive
  | ticked => exact alive
  | _ => exact set TaskState.noConfusion

theorem Step.alive (shape : k.Shape) (step : Step k e k') (stays : e = .exit → t ≠ k.current)
    (alive : ¬ k.Dead t) : ¬ k'.Dead t := by
  obtain ⟨ms, run⟩ := step.walks shape
  apply run.invariant (I := fun s => s.state t ≠ .zombie)
  · rintro s m _ still ⟨made, rfl⟩
    exact alive_move made stays still
  · exact alive

theorem Step.present (shape : k.Shape) (step : Step k e k') (born : t < k'.fresh) :
    t < k.fresh ∨ k'.Present t := by
  by_cases forks : ∃ rounds memory, e = .fork rounds memory
  · obtain ⟨rounds, memory, rfl⟩ := forks
    cases step with
    | fork _ _ _ ready found =>
      obtain ⟨pid, rfl | ⟨nr, other, free, _, _, rfl⟩⟩ := sysFork_cases found
      · exact .inl born
      · rcases Nat.lt_succ_iff_lt_or_eq.mp born with old | rfl
        · exact .inl old
        · exact .inr ⟨nr, Function.update_self _ _ _⟩
  · obtain ⟨ms, run⟩ := step.walks shape
    have same : k'.fresh = k.fresh := by
      apply run.invariant (I := fun s => s.fresh = k.fresh)
      · rintro s m _ still ⟨made, rfl⟩
        cases made with
        | forked => exact absurd ⟨_, _, rfl⟩ forks
        | _ => exact still
      · rfl
    exact .inl (same ▸ born)

theorem Mortal.step (mortal : k.Mortal) (condition : k.Unlinked e) (step : Step k e k') : k'.Mortal where
  shape := mortal.shape.step step
  linked t points := by
    have other (stays : e = .exit → t ≠ k.current) (alive : ¬ k.Dead t) : ¬ k'.Dead t :=
      step.alive mortal.shape stays alive
    have before (same : e = .exit) : k.Points t := by
      subst same
      cases step
      exact exit_points points
    rcases (Turn.of_step mortal.shape step).points t points with pointed | ⟨rfl, back⟩
    · apply other _ (mortal.linked t pointed)
      rintro rfl rfl
      exact condition pointed
    · apply other _ (mortal.shape.current_alive back)
      rintro rfl _
      exact condition (before rfl)
  gone t born absent := by
    rcases step.present mortal.shape born with old | present
    · by_cases there : k.Present t
      · obtain ⟨i, here⟩ := there
        rcases (Turn.of_step mortal.shape step).task i with same | ⟨_, _, u, mine, dead⟩ | ⟨_, free, _⟩
        · exact absurd ⟨i, same.trans here⟩ absent
        · cases here.symm.trans mine
          exact dead
        · cases here.symm.trans free
      · exact mortal.dead step old (mortal.gone t old there)
    · exact absurd present absent

end Kernel

variable [DecidableEq Queue] {k : Kernel Queue}

/-- Where no task exits that a wait queue or a sleeper still holds, a zombie stays one for good, and those whom a
    primitive sets running, and who put themselves to sleep, are in the task table. -/
theorem death_is_final (reached : ((kernel Queue).restrict Kernel.Unlinked).Reaches k) :
    (∀ es k', ((kernel Queue).restrict Kernel.Unlinked).Run k es k' → ∀ t, t < k.fresh → k.Dead t → k'.Dead t) ∧
      (∀ e t, k.target e = some t → k.Present t ∧ ¬ k.Dead t) ∧ (k.calling = false → k.Present k.current) := by
  have mortal : k.Mortal := by
    apply reached.invariant (I := Kernel.Mortal)
    · exact fun _ started => started.mortal
    · exact fun _ _ _ mortal step => mortal.step step.1 step.2
  have present (t : Task) (born : t < k.fresh) (alive : ¬ k.Dead t) : k.Present t := by
    by_contra absent
    exact alive (mortal.gone t born absent)
  refine ⟨fun es k' run t born dead => ?_, fun e t target => ?_, fun back => ?_⟩
  · have kept : k'.Mortal ∧ t < k'.fresh ∧ k'.Dead t := by
      apply run.invariant (I := fun k => k.Mortal ∧ t < k.fresh ∧ k.Dead t)
      · rintro k e k' ⟨mortal, born, dead⟩ step
        refine ⟨mortal.step step.1 step.2, ?_, mortal.dead step.2 born dead⟩
        have lively : Kernel.Lively k.lives := ⟨mortal.shape.here, mortal.shape.alive, mortal.shape.pid⟩
        exact Nat.lt_of_lt_of_le born ((step.2.walks mortal.shape).lively lively).2
      · exact ⟨mortal, born, dead⟩
    exact kept.2.2
  · have points := Kernel.target_points target
    have alive := mortal.linked t points
    exact ⟨present t (mortal.shape.points t points) alive, alive⟩
  · exact present k.current mortal.shape.here (mortal.shape.current_alive back)

/-- Task 1 sleeps on a queue and task 2 behind it. A signal ends the sleep of task 1. -/
def interrupted : List (Event Unit) :=
  [.fork 1 true, .pause, .schedule 2, .fork 1 true, .interruptibleSleepOn (), .schedule 2, .sleepOn (), .schedule 2,
    .sendSig 1 2, .pause, .schedule 2]

theorem interrupted_final : ∃ k, interrupted.foldlM Kernel.perform (opened Unit) = some k ∧
    (∀ es k', ((kernel Unit).restrict Kernel.Unlinked).Run k es k' → ∀ t, t < k.fresh → k.Dead t → k'.Dead t) ∧
      (∀ e t, k.target e = some t → k.Present t ∧ ¬ k.Dead t) ∧ (k.calling = false → k.Present k.current) := by
  have ran : ((interrupted.foldlM Kernel.perform (opened Unit)).any fun k => k.fresh = 3) = true := by decide +kernel
  obtain ⟨k, ends, _⟩ := (Option.any_eq_true _ _).mp ran
  have same : interrupted.foldlM (fun k e => if e = .exit then none else k.perform e) (opened Unit) = some k := ends
  refine ⟨k, ends, death_is_final ⟨opened Unit, interrupted, opened_started Unit, ?_⟩⟩
  apply Machine.run_of_foldlM _ same
  intro k e k' done
  rw [Option.ite_none_left_eq_some] at done
  refine ⟨?_, Kernel.perform_step done.2⟩
  cases e <;> first | exact absurd rfl done.1 | trivial

/-- Task 1 wakes task 2 on the queue and sleeps again; task 2 wakes task 1 and exits, still on the queue. -/
def buried : List (Event Unit) :=
  interrupted ++ [.resume, .schedule 2, .resume, .exit, .schedule 2]

/-- Task 1 goes on in `interruptible_sleep_on` and sets the zombie running. -/
theorem zombie_set_running : ∃ k k', (kernel Unit).Reaches k ∧ (kernel Unit).step k .resume k' ∧
    k.Dead 2 ∧ (k'.info 2).state = .running := by
  have ran : ((buried.foldlM Kernel.perform (opened Unit)).any fun k => k.calling = false ∧
      (k.info 2).state = .zombie ∧ (k.resume.info 2).state = .running) = true := by decide +kernel
  obtain ⟨k, ends, last⟩ := (Option.any_eq_true _ _).mp ran
  obtain ⟨back, dead, running⟩ := of_decide_eq_true last
  refine ⟨k, k.resume, ⟨opened Unit, buried, opened_started Unit, ?_⟩, .resume back, dead, running⟩
  exact Machine.run_of_foldlM (fun _ _ _ => Kernel.perform_step) ends

end Linux011.LifeCycle

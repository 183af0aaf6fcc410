import Linux011.Library.Machine
import Linux011.Sched.WaitQueue

namespace Linux011.Sched

open Relation Linux011.Library

/-- A wait queue with sleepers of both kinds: which tasks entered by `interruptible_sleep_on`. -/
structure Sleepers (Task : Type*) extends WaitQueue Task where
  interruptible : Task → Bool

variable {Task : Type*}

namespace Sleepers

variable (s : Sleepers Task)

/-- Asleep in `sleep_on` or in `interruptible_sleep_on`. -/
def Waits (t : Task) : Prop := s.tmp t ≠ none ∧ s.state t ≠ .running

/-- Reachable by saved `tmp` pointers from the head or from a runnable task inside. -/
def Found (t : Task) : Prop :=
  (∃ h, s.head = some h ∧ ReflTransGen s.Link h t) ∨ ∃ w, s.Woken w ∧ ReflTransGen s.Link w t

def NoneStranded : Prop := ∀ t, s.Waits t → s.Found t

variable [DecidableEq Task]

def sleepOn (current : Task) : Sleepers Task where
  toWaitQueue := s.toWaitQueue.sleepOn current
  interruptible := Function.update s.interruptible current false

/-- `interruptible_sleep_on` up to its first call of `schedule`. -/
def interruptibleSleepOn (current : Task) : Sleepers Task where
  head := some current
  state := Function.update s.state current .interruptible
  tmp := Function.update s.tmp current (some s.head)
  interruptible := Function.update s.interruptible current true

def wakeUp : Sleepers Task where
  toWaitQueue := s.toWaitQueue.wakeUp
  interruptible := s.interruptible

/-- `*p = NULL`, and the wake-up of `tmp`, at the end of `interruptible_sleep_on`. -/
def finish (current : Task) : Sleepers Task where
  toWaitQueue := { s.toWaitQueue.sleepOnResume current with head := none }
  interruptible := s.interruptible

/-- From the return of `schedule` to the end, or to the next call of it behind `goto repeat`. -/
def interruptibleResume (current : Task) : Sleepers Task :=
  match s.head with
  | none => s.finish current
  | some h =>
    if h = current then s.finish current
    else { s with state := Function.update (Function.update s.state h .running) current .interruptible }

def sleepOnResume (current : Task) : Sleepers Task where
  toWaitQueue := s.toWaitQueue.sleepOnResume current
  interruptible := s.interruptible

def resume (current : Task) : Sleepers Task :=
  if s.interruptible current then s.interruptibleResume current else s.sleepOnResume current

/-- `schedule` finds a signal for a task. -/
def signal (t : Task) : Sleepers Task :=
  if s.state t = .interruptible then { s with state := Function.update s.state t .running } else s

/-- What happens to a task that is not on the queue. -/
def elsewhere (t : Task) (state : TaskState) : Sleepers Task :=
  { s with state := Function.update s.state t state }

end Sleepers

inductive QueueEvent (Task : Type*)
  | sleepOn (current : Task)
  | interruptibleSleepOn (current : Task)
  | wakeUp
  | resume (current : Task)
  | signal (t : Task)
  | elsewhere (t : Task) (state : TaskState)

variable [DecidableEq Task]

namespace Sleepers

/-- A task enters from outside, and goes on once it is running. -/
inductive Step (s : Sleepers Task) : QueueEvent Task → Sleepers Task → Prop
  | sleepOn (t : Task) (outside : s.tmp t = none) : Step s (.sleepOn t) (s.sleepOn t)
  | interruptibleSleepOn (t : Task) (outside : s.tmp t = none) :
      Step s (.interruptibleSleepOn t) (s.interruptibleSleepOn t)
  | wakeUp : Step s .wakeUp s.wakeUp
  | resume (t : Task) (woken : s.Woken t) : Step s (.resume t) (s.resume t)
  | signal (t : Task) : Step s (.signal t) (s.signal t)
  | elsewhere (t : Task) (state : TaskState) (outside : s.tmp t = none) :
      Step s (.elsewhere t state) (s.elsewhere t state)

end Sleepers

def waitQueue (Task : Type*) [DecidableEq Task] : Machine (Sleepers Task) (QueueEvent Task) where
  init s := s.head = none ∧ ∀ t, s.tmp t = none
  step := Sleepers.Step

namespace Sleepers

variable {s : Sleepers Task} {t : Task}

/-- A runnable task is found without its own frame. -/
def FoundByOthers (s : Sleepers Task) (t : Task) : Prop :=
  (∃ h, s.head = some h ∧ ReflTransGen s.Link h t) ∨ ∃ w, w ≠ t ∧ s.Woken w ∧ ReflTransGen s.Link w t

/-- Where a resumed interruptible sleeper finds another task on the queue, and is to sleep again, others still
    lead to it. -/
def Reachable (s : Sleepers Task) : QueueEvent Task → Prop
  | .resume t => s.interruptible t = true → ∀ h, s.head = some h → h ≠ t → s.FoundByOthers t
  | _ => True

omit [DecidableEq Task] in
/-- What holds of the tasks found before holds of those found after a step that keeps the links. -/
theorem NoneStranded.kept {s' : Sleepers Task} (found : s.NoneStranded) (links : ∀ a b, s.Link a b → s'.Link a b)
    (waits : ∀ x, s'.Waits x → s.Waits x) (woken : ∀ w, s.Woken w → s'.Woken w)
    (head : ∀ h x, s.head = some h → ReflTransGen s.Link h x → s'.Waits x → s'.Found x) : s'.NoneStranded := by
  intro x wait
  rcases found x (waits x wait) with ⟨h, is, path⟩ | ⟨w, awake, path⟩
  · exact head h x is path wait
  · exact .inr ⟨w, woken w awake, ReflTransGen.mono links _ _ path⟩

theorem NoneStranded.enter {s' : Sleepers Task} (found : s.NoneStranded) (outside : s.tmp t = none)
    (head : s'.head = some t) (tmp : s'.tmp = Function.update s.tmp t (some s.head))
    (state : ∀ x, x ≠ t → s'.state x = s.state x) : s'.NoneStranded := by
  have link (a b : Task) : s'.Link a b ↔ (a = t ∧ s.head = some b) ∨ (a ≠ t ∧ s.Link a b) := by
    unfold WaitQueue.Link
    rw [tmp]
    by_cases same : a = t
    · subst same
      simp
    · simp [same]
  have lift (a b : Task) (path : ReflTransGen s.Link a b) : ReflTransGen s'.Link a b := by
    apply ReflTransGen.mono _ _ _ path
    intro x y edge
    refine (link x y).mpr (.inr ⟨?_, edge⟩)
    rintro rfl
    rw [WaitQueue.Link, outside] at edge
    cases edge
  intro x wait
  by_cases same : x = t
  · subst same
    exact .inl ⟨x, head, .refl⟩
  · have before : s.Waits x := by
      refine ⟨?_, state x same ▸ wait.2⟩
      have inside := wait.1
      rwa [tmp, Function.update_of_ne same] at inside
    rcases found x before with ⟨h, is, path⟩ | ⟨w, awake, path⟩
    · exact .inl ⟨t, head, .head ((link t h).mpr (.inl ⟨rfl, is⟩)) (lift h x path)⟩
    · have other : w ≠ t := fun same => awake.1 (same ▸ outside)
      refine .inr ⟨w, ⟨?_, (state w other).trans awake.2⟩, lift w x path⟩
      rw [tmp, Function.update_of_ne other]
      exact awake.1

/-- A woken task leaves and wakes the one it had saved; it may clear the head if it is the head itself. -/
theorem NoneStranded.leave {s' : Sleepers Task} (found : s.NoneStranded)
    (head : s'.head = s.head ∨ ∀ h, s.head = some h → h = t)
    (tmp : s'.tmp = Function.update s.tmp t none)
    (state : ∀ x, s'.state x = .running ∨ ¬ s.Link t x ∧ s'.state x = s.state x)
    (saved : ∀ x, s.Link t x → s'.state x = .running) : s'.NoneStranded := by
  have link (a b : Task) (away : a ≠ t) (edge : s.Link a b) : s'.Link a b := by
    unfold WaitQueue.Link at edge ⊢
    rwa [tmp, Function.update_of_ne away]
  intro x wait
  have apart : x ≠ t := by
    rintro rfl
    apply wait.1
    rw [tmp, Function.update_self]
  have running := (state x).resolve_left wait.2
  have before : s.Waits x := by
    refine ⟨?_, running.2 ▸ wait.2⟩
    have inside := wait.1
    rwa [tmp, Function.update_of_ne apart] at inside
  -- a task the leaving one points to that leads on to a sleeper is inside itself
  have next {b : Task} (edge : s.Link t b) (path : ReflTransGen s'.Link b x) : s'.Found x := by
    rcases ReflTransGen.cases_head path with arrived | ⟨c, onward, _⟩
    · exact absurd (arrived ▸ edge) running.1
    · refine .inr ⟨b, ⟨?_, saved b edge⟩, path⟩
      rw [WaitQueue.Link] at onward
      rw [onward]
      simp
  have onwards {a : Task} (path : ReflTransGen s.Link a x) : ReflTransGen s'.Link a x ∨ s'.Found x := by
    rcases reach_cut link apart path with path | ⟨b, edge, path⟩
    · exact .inl path
    · exact .inr (next edge path)
  have own (path : ReflTransGen s.Link t x) : s'.Found x := by
    rcases ReflTransGen.cases_head path with arrived | ⟨b, edge, rest⟩
    · exact absurd arrived.symm apart
    · rcases onwards rest with path | found
      · exact next edge path
      · exact found
  rcases found x before with ⟨h, is, path⟩ | ⟨w, awake, path⟩
  · rcases head with same | mine
    · rcases onwards path with path | found
      · exact .inl ⟨h, same.trans is, path⟩
      · exact found
    · have same := mine h is
      subst same
      exact own path
  · by_cases same : w = t
    · subst same
      exact own path
    · rcases onwards path with path | found
      · have still : s'.state w = .running := by
          rcases state w with running | ⟨_, kept⟩
          · exact running
          · exact kept.trans awake.2
        refine .inr ⟨w, ⟨?_, still⟩, path⟩
        rw [tmp, Function.update_of_ne same]
        exact awake.1
      · exact found

theorem NoneStranded.wakeUp (found : s.NoneStranded) : s.wakeUp.NoneStranded := by
  have state (x : Task) : s.wakeUp.state x = if s.head = some x then .running else s.state x := WaitQueue.wakeUp_state
  have tmp : s.wakeUp.tmp = s.tmp := WaitQueue.wakeUp_tmp
  have lift (a b : Task) (edge : s.Link a b) : s.wakeUp.Link a b := WaitQueue.wakeUp_link.mpr edge
  have woken (w : Task) (awake : s.Woken w) : s.wakeUp.Woken w := by
    refine ⟨tmp.symm ▸ awake.1, ?_⟩
    rw [state, awake.2, ite_self]
  have waits (x : Task) (wait : s.wakeUp.Waits x) : s.Waits x ∧ s.head ≠ some x := by
    have now := wait.2
    rw [state] at now
    split at now
    · exact absurd rfl now
    · rename_i other
      exact ⟨⟨tmp ▸ wait.1, now⟩, other⟩
  apply found.kept lift (fun x wait => (waits x wait).1) woken
  intro h x is path wait
  rcases ReflTransGen.cases_head path with arrived | ⟨b, edge, rest⟩
  · exact absurd (arrived ▸ is) (waits x wait).2
  · refine .inr ⟨h, ⟨?_, by rw [state, if_pos is]⟩, ReflTransGen.mono lift _ _ path⟩
    rw [tmp]
    rw [WaitQueue.Link] at edge
    rw [edge]
    simp

omit [DecidableEq Task] in
theorem NoneStranded.state {s' : Sleepers Task} (found : s.NoneStranded) (head : s'.head = s.head)
    (tmp : s'.tmp = s.tmp) (state : ∀ x, s.tmp x ≠ none → s'.state x = .running ∨ s'.state x = s.state x) :
    s'.NoneStranded := by
  have lift (a b : Task) (edge : s.Link a b) : s'.Link a b := by
    unfold WaitQueue.Link at edge ⊢
    rwa [tmp]
  apply found.kept lift
  · intro x wait
    have inside : s.tmp x ≠ none := tmp ▸ wait.1
    exact ⟨inside, ((state x inside).resolve_left wait.2) ▸ wait.2⟩
  · intro w awake
    refine ⟨tmp.symm ▸ awake.1, ?_⟩
    rcases state w awake.1 with running | same
    · exact running
    · exact same.trans awake.2
  · exact fun h x is path _ => .inl ⟨h, head.trans is, ReflTransGen.mono lift _ _ path⟩

theorem resume_state (x : Task) : ((s.toWaitQueue.sleepOnResume t).state x = .running ∨
    ¬ s.Link t x ∧ (s.toWaitQueue.sleepOnResume t).state x = s.state x) ∧
    (s.Link t x → (s.toWaitQueue.sleepOnResume t).state x = .running) := by
  rw [WaitQueue.resume_state]
  by_cases edge : s.Link t x
  · rw [if_pos edge]
    exact ⟨.inl rfl, fun _ => rfl⟩
  · rw [if_neg edge]
    exact ⟨.inr ⟨edge, rfl⟩, fun edge' => absurd edge' edge⟩

theorem NoneStranded.finish (found : s.NoneStranded) (head : ∀ h, s.head = some h → h = t) :
    (s.finish t).NoneStranded :=
  found.leave (.inr head) rfl (fun x => (resume_state x).1) fun x => (resume_state x).2

/-- Behind `goto repeat` a task sleeps again with its old `tmp`: nobody is lost if and only if it is found by others. -/
theorem NoneStranded.again {s' : Sleepers Task} (found : s.NoneStranded) (woken : s.Woken t) {h : Task}
    (is : s.head = some h) (head : s'.head = s.head) (tmp : s'.tmp = s.tmp) (own : s'.state t = .interruptible)
    (state : ∀ x, x ≠ t → s'.state x = if x = h then .running else s.state x) :
    s'.NoneStranded ↔ s.FoundByOthers t := by
  have link : s'.Link = s.Link := by
    funext a b
    rw [WaitQueue.Link, tmp, ← WaitQueue.Link]
  have still (w : Task) (apart : w ≠ t) (awake : s.Woken w) : s'.Woken w := by
    refine ⟨tmp.symm ▸ awake.1, ?_⟩
    rw [state w apart, awake.2, ite_self]
  constructor
  · intro after
    have asleep : s'.Waits t := by
      refine ⟨tmp.symm ▸ woken.1, ?_⟩
      rw [own]
      exact TaskState.noConfusion
    rcases after t asleep with ⟨h', is', path⟩ | ⟨w, awake, path⟩
    · exact .inl ⟨h', head ▸ is', link ▸ path⟩
    · have apart : w ≠ t := by
        rintro rfl
        exact absurd (own.symm.trans awake.2) TaskState.noConfusion
      have running := awake.2
      rw [state w apart] at running
      split at running
      · rename_i mine
        exact .inl ⟨h, is, mine ▸ link ▸ path⟩
      · exact .inr ⟨w, apart, ⟨tmp ▸ awake.1, running⟩, link ▸ path⟩
  · intro others
    have rooted {x : Task} (path : ReflTransGen s.Link t x) : s'.Found x := by
      rcases others with ⟨h', is', first⟩ | ⟨w, apart, awake, first⟩
      · exact .inl ⟨h', head.trans is', link ▸ first.trans path⟩
      · exact .inr ⟨w, still w apart awake, link ▸ first.trans path⟩
    intro x wait
    by_cases same : x = t
    · exact rooted (same ▸ .refl)
    · have asleep := wait.2
      rw [state x same] at asleep
      split at asleep
      · exact absurd rfl asleep
      · rcases found x ⟨tmp ▸ wait.1, asleep⟩ with ⟨h', is', path⟩ | ⟨w, awake, path⟩
        · exact .inl ⟨h', head.trans is', link ▸ path⟩
        · by_cases mine : w = t
          · exact rooted (mine ▸ path)
          · exact .inr ⟨w, still w mine awake, link ▸ path⟩

theorem NoneStranded.resume_iff (found : s.NoneStranded) (woken : s.Woken t) :
    (s.resume t).NoneStranded ↔ Reachable s (.resume t) := by
  unfold Sleepers.resume Reachable
  by_cases kind : s.interruptible t = true
  · rw [if_pos kind]
    unfold interruptibleResume
    split
    · rename_i empty
      refine iff_of_true (found.finish fun h is => ?_) fun _ h is => ?_
      · rw [empty] at is
        cases is
      · rw [empty] at is
        cases is
    · rename_i h is
      by_cases own : h = t
      · rw [if_pos own]
        refine iff_of_true (found.finish fun h' is' => ?_) fun _ h' is' other => ?_
        · exact (Option.some.inj (is'.symm.trans is)).trans own
        · exact absurd ((Option.some.inj (is'.symm.trans is)).trans own) other
      · have slept (x : Task) (apart : x ≠ t) :
            Function.update (Function.update s.state h .running) t TaskState.interruptible x =
              if x = h then .running else s.state x := by
          rw [Function.update_of_ne apart, Function.update_apply]
        have again : Sleepers.NoneStranded
            { s with state := Function.update (Function.update s.state h .running) t .interruptible } ↔
              s.FoundByOthers t :=
          found.again woken is rfl rfl (Function.update_self _ _ _) slept
        rw [if_neg own, again]
        exact ⟨fun others _ _ _ _ => others, fun condition => condition kind h is own⟩
  · rw [if_neg kind]
    refine iff_of_true ?_ fun interruptible => absurd interruptible kind
    exact found.leave (.inl rfl) rfl (fun x => (resume_state x).1) fun x => (resume_state x).2

theorem NoneStranded.step_iff {e : QueueEvent Task} {s' : Sleepers Task} (found : s.NoneStranded)
    (step : Step s e s') : s'.NoneStranded ↔ Reachable s e := by
  cases step with
  | sleepOn t outside =>
    exact iff_of_true (found.enter outside rfl rfl fun x other => Function.update_of_ne other _ _) trivial
  | interruptibleSleepOn t outside =>
    exact iff_of_true (found.enter outside rfl rfl fun x other => Function.update_of_ne other _ _) trivial
  | wakeUp => exact iff_of_true found.wakeUp trivial
  | resume t woken => exact found.resume_iff woken
  | signal t =>
    refine iff_of_true ?_ trivial
    unfold Sleepers.signal
    split
    · refine found.state rfl rfl fun x _ => ?_
      by_cases same : x = t
      · subst same
        exact .inl (Function.update_self _ _ _)
      · exact .inr (Function.update_of_ne same _ _)
    · exact found
  | elsewhere t state outside =>
    refine iff_of_true (found.state rfl rfl fun x inside => ?_) trivial
    have apart : x ≠ t := fun same => inside (same ▸ outside)
    exact .inr (Function.update_of_ne apart _ _)

theorem resume_head (empty : s.head = none) : (s.resume t).head = none := by
  unfold Sleepers.resume
  split
  · unfold interruptibleResume
    rw [empty]
    rfl
  · exact empty

end Sleepers

/-- In a run whose steps meet the condition no sleeper is stranded, and only such steps strand nobody; and when
    the tasks woken after a `wake_up` have all gone on, nobody is asleep. -/
theorem sleepers_found {s : Sleepers Task} (reached : ((waitQueue Task).restrict Sleepers.Reachable).Reaches s) :
    s.NoneStranded ∧ (∀ e t, (waitQueue Task).step s e t → (t.NoneStranded ↔ s.Reachable e)) ∧
      ∀ es u, (waitQueue Task).Run s.wakeUp es u → (∀ e ∈ es, ∃ t, e = .resume t) → (∀ w, ¬ u.Woken w) →
        ∀ t, ¬ u.Waits t := by
  have found : s.NoneStranded := by
    apply reached.invariant (I := Sleepers.NoneStranded)
    · exact fun _ empty t wait => absurd (empty.2 t) wait.1
    · exact fun _ _ _ found step => (found.step_iff step.2).mpr step.1
  refine ⟨found, fun e t step => found.step_iff step, fun es u run resumes quiet t wait => ?_⟩
  have kept : (∀ e ∈ es, ∃ t, e = .resume t) → u.head = none ∧ u.NoneStranded := by
    apply run.trace_invariant (I := fun es u => (∀ e ∈ es, ∃ t, e = .resume t) → u.head = none ∧ u.NoneStranded)
    · intro es v e w before step resumes
      obtain ⟨empty, found⟩ := before fun e member => resumes e (List.mem_append_left _ member)
      obtain ⟨t, rfl⟩ := resumes e (List.mem_append_right _ (List.mem_singleton_self _))
      have condition : v.Reachable (.resume t) := by
        intro _ h is
        rw [empty] at is
        cases is
      refine ⟨?_, (found.step_iff step).mpr condition⟩
      cases step
      exact Sleepers.resume_head empty
    · exact fun _ => ⟨WaitQueue.wakeUp_head, found.wakeUp⟩
  obtain ⟨empty, found⟩ := kept resumes
  rcases found t wait with ⟨h, is, _⟩ | ⟨w, awake, _⟩
  · rw [empty] at is
    cases is
  · exact quiet w awake

section TwoTasks

/-- One task is asleep interruptibly, is woken, and another one comes before it runs. -/
def alone : Sleepers Bool := ⟨⟨none, fun _ => .running, fun _ => none⟩, fun _ => false⟩

def overtaken : Sleepers Bool := ((alone.interruptibleSleepOn false).wakeUp).sleepOn true

theorem overtaken_reached : ((waitQueue Bool).restrict Sleepers.Reachable).Reaches overtaken := by
  have start : ((waitQueue Bool).restrict Sleepers.Reachable).Reaches alone :=
    ⟨alone, [], ⟨rfl, fun _ => rfl⟩, .nil _⟩
  have slept : ((waitQueue Bool).restrict Sleepers.Reachable).Reaches (alone.interruptibleSleepOn false) :=
    start.step (e := .interruptibleSleepOn false) ⟨trivial, .interruptibleSleepOn false rfl⟩
  have woken : ((waitQueue Bool).restrict Sleepers.Reachable).Reaches (alone.interruptibleSleepOn false).wakeUp :=
    slept.step (e := .wakeUp) ⟨trivial, .wakeUp⟩
  exact woken.step (e := .sleepOn true) ⟨trivial, .sleepOn true rfl⟩

theorem overtaken_found : overtaken.NoneStranded ∧
    (∀ e t, (waitQueue Bool).step overtaken e t → (t.NoneStranded ↔ overtaken.Reachable e)) ∧
    ∀ es u, (waitQueue Bool).Run overtaken.wakeUp es u → (∀ e ∈ es, ∃ t, e = .resume t) → (∀ w, ¬ u.Woken w) →
      ∀ t, ¬ u.Waits t :=
  sleepers_found overtaken_reached

/-- The first one sleeps again with its old `tmp`, and nothing leads to it. -/
theorem sleeper_stranded : (waitQueue Bool).Reaches (overtaken.resume false) ∧
    ¬ (overtaken.resume false).NoneStranded := by
  have start : (waitQueue Bool).Reaches alone := ⟨alone, [], ⟨rfl, fun _ => rfl⟩, .nil _⟩
  have reached : (waitQueue Bool).Reaches overtaken :=
    ((start.step (.interruptibleSleepOn false rfl)).step .wakeUp).step (.sleepOn true rfl)
  refine ⟨reached.step (.resume false ⟨by decide, rfl⟩), fun found => ?_⟩
  have link (a b : Bool) : ¬ (overtaken.resume false).Link a b := by
    unfold WaitQueue.Link
    cases a <;> cases b <;> decide
  have head : (overtaken.resume false).head = some true := rfl
  rcases found false ⟨by decide, by decide⟩ with ⟨h, is, path⟩ | ⟨w, awake, path⟩
  · rcases ReflTransGen.cases_head path with rfl | ⟨b, edge, _⟩
    · rw [head] at is
      cases is
    · exact link _ _ edge
  · rcases ReflTransGen.cases_head path with rfl | ⟨b, edge, _⟩
    · exact absurd awake.2 (by decide)
    · exact link _ _ edge

end TwoTasks

end Linux011.Sched

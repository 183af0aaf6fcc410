import Linux011.Library.Reach
import Mathlib.Logic.Function.Basic

namespace Linux011.Sched

open Relation Linux011.Library

inductive TaskState
  | running
  | interruptible
  | uninterruptible
  | zombie
  | stopped
  deriving DecidableEq, Repr

/-- A wait queue `*p` with the tasks around it. A task inside `sleep_on` has a
    stack frame holding `tmp`; `tmp` is `none` for a task outside. -/
structure WaitQueue (Task : Type*) where
  head : Option Task
  state : Task → TaskState
  tmp : Task → Option (Option Task)

variable {Task : Type*}

namespace WaitQueue

/-- Inside `sleep_on`, and not to be run before someone sets the state. -/
def Asleep (q : WaitQueue Task) (t : Task) : Prop :=
  q.tmp t ≠ none ∧ q.state t = .uninterruptible

/-- Made runnable, and not yet returned from `sleep_on`. -/
def Woken (q : WaitQueue Task) (t : Task) : Prop :=
  q.tmp t ≠ none ∧ q.state t = .running

/-- The `tmp` saved by `a` is `b`. -/
def Link (q : WaitQueue Task) (a b : Task) : Prop := q.tmp a = some (some b)

variable [DecidableEq Task]

/-- `sleep_on` up to its call of `schedule`. -/
def sleepOn (q : WaitQueue Task) (current : Task) : WaitQueue Task where
  head := some current
  state := Function.update q.state current .uninterruptible
  tmp := Function.update q.tmp current (some q.head)

/-- `sleep_on` from the return of `schedule` on. -/
def sleepOnResume (q : WaitQueue Task) (current : Task) : WaitQueue Task where
  head := q.head
  state := match q.tmp current with
    | some (some tmp) => Function.update q.state tmp .running
    | _ => q.state
  tmp := Function.update q.tmp current none

def wakeUp (q : WaitQueue Task) : WaitQueue Task :=
  match q.head with
  | some t => { q with head := none, state := Function.update q.state t .running }
  | none => q

/-- The shape of the queue between calls: every pointer names a sleeper, no sleeper is named
    twice, and following `tmp` from the head or from the woken tasks finds all sleepers. -/
structure Chained (q : WaitQueue Task) : Prop where
  head_asleep : ∀ h, q.head = some h → q.Asleep h
  link_asleep : ∀ a b, q.Link a b → q.Asleep b
  link_unique : ∀ a b c, q.Link a c → q.Link b c → a = b
  head_unlinked : ∀ a h, q.head = some h → ¬ q.Link a h
  found : ∀ t, q.Asleep t →
    (∃ h, q.head = some h ∧ ReflTransGen q.Link h t) ∨ ∃ w, q.Woken w ∧ ReflTransGen q.Link w t

omit [DecidableEq Task] in
theorem Woken.not_asleep {q : WaitQueue Task} {t : Task} (woken : q.Woken t) : ¬ q.Asleep t := by
  intro asleep
  have impossible := woken.2.symm.trans asleep.2
  cases impossible

omit [DecidableEq Task] in
theorem chained_empty {q : WaitQueue Task} (head : q.head = none) (outside : ∀ t, q.tmp t = none) :
    q.Chained where
  head_asleep h is := by rw [head] at is; cases is
  link_asleep a b link := by rw [Link, outside] at link; cases link
  link_unique a b c link := by rw [Link, outside] at link; cases link
  head_unlinked a h is := by rw [head] at is; cases is
  found t asleep := absurd (outside t) asleep.1

section SleepOn

variable {q : WaitQueue Task} {p : Task}

theorem sleepOn_link {a b : Task} :
    (q.sleepOn p).Link a b ↔ (a = p ∧ q.head = some b) ∨ (a ≠ p ∧ q.Link a b) := by
  by_cases same : a = p
  · subst same; simp [Link, sleepOn]
  · simp [Link, sleepOn, same]

theorem sleepOn_asleep {t : Task} : (q.sleepOn p).Asleep t ↔ t = p ∨ q.Asleep t := by
  by_cases same : t = p
  · subst same; simp [Asleep, sleepOn]
  · simp [Asleep, sleepOn, same]

theorem sleepOn_woken {t : Task} : (q.sleepOn p).Woken t ↔ t ≠ p ∧ q.Woken t := by
  by_cases same : t = p
  · subst same; simp [Woken, sleepOn]
  · simp [Woken, sleepOn, same]

theorem Chained.sleepOn (chained : q.Chained) (outside : q.tmp p = none) : (q.sleepOn p).Chained := by
  have unlinked (a : Task) : ¬ q.Link a p := fun link => (chained.link_asleep a p link).1 outside
  have notHead : q.head ≠ some p := fun is => (chained.head_asleep p is).1 outside
  have source (a b : Task) (link : q.Link a b) : a ≠ p := by
    rintro rfl
    rw [Link, outside] at link
    cases link
  have lift (a b : Task) (path : ReflTransGen q.Link a b) : ReflTransGen (q.sleepOn p).Link a b :=
    ReflTransGen.mono (fun x y link => sleepOn_link.mpr (.inr ⟨source x y link, link⟩)) a b path
  constructor
  · intro h is
    cases is
    exact sleepOn_asleep.mpr (.inl rfl)
  · intro a b link
    rcases sleepOn_link.mp link with ⟨_, is⟩ | ⟨_, link⟩
    · exact sleepOn_asleep.mpr (.inr (chained.head_asleep b is))
    · exact sleepOn_asleep.mpr (.inr (chained.link_asleep a b link))
  · intro a b c left right
    rcases sleepOn_link.mp left with ⟨first, is⟩ | ⟨_, old⟩ <;>
      rcases sleepOn_link.mp right with ⟨second, is'⟩ | ⟨_, old'⟩
    · exact first.trans second.symm
    · exact absurd old' (chained.head_unlinked b c is)
    · exact absurd old (chained.head_unlinked a c is')
    · exact chained.link_unique a b c old old'
  · intro a h is link
    cases is
    rcases sleepOn_link.mp link with ⟨_, is⟩ | ⟨_, link⟩
    · exact notHead is
    · exact unlinked a link
  · intro t asleep
    rcases sleepOn_asleep.mp asleep with rfl | asleep
    · exact .inl ⟨t, rfl, .refl⟩
    · rcases chained.found t asleep with ⟨h, is, path⟩ | ⟨w, woken, path⟩
      · exact .inl ⟨p, rfl, .head (sleepOn_link.mpr (.inl ⟨rfl, is⟩)) (lift h t path)⟩
      · have other : w ≠ p := fun same => woken.1 (same ▸ outside)
        exact .inr ⟨w, sleepOn_woken.mpr ⟨other, woken⟩, lift w t path⟩

end SleepOn

section WakeUp

variable {q : WaitQueue Task}

theorem wakeUp_head : q.wakeUp.head = none := by
  unfold wakeUp
  split
  · rfl
  · assumption

theorem wakeUp_tmp : q.wakeUp.tmp = q.tmp := by
  unfold wakeUp
  split <;> rfl

theorem wakeUp_link {a b : Task} : q.wakeUp.Link a b ↔ q.Link a b := by
  rw [Link, Link, wakeUp_tmp]

theorem wakeUp_state {t : Task} :
    q.wakeUp.state t = if q.head = some t then .running else q.state t := by
  unfold wakeUp
  cases is : q.head with
  | none => simp
  | some h =>
    by_cases same : t = h
    · subst same; simp
    · simp [same, Ne.symm same]

/-- The head is woken and the queue pointer cleared: its chain now hangs on a woken task. -/
theorem Chained.wakeUp (chained : q.Chained) : q.wakeUp.Chained := by
  have lift (a b : Task) (path : ReflTransGen q.Link a b) : ReflTransGen q.wakeUp.Link a b :=
    ReflTransGen.mono (fun x y link => wakeUp_link.mpr link) a b path
  have wake (h : Task) (is : q.head = some h) : q.wakeUp.Woken h := by
    refine ⟨by rw [wakeUp_tmp]; exact (chained.head_asleep h is).1, ?_⟩
    rw [wakeUp_state, if_pos is]
  constructor
  · intro h is
    rw [wakeUp_head] at is
    cases is
  · intro a b link
    have before := chained.link_asleep a b (wakeUp_link.mp link)
    have other : q.head ≠ some b := fun is => chained.head_unlinked a b is (wakeUp_link.mp link)
    exact ⟨by rw [wakeUp_tmp]; exact before.1, by rw [wakeUp_state, if_neg other]; exact before.2⟩
  · intro a b c left right
    exact chained.link_unique a b c (wakeUp_link.mp left) (wakeUp_link.mp right)
  · intro a h is
    rw [wakeUp_head] at is
    cases is
  · intro t asleep
    have before : q.Asleep t := by
      refine ⟨by rw [← wakeUp_tmp]; exact asleep.1, ?_⟩
      have now := asleep.2
      rw [wakeUp_state] at now
      split at now
      · cases now
      · exact now
    rcases chained.found t before with ⟨h, is, path⟩ | ⟨w, woken, path⟩
    · exact .inr ⟨h, wake h is, lift h t path⟩
    · refine .inr ⟨w, ⟨by rw [wakeUp_tmp]; exact woken.1, ?_⟩, lift w t path⟩
      rw [wakeUp_state, woken.2, ite_self]

end WakeUp

section Resume

variable {q : WaitQueue Task} {p : Task}

theorem resume_tmp {t : Task} (other : t ≠ p) : (q.sleepOnResume p).tmp t = q.tmp t := by
  simp [sleepOnResume, other]

theorem resume_outside : (q.sleepOnResume p).tmp p = none := by
  simp [sleepOnResume]

theorem resume_link {a b : Task} : (q.sleepOnResume p).Link a b ↔ a ≠ p ∧ q.Link a b := by
  by_cases same : a = p
  · subst same; simp [Link, sleepOnResume]
  · simp [Link, sleepOnResume, same]

open Classical in
theorem resume_state {t : Task} :
    (q.sleepOnResume p).state t = if q.Link p t then .running else q.state t := by
  unfold sleepOnResume Link
  cases saved : q.tmp p with
  | none => simp
  | some old =>
    cases old with
    | none => simp
    | some s =>
      by_cases same : t = s
      · subst same; simp
      · simp [same, Ne.symm same]

theorem resume_running {t : Task} (running : q.state t = .running) :
    (q.sleepOnResume p).state t = .running := by
  classical
  rw [resume_state, running, ite_self]

/-- A woken task leaves, and the sleeper it had saved is woken in its place. -/
theorem Chained.sleepOnResume (chained : q.Chained) (woken : q.Woken p) :
    (q.sleepOnResume p).Chained := by
  classical
  have stays {t : Task} (asleep : q.Asleep t) (unlinked : ¬ q.Link p t) :
      (q.sleepOnResume p).Asleep t := by
    have other : t ≠ p := fun same => woken.not_asleep (same ▸ asleep)
    exact ⟨by rw [resume_tmp other]; exact asleep.1, by rw [resume_state, if_neg unlinked]; exact asleep.2⟩
  have next {t : Task} (link : q.Link p t) : (q.sleepOnResume p).Woken t := by
    have asleep := chained.link_asleep p t link
    have other : t ≠ p := fun same => woken.not_asleep (same ▸ asleep)
    exact ⟨by rw [resume_tmp other]; exact asleep.1, by rw [resume_state, if_pos link]⟩
  constructor
  · intro h is
    exact stays (chained.head_asleep h is) (chained.head_unlinked p h is)
  · intro a b link
    obtain ⟨other, link⟩ := resume_link.mp link
    exact stays (chained.link_asleep a b link) fun own => other (chained.link_unique a p b link own)
  · intro a b c left right
    exact chained.link_unique a b c (resume_link.mp left).2 (resume_link.mp right).2
  · intro a h is link
    exact chained.head_unlinked a h is (resume_link.mp link).2
  · intro t asleep
    have other : t ≠ p := fun same => asleep.1 (same ▸ resume_outside)
    have before : q.Asleep t := by
      refine ⟨by rw [← resume_tmp other]; exact asleep.1, ?_⟩
      have now := asleep.2
      rw [resume_state] at now
      split at now
      · cases now
      · exact now
    -- a path that went through the leaving task goes on from the sleeper it wakes
    have cut {a : Task} (path : ReflTransGen q.Link a t) :
        ReflTransGen (q.sleepOnResume p).Link a t ∨
          ∃ w, (q.sleepOnResume p).Woken w ∧ ReflTransGen (q.sleepOnResume p).Link w t := by
      have kept (x y : Task) (away : x ≠ p) (link : q.Link x y) : (q.sleepOnResume p).Link x y :=
        resume_link.mpr ⟨away, link⟩
      rcases reach_cut kept other path with path | ⟨b, link, path⟩
      · exact .inl path
      · exact .inr ⟨b, next link, path⟩
    rcases chained.found t before with ⟨h, is, path⟩ | ⟨w, awake, path⟩
    · rcases cut path with path | moved
      · exact .inl ⟨h, is, path⟩
      · exact .inr moved
    · by_cases same : w = p
      · subst same
        rcases ReflTransGen.cases_head path with arrived | ⟨b, link, rest⟩
        · exact absurd arrived.symm other
        · rcases cut rest with path | moved
          · exact .inr ⟨b, next link, path⟩
          · exact .inr moved
      · rcases cut path with path | moved
        · exact .inr ⟨w, ⟨by rw [resume_tmp same]; exact awake.1, resume_running awake.2⟩, path⟩
        · exact .inr moved

end Resume

end WaitQueue

end Linux011.Sched

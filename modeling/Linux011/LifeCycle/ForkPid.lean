import Linux011.LifeCycle.Process

namespace Linux011.LifeCycle

open Linux011.Library

variable {Queue : Type}

/-- `copy_process` as far as its first log call, which may let other tasks run. -/
def Kernel.create (k : Kernel Queue) (nr : Fin 64) : Kernel Queue :=
  let k' : Kernel Queue := { k with
    task := Function.update k.task nr (some k.fresh)
    info := Function.update k.info k.fresh { k.child with state := .uninterruptible }
    frame := Function.update k.frame k.fresh .user
    fresh := k.fresh + 1 }
  k'.fprintk k.lastPid .new

/-- The kernel with the tasks that are inside the log calls of `copy_process`, each with its child and whether it
    is in the second call, and what `copy_process` has returned for each child. -/
structure Forking (Queue : Type) where
  kernel : Kernel Queue
  inside : Task → Option (Task × Bool)
  returned : List (Task × BitVec 32)

namespace Forking

inductive Event (Queue : Type)
  | fork (t : Task) (rounds : Nat) (memory : Bool)
  | logged (t : Task)
  | return (t : Task)
  | elsewhere (k : Kernel Queue)

variable (x : Forking Queue)

/-- `find_empty_process` and `copy_process` up to the first log call. -/
def fork (t : Task) (rounds : Nat) (memory : Bool) : Option (Forking Queue) := do
  let k := { x.kernel with current := t }
  let (pid, nr) ← k.findEmptyProcess rounds
  let k := { k with lastPid := pid }
  return match nr with
    | some nr =>
      if memory then { x with kernel := k.create nr, inside := Function.update x.inside t (some (k.fresh, false)) }
      else { x with kernel := k }
    | none => { x with kernel := k }

/-- From the return of the first log call to the second. -/
def logged (t p : Task) : Forking Queue :=
  { x with
    kernel := (x.kernel.setState p .running).fprintk (x.kernel.info p).pid .ready
    inside := Function.update x.inside t (some (p, true)) }

/-- `return last_pid`. -/
def leave (t p : Task) : Forking Queue :=
  { x with inside := Function.update x.inside t none, returned := x.returned ++ [(p, x.kernel.lastPid)] }

/-- Everything else in the kernel leaves `last_pid` and the pids alone. -/
inductive Step (x : Forking Queue) : Event Queue → Forking Queue → Prop
  | fork (t : Task) (rounds : Nat) (memory : Bool) (x' : Forking Queue) (old : t < x.kernel.fresh)
      (outside : x.inside t = none) (begun : x.fork t rounds memory = some x') : Step x (.fork t rounds memory) x'
  | logged (t p : Task) (first : x.inside t = some (p, false)) : Step x (.logged t) (x.logged t p)
  | return (t p : Task) (second : x.inside t = some (p, true)) : Step x (.return t) (x.leave t p)
  | elsewhere (k : Kernel Queue) (lastPid : k.lastPid = x.kernel.lastPid) (fresh : k.fresh = x.kernel.fresh)
      (pid : ∀ t, (k.info t).pid = (x.kernel.info t).pid) : Step x (.elsewhere k) { x with kernel := k }

/-- The step an event makes, where it makes one. -/
def perform (x : Forking Queue) : Event Queue → Option (Forking Queue)
  | .fork t rounds memory => if t < x.kernel.fresh ∧ x.inside t = none then x.fork t rounds memory else none
  | .logged t =>
    match x.inside t with
    | some (p, false) => some (x.logged t p)
    | _ => none
  | .return t =>
    match x.inside t with
    | some (p, true) => some (x.leave t p)
    | _ => none
  | .elsewhere _ => none

theorem perform_step {x x' : Forking Queue} {e : Event Queue} (done : x.perform e = some x') : Step x e x' := by
  cases e with
  | fork t rounds memory =>
    obtain ⟨⟨old, outside⟩, begun⟩ := Option.ite_none_right_eq_some.mp done
    exact .fork t rounds memory x' old outside begun
  | logged t =>
    simp only [perform] at done
    split at done
    · rename_i p first
      cases done
      exact .logged t p first
    · cases done
  | «return» t =>
    simp only [perform] at done
    split at done
    · rename_i p second
      cases done
      exact .return t p second
    · cases done
  | elsewhere k => cases done

def machine (Queue : Type) : Machine (Forking Queue) (Event Queue) where
  init x := x.kernel.Started ∧ (∀ t, x.inside t = none) ∧ x.returned = []
  step := Step

/-- No task calls `fork` while another is in the log calls of its own. -/
def Alone : Event Queue → Prop
  | .fork _ _ _ => ∀ u, x.inside u = none
  | _ => True

/-- What `copy_process` will return to the task inside it. -/
structure Numbered (x : Forking Queue) : Prop where
  born : ∀ t p late, x.inside t = some (p, late) → p < x.kernel.fresh ∧ (x.kernel.info p).pid = x.kernel.lastPid
  own : ∀ p value, (p, value) ∈ x.returned → p < x.kernel.fresh ∧ value = (x.kernel.info p).pid

variable {x} {x' : Forking Queue} {e : Event Queue}

theorem pid_change (k : Kernel Queue) (t u : Task) (state : Sched.TaskState) :
    ((k.setState t state).info u).pid = (k.info u).pid := by
  unfold Kernel.setState Kernel.change
  dsimp only
  rw [Function.update_apply]
  split
  · rename_i same
    rw [same]
  · rfl

theorem create_pid (k : Kernel Queue) (nr : Fin 64) : ((k.create nr).info k.fresh).pid = k.lastPid := by
  unfold Kernel.create Kernel.fprintk
  dsimp only
  rw [Function.update_self]
  rfl

theorem Numbered.fork (numbered : Numbered x) (alone : ∀ u, x.inside u = none) {t : Task} {rounds : Nat} {memory : Bool}
    (begun : x.fork t rounds memory = some x') : Numbered x' := by
  obtain ⟨⟨pid, nr⟩, -, same⟩ := Option.bind_eq_some_iff.mp begun
  have idle (k : Kernel Queue) (fresh : k.fresh = x.kernel.fresh) (info : k.info = x.kernel.info) :
      Numbered { x with kernel := k } := by
    constructor
    · intro u p late inside
      rw [alone u] at inside
      cases inside
    · intro p value member
      show p < k.fresh ∧ value = (k.info p).pid
      rw [fresh, info]
      exact numbered.own p value member
  cases nr with
  | none =>
    cases same
    exact idle _ rfl rfl
  | some nr =>
    cases memory with
    | false =>
      cases same
      exact idle _ rfl rfl
    | true =>
      cases same
      constructor
      · intro u p late inside
        have inside : Function.update x.inside t (some (x.kernel.fresh, false)) u = some (p, late) := inside
        rw [Function.update_apply] at inside
        split at inside
        · cases inside
          exact ⟨Nat.lt_succ_self _, create_pid _ nr⟩
        · rw [alone u] at inside
          cases inside
      · intro p value member
        obtain ⟨old, own⟩ := numbered.own p value member
        refine ⟨Nat.lt_succ_of_lt old, own.trans ?_⟩
        exact (congrArg TaskStruct.pid (Function.update_of_ne (Nat.ne_of_lt old) _ _)).symm

theorem Numbered.step (numbered : Numbered x) (condition : x.Alone e) (step : Step x e x') : Numbered x' := by
  cases step with
  | fork t rounds memory _ _ _ begun => exact numbered.fork condition begun
  | logged t p first =>
    obtain ⟨born, pid⟩ := numbered.born t p false first
    constructor
    · intro u q late inside
      show q < x.kernel.fresh ∧ ((x.kernel.setState p .running).info q).pid = x.kernel.lastPid
      rw [pid_change]
      have inside : Function.update x.inside t (some (p, true)) u = some (q, late) := inside
      rw [Function.update_apply] at inside
      split at inside
      · cases inside
        exact ⟨born, pid⟩
      · exact numbered.born u q late inside
    · intro q value member
      show q < x.kernel.fresh ∧ value = ((x.kernel.setState p .running).info q).pid
      rw [pid_change]
      exact numbered.own q value member
  | «return» t p second =>
    obtain ⟨born, pid⟩ := numbered.born t p true second
    constructor
    · intro u q late inside
      have inside : Function.update x.inside t none u = some (q, late) := inside
      rw [Function.update_apply] at inside
      split at inside
      · cases inside
      · exact numbered.born u q late inside
    · intro q value member
      rcases List.mem_append.mp member with before | last
      · exact numbered.own q value before
      · cases List.mem_singleton.mp last
        exact ⟨born, pid.symm⟩
  | elsewhere k lastPid fresh pid =>
    constructor
    · intro u q late inside
      show q < k.fresh ∧ (k.info q).pid = k.lastPid
      rw [fresh, lastPid, pid]
      exact numbered.born u q late inside
    · intro q value member
      show q < k.fresh ∧ value = (k.info q).pid
      rw [fresh, pid]
      exact numbered.own q value member

/-- Where the log calls of two forks do not overlap, each `copy_process` returns the pid of its child. -/
theorem returns_child_pid (reached : ((machine Queue).restrict Alone).Reaches x) (p : Task) (value : BitVec 32)
    (returned : (p, value) ∈ x.returned) : value = (x.kernel.info p).pid := by
  have numbered : Numbered x := by
    apply reached.invariant
    · rintro x ⟨-, none, nothing⟩
      constructor
      · intro t p late inside
        rw [none] at inside
        cases inside
      · intro p value member
        rw [nothing] at member
        cases member
    · exact fun _ _ _ numbered step => numbered.step step.1 step.2
  exact (numbered.own p value returned).2

def start : Forking Empty := ⟨opened Empty, fun _ => none, []⟩

theorem start_init : (machine Empty).init start := ⟨opened_started Empty, fun _ => rfl, rfl⟩

/-- `INIT_TASK` forks task 1, and task 1 forks task 2. -/
theorem returns_child_pid_twice : ∃ x, ((machine Empty).restrict Alone).Reaches x ∧ x.returned = [(1, 1), (2, 2)] ∧
    ∀ value, (2, value) ∈ x.returned → value = (x.kernel.info 2).pid := by
  have next {x x' : Forking Empty} {e : Event Empty} (reached : ((machine Empty).restrict Alone).Reaches x)
      (alone : x.Alone e) (done : x.perform e = some x') : ((machine Empty).restrict Alone).Reaches x' :=
    reached.step ⟨alone, perform_step done⟩
  have started : ((machine Empty).restrict Alone).Reaches start := ⟨start, [], start_init, .nil _⟩
  have first := next (e := .fork 0 1 true) started (fun _ => rfl) rfl
  have back := next (e := .return 0) (next (e := .logged 0) first trivial rfl) trivial rfl
  have second := next (e := .fork 1 1 true) back (fun u => by cases u <;> rfl) rfl
  have ends := next (e := .return 1) (next (e := .logged 1) second trivial rfl) trivial rfl
  exact ⟨_, ends, by decide +kernel, returns_child_pid ends 2⟩

/-- While task 1 is in the log calls of its second fork, task 2 forks. -/
theorem returns_other_pid : ∃ x, (machine Empty).Reaches x ∧
    ∃ p value, (p, value) ∈ x.returned ∧ value ≠ (x.kernel.info p).pid := by
  have ran : (([.fork 0 1 true, .logged 0, .return 0, .fork 1 1 true, .logged 1, .return 1, .fork 1 1 true,
      .fork 2 1 true, .logged 1, .return 1].foldlM perform start).any fun x =>
        x.returned.any fun child => child.2 ≠ (x.kernel.info child.1).pid) = true := by decide +kernel
  obtain ⟨x, ends, mixed⟩ := (Option.any_eq_true _ _).mp ran
  obtain ⟨⟨p, value⟩, member, other⟩ := List.any_eq_true.mp mixed
  have run := Machine.run_of_foldlM (m := machine Empty) (fun _ _ _ => perform_step) ends
  exact ⟨x, ⟨start, _, start_init, run⟩, p, value, member, of_decide_eq_true other⟩

end Forking

end Linux011.LifeCycle

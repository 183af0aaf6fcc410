import Linux011.LifeCycle.Table

namespace Linux011.LifeCycle

open Linux011.Library
open Linux011.Sched (TaskState)

variable {Queue : Type}

namespace TaskStruct

variable (p : TaskStruct)

def chld : Bool := p.signal.getLsbD (SIGCHLD - 1)

def blocksChld : Bool := p.blocked.getLsbD (SIGCHLD - 1)

variable {p}

theorem send_chld (sig : Nat) (pending : p.chld = true) : (p.send sig).chld = true := by
  unfold chld send at *
  dsimp only
  rw [BitVec.getLsbD_or, pending, Bool.true_or]

theorem sent_chld : (p.send SIGCHLD).chld = true := by
  have set : (bit SIGCHLD).getLsbD (SIGCHLD - 1) = true := by decide
  unfold chld send
  dsimp only
  rw [BitVec.getLsbD_or, set, Bool.or_true]

theorem checkAlarm_chld (jiffies : Nat) (pending : p.chld = true) : (p.checkAlarm jiffies).chld = true := by
  unfold checkAlarm
  split
  · exact send_chld SIGALRM pending
  · exact pending

theorem signalled_chld (pending : p.chld = true) (unblocked : p.blocksChld = false) : p.Signalled := by
  intro none
  have here : (p.signal &&& ~~~ (blockable &&& p.blocked)).getLsbD (SIGCHLD - 1) = true := by
    unfold chld at pending
    unfold blocksChld at unblocked
    rw [BitVec.getLsbD_and, pending, BitVec.getLsbD_not, BitVec.getLsbD_and, unblocked]
    decide
  rw [none] at here
  cases here

end TaskStruct

namespace Kernel

variable (k : Kernel Queue)

def Selected (t : Task) (pid : BitVec 32) (u : Task) : Prop :=
  if pid.slt 0 = false ∧ pid ≠ 0 then (k.info u).pid = pid
  else if pid = 0 then (k.info u).pgrp = (k.info t).pgrp
  else pid = -1 ∨ (k.info u).pgrp = -pid

def ChildOf (t : Task) (pid : BitVec 32) (u : Task) : Prop :=
  u ≠ t ∧ (k.info u).father = (k.info t).pid ∧ k.Selected t pid u

/-- The task sleeps in `sys_waitpid(pid, ..)`. -/
def Waiting (t : Task) (pid : BitVec 32) : Prop :=
  (k.info t).state = .interruptible ∧ ∃ nohang untraced, k.frame t = .waitpid pid nohang untraced

def Zombie (u : Task) : Prop := (k.info u).state = .zombie

/-- A task still sleeps in `sys_waitpid` though a child that it waits for is dead. -/
def Missed : Prop :=
  ∃ i t pid j u, k.task i = some t ∧ k.Waiting t pid ∧ k.task j = some u ∧ k.Zombie u ∧ k.ChildOf t pid u

/-- The father of each zombie is there, or it is task 1. -/
def Fathered : Prop :=
  ∀ i u, k.task i = some u → k.Zombie u →
    (k.info u).father = 1 ∨ ∃ j v, k.task j = some v ∧ (k.info v).pid = (k.info u).father

/-- `fork`, `do_exit`, `sys_waitpid` and `schedule`, signals from anywhere, and each task's own mask. -/
def Scope : Event Queue → Prop
  | .sleepOn _ | .interruptibleSleepOn _ | .wakeUp _ => False
  | .elsewhere t _ _ _ _ _ => t = k.current ∧ k.Ready
  | _ => True

/-- A father who sleeps in `sys_waitpid` for the task that exits, or for a dead child of it, does not block `SIGCHLD`;
    in the second case it is `task[1]`. -/
def Heard : Event Queue → Prop
  | .exit => ∀ i t pid, k.task i = some t → k.Waiting t pid →
      (k.ChildOf t pid k.current → (k.info t).blocksChld = false) ∧
      ((k.info t).pid = 1 → ∀ j u, k.task j = some u → k.Zombie u → (k.info u).father = (k.info k.current).pid →
        k.Selected t pid u → i = 1 ∧ (k.info t).blocksChld = false)
  | _ => True

/-- The families of the tasks in the table. -/
structure Kin : Prop where
  pids : ∀ i j t u, k.task i = some t → k.task j = some u → (k.info t).pid = (k.info u).pid → t = u
  fathers : ∀ i t, k.task i = some t → t ≠ initTask → (k.info t).father = 1 ∨
    ∃ j v, k.task j = some v ∧ v ≠ t ∧ ¬ k.Zombie v ∧ (k.info v).pid = (k.info t).father
  known : ∀ i u, k.task i = some u → k.Zombie u → (k.info u).father ≠ 0
  frames : ∀ t, k.frame t = .user ∨ ∃ pid nohang untraced, k.frame t = .waitpid pid nohang untraced
  told : ∀ i t pid j u, k.task i = some t → k.Waiting t pid → k.task j = some u → k.Zombie u → k.ChildOf t pid u →
    (k.info t).chld = true ∧ (k.info t).blocksChld = false

/-- Nobody is born, dies or gets another father, and who waits hears as well as before. -/
structure Quiet (k k' : Kernel Queue) : Prop where
  task : k'.task = k.task
  pid : ∀ t, (k'.info t).pid = (k.info t).pid
  father : ∀ t, (k'.info t).father = (k.info t).father
  zombie : ∀ t, k'.Zombie t ↔ k.Zombie t
  pgrp : ∀ u, k.Zombie u → (k'.info u).pgrp = (k.info u).pgrp
  frames : ∀ t, k'.frame t = k.frame t ∨ k'.frame t = .user ∨
    ∃ pid nohang untraced, k'.frame t = .waitpid pid nohang untraced
  waiting : ∀ t pid, k'.Waiting t pid →
    k.Waiting t pid ∧ (k'.info t).pgrp = (k.info t).pgrp ∧ ((k.info t).chld = true → (k'.info t).chld = true) ∧
      (k'.info t).blocksChld = (k.info t).blocksChld ∨
    ∀ j u, k.task j = some u → k.Zombie u → ¬ k'.ChildOf t pid u

variable {k} {k' : Kernel Queue}

theorem Kin.quiet (kin : k.Kin) (quiet : Quiet k k') : k'.Kin where
  pids i j t u first second same := by
    rw [quiet.task] at first second
    rw [quiet.pid, quiet.pid] at same
    exact kin.pids i j t u first second same
  fathers i t there other := by
    rw [quiet.task] at there
    rw [quiet.father]
    rcases kin.fathers i t there other with one | ⟨j, v, here, apart, alive, is⟩
    · exact .inl one
    · refine .inr ⟨j, v, ?_, apart, fun dead => alive ((quiet.zombie v).mp dead), ?_⟩
      · rw [quiet.task]
        exact here
      · rw [quiet.pid]
        exact is
  known i u there dead := by
    rw [quiet.task] at there
    rw [quiet.father]
    exact kin.known i u there ((quiet.zombie u).mp dead)
  frames t := by
    rcases quiet.frames t with same | other
    · rw [same]
      exact kin.frames t
    · exact other
  told i t pid j u first waits second dead child := by
    rw [quiet.task] at first second
    have dead : k.Zombie u := (quiet.zombie u).mp dead
    rcases quiet.waiting t pid waits with ⟨waited, pgrp, chld, blocks⟩ | none
    · have before : k.ChildOf t pid u := by
        obtain ⟨apart, father, selected⟩ := child
        rw [quiet.father, quiet.pid] at father
        refine ⟨apart, father, ?_⟩
        unfold Selected at selected ⊢
        rw [quiet.pid, quiet.pgrp u dead, pgrp] at selected
        exact selected
      obtain ⟨pending, heard⟩ := kin.told i t pid j u first waited second dead before
      exact ⟨chld pending, blocks.trans heard⟩
    · exact absurd child (none j u second dead)

namespace Quiet

theorem beside (task : k'.task = k.task) (info : k'.info = k.info)
    (frame : ∀ t, k'.frame t = k.frame t ∨ k'.frame t = .user) : Quiet k k' where
  task := task
  pid t := by rw [info]
  father t := by rw [info]
  zombie t := by unfold Zombie; rw [info]
  pgrp u _ := by rw [info]
  frames t := (frame t).imp_right .inl
  waiting t pid waits := by
    obtain ⟨asleep, nohang, untraced, inside⟩ := waits
    rcases frame t with same | user
    · left
      rw [info] at asleep ⊢
      exact ⟨⟨asleep, nohang, untraced, same ▸ inside⟩, rfl, id, rfl⟩
    · cases user.symm.trans inside

theorem change {t : Task} {f : TaskStruct → TaskStruct} {p : TaskStruct} (is : k.info t = p)
    (pid : (f p).pid = p.pid) (father : (f p).father = p.father) (zombie : (f p).state = .zombie ↔ p.state = .zombie)
    (pgrp : (f p).pgrp = p.pgrp) (chld : p.chld = true → (f p).chld = true) (blocks : (f p).blocked = p.blocked)
    (asleep : (f p).state = .interruptible → p.state = .interruptible) : Quiet k (k.change t f) := by
  have self : (k.change t f).info t = f p := (Function.update_self _ _ _).trans (congrArg f is)
  have other (u : Task) (apart : u ≠ t) : (k.change t f).info u = k.info u := Function.update_of_ne apart _ _
  have each (P : TaskStruct → TaskStruct → Prop) (own : P (f p) p) (same : ∀ q, P q q) (u : Task) :
      P ((k.change t f).info u) (k.info u) := by
    by_cases here : u = t
    · rw [here, self, is]
      exact own
    · rw [other u here]
      exact same _
  exact {
    task := rfl
    pid := each (fun q r => q.pid = r.pid) pid fun _ => rfl
    father := each (fun q r => q.father = r.father) father fun _ => rfl
    zombie := each (fun q r => q.state = .zombie ↔ r.state = .zombie) zombie fun _ => Iff.rfl
    pgrp := fun u _ => each (fun q r => q.pgrp = r.pgrp) pgrp (fun _ => rfl) u
    frames := fun _ => .inl rfl
    waiting := fun u _ waits => by
      have before := each (fun q r => q.state = .interruptible → r.state = .interruptible) asleep (fun _ => id) u waits.1
      refine .inl ⟨⟨before, waits.2⟩, ?_, ?_, ?_⟩
      · exact each (fun q r => q.pgrp = r.pgrp) pgrp (fun _ => rfl) u
      · exact each (fun q r => r.chld = true → q.chld = true) chld (fun _ => id) u
      · exact each (fun q r => q.blocksChld = r.blocksChld) (congrArg (BitVec.getLsbD · _) blocks) (fun _ => rfl) u }

theorem own {t : Task} {f : TaskStruct → TaskStruct} (user : k.frame t = .user) (alive : ¬ k.Zombie t)
    (pid : (f (k.info t)).pid = (k.info t).pid) (father : (f (k.info t)).father = (k.info t).father)
    (lives : (f (k.info t)).state ≠ .zombie) : Quiet k (k.change t f) := by
  have self : (k.change t f).info t = f (k.info t) := Function.update_self _ _ _
  have other (u : Task) (apart : u ≠ t) : (k.change t f).info u = k.info u := Function.update_of_ne apart _ _
  constructor
  · rfl
  · intro u
    by_cases here : u = t
    · rw [here, self, pid]
    · rw [other u here]
  · intro u
    by_cases here : u = t
    · rw [here, self, father]
    · rw [other u here]
  · intro u
    unfold Zombie
    by_cases here : u = t
    · rw [here, self]
      exact ⟨fun dead => absurd dead lives, fun dead => absurd dead alive⟩
    · rw [other u here]
  · intro u dead
    by_cases here : u = t
    · exact absurd (here ▸ dead) alive
    · rw [other u here]
  · exact fun _ => .inl rfl
  · intro u pid waits
    obtain ⟨asleep, nohang, untraced, inside⟩ := waits
    have inside : k.frame u = .waitpid pid nohang untraced := inside
    by_cases here : u = t
    · rw [here, user] at inside
      cases inside
    · left
      rw [other u here] at asleep ⊢
      exact ⟨⟨asleep, nohang, untraced, inside⟩, rfl, id, rfl⟩

theorem refl : Quiet k k := beside rfl rfl fun _ => .inl rfl

theorem checkAlarm (t : Task) (jiffies : Nat) : Quiet k (k.change t fun p => p.checkAlarm jiffies) := by
  apply change rfl
  · exact checkAlarm_pid _ _
  · unfold TaskStruct.checkAlarm
    split <;> rfl
  · rw [checkAlarm_state]
  · unfold TaskStruct.checkAlarm
    split <;> rfl
  · exact TaskStruct.checkAlarm_chld jiffies
  · unfold TaskStruct.checkAlarm
    split <;> rfl
  · rw [checkAlarm_state]
    exact id

theorem aside {t : Task} {f : TaskStruct → TaskStruct} (pid : ∀ p, (f p).pid = p.pid) (father : ∀ p, (f p).father = p.father)
    (state : ∀ p, (f p).state = p.state) (pgrp : ∀ p, (f p).pgrp = p.pgrp) (signal : ∀ p, (f p).signal = p.signal)
    (blocked : ∀ p, (f p).blocked = p.blocked) : Quiet k (k.change t f) := by
  apply change rfl (pid _) (father _) _ (pgrp _) _ (blocked _)
  · rw [state]
    exact id
  · rw [state]
  · unfold TaskStruct.chld
    rw [signal]
    exact id

theorem send (t : Task) (sig : Nat) : Quiet k (k.change t fun p => p.send sig) :=
  change rfl rfl rfl Iff.rfl rfl (TaskStruct.send_chld sig) rfl id

theorem wake {t : Task} (asleep : (k.info t).state = .interruptible) : Quiet k (k.wake t) := by
  have set : Quiet k (k.setState t .running) := by
    apply change rfl
    · rfl
    · rfl
    · rw [asleep]
      exact ⟨nofun, nofun⟩
    · rfl
    · exact fun pending => pending
    · rfl
    · exact fun _ => asleep
  exact {
    task := set.task
    pid := set.pid
    father := set.father
    zombie := set.zombie
    pgrp := set.pgrp
    frames := set.frames
    waiting := set.waiting }

end Quiet

theorem Kin.beside (kin : k.Kin) (task : k'.task = k.task) (info : k'.info = k.info)
    (frame : ∀ t, k'.frame t = k.frame t ∨ k'.frame t = .user) : k'.Kin := kin.quiet (.beside task info frame)

theorem Kin.checkSignals (kin : k.Kin) (i : Fin 64) : (k.checkSignals i).Kin := by
  cases there : k.task i with
  | none =>
    unfold Kernel.checkSignals
    rw [there]
    exact kin
  | some t =>
    have checked := kin.quiet (.checkAlarm t k.jiffies)
    rcases checkSignals_cases there with ⟨due, same⟩ | ⟨_, same⟩
    · rw [same]
      exact checked.quiet (.wake ((checked_alike.state t).trans due.2))
    · rw [same]
      exact checked

theorem Kin.fold (kin : k.Kin) {f : Kernel Queue → Fin 64 → Kernel Queue} (each : ∀ k i, k.Kin → (f k i).Kin)
    (is : List (Fin 64)) : (is.foldl f k).Kin := by
  induction is generalizing k with
  | nil => exact kin
  | cons i is ih => exact ih (each k i kin)

theorem Kin.scan (kin : k.Kin) : (others.foldl Kernel.checkSignals k).Kin :=
  kin.fold (fun _ i kin => kin.checkSignals i) others

theorem Kin.recharge (kin : k.Kin) : k.recharge.Kin := by
  apply kin.fold
  intro k i kin
  split
  · exact kin
  · exact kin.quiet (.aside (fun _ => rfl) (fun _ => rfl) (fun _ => rfl) (fun _ => rfl) (fun _ => rfl) fun _ => rfl)

theorem Kin.select (kin : k.Kin) {rounds : Nat} {i : Fin 64} (selected : k.select rounds = some (k', i)) : k'.Kin := by
  induction rounds generalizing k with
  | zero => cases selected
  | succ rounds ih =>
    unfold Kernel.select at selected
    split at selected
    · cases selected
      exact kin
    · exact ih kin.recharge selected

theorem Kin.schedule (kin : k.Kin) {rounds : Nat} (found : k.schedule rounds = some k') : k'.Kin := by
  obtain ⟨k₁, i, t, selected, _, rfl⟩ := schedule_cases found
  have chosen : k₁.Kin := kin.scan.select selected
  unfold dispatch
  split
  · exact chosen.beside rfl rfl fun _ => .inl rfl
  · split <;> exact chosen.beside rfl rfl fun _ => .inl rfl

theorem Kin.release (kin : k.Kin) {t : Task} (dead : k.Zombie t) : (k.release t).Kin := by
  have left (i : Fin 64) (u : Task) (there : (k.release t).task i = some u) : k.task i = some u := by
    unfold Kernel.release clear at there
    dsimp only at there
    split at there
    · cases there
    · exact there
  have kept (i : Fin 64) (u : Task) (there : k.task i = some u) (alive : ¬ k.Zombie u) :
      (k.release t).task i = some u := by
    unfold Kernel.release clear
    dsimp only
    rw [if_neg]
    · exact there
    · rintro ⟨_, here⟩
      cases there.symm.trans here
      exact alive dead
  exact {
    pids := fun i j u v first second => kin.pids i j u v (left i u first) (left j v second)
    fathers := fun i u there other => by
      rcases kin.fathers i u (left i u there) other with one | ⟨j, v, here, apart, alive, is⟩
      · exact .inl one
      · exact .inr ⟨j, v, kept j v here alive, apart, alive, is⟩
    known := fun i u there => kin.known i u (left i u there)
    frames := kin.frames
    told := fun i u pid j v first waits second => kin.told i u pid j v (left i u first) waits (left j v second) }

theorem children_some {pid : BitVec 32} {untraced : Bool} {is : List (Fin 64)} {flag : Child}
    (found : k.children pid untraced flag is = .some) :
    ∀ i ∈ is, ∀ u, k.task i = some u → k.Zombie u → ¬ k.matching pid u := by
  induction is generalizing flag with
  | nil => exact fun _ member => (List.not_mem_nil member).elim
  | cons i is ih =>
    unfold children at found
    intro j member u there dead child
    have dead : (k.info u).state = .zombie := dead
    rcases List.mem_cons.mp member with rfl | member
    · rw [there] at found
      dsimp only at found
      rw [if_pos child, dead] at found
      cases found
    · split at found
      · exact ih found j member u there dead child
      · split at found
        · split at found
          · split at found
            · cases found
            · exact ih found j member u there dead child
          · cases found
          · exact ih found j member u there dead child
        · exact ih found j member u there dead child

theorem mem_others (i : Fin 64) (other : i ≠ 0) : i ∈ others := by
  revert i
  decide

theorem Kin.sleep (kin : k.Kin) (idle : k.task 0 = some initTask) (immortal : ¬ k.Zombie initTask)
    (alive : ¬ k.Zombie k.current) {pid : BitVec 32} {nohang untraced : Bool} (found : k.children pid untraced .none others = .some) :
    (k.sleep .interruptible (.waitpid pid nohang untraced)).Kin := by
  have none (j : Fin 64) (u : Task) (there : k.task j = some u) (dead : k.Zombie u) : ¬ k.matching pid u := by
    by_cases first : j = 0
    · subst first
      cases idle.symm.trans there
      exact absurd dead immortal
    · exact children_some found j (mem_others j first) u there dead
  have self : (k.sleep .interruptible (.waitpid pid nohang untraced)).info k.current =
    { k.info k.current with state := .interruptible } := Function.update_self _ _ _
  have other (u : Task) (apart : u ≠ k.current) :
    (k.sleep .interruptible (.waitpid pid nohang untraced)).info u = k.info u := Function.update_of_ne apart _ _
  have each (P : TaskStruct → TaskStruct → Prop) (own : ∀ q : TaskStruct, P { q with state := .interruptible } q)
      (same : ∀ q, P q q) (u : Task) :
      P ((k.sleep .interruptible (.waitpid pid nohang untraced)).info u) (k.info u) := by
    by_cases here : u = k.current
    · rw [here, self]
      exact own _
    · rw [other u here]
      exact same _
  apply kin.quiet
  constructor
  · rfl
  · exact each (fun q r => q.pid = r.pid) (fun _ => rfl) fun _ => rfl
  · exact each (fun q r => q.father = r.father) (fun _ => rfl) fun _ => rfl
  · intro u
    unfold Zombie
    by_cases here : u = k.current
    · rw [here, self]
      exact ⟨nofun, fun dead => absurd dead alive⟩
    · rw [other u here]
  · exact fun u _ => each (fun q r => q.pgrp = r.pgrp) (fun _ => rfl) (fun _ => rfl) u
  · intro u
    have frame : (k.sleep .interruptible (.waitpid pid nohang untraced)).frame u =
      Function.update k.frame k.current (.waitpid pid nohang untraced) u := rfl
    rw [frame, Function.update_apply]
    split
    · exact .inr (.inr ⟨pid, nohang, untraced, rfl⟩)
    · exact .inl rfl
  · intro u sought waits
    obtain ⟨asleep, hang, stops, inside⟩ := waits
    have inside : Function.update k.frame k.current (.waitpid pid nohang untraced) u = .waitpid sought hang stops := inside
    by_cases here : u = k.current
    · right
      rw [here, Function.update_self] at inside
      cases inside
      rintro j v there dead ⟨apart, father, selected⟩
      subst here
      apply none j v there dead
      have same := each (fun q r => q.pid = r.pid ∧ q.father = r.father ∧ q.pgrp = r.pgrp) (fun _ => ⟨rfl, rfl, rfl⟩)
        fun _ => ⟨rfl, rfl, rfl⟩
      unfold Selected at selected
      rw [(same _).2.1, (same _).1] at father
      rw [(same _).1, (same v).2.2, (same _).2.2] at selected
      exact ⟨apart, father, selected⟩
    · left
      rw [Function.update_of_ne here] at inside
      rw [other u here] at asleep ⊢
      exact ⟨⟨asleep, hang, stops, inside⟩, rfl, id, rfl⟩

theorem Kin.sysWaitpid (kin : ({ k with frame := Function.update k.frame k.current .user } : Kernel Queue).Kin)
    (idle : k.task 0 = some initTask) (immortal : ¬ k.Zombie initTask) (alive : ¬ k.Zombie k.current)
    (pid : BitVec 32) (nohang untraced : Bool) : (k.sysWaitpid pid nohang untraced).Kin := by
  unfold Kernel.sysWaitpid
  dsimp only
  split
  · rename_i t child
    exact kin.release (children_zombie (k := { k with frame := Function.update k.frame k.current .user }) pid untraced
      others .none nofun t child)
  · rename_i child
    split
    · exact kin
    · exact kin.sleep idle immortal alive child
  · exact kin

theorem Shape.current_lives (shape : k.Shape) (back : k.calling = false) : ¬ k.Zombie k.current := by
  rcases shape.active back with idle | running
  · rw [idle]
    exact shape.alive
  · intro dead
    cases running.symm.trans dead

theorem Kin.user (kin : k.Kin) : ({ k with frame := Function.update k.frame k.current .user } : Kernel Queue).Kin := by
  refine kin.beside rfl rfl fun t => ?_
  by_cases here : t = k.current
  · right
    rw [here]
    exact Function.update_self _ _ _
  · exact .inl (Function.update_of_ne here _ _)

theorem Kin.resume [DecidableEq Queue] (kin : k.Kin) (shape : k.Shape) (back : k.calling = false) : k.resume.Kin := by
  unfold Kernel.resume
  rcases kin.frames k.current with user | ⟨pid, nohang, untraced, inside⟩
  · rw [user]
    exact kin
  · rw [inside]
    have alive : ¬ k.Zombie k.current := shape.current_lives back
    let f : TaskStruct → TaskStruct := fun p => { p with signal := p.signal &&& ~~~ bit SIGCHLD }
    have cleared : (Kernel.change { k with frame := Function.update k.frame k.current .user } k.current f).Kin :=
      kin.user.quiet (.own (Function.update_self _ _ _) alive rfl rfl alive)
    have same : Alike k (k.change k.current f) := .change rfl rfl
    dsimp only
    unfold waitpidResume
    dsimp only
    split
    · have immortal : ¬ (k.change k.current f).Zombie initTask := fun dead => shape.alive ((same.state _).symm.trans dead)
      have lives : ¬ (k.change k.current f).Zombie k.current := fun dead => alive ((same.state _).symm.trans dead)
      exact Kin.sysWaitpid (k := k.change k.current f) cleared shape.idle immortal lives pid nohang untraced
    · exact cleared

theorem nextPid_fresh {lastPid pid : BitVec 32} {rounds : Nat} (found : k.nextPid lastPid rounds = some pid) :
    ∀ i t, k.task i = some t → (k.info t).pid ≠ pid := by
  induction rounds generalizing lastPid with
  | zero => cases found
  | succ rounds ih =>
    unfold nextPid at found
    dsimp only at found
    generalize (if (lastPid + 1).slt 0 = true then (1 : BitVec 32) else lastPid + 1) = tried at found
    split at found
    · exact ih found
    · rename_i free
      cases found
      intro i t there same
      apply free
      apply List.any_eq_true.mpr
      exact ⟨i, List.mem_finRange i, by rw [there]; exact decide_eq_true same⟩

theorem Kin.fork (kin : k.Kin) (shape : k.Shape) (here : ∃ i, k.task i = some k.current) (alive : ¬ k.Zombie k.current)
    {rounds : Nat} {memory : Bool} (found : k.sysFork rounds memory = some k') : k'.Kin := by
  obtain ⟨pid, rfl | ⟨nr, _, free, _, slot, rfl⟩⟩ := sysFork_cases found
  · exact kin.beside rfl rfl fun _ => .inl rfl
  · obtain ⟨pid', next, same⟩ := Option.bind_eq_some_iff.mp slot
    simp only [Option.pure_def, Option.some.injEq, Prod.mk.injEq] at same
    obtain ⟨rfl, _⟩ := same
    have unused := nextPid_fresh next
    have old (i : Fin 64) (t : Task) (there : k.task i = some t) : t ≠ k.fresh := Nat.ne_of_lt (shape.born i t there)
    have self : (copyProcess { k with lastPid := pid' } nr).info k.fresh = child { k with lastPid := pid' } :=
      Function.update_self _ _ _
    have other (t : Task) (apart : t ≠ k.fresh) : (copyProcess { k with lastPid := pid' } nr).info t = k.info t :=
      Function.update_of_ne apart _ _
    have slots (i : Fin 64) (t : Task) (there : (copyProcess { k with lastPid := pid' } nr).task i = some t) :
        i = nr ∧ t = k.fresh ∨ k.task i = some t := by
      have there : Function.update k.task nr (some k.fresh) i = some t := there
      rw [Function.update_apply] at there
      split at there
      · cases there
        exact .inl ⟨‹_›, rfl⟩
      · exact .inr there
    have kept (i : Fin 64) (t : Task) (there : k.task i = some t) :
        (copyProcess { k with lastPid := pid' } nr).task i = some t := by
      have apart : i ≠ nr := by
        rintro rfl
        cases free.symm.trans there
      exact (Function.update_of_ne apart _ _).trans there
    have dead (t : Task) (zombie : (copyProcess { k with lastPid := pid' } nr).Zombie t) : t ≠ k.fresh := by
      rintro rfl
      unfold Zombie at zombie
      rw [self] at zombie
      cases zombie
    constructor
    · intro i j t u first second same
      rcases slots i t first with ⟨_, rfl⟩ | first
      · rcases slots j u second with ⟨_, rfl⟩ | second
        · rfl
        · rw [self, other u (old j u second)] at same
          exact absurd same.symm (unused j u second)
      · rw [other t (old i t first)] at same
        rcases slots j u second with ⟨_, rfl⟩ | second
        · rw [self] at same
          exact absurd same (unused i t first)
        · rw [other u (old j u second)] at same
          exact kin.pids i j t u first second same
    · intro i t there idle
      rcases slots i t there with ⟨_, rfl⟩ | there
      · obtain ⟨j, here⟩ := here
        rw [self]
        refine .inr ⟨j, k.current, kept j _ here, old j _ here, ?_, ?_⟩
        · unfold Zombie
          rw [other _ (old j _ here)]
          exact alive
        · rw [other _ (old j _ here)]
          rfl
      · rw [other t (old i t there)]
        rcases kin.fathers i t there idle with one | ⟨j, v, here, apart, alive, is⟩
        · exact .inl one
        · refine .inr ⟨j, v, kept j v here, apart, ?_, ?_⟩
          · unfold Zombie
            rw [other v (old j v here)]
            exact alive
          · rw [other v (old j v here)]
            exact is
    · intro i u there zombie
      rcases slots i u there with ⟨_, rfl⟩ | there
      · exact absurd rfl (dead _ zombie)
      · unfold Zombie at zombie
        rw [other u (old i u there)] at zombie ⊢
        exact kin.known i u there zombie
    · intro t
      have frame : (copyProcess { k with lastPid := pid' } nr).frame t = Function.update k.frame k.fresh .user t := rfl
      rw [frame, Function.update_apply]
      split
      · exact .inl rfl
      · exact kin.frames t
    · intro i t pid j u first waits second zombie child
      obtain ⟨asleep, nohang, untraced, inside⟩ := waits
      have inside : Function.update k.frame k.fresh .user t = .waitpid pid nohang untraced := inside
      have apart : t ≠ k.fresh := by
        rintro rfl
        rw [Function.update_self] at inside
        cases inside
      have born : u ≠ k.fresh := dead u zombie
      have first : k.task i = some t := (slots i t first).resolve_left fun same => apart same.2
      have second : k.task j = some u := (slots j u second).resolve_left fun same => born same.2
      rw [Function.update_of_ne apart] at inside
      obtain ⟨distinct, father, selected⟩ := child
      unfold Zombie at zombie
      unfold Selected at selected
      rw [other t apart] at asleep father selected ⊢
      rw [other u born] at zombie father selected
      exact kin.told i t pid j u first ⟨asleep, nohang, untraced, inside⟩ second zombie ⟨distinct, father, selected⟩

/-- Some tasks have got signals. -/
structure Louder (k k' : Kernel Queue) : Prop where
  alike : Alike k k'
  father : ∀ t, (k'.info t).father = (k.info t).father
  pgrp : ∀ t, (k'.info t).pgrp = (k.info t).pgrp
  blocks : ∀ t, (k'.info t).blocksChld = (k.info t).blocksChld
  chld : ∀ t, (k.info t).chld = true → (k'.info t).chld = true

namespace Louder

theorem refl : Louder k k := ⟨.refl, fun _ => rfl, fun _ => rfl, fun _ => rfl, fun _ => id⟩

theorem trans {k₁ : Kernel Queue} (first : Louder k k₁) (second : Louder k₁ k') : Louder k k' where
  alike := first.alike.trans second.alike
  father t := (second.father t).trans (first.father t)
  pgrp t := (second.pgrp t).trans (first.pgrp t)
  blocks t := (second.blocks t).trans (first.blocks t)
  chld t pending := second.chld t (first.chld t pending)

theorem send (t : Task) (sig : Nat) : Louder k (k.change t fun p => p.send sig) := by
  have each (P : TaskStruct → TaskStruct → Prop) (own : ∀ q : TaskStruct, P (q.send sig) q) (same : ∀ q, P q q) (u : Task) :
      P ((k.change t fun p => p.send sig).info u) (k.info u) := by
    have set : (k.change t fun p => p.send sig).info u = Function.update k.info t ((k.info t).send sig) u := rfl
    rw [set, Function.update_apply]
    split
    · rename_i here
      rw [here]
      exact own _
    · exact same _
  constructor
  · exact .change rfl rfl
  · exact each (fun q r => q.father = r.father) (fun _ => rfl) fun _ => rfl
  · exact each (fun q r => q.pgrp = r.pgrp) (fun _ => rfl) fun _ => rfl
  · exact each (fun q r => q.blocksChld = r.blocksChld) (fun _ => rfl) fun _ => rfl
  · exact each (fun q r => r.chld = true → q.chld = true) (fun _ => TaskStruct.send_chld sig) fun _ => id

theorem sendChild (o : Option Task) : Louder k (k.sendChild o) := by
  cases o with
  | none => exact refl
  | some t => exact send t SIGCHLD

theorem killSession : Louder k k.killSession := by
  have fold (is : List (Fin 64)) (f : Kernel Queue → Fin 64 → Kernel Queue) (each : ∀ k i, Louder k (f k i)) :
      ∀ k, Louder k (is.foldl f k) := by
    induction is with
    | nil => exact fun _ => refl
    | cons i is ih => exact fun k => (each k i).trans (ih (f k i))
  unfold Kernel.killSession
  apply fold
  intro k i
  split
  · exact refl
  · split
    · exact send _ SIGHUP
    · exact refl

end Louder

theorem sendChild_chld (t : Task) : ((k.sendChild (some t)).info t).chld = true := by
  have self : (k.sendChild (some t)).info t = (k.info t).send SIGCHLD := Function.update_self _ _ _
  rw [self]
  exact TaskStruct.sent_chld

/-- A child of `current` has become a child of task 1, and `task[1]` hears of it if the child is dead. -/
def Adopted (k k' : Kernel Queue) (t : Task) : Prop :=
  (k.info t).father = (k.info k.current).pid ∧ (k'.info t).father = 1 ∧
    (k.Zombie t → ∀ v, k.task 1 = some v → (k'.info v).chld = true)

/-- The loop of `do_exit` over some slots. -/
structure Orphaned (k k' : Kernel Queue) (is : List (Fin 64)) : Prop where
  alike : Alike k k'
  pgrp : ∀ t, (k'.info t).pgrp = (k.info t).pgrp
  blocks : ∀ t, (k'.info t).blocksChld = (k.info t).blocksChld
  chld : ∀ t, (k.info t).chld = true → (k'.info t).chld = true
  father : ∀ t, (k'.info t).father = (k.info t).father ∨ k.Adopted k' t
  all : ∀ i ∈ is, ∀ t, k.task i = some t → (k.info t).father = (k.info k.current).pid → k.Adopted k' t

theorem Adopted.louder {k₁ : Kernel Queue} {t : Task} (adopted : k.Adopted k₁ t) (louder : Louder k₁ k') :
    k.Adopted k' t := by
  obtain ⟨child, one, told⟩ := adopted
  exact ⟨child, (louder.father t).trans one, fun dead v first => louder.chld v (told dead v first)⟩

theorem Orphaned.louder {k₁ : Kernel Queue} {is : List (Fin 64)} (orphaned : Orphaned k k₁ is) (louder : Louder k₁ k') :
    Orphaned k k' is where
  alike := orphaned.alike.trans louder.alike
  pgrp t := (louder.pgrp t).trans (orphaned.pgrp t)
  blocks t := (louder.blocks t).trans (orphaned.blocks t)
  chld t pending := louder.chld t (orphaned.chld t pending)
  father t := by
    rcases orphaned.father t with same | adopted
    · exact .inl ((louder.father t).trans same)
    · exact .inr (adopted.louder louder)
  all i member t there child := (orphaned.all i member t there child).louder louder

theorem Orphaned.of_louder (louder : Louder k k') : Orphaned k k' [] where
  alike := louder.alike
  pgrp := louder.pgrp
  blocks := louder.blocks
  chld := louder.chld
  father t := .inl (louder.father t)
  all _ member := (List.not_mem_nil member).elim

theorem Orphaned.one (i : Fin 64) : Orphaned k (k.orphan i) [i] := by
  have none (same : k.orphan i = k) (apart : ∀ t, k.task i = some t → (k.info t).father ≠ (k.info k.current).pid) :
      Orphaned k (k.orphan i) [i] := by
    rw [same]
    refine { Orphaned.of_louder Louder.refl with all := ?_ }
    intro j member t there child
    cases List.mem_singleton.mp member
    exact absurd child (apart t there)
  cases there : k.task i with
  | none =>
    apply none
    · unfold orphan
      rw [there]
    · intro t here
      cases there.symm.trans here
  | some t =>
    by_cases child : (k.info t).father = (k.info k.current).pid
    · have same : k.orphan i =
          if (k.info t).state = .zombie then (k.change t fun p => { p with father := 1 }).sendChild (k.task 1)
          else k.change t fun p => { p with father := 1 } := by
        have alike : Alike k (k.change t fun p => { p with father := 1 }) := .change rfl rfl
        have state : ((k.change t fun p => { p with father := 1 }).info t).state = (k.info t).state := alike.state t
        unfold orphan
        rw [there]
        dsimp only
        rw [if_pos child, state]
        rfl
      let k₁ := k.change t fun p => { p with father := 1 }
      have self : k₁.info t = { k.info t with father := 1 } := Function.update_self _ _ _
      have other (u : Task) (apart : u ≠ t) : k₁.info u = k.info u := Function.update_of_ne apart _ _
      have each (P : TaskStruct → TaskStruct → Prop) (own : ∀ q : TaskStruct, P { q with father := 1 } q)
          (same : ∀ q, P q q) (u : Task) : P (k₁.info u) (k.info u) := by
        by_cases here : u = t
        · rw [here, self]
          exact own _
        · rw [other u here]
          exact same _
      have finish (k' : Kernel Queue) (louder : Louder k₁ k')
          (told : k.Zombie t → ∀ v, k.task 1 = some v → (k'.info v).chld = true) : Orphaned k k' [i] := by
        have adopted : k.Adopted k' t := ⟨child, (louder.father t).trans (congrArg TaskStruct.father self), told⟩
        have alike : Alike k k₁ := .change rfl rfl
        constructor
        · exact alike.trans louder.alike
        · exact fun u => (louder.pgrp u).trans (each (fun q r => q.pgrp = r.pgrp) (fun _ => rfl) (fun _ => rfl) u)
        · intro u
          exact (louder.blocks u).trans (each (fun q r => q.blocksChld = r.blocksChld) (fun _ => rfl) (fun _ => rfl) u)
        · intro u pending
          exact louder.chld u (each (fun q r => r.chld = true → q.chld = true) (fun _ => id) (fun _ => id) u pending)
        · intro u
          by_cases here : u = t
          · exact .inr (here ▸ adopted)
          · exact .inl ((louder.father u).trans (congrArg TaskStruct.father (other u here)))
        · intro j member u here _
          cases List.mem_singleton.mp member
          cases there.symm.trans here
          exact adopted
      rw [same]
      split
      · apply finish _ (Louder.sendChild _)
        intro _ v first
        rw [first]
        exact sendChild_chld v
      · rename_i alive
        exact finish _ .refl fun dead => absurd dead alive
    · apply none
      · unfold orphan
        rw [there]
        exact if_neg child
      · intro u here
        cases there.symm.trans here
        exact child

theorem Orphaned.cons {k₁ : Kernel Queue} {i : Fin 64} {is : List (Fin 64)} (first : Orphaned k k₁ [i])
    (rest : Orphaned k₁ k' is) : Orphaned k k' (i :: is) := by
  have current : k₁.current = k.current := first.alike.current
  have pid : (k₁.info k₁.current).pid = (k.info k.current).pid := by
    rw [current]
    exact congrFun (congrArg Lives.pid first.alike.lives) k.current
  have later (t : Task) (same : (k₁.info t).father = (k.info t).father) (adopted : k₁.Adopted k' t) : k.Adopted k' t := by
    obtain ⟨child, one, told⟩ := adopted
    refine ⟨same.symm.trans (child.trans pid), one, fun dead v there => told ?_ v ?_⟩
    · exact (first.alike.state t).trans dead
    · rw [first.alike.task]
      exact there
  have earlier (t : Task) (adopted : k.Adopted k₁ t) : k.Adopted k' t := by
    obtain ⟨child, one, told⟩ := adopted
    refine ⟨child, ?_, fun dead v there => rest.chld v (told dead v there)⟩
    rcases rest.father t with same | again
    · exact same.trans one
    · exact again.2.1
  constructor
  · exact first.alike.trans rest.alike
  · exact fun t => (rest.pgrp t).trans (first.pgrp t)
  · exact fun t => (rest.blocks t).trans (first.blocks t)
  · exact fun t pending => rest.chld t (first.chld t pending)
  · intro t
    rcases first.father t with same | adopted
    · exact (rest.father t).imp (fun again => again.trans same) (later t same)
    · exact .inr (earlier t adopted)
  · intro j member t there child
    rcases first.father t with same | adopted
    · rcases List.mem_cons.mp member with rfl | member
      · exact earlier t (first.all j (List.mem_singleton_self j) t there child)
      · apply later t same
        apply rest.all j member t
        · rw [first.alike.task]
          exact there
        · rw [same, pid]
          exact child
    · exact earlier t adopted

theorem orphans (is : List (Fin 64)) : Orphaned k (is.foldl orphan k) is := by
  induction is generalizing k with
  | nil => exact .of_louder .refl
  | cons i is ih => exact (Orphaned.one i).cons ih

theorem tellFather_cases (pid : BitVec 32) :
    (∃ i v, k.task i = some v ∧ (k.info v).pid = pid ∧ pid ≠ 0 ∧
      k.tellFather pid = { k.sendChild (some v) with calling := true }) ∨
    ((∀ i v, k.task i = some v → (k.info v).pid = pid → pid = 0) ∧ k.tellFather pid = k.release k.current) := by
  unfold tellFather
  split
  · rename_i i found
    have there : ((k.task i).any fun t => decide ((k.info t).pid = pid)) = true :=
      List.find?_some (p := fun i => (k.task i).any fun t => decide ((k.info t).pid = pid)) found
    obtain ⟨v, here, same⟩ := (Option.any_eq_true _ _).mp there
    split
    · rename_i other
      rw [here]
      exact .inl ⟨i, v, here, of_decide_eq_true same, other, rfl⟩
    · rename_i idle
      exact .inr ⟨fun _ _ _ _ => not_not.mp idle, rfl⟩
  · rename_i none
    refine .inr ⟨fun i v there same => ?_, rfl⟩
    have absent := List.find?_eq_none.mp none i (List.mem_finRange i)
    rw [there] at absent
    exact absurd (decide_eq_true same) absent

structure Died (k k' : Kernel Queue) : Prop where
  task : k'.task = k.task
  frame : k'.frame = k.frame
  current : k'.current = k.current
  pid : ∀ t, (k'.info t).pid = (k.info t).pid
  pgrp : ∀ t, (k'.info t).pgrp = (k.info t).pgrp
  blocks : ∀ t, (k'.info t).blocksChld = (k.info t).blocksChld
  chld : ∀ t, (k.info t).chld = true → (k'.info t).chld = true
  died : k'.Zombie k.current
  state : ∀ t, t ≠ k.current → (k'.info t).state = (k.info t).state
  father : ∀ t, (k'.info t).father = (k.info t).father ∨ k.Adopted k' t
  all : ∀ i t, k.task i = some t → (k.info t).father = (k.info k.current).pid → k.Adopted k' t

theorem Died.louder {k₁ : Kernel Queue} (died : Died k k₁) (louder : Louder k₁ k') : Died k k' where
  task := louder.alike.task.trans died.task
  frame := louder.alike.frame.trans died.frame
  current := louder.alike.current.trans died.current
  pid t := (congrFun (congrArg Lives.pid louder.alike.lives) t).trans (died.pid t)
  pgrp t := (louder.pgrp t).trans (died.pgrp t)
  blocks t := (louder.blocks t).trans (died.blocks t)
  chld t pending := louder.chld t (died.chld t pending)
  died := (louder.alike.state _).trans died.died
  state t apart := (louder.alike.state t).trans (died.state t apart)
  father t := (died.father t).imp (fun same => (louder.father t).trans same) fun adopted => adopted.louder louder
  all i t there child := (died.all i t there child).louder louder

theorem Orphaned.die {k₁ : Kernel Queue} (orphaned : Orphaned k k₁ slots) :
    Died k ((k₁.setState k₁.current .zombie).fprintk (k₁.info k₁.current).pid .exit) := by
  have current : k₁.current = k.current := orphaned.alike.current
  rw [current]
  let k' := (k₁.setState k.current .zombie).fprintk (k₁.info k.current).pid .exit
  have self : k'.info k.current = { k₁.info k.current with state := .zombie } := Function.update_self _ _ _
  have other (t : Task) (apart : t ≠ k.current) : k'.info t = k₁.info t := Function.update_of_ne apart _ _
  have each (P : TaskStruct → TaskStruct → Prop) (own : ∀ q : TaskStruct, P { q with state := .zombie } q)
      (same : ∀ q, P q q) (u : Task) : P (k'.info u) (k₁.info u) := by
    by_cases here : u = k.current
    · rw [here, self]
      exact own _
    · rw [other u here]
      exact same _
  have chld : ∀ t, (k₁.info t).chld = true → (k'.info t).chld = true :=
    each (fun q r => r.chld = true → q.chld = true) (fun _ => id) fun _ => id
  have father : ∀ t, (k'.info t).father = (k₁.info t).father := each (fun q r => q.father = r.father) (fun _ => rfl) fun _ => rfl
  have adopted (t : Task) (before : k.Adopted k₁ t) : k.Adopted k' t := by
    obtain ⟨child, one, told⟩ := before
    exact ⟨child, (father t).trans one, fun dead v first => chld v (told dead v first)⟩
  constructor
  · exact orphaned.alike.task
  · exact orphaned.alike.frame
  · exact current
  · intro t
    have same := each (fun q r => q.pid = r.pid) (fun _ => rfl) (fun _ => rfl) t
    exact same.trans (congrFun (congrArg Lives.pid orphaned.alike.lives) t)
  · exact fun t => (each (fun q r => q.pgrp = r.pgrp) (fun _ => rfl) (fun _ => rfl) t).trans (orphaned.pgrp t)
  · intro t
    have same := each (fun q r => q.blocksChld = r.blocksChld) (fun _ => rfl) (fun _ => rfl) t
    exact same.trans (orphaned.blocks t)
  · exact fun t pending => chld t (orphaned.chld t pending)
  · exact congrArg TaskStruct.state self
  · exact fun t apart => (congrArg TaskStruct.state (other t apart)).trans (orphaned.alike.state t)
  · exact fun t => (orphaned.father t).imp (fun same => (father t).trans same) (adopted t)
  · exact fun i t there child => adopted t (orphaned.all i (List.mem_finRange i) t there child)

theorem doExit_cases (k : Kernel Queue) :
    ∃ k', Died k k' ∧
      ((∃ i v, k.task i = some v ∧ (k.info v).pid = (k'.info k.current).father ∧ (k'.info k.current).father ≠ 0 ∧
        (k'.info v).chld = true ∧ k.doExit = { k' with calling := true }) ∨ k.doExit = k'.release k.current) := by
  have orphaned := orphans (k := k) slots
  have session : ∃ k₁, Orphaned k k₁ slots ∧
      k.doExit = ((k₁.setState k₁.current .zombie).fprintk (k₁.info k₁.current).pid .exit).tellFather
        (k₁.info k₁.current).father := by
    unfold doExit
    generalize slots.foldl orphan k = k₁ at orphaned
    dsimp only
    split
    · exact ⟨_, orphaned.louder .killSession, congrArg _ (setState_father _ _ _)⟩
    · exact ⟨_, orphaned, congrArg _ (setState_father _ _ _)⟩
  obtain ⟨k₁, orphaned, same⟩ := session
  have died := orphaned.die
  have father := setState_father (k := k₁) k₁.current k₁.current .zombie
  rw [orphaned.alike.current] at same died father
  generalize known : (k₁.setState k.current .zombie).fprintk (k₁.info k.current).pid .exit = k₂ at same died
  have father : (k₂.info k.current).father = (k₁.info k.current).father := by
    rw [← known]
    exact father
  rcases tellFather_cases (k := k₂) (k₁.info k.current).father with ⟨i, v, there, is, some, sent⟩ | ⟨_, released⟩
  · have louder : Louder k₂ (k₂.sendChild (.some v)) := .sendChild _
    refine ⟨k₂.sendChild (.some v), died.louder louder, .inl ⟨i, v, ?_, ?_, ?_, sendChild_chld v, same.trans sent⟩⟩
    · rw [← died.task]
      exact there
    · rw [louder.father, father, ← is]
      exact (died.pid v).symm
    · rw [louder.father, father]
      exact some
  · refine ⟨k₂, died, .inr ?_⟩
    rw [same, released, died.current]

theorem Kin.died {k₁ : Kernel Queue} (kin : k.Kin) (died : Died k k₁) (heard : k.Heard .exit) (user : k.frame k.current = .user)
    (here : ∃ i, k.task i = some k.current) (other : k.current ≠ initTask) (task : Fin 64 → Option Task)
    (left : ∀ i t, task i = some t → k.task i = some t)
    (kept : ∀ i t, k.task i = some t → t ≠ k.current → task i = some t)
    (told : (∃ i, task i = some k.current) → ∃ i v, k.task i = some v ∧ (k.info v).pid = (k₁.info k.current).father ∧
      (k₁.info k.current).father ≠ 0 ∧ (k₁.info v).chld = true) : ({ k₁ with task := task } : Kernel Queue).Kin where
  pids i j t u first second same :=
    kin.pids i j t u (left i t first) (left j u second) ((died.pid t).symm.trans (same.trans (died.pid u)))
  fathers i t there idle := by
    rcases died.father t with same | adopted
    · rcases kin.fathers i t (left i t there) idle with one | ⟨j, v, mine, apart, alive, is⟩
      · exact .inl (same.trans one)
      · by_cases dying : v = k.current
        · subst dying
          exact .inl (died.all i t (left i t there) is.symm).2.1
        · refine .inr ⟨j, v, kept j v mine dying, apart, fun dead => alive ((died.state v dying).symm.trans dead), ?_⟩
          exact (died.pid v).trans (is.trans same.symm)
    · exact .inl adopted.2.1
  known i u there dead := by
    by_cases dying : u = k.current
    · subst dying
      obtain ⟨_, _, _, _, some, _⟩ := told ⟨i, there⟩
      exact some
    · rcases died.father u with same | adopted
      · exact fun zero => kin.known i u (left i u there) ((died.state u dying).symm.trans dead) (same.symm.trans zero)
      · exact fun zero => absurd (adopted.2.1.symm.trans zero) (by decide)
  frames t := by
    rw [died.frame]
    exact kin.frames t
  told i t pid j u first waits second dead child := by
    obtain ⟨asleep, nohang, untraced, inside⟩ := waits
    obtain ⟨apart, father, selected⟩ := child
    have first := left i t first
    have inside : k.frame t = .waitpid pid nohang untraced := died.frame ▸ inside
    have alive : t ≠ k.current := by
      rintro rfl
      cases user.symm.trans inside
    have waits : k.Waiting t pid := ⟨(died.state t alive).symm.trans asleep, nohang, untraced, inside⟩
    have father : (k₁.info u).father = (k.info t).pid := father.trans (died.pid t)
    have selected : k.Selected t pid u := by
      have after : k₁.Selected t pid u := selected
      unfold Selected at after ⊢
      rw [died.pid, died.pgrp, died.pgrp] at after
      exact after
    by_cases dying : u = k.current
    · subst dying
      obtain ⟨i', v, mine, is, _, chld⟩ := told ⟨j, second⟩
      cases kin.pids i' i v t mine first (is.trans father)
      refine ⟨chld, (died.blocks t).trans ((heard i t pid first waits).1 ⟨apart, ?_, selected⟩)⟩
      rcases died.father k.current with same | ⟨own, one, _⟩
      · exact same.symm.trans father
      · obtain ⟨i₀, here⟩ := here
        rcases kin.fathers i₀ k.current here other with orphan | ⟨j', w, there, distinct, _, same⟩
        · have same : (k.info t).pid = (k.info k.current).pid :=
            father.symm.trans (one.trans (orphan.symm.trans own))
          exact absurd (kin.pids i i₀ t k.current first here same) alive
        · exact absurd (kin.pids j' i₀ w k.current there here (same.trans own)) distinct
    · have dead : k.Zombie u := (died.state u dying).symm.trans dead
      rcases died.father u with same | ⟨child, one, sent⟩
      · obtain ⟨pending, unblocked⟩ :=
          kin.told i t pid j u first waits (left j u second) dead ⟨apart, same.symm.trans father, selected⟩
        exact ⟨died.chld t pending, (died.blocks t).trans unblocked⟩
      · obtain ⟨rfl, unblocked⟩ :=
          (heard i t pid first waits).2 (father.symm.trans one) j u (left j u second) dead child selected
        exact ⟨sent dead t first, (died.blocks t).trans unblocked⟩

theorem Kin.exit (kin : k.Kin) (heard : k.Heard .exit) (user : k.frame k.current = .user)
    (here : ∃ i, k.task i = some k.current) (shape : k.Shape) (other : k.current ≠ initTask) : k.doExit.Kin := by
  obtain ⟨k₁, died, found | released⟩ := doExit_cases k
  · obtain ⟨i, v, there, is, some, chld, same⟩ := found
    have told := kin.died died heard user here other k.task (fun _ _ => id) (fun _ _ there _ => there)
      fun _ => ⟨i, v, there, is, some, chld⟩
    rw [same]
    exact told.beside died.task rfl fun _ => .inl rfl
  · have cleared (i : Fin 64) (t : Task) (there : k₁.clear k.current i = some t) : k.task i = some t ∧ t ≠ k.current := by
      unfold clear at there
      split at there
      · cases there
      · rename_i absent
        rw [died.task] at there absent
        refine ⟨there, ?_⟩
        rintro rfl
        have first : i = 0 := by
          by_contra other
          exact absent ⟨other, there⟩
        rw [first] at there
        exact other (Option.some.inj (shape.idle.symm.trans there)).symm
    have gone := kin.died died heard user here other (k₁.clear k.current) (fun i t there => (cleared i t there).1)
      (fun i t there apart => by
        unfold clear
        rw [died.task, if_neg]
        · exact there
        · rintro ⟨_, mine⟩
          cases there.symm.trans mine
          exact apart rfl)
      fun ⟨i, there⟩ => absurd rfl (cleared i k.current there).2
    rw [released]
    exact gone.beside rfl rfl fun _ => .inl rfl

/-- The families are in order, and `current` is in the table until it calls `schedule`. -/
structure Family (k : Kernel Queue) : Prop where
  shape : k.Shape
  kin : k.Kin
  here : k.calling = false → ∃ i, k.task i = some k.current

theorem sysWaitpid_current (pid : BitVec 32) (nohang untraced : Bool) :
    (k.sysWaitpid pid nohang untraced).current = k.current ∧
      ((k.sysWaitpid pid nohang untraced).calling = false → k.calling = false) := by
  rcases sysWaitpid_cases (k := k) pid nohang untraced with same | ⟨t, _, same⟩ | same
  · rw [same]
    exact ⟨rfl, id⟩
  · rw [same]
    exact ⟨rfl, nofun⟩
  · rw [same]
    exact ⟨rfl, nofun⟩

theorem Started.family (started : k.Started) : Family k := by
  have only (i : Fin 64) (t : Task) (there : k.task i = some t) : t = initTask := by
    rw [started.task] at there
    split at there
    · exact (Option.some.inj there).symm
    · cases there
  have alive (i : Fin 64) (t : Task) (there : k.task i = some t) : ¬ k.Zombie t := by
    rw [only i t there]
    exact started.shape.alive
  refine ⟨started.shape, ?_, fun _ => ⟨0, ?_⟩⟩
  · constructor
    · exact fun i j t u first second _ => (only i t first).trans (only j u second).symm
    · exact fun i t there other => absurd (only i t there) other
    · exact fun i u there dead => absurd dead (alive i u there)
    · exact fun t => .inl (started.frame t)
    · exact fun i t pid j u _ _ second dead => absurd dead (alive j u second)
  · rw [started.current]
    exact started.shape.idle

theorem Family.fathered (family : Family k) : k.Fathered := by
  intro i u there dead
  have other : u ≠ initTask := by
    rintro rfl
    exact family.shape.alive dead
  rcases family.kin.fathers i u there other with one | ⟨j, v, here, _, _, is⟩
  · exact .inl one
  · exact .inr ⟨j, v, here, is⟩

theorem checkSignals_task (i : Fin 64) : (k.checkSignals i).task = k.task := by
  cases there : k.task i with
  | none =>
    unfold checkSignals
    rw [there]
  | some t => rcases checkSignals_cases there with ⟨_, same⟩ | ⟨_, same⟩ <;> rw [same] <;> rfl

theorem checkSignals_other {i : Fin 64} {t : Task} (apart : k.task i ≠ some t) : (k.checkSignals i).info t = k.info t := by
  cases there : k.task i with
  | none =>
    unfold checkSignals
    rw [there]
  | some u =>
    have other : t ≠ u := fun same => apart (same ▸ there)
    rcases checkSignals_cases there with ⟨_, same⟩ | ⟨_, same⟩
    · rw [same]
      exact (Function.update_of_ne other _ _).trans (Function.update_of_ne other _ _)
    · rw [same]
      exact Function.update_of_ne other _ _

theorem scan_settled (is : List (Fin 64)) :
    (is.foldl checkSignals k).task = k.task ∧ ∀ i ∈ is, ∀ t, k.task i = some t →
      ((is.foldl checkSignals k).info t).state = .interruptible → ¬ ((is.foldl checkSignals k).info t).Signalled := by
  induction is using List.reverseRecOn with
  | nil => exact ⟨rfl, fun _ member => (List.not_mem_nil member).elim⟩
  | append_singleton is j ih =>
    obtain ⟨task, settled⟩ := ih
    rw [List.foldl_append]
    generalize is.foldl checkSignals k = k₁ at task settled
    refine ⟨(checkSignals_task j).trans task, fun i member t there => ?_⟩
    show ((k₁.checkSignals j).info t).state = _ → ¬ ((k₁.checkSignals j).info t).Signalled
    by_cases here : k₁.task j = some t
    · rcases checkSignals_cases here with ⟨_, same⟩ | ⟨waits, same⟩
      · rw [same]
        intro asleep
        have running : (((k₁.change t fun p => p.checkAlarm k₁.jiffies).wake t).info t).state = .running :=
          setState_state _ _
        cases running.symm.trans asleep
      · have self : (k₁.change t fun p => p.checkAlarm k₁.jiffies).info t = (k₁.info t).checkAlarm k₁.jiffies :=
          Function.update_self _ _ _
        rw [same, self]
        exact fun asleep signalled => waits ⟨signalled, (checkAlarm_state _ _).symm.trans asleep⟩
    · rw [checkSignals_other here]
      rcases List.mem_append.mp member with before | last
      · exact settled i before t there
      · cases List.mem_singleton.mp last
        exact absurd (task ▸ there) here

variable [DecidableEq Queue] {e : Event Queue}

theorem Kin.step (kin : k.Kin) (family : Family k) (scope : k.Scope e) (heard : k.Heard e) (step : Step k e k') :
    k'.Kin := by
  cases step with
  | pause ready =>
    have alive := family.shape.current_lives ready.1
    have slept : (k.setState k.current .interruptible).Kin := kin.quiet (.own ready.2 alive rfl rfl nofun)
    unfold sysPause
    split
    · refine slept.beside rfl rfl fun t => ?_
      by_cases mine : t = k.current
      · subst mine
        exact .inr (Function.update_self _ _ _)
      · exact .inl (Function.update_of_ne mine _ _)
    · exact slept.beside rfl rfl fun _ => .inl rfl
  | sleepOn p ready => exact scope.elim
  | interruptibleSleepOn p ready other => exact scope.elim
  | wakeUp p => exact scope.elim
  | resume back => exact kin.resume family.shape back
  | schedule rounds _ calling found => exact kin.schedule found
  | fork rounds memory _ ready found =>
    exact kin.fork family.shape (family.here ready.1) (family.shape.current_lives ready.1) found
  | exit ready other => exact kin.exit heard ready.2 (family.here ready.1) family.shape other
  | waitpid pid nohang untraced ready =>
    exact kin.user.sysWaitpid family.shape.idle family.shape.alive (family.shape.current_lives ready.1) pid nohang untraced
  | timer user mode =>
    have ticked : ({ k with jiffies := k.jiffies + 1 } : Kernel Queue).Kin := kin.beside rfl rfl fun _ => .inl rfl
    have count (counter : BitVec 32) : (Kernel.change { k with jiffies := k.jiffies + 1 } k.current fun p =>
        { p with counter := counter }).Kin :=
      ticked.quiet (.aside (fun _ => rfl) (fun _ => rfl) (fun _ => rfl) (fun _ => rfl) (fun _ => rfl) fun _ => rfl)
    unfold doTimer
    dsimp only
    split
    · exact count _
    · exact (count 0).beside rfl rfl fun _ => .inl rfl
  | sendSig t sig i there valid => exact kin.quiet (.send t sig)
  | alarm seconds ready =>
    exact kin.quiet (.aside (fun _ => rfl) (fun _ => rfl) (fun _ => rfl) (fun _ => rfl) (fun _ => rfl) fun _ => rfl)
  | nice increment ready =>
    exact kin.quiet (.aside (fun _ => rfl) (fun _ => rfl) (fun _ => rfl) (fun _ => rfl) (fun _ => rfl) fun _ => rfl)
  | elsewhere t signal blocked pgrp session leader i there =>
    obtain ⟨rfl, ready⟩ := scope
    have alive := family.shape.current_lives ready.1
    exact kin.quiet (.own ready.2 alive rfl rfl alive)

theorem Step.current (kin : k.Kin) (scope : k.Scope e) (step : Step k e k') (outside : ∀ rounds, e ≠ .schedule rounds) :
    k'.calling = false → k.calling = false ∧ k'.current = k.current := by
  intro back
  cases step with
  | pause ready => exact ⟨ready.1, by unfold sysPause; split <;> rfl⟩
  | sleepOn p ready => exact scope.elim
  | interruptibleSleepOn p ready other => exact scope.elim
  | wakeUp p => exact scope.elim
  | resume before =>
    refine ⟨before, ?_⟩
    unfold Kernel.resume
    rcases kin.frames k.current with user | ⟨pid, nohang, untraced, inside⟩
    · rw [user]
    · rw [inside]
      dsimp only
      unfold waitpidResume
      dsimp only
      split
      · exact (sysWaitpid_current pid nohang untraced).1
      · rfl
  | schedule rounds _ calling found => exact absurd rfl (outside rounds)
  | fork rounds memory _ ready found =>
    obtain ⟨pid, rfl | ⟨nr, _, _, _, _, rfl⟩⟩ := sysFork_cases found
    · exact ⟨ready.1, rfl⟩
    · exact ⟨ready.1, rfl⟩
  | exit ready other =>
    obtain ⟨k₁, _, found | released⟩ := doExit_cases k
    · obtain ⟨_, _, _, _, _, _, same⟩ := found
      rw [same] at back
      cases back
    · rw [released] at back
      cases back
  | waitpid pid nohang untraced ready => exact ⟨ready.1, (sysWaitpid_current pid nohang untraced).1⟩
  | timer user mode =>
    unfold doTimer at back ⊢
    dsimp only at back ⊢
    split at back
    · rename_i more
      rw [if_pos more]
      exact ⟨back, rfl⟩
    · rename_i last
      rw [if_neg last]
      exact ⟨(Bool.or_eq_false_iff.mp back).1, rfl⟩
  | sendSig t sig i there valid => exact ⟨back, rfl⟩
  | alarm seconds ready => exact ⟨back, rfl⟩
  | nice increment ready => exact ⟨back, rfl⟩
  | elsewhere t signal blocked pgrp session leader i there => exact ⟨back, rfl⟩

theorem Family.step (family : Family k) (scope : k.Scope e) (heard : k.Heard e) (step : Step k e k') : Family k' := by
  have shape := family.shape.step step
  refine ⟨shape, family.kin.step family scope heard step, fun back => ?_⟩
  by_cases scheduled : ∃ rounds, e = .schedule rounds
  · obtain ⟨rounds, rfl⟩ := scheduled
    cases step with
    | schedule _ _ _ found =>
      obtain ⟨k₁, i, t, _, there, rfl⟩ := schedule_cases found
      have turned : (k₁.dispatch t).task = k₁.task ∧ (k₁.dispatch t).current = t := by
        unfold dispatch
        split
        · exact ⟨rfl, Eq.symm ‹_›⟩
        · split <;> exact ⟨rfl, rfl⟩
      rw [turned.1, turned.2]
      exact ⟨i, there⟩
  · obtain ⟨before, same⟩ := step.current family.kin scope (fun rounds is => scheduled ⟨rounds, is⟩) back
    obtain ⟨i, there⟩ := family.here before
    rw [same]
    rcases (Turn.of_step family.shape step).task i with kept | ⟨_, _, t, mine, dead⟩ | ⟨_, free, _⟩
    · exact ⟨i, kept.trans there⟩
    · cases there.symm.trans mine
      exact absurd (same ▸ dead) (shape.current_lives back)
    · cases free.symm.trans there

theorem Family.scanned (family : Family k) : ¬ (others.foldl checkSignals k).Missed := by
  rintro ⟨i, t, pid, j, u, first, waits, second, dead, child⟩
  obtain ⟨task, settled⟩ := scan_settled (k := k) others
  have kin := family.kin.scan
  obtain ⟨pending, unblocked⟩ := kin.told i t pid j u first waits second dead child
  by_cases idle : i = 0
  · subst idle
    have scanned := (family.shape.scan 0).1
    rw [task, family.shape.idle] at first
    cases first
    apply kin.known j u second dead
    rw [child.2.1, scanned.idle]
    exact family.shape.pid
  · rw [task] at first
    exact settled i (mem_others i idle) t first waits.1 (TaskStruct.signalled_chld pending unblocked)

end Kernel

/-- The kernel as far as its tasks fork, exit and wait for each other. -/
def families (Queue : Type) [DecidableEq Queue] : Machine (Kernel Queue) (Event Queue) :=
  (kernel Queue).restrict Kernel.Scope

instance [DecidableEq Queue] (k : Kernel Queue) (e : Event Queue) : Decidable (k.Scope e) :=
  match e with
  | .sleepOn _ | .interruptibleSleepOn _ | .wakeUp _ => inferInstanceAs (Decidable False)
  | .elsewhere t _ _ _ _ _ => inferInstanceAs (Decidable (t = k.current ∧ k.Ready))
  | .pause | .resume | .schedule _ | .fork _ _ | .exit | .waitpid _ _ _ | .timer _ | .sendSig _ _ | .alarm _
  | .nice _ => inferInstanceAs (Decidable True)

def performScope [DecidableEq Queue] (k : Kernel Queue) (e : Event Queue) : Option (Kernel Queue) :=
  if k.Scope e then k.perform e else none

theorem performScope_step [DecidableEq Queue] {k k' : Kernel Queue} {e : Event Queue} (done : performScope k e = some k') :
    (families Queue).step k e k' := by
  obtain ⟨scope, done⟩ := Option.ite_none_right_eq_some.mp done
  exact ⟨scope, Kernel.perform_step done⟩

/-- Where every exit is heard, no father is left asleep, and every zombie has a father. -/
theorem exit_not_missed [DecidableEq Queue] {k : Kernel Queue}
    (reached : ((families Queue).restrict Kernel.Heard).Reaches k) :
    (k.calling = true → ¬ (others.foldl Kernel.checkSignals k).Missed) ∧ k.Fathered := by
  have family : Kernel.Family k := by
    apply reached.invariant
    · exact fun _ started => started.family
    · exact fun _ _ _ family step => family.step step.2.1 step.1 step.2.2
  exact ⟨fun _ => family.scanned, family.fathered⟩

theorem heard_exit {k : Kernel Queue} (unblocked : ∀ i, ((k.task i).all fun t =>
      !(k.info t).blocksChld && ((k.info t).pid != 1 || i == 1)) = true) : k.Heard .exit := by
  intro i t pid there _
  have known := unblocked i
  rw [there, Option.all_some, Bool.and_eq_true, Bool.not_eq_true', Bool.or_eq_true, bne_iff_ne, beq_iff_eq] at known
  exact ⟨fun _ => known.1, fun one _ _ _ _ _ _ => ⟨known.2.resolve_left (not_not.mpr one), known.1⟩⟩

/-- Task 1 waits for task 2, which exits. -/
theorem exit_not_missed_once : ∃ k : Kernel Empty, ((families Empty).restrict Kernel.Heard).Reaches k ∧
    k.calling = true ∧ (k.info 2).state = .zombie ∧
      (k.calling = true → ¬ (others.foldl Kernel.checkSignals k).Missed) ∧ k.Fathered := by
  have next {k k' : Kernel Empty} {e : Event Empty} (reached : ((families Empty).restrict Kernel.Heard).Reaches k)
      (scope : k.Scope e) (heard : k.Heard e) (done : k.perform e = some k') :
      ((families Empty).restrict Kernel.Heard).Reaches k' := reached.step ⟨heard, scope, Kernel.perform_step done⟩
  have started : ((families Empty).restrict Kernel.Heard).Reaches (opened Empty) :=
    ⟨opened Empty, [], opened_started Empty, .nil _⟩
  have first := next (e := .fork 1 true) started trivial trivial rfl
  have turned := next (e := .schedule 1) (next (e := .pause) first trivial trivial rfl) trivial trivial rfl
  have second := next (e := .fork 1 true) turned trivial trivial rfl
  have waits := next (e := .waitpid (-1) false false) second trivial trivial rfl
  have child := next (e := .schedule 1) waits trivial trivial rfl
  have exits := next (e := .exit) child trivial (heard_exit (by decide +kernel)) rfl
  exact ⟨_, exits, by decide +kernel, by decide +kernel, exit_not_missed exits⟩

/-- Task 1 waits for task 2 with `SIGCHLD` blocked. -/
theorem exit_missed : ∃ k : Kernel Empty, (families Empty).Reaches k ∧ k.calling = true ∧
    (others.foldl Kernel.checkSignals k).Missed := by
  have ran : (([.fork 1 true, .pause, .schedule 1, .fork 1 true, .elsewhere 1 0 (bit SIGCHLD) 0 0 false,
      .waitpid (-1) false false, .schedule 1, .exit].foldlM performScope (opened Empty)).any fun k =>
        let k' := others.foldl Kernel.checkSignals k
        k.calling = true ∧ k'.task 1 = some 1 ∧ (k'.info 1).state = .interruptible ∧
          k'.frame 1 = .waitpid (-1) false false ∧ k'.task 2 = some 2 ∧ (k'.info 2).state = .zombie ∧
          ({ k' with current := 1 } : Kernel Empty).matching (-1) 2) = true := by decide +kernel
  obtain ⟨k, ends, missed⟩ := (Option.any_eq_true _ _).mp ran
  obtain ⟨calling, first, asleep, inside, second, dead, child⟩ := of_decide_eq_true missed
  have run := Machine.run_of_foldlM (m := families Empty) (fun _ _ _ => performScope_step) ends
  exact ⟨k, ⟨opened Empty, _, opened_started Empty, run⟩, calling, 1, 1, -1, 2, 2, first,
    ⟨asleep, false, false, inside⟩, second, dead, child⟩

end Linux011.LifeCycle

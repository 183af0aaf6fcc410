import Linux011.Library.Machine
import Linux011.Library.Numerals
import Linux011.Library.Search
import Mathlib.Data.BitVec
import Mathlib.Data.List.FinRange
import Mathlib.Logic.Function.Basic

namespace Linux011.Switch

open Linux011.Library

/-- A task as `find_empty_process` sees it; a zombie stays in `task[]` until it is released. -/
structure PidTask where
  pid : BitVec 32
  zombie : Bool
  deriving DecidableEq

structure Pids where
  task : Fin 64 → Option PidTask
  lastPid : BitVec 32

/-- `if ((++last_pid)<0) last_pid=1;` -/
def nextPid (lastPid : BitVec 32) : BitVec 32 := if (lastPid + 1).slt 0 then 1 else lastPid + 1

inductive Room
  | noPage
  | noTables
  | enough

namespace Pids

variable (k : Pids)

/-- `task[i] && task[i]->pid == last_pid`, for some `i`. -/
def taken (pid : BitVec 32) : Bool := (List.finRange 64).any fun i => (k.task i).any fun t => t.pid = pid

/-- A number of rounds from `repeat:`, then the first empty slot but the first; no slot is `-EAGAIN`. -/
def findEmptyProcess (rounds : Nat) : Option (Pids × Option (Fin 64)) := do
  let lastPid ← firstFree nextPid k.taken rounds k.lastPid
  return (⟨k.task, lastPid⟩, (List.finRange 64).tail.find? fun i => (k.task i).isNone)

/-- `copy_process` as far as `task[]` goes. -/
def copyProcess (nr : Fin 64) : Room → Pids
  | .noPage => k
  | .noTables => { k with task := Function.update k.task nr none }
  | .enough => { k with task := Function.update k.task nr (some ⟨k.lastPid, false⟩) }

def sysFork (rounds : Nat) (room : Room) : Option Pids := do
  let (k, nr) ← k.findEmptyProcess rounds
  return match nr with
    | some nr => k.copyProcess nr room
    | none => k

def doExit (i : Fin 64) : Pids :=
  { k with task := Function.update k.task i ((k.task i).map fun t => { t with zombie := true }) }

def release (i : Fin 64) : Pids := { k with task := Function.update k.task i none }

/-- `last_pid` is the pid of no task, and the slot is the first empty one behind `task[0]`. -/
structure Fresh (k' : Pids) (nr : Option (Fin 64)) : Prop where
  task : k'.task = k.task
  positive : 0 < k'.lastPid.toInt
  unused : ∀ i t, k.task i = some t → t.pid ≠ k'.lastPid
  lowest : ∀ i, nr = some i ↔ 1 ≤ i ∧ k.task i = none ∧ ∀ j, 1 ≤ j → j < i → k.task j ≠ none
  full : nr = none ↔ ∀ i, 1 ≤ i → k.task i ≠ none

def Distinct : Prop := ∀ i j t u, k.task i = some t → k.task j = some u → t.pid = u.pid → i = j

end Pids

section Next

variable {p : BitVec 32}

theorem nextPid_toNat (positive : p.toNat < 2 ^ 31) : (nextPid p).toNat = p.toNat % (2 ^ 31 - 1) + 1 := by
  have sum : (p + 1).toNat = p.toNat + 1 := by
    have one : (1 : BitVec 32).toNat = 1 := rfl
    rw [BitVec.toNat_add, one]
    omega
  have negative : (p + 1).slt 0 = true ↔ p.toNat = 2 ^ 31 - 1 := by
    have zero : (0 : BitVec 32).toInt = 0 := rfl
    rw [BitVec.slt_iff_toInt_lt, zero, BitVec.toInt_eq_toNat_cond, sum]
    split <;> omega
  unfold nextPid
  split
  · next overflow =>
    rw [negative.mp overflow]
    rfl
  · next fits =>
    have other : p.toNat ≠ 2 ^ 31 - 1 := fun last => fits (negative.mpr last)
    rw [sum]
    omega

theorem nextPid_iterate (positive : p.toNat < 2 ^ 31) (n : Nat) :
    (nextPid^[n + 1] p).toNat = (p.toNat + n) % (2 ^ 31 - 1) + 1 := by
  induction n with
  | zero => exact nextPid_toNat positive
  | succ n ih =>
    rw [Function.iterate_succ_apply', nextPid_toNat (by omega), ih]
    omega

theorem nextPid_apart (positive : p.toNat < 2 ^ 31) {i j : Nat} (before : i < j) (near : j ≤ 64) :
    nextPid^[i + 1] p ≠ nextPid^[j + 1] p := by
  intro same
  have values := congrArg BitVec.toNat same
  rw [nextPid_iterate positive, nextPid_iterate positive] at values
  omega

theorem positive_of_toNat (positive : 0 < p.toNat) (small : p.toNat < 2 ^ 31) : 0 < p.toInt := by
  rw [BitVec.toInt_eq_toNat_of_lt (by omega)]
  omega

theorem toNat_of_positive (positive : 0 ≤ p.toInt) : p.toNat < 2 ^ 31 := by
  rw [BitVec.toInt_eq_toNat_cond] at positive
  have bound := p.isLt
  split at positive <;> omega

end Next

namespace Pids

variable {k k' : Pids} {pid : BitVec 32} {rounds : Nat} {nr : Option (Fin 64)}

theorem taken_iff : k.taken pid = true ↔ ∃ i t, k.task i = some t ∧ t.pid = pid := by
  unfold taken
  simp [List.any_eq_true, Option.any_eq_true]

theorem fresh_of_found (positive : 0 ≤ k.lastPid.toInt) (found : k.findEmptyProcess rounds = some (k', nr)) :
    k.Fresh k' nr := by
  rcases Option.bind_eq_some_iff.mp found with ⟨lastPid, searched, same⟩
  cases same
  have free := firstFree_free searched
  have ascending : (List.finRange 64).tail.Pairwise (· < ·) := by decide
  have others : ∀ i : Fin 64, i ∈ (List.finRange 64).tail ↔ 1 ≤ i := by decide
  constructor
  case task => rfl
  case positive =>
    have keeps : ∀ p : BitVec 32, p.toNat < 2 ^ 31 → (nextPid p).toNat < 2 ^ 31 := by
      intro p small
      rw [nextPid_toNat small]
      omega
    rcases firstFree_kept keeps (toNat_of_positive positive) searched with ⟨p, small, rfl⟩
    apply positive_of_toNat <;> rw [nextPid_toNat small] <;> omega
  case unused =>
    intro i t there same
    have busy : k.taken lastPid = true := taken_iff.mpr ⟨i, t, there, same⟩
    rw [free] at busy
    cases busy
  case lowest =>
    intro i
    rw [find?_sorted ascending]
    simp [others, Option.isNone_iff_eq_none, Option.isSome_iff_ne_none]
  case full =>
    rw [List.find?_eq_none]
    simp [others, Option.isNone_iff_eq_none]

theorem findEmptyProcess_returns (positive : 0 ≤ k.lastPid.toInt) :
    ∃ k' nr, (∀ rounds, 64 < rounds → k.findEmptyProcess rounds = some (k', nr)) ∧ k.Fresh k' nr := by
  have small := toNat_of_positive positive
  have found : ∃ b, firstFree nextPid k.taken (Fintype.card (Fin 64) + 1) k.lastPid = some b := by
    apply firstFree_found fun i => (k.task i).map PidTask.pid
    · intro pid busy
      rcases taken_iff.mp busy with ⟨i, t, there, same⟩
      exact ⟨i, by rw [there]; exact congrArg some same⟩
    · exact fun i j before near => nextPid_apart small before (by simpa using near)
  rcases found with ⟨b, found⟩
  have returned (rounds : Nat) (enough : 64 < rounds) : k.findEmptyProcess rounds =
      some (⟨k.task, b⟩, (List.finRange 64).tail.find? fun i => (k.task i).isNone) := by
    unfold findEmptyProcess
    rw [firstFree_more (by rw [Fintype.card_fin]; omega) found]
    rfl
  exact ⟨_, _, returned, fresh_of_found positive (returned 65 (by decide))⟩

end Pids

section Runs

inductive PidEvent
  | fork (rounds : Nat) (room : Room)
  | exit (i : Fin 64)
  | release (i : Fin 64)

/-- `sys_fork`, `do_exit`, and `release`, which looks for zombies behind `task[0]`. -/
inductive PidStep (k : Pids) : PidEvent → Pids → Prop
  | fork (rounds : Nat) (room : Room) (k' : Pids) (forked : k.sysFork rounds room = some k') :
      PidStep k (.fork rounds room) k'
  | exit (i : Fin 64) : PidStep k (.exit i) (k.doExit i)
  | release (i : Fin 64) (other : i ≠ 0) (zombie : (k.task i).any PidTask.zombie = true) :
      PidStep k (.release i) (k.release i)

/-- After `sched_init`: `INIT_TASK` alone, `last_pid` 0. -/
def initialPids : Pids := ⟨Function.update (fun _ => none) 0 (some ⟨0, false⟩), 0⟩

def pids : Machine Pids PidEvent where
  init := fun k => k = initialPids
  step := PidStep

/-- What holds in every run. -/
structure Numbered (k : Pids) : Prop where
  counting : 0 ≤ k.lastPid.toInt
  distinct : k.Distinct

variable {k k' : Pids}

theorem Pids.Distinct.set (distinct : k.Distinct) {i : Fin 64} {x : Option PidTask}
    (task : k'.task = Function.update k.task i x)
    (unused : ∀ t, x = some t → ∀ j u, j ≠ i → k.task j = some u → u.pid ≠ t.pid) : k'.Distinct := by
  intro a b t u there there' same
  rw [task] at there there'
  by_cases first : a = i
  · by_cases second : b = i
    · rw [first, second]
    · rw [first, Function.update_self] at there
      rw [Function.update_of_ne second] at there'
      exact absurd same.symm (unused t there b u second there')
  · rw [Function.update_of_ne first] at there
    by_cases second : b = i
    · rw [second, Function.update_self] at there'
      exact absurd same (unused u there' a t first there)
    · rw [Function.update_of_ne second] at there'
      exact distinct a b t u there there' same

theorem Numbered.fork (numbered : Numbered k) {rounds : Nat} {room : Room} (forked : k.sysFork rounds room = some k') :
    Numbered k' := by
  rcases Option.bind_eq_some_iff.mp forked with ⟨⟨k₁, nr⟩, found, same⟩
  have fresh := Pids.fresh_of_found numbered.counting found
  have distinct : k₁.Distinct := by
    intro i j t u
    rw [fresh.task]
    exact numbered.distinct i j t u
  have counting : 0 ≤ k₁.lastPid.toInt := fresh.positive.le
  cases nr with
  | none =>
    cases same
    exact ⟨counting, distinct⟩
  | some nr =>
    cases same
    cases room with
    | noPage => exact ⟨counting, distinct⟩
    | noTables => exact ⟨counting, distinct.set rfl nofun⟩
    | enough =>
      refine ⟨counting, distinct.set rfl ?_⟩
      rintro _ ⟨⟩ j u - there
      exact fresh.unused j u (fresh.task ▸ there)

theorem Numbered.step {e : PidEvent} (numbered : Numbered k) (step : PidStep k e k') : Numbered k' := by
  cases step with
  | fork rounds room _ forked => exact numbered.fork forked
  | exit i =>
    refine ⟨numbered.counting, numbered.distinct.set rfl ?_⟩
    intro t here j u other there same
    rcases Option.map_eq_some_iff.mp here with ⟨t', was, rfl⟩
    exact other (numbered.distinct j i u t' there was same)
  | release i other zombie => exact ⟨numbered.counting, numbered.distinct.set rfl nofun⟩

theorem numbered_of_reaches (reached : pids.Reaches k) : Numbered k := by
  apply reached.invariant
  · rintro k rfl
    refine ⟨by decide, ?_⟩
    intro i j t u there there' same
    have first (i : Fin 64) (t : PidTask) (there : initialPids.task i = some t) : i = 0 := by
      by_contra other
      have nobody : initialPids.task i = none := by simp [initialPids, other]
      rw [nobody] at there
      cases there
    rw [first i t there, first j u there']
  · exact fun k e k' numbered step => numbered.step step

/-- `find_empty_process` comes back with a pid that no task has and the first empty slot, whatever the tasks are,
    and so no two tasks ever have one pid. -/
theorem pids_never_repeat :
    (∀ k : Pids, 0 ≤ k.lastPid.toInt →
      ∃ k' nr, (∀ rounds, 64 < rounds → k.findEmptyProcess rounds = some (k', nr)) ∧ k.Fresh k' nr) ∧
    ∀ k, pids.Reaches k → k.Distinct :=
  ⟨fun _ positive => Pids.findEmptyProcess_returns positive, fun _ reached => (numbered_of_reaches reached).distinct⟩

/-- The next task is forked, with memory enough. -/
def Pids.more (k : Pids) : Pids := (k.sysFork 65 .enough).getD k

/-- Two tasks are forked, the first of them exits and is released, and a third one gets its slot. -/
theorem released_slot_distinct : ∃ k, pids.Reaches k ∧ k.task 1 = some ⟨3, false⟩ ∧ k.task 2 = some ⟨2, false⟩ ∧
    k.Distinct := by
  have fork {k : Pids} (reached : pids.Reaches k) (forks : (k.sysFork 65 .enough).isSome = true) : pids.Reaches k.more := by
    obtain ⟨k', found⟩ := Option.isSome_iff_exists.mp forks
    have next : k.more = k' := by rw [Pids.more, found, Option.getD_some]
    exact next ▸ reached.step (PidStep.fork 65 .enough k' found)
  have one : pids.Reaches initialPids.more := fork ⟨_, [], rfl, .nil _⟩ (by decide +kernel)
  have two : pids.Reaches initialPids.more.more := fork one (by decide +kernel)
  have dead : pids.Reaches (initialPids.more.more.doExit 1) := two.step (PidStep.exit 1)
  have gone : pids.Reaches ((initialPids.more.more.doExit 1).release 1) :=
    dead.step (PidStep.release 1 (by decide) (by decide +kernel))
  have third : pids.Reaches ((initialPids.more.more.doExit 1).release 1).more := fork gone (by decide +kernel)
  have tasks : ((initialPids.more.more.doExit 1).release 1).more.task 1 = some ⟨3, false⟩ ∧
      ((initialPids.more.more.doExit 1).release 1).more.task 2 = some ⟨2, false⟩ := by
    decide +kernel
  exact ⟨_, third, tasks.1, tasks.2, pids_never_repeat.2 _ third⟩

end Runs

end Linux011.Switch

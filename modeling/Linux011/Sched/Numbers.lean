import Linux011.Sched.Scheduler

namespace Linux011.Sched

open Linux011.Library

variable {k k' : Kernel} {i : Fin 64} {p : TaskStruct}

/-- A task whose numbers cannot overflow. -/
structure TaskStruct.Sane (p : TaskStruct) : Prop where
  priority : 1 ≤ p.priority.toInt
  bounded : p.priority.toInt ≤ 2 ^ 30
  counter : 0 ≤ p.counter.toInt

/-- A priority that leaves room for the counter, which comes near twice the priority. -/
def Modest (k : Kernel) : Event → Prop
  | .nice increment => ∀ p, k.task k.current = some p → (p.priority - increment).toInt ≤ 2 ^ 30
  | _ => True

section Words

variable {a b : BitVec 32}

theorem toInt_add (positive : 0 ≤ a.toInt + b.toInt) (bound : a.toInt + b.toInt < 2 ^ 31) :
    (a + b).toInt = a.toInt + b.toInt := by
  rw [BitVec.toInt_add]
  apply Int.bmod_eq_of_le <;> omega

theorem toInt_half (a : BitVec 32) : (a.sshiftRight 1).toInt = a.toInt / 2 := by
  rw [BitVec.toInt_sshiftRight, Int.shiftRight_eq_div_pow]
  rfl

end Words

namespace TaskStruct.Sane

variable (sane : p.Sane)

include sane

theorem recharge : p.recharge.Sane ∧ 0 < p.recharge.counter.toInt := by
  obtain ⟨priority, bounded, counter⟩ := sane
  have bound := p.counter.toInt_lt
  have half := toInt_half p.counter
  have sum : (p.counter.sshiftRight 1 + p.priority).toInt = p.counter.toInt / 2 + p.priority.toInt := by
    rw [← half]
    apply toInt_add <;> omega
  have positive : 0 < p.recharge.counter.toInt := by
    rw [TaskStruct.recharge, sum]
    omega
  exact ⟨⟨priority, bounded, positive.le⟩, positive⟩

theorem checkSignals (jiffies : BitVec 32) : (p.checkAlarm jiffies).checkSignal.Sane := by
  have alarm : (p.checkAlarm jiffies).Sane := by
    unfold checkAlarm
    split
    · exact ⟨sane.priority, sane.bounded, sane.counter⟩
    · exact sane
  unfold checkSignal
  split
  · exact ⟨alarm.priority, alarm.bounded, alarm.counter⟩
  · exact alarm

theorem child : p.child.Sane := ⟨sane.priority, sane.bounded, le_trans (by decide) sane.priority⟩

theorem tick : p.tick.Sane := by
  refine ⟨sane.priority, sane.bounded, ?_⟩
  unfold TaskStruct.tick
  dsimp only
  split
  · rename_i positive
    rw [BitVec.slt_iff_toInt_lt] at positive
    exact le_of_lt positive
  · decide

theorem nice {increment : BitVec 32} (modest : (p.priority - increment).toInt ≤ 2 ^ 30) : (p.nice increment).Sane := by
  unfold TaskStruct.nice
  split
  · rename_i positive
    rw [BitVec.slt_iff_toInt_lt] at positive
    exact ⟨positive, modest, sane.counter⟩
  · exact sane

end TaskStruct.Sane

namespace Kernel

/-- All tasks have sane numbers, and `task[0]` and `current` are there. -/
structure Sane (k : Kernel) : Prop where
  tasks : ∀ i p, k.task i = some p → p.Sane
  first : (k.task 0).isSome
  current : (k.task k.current).isSome

theorem changeOthers_some (f : TaskStruct → TaskStruct) (other : i ≠ 0) :
    (k.changeOthers f).task i = (k.task i).map f := if_neg other

theorem changeOthers_isSome (f : TaskStruct → TaskStruct) (i : Fin 64) :
    ((k.changeOthers f).task i).isSome = (k.task i).isSome := by
  by_cases same : i = 0
  · rw [changeOthers, same]
    rfl
  · rw [changeOthers_some f same, Option.isSome_map]

theorem Sane.changeOthers (sane : k.Sane) {f : TaskStruct → TaskStruct} (keeps : ∀ p, p.Sane → (f p).Sane) :
    (k.changeOthers f).Sane where
  tasks := by
    intro i p there
    by_cases same : i = 0
    · rw [same] at there
      exact sane.tasks 0 p there
    · rw [changeOthers_some f same] at there
      obtain ⟨q, before, rfl⟩ := Option.map_eq_some_iff.mp there
      exact keeps q (sane.tasks i q before)
  first := by
    rw [changeOthers_isSome]
    exact sane.first
  current := by
    rw [changeOthers_isSome]
    exact sane.current

theorem Sane.set (sane : k.Sane) {i : Fin 64} {x : Option TaskStruct} (fits : ∀ p, x = some p → p.Sane)
    (first : i = 0 → x.isSome) (current : i = k.current → x.isSome) :
    Sane { k with task := Function.update k.task i x } := by
  have cases (j : Fin 64) : Function.update k.task i x j = if j = i then x else k.task j := by
    split
    · rename_i same
      rw [same, Function.update_self]
    · rename_i other
      rw [Function.update_of_ne other]
  constructor
  case tasks =>
    intro j p there
    replace there := (cases j).symm.trans there
    split at there
    · exact fits p there
    · exact sane.tasks j p there
  case first =>
    show (Function.update k.task i x 0).isSome
    rw [cases]
    split
    · rename_i same
      exact first same.symm
    · exact sane.first
  case current =>
    show (Function.update k.task i x k.current).isSome
    rw [cases]
    split
    · rename_i same
      exact current same.symm
    · exact sane.current

theorem Sane.change (sane : k.Sane) {i : Fin 64} {f : TaskStruct → TaskStruct}
    (keeps : ∀ p, k.task i = some p → (f p).Sane) : (k.change i f).Sane := by
  apply sane.set
  · intro p there
    obtain ⟨q, before, rfl⟩ := Option.map_eq_some_iff.mp there
    exact keeps q before
  · rintro rfl
    rw [Option.isSome_map]
    exact sane.first
  · rintro rfl
    rw [Option.isSome_map]
    exact sane.current

theorem mem_others : i ∈ others ↔ i ≠ 0 := by
  revert i
  decide

/-- What the loop has found: some running task with the largest counter, or what it began with. -/
structure Found (k : Kernel) (l : List (Fin 64)) (start best : Choice) : Prop where
  origin : best = start ∨ ∃ i ∈ l, ∃ p, k.task i = some p ∧ p.state = .running ∧ best = ⟨p.counter, i, i⟩
  above : start.c.toInt ≤ best.c.toInt
  largest : ∀ i ∈ l, ∀ p, k.task i = some p → p.state = .running → p.counter.toInt ≤ best.c.toInt

theorem look_found (k : Kernel) (best : Choice) (i : Fin 64) : Found k [i] best (k.look best i) := by
  unfold look
  split
  · rename_i none
    refine ⟨.inl rfl, le_refl _, ?_⟩
    intro j member p there
    rw [List.mem_singleton.mp member, none] at there
    cases there
  · rename_i p here
    split
    · rename_i better
      obtain ⟨running, more⟩ := better
      rw [BitVec.slt_iff_toInt_lt] at more
      refine ⟨.inr ⟨i, List.mem_singleton_self i, p, here, running, rfl⟩, more.le, ?_⟩
      intro j member q there _
      rw [List.mem_singleton.mp member, here] at there
      cases there
      exact le_refl _
    · rename_i worse
      refine ⟨.inl rfl, le_refl _, ?_⟩
      intro j member q there running
      rw [List.mem_singleton.mp member, here] at there
      cases there
      rw [BitVec.slt_iff_toInt_lt, not_and] at worse
      exact not_lt.mp (worse running)

theorem Found.append {l l' : List (Fin 64)} {start middle best : Choice} (first : Found k l start middle)
    (second : Found k l' middle best) : Found k (l ++ l') start best where
  origin := by
    rcases second.origin with rfl | ⟨i, member, found⟩
    · rcases first.origin with same | ⟨i, member, found⟩
      · exact .inl same
      · exact .inr ⟨i, List.mem_append_left _ member, found⟩
    · exact .inr ⟨i, List.mem_append_right _ member, found⟩
  above := first.above.trans second.above
  largest := by
    intro i member p there running
    rcases List.mem_append.mp member with member | member
    · exact (first.largest i member p there running).trans second.above
    · exact second.largest i member p there running

theorem foldl_found (k : Kernel) (l : List (Fin 64)) (start : Choice) : Found k l start (l.foldl k.look start) := by
  induction l generalizing start with
  | nil => exact ⟨.inl rfl, le_refl _, nofun⟩
  | cons i l ih => exact (look_found k start i).append (ih (k.look start i))

def Runnable (k : Kernel) (i : Fin 64) (p : TaskStruct) : Prop := i ≠ 0 ∧ k.task i = some p ∧ p.state = .running

theorem Sane.choose (sane : k.Sane) (pnext : Fin 64) :
    (∃ i p, k.Runnable i p ∧ k.choose pnext = ⟨p.counter, i, i⟩ ∧
      ∀ j q, k.Runnable j q → q.counter.toInt ≤ p.counter.toInt) ∨
    k.choose pnext = ⟨-1, 0, pnext⟩ ∧ ∀ i p, ¬ k.Runnable i p := by
  have found : Found k others ⟨-1, 0, pnext⟩ (k.choose pnext) := foldl_found k others _
  rcases found.origin with same | ⟨i, member, p, there, running, same⟩
  · refine .inr ⟨same, ?_⟩
    intro i p runnable
    obtain ⟨other, there, running⟩ := runnable
    have less := found.largest i (mem_others.mpr other) p there running
    have positive := (sane.tasks i p there).counter
    rw [same, show (-1 : BitVec 32).toInt = -1 from rfl] at less
    omega
  · refine .inl ⟨i, p, ⟨mem_others.mp member, there, running⟩, same, ?_⟩
    intro j q runnable
    obtain ⟨other, there', running'⟩ := runnable
    have less := found.largest j (mem_others.mpr other) q there' running'
    rw [same] at less
    exact less

theorem select_now {rounds : Nat} {pnext : Fin 64} {best : Choice} (same : k.choose pnext = best)
    (nonzero : best.c ≠ 0) : k.select (rounds + 1) pnext = some (k, best) := by
  rw [Kernel.select, same]
  exact if_pos nonzero

theorem select_later {rounds : Nat} {pnext : Fin 64} {best : Choice} (same : k.choose pnext = best)
    (zero : best.c = 0) :
    k.select (rounds + 1) pnext = (k.changeOthers TaskStruct.recharge).select rounds best.pnext := by
  rw [Kernel.select, same]
  exact if_neg (not_not.mpr zero)

theorem nonzero_of_positive {c : BitVec 32} (positive : 0 < c.toInt) : c ≠ 0 := by
  rintro rfl
  exact absurd positive (by decide)

theorem minus_one : (-1 : BitVec 32) ≠ 0 := by decide

theorem Sane.select (sane : k.Sane) (pnext : Fin 64) : ∃ k' best, k.select 2 pnext = some (k', best) ∧ k'.Sane ∧
    ((∃ p, k'.Runnable best.pnext p ∧ best.next = best.pnext) ∨
      best.next = 0 ∧ best.pnext = pnext ∧ k' = k ∧ ∀ i p, ¬ k.Runnable i p) := by
  rcases sane.choose pnext with ⟨i, p, runnable, chosen, -⟩ | ⟨chosen, none⟩
  · by_cases zero : p.counter = 0
    · have recharged : (k.changeOthers TaskStruct.recharge).Sane := sane.changeOthers fun p sane => sane.recharge.1
      obtain ⟨other, there, running⟩ := runnable
      have again : (k.changeOthers TaskStruct.recharge).Runnable i p.recharge := by
        refine ⟨other, ?_, running⟩
        rw [changeOthers_some _ other, there]
        rfl
      rcases recharged.choose i with ⟨j, q, runnable', chosen', largest⟩ | ⟨-, none⟩
      · have positive := (sane.tasks i p there).recharge.2
        have more := largest i p.recharge again
        refine ⟨_, ⟨q.counter, j, j⟩, ?_, recharged, .inl ⟨q, runnable', rfl⟩⟩
        rw [select_later chosen zero]
        exact select_now chosen' (nonzero_of_positive (positive.trans_le more))
      · exact absurd again (none i _)
    · exact ⟨k, _, select_now chosen zero, sane, .inl ⟨p, runnable, rfl⟩⟩
  · exact ⟨k, _, select_now chosen minus_one, sane, .inr ⟨rfl, rfl, rfl, none⟩⟩

theorem select_more {rounds : Nat} {pnext : Fin 64} {r : Kernel × Choice} (selected : k.select rounds pnext = some r) :
    k.select (rounds + 1) pnext = some r := by
  induction rounds generalizing k pnext with
  | zero => cases selected
  | succ n ih =>
    by_cases zero : (k.choose pnext).c = 0
    · rw [select_later rfl zero] at selected ⊢
      exact ih selected
    · rw [select_now rfl zero] at selected ⊢
      exact selected

theorem select_le {n n' : Nat} {pnext : Fin 64} {r : Kernel × Choice} (more : n ≤ n')
    (selected : k.select n pnext = some r) : k.select n' pnext = some r := by
  induction more with
  | refl => exact selected
  | step _ ih => exact select_more ih

/-- However many rounds it is given, it finds the same task as with two, under both its names. -/
theorem Sane.select_agrees (sane : k.Sane) {rounds : Nat} {r : Kernel × Choice}
    (selected : k.select rounds 0 = some r) :
    r.1.Sane ∧ r.2.next = r.2.pnext ∧ (r.1.task r.2.pnext).isSome := by
  obtain ⟨k', best, two, sane', which⟩ := sane.select 0
  have same := (select_le (Nat.le_max_left rounds 2) selected).symm.trans
    (select_le (Nat.le_max_right rounds 2) two)
  cases Option.some.inj same
  rcases which with ⟨p, runnable, agree⟩ | ⟨zero, zero', -⟩
  · exact ⟨sane', agree, Option.isSome_iff_exists.mpr ⟨p, runnable.2.1⟩⟩
  · exact ⟨sane', zero.trans zero'.symm, zero' ▸ sane'.first⟩

theorem Sane.checkSignals (sane : k.Sane) : k.checkSignals.Sane :=
  sane.changeOthers fun _ sane => sane.checkSignals k.jiffies

theorem Sane.schedule (sane : k.Sane) {rounds : Nat} (scheduled : k.schedule rounds = some k') : k'.Sane := by
  obtain ⟨r, selected, rfl⟩ := Option.map_eq_some_iff.mp scheduled
  obtain ⟨sane', -, there⟩ := sane.checkSignals.select_agrees selected
  exact ⟨sane'.tasks, sane'.first, there⟩

theorem Sane.fork (sane : k.Sane) : k.fork.Sane := by
  unfold Kernel.fork
  split
  · exact sane
  · have parent := sane.current
    apply sane.set
    · intro p there
      obtain ⟨q, before, rfl⟩ := Option.map_eq_some_iff.mp there
      exact (sane.tasks _ q before).child
    · rintro rfl
      rw [Option.isSome_map]
      exact parent
    · rintro rfl
      rw [Option.isSome_map]
      exact parent

theorem Sane.doTimer (sane : k.Sane) {cpl : Bool} {rounds : Nat} (ticked : k.doTimer cpl rounds = some k') :
    k'.Sane := by
  have counted : (k.change k.current TaskStruct.tick).Sane :=
    sane.change fun p there => (sane.tasks _ p there).tick
  have later : Sane { k.change k.current TaskStruct.tick with jiffies := k.jiffies + 1 } :=
    ⟨counted.tasks, counted.first, counted.current⟩
  unfold Kernel.doTimer at ticked
  dsimp only at ticked
  split at ticked
  · cases ticked
  · split at ticked
    · cases ticked
      exact later
    · exact later.schedule ticked

theorem Sane.step {e : Event} (sane : k.Sane) (step : (scheduler.restrict Modest).step k e k') : k'.Sane := by
  obtain ⟨modest, step⟩ := step
  cases e with
  | fork =>
    have same : k' = k.fork := step
    exact same ▸ sane.fork
  | tick cpl =>
    obtain ⟨rounds, ticked⟩ := step
    exact sane.doTimer ticked
  | schedule =>
    obtain ⟨rounds, scheduled⟩ := step
    exact sane.schedule scheduled
  | nice increment =>
    have same : k' = k.sysNice increment := step
    rw [same]
    exact sane.change fun p there => (sane.tasks _ p there).nice (modest p there)
  | elsewhere i state signal blocked alarm =>
    have same : k' = k.change i fun p =>
      { p with state := state, signal := signal, blocked := blocked, alarm := alarm } := step
    rw [same]
    apply sane.change
    intro p there
    have before := sane.tasks i p there
    exact ⟨before.priority, before.bounded, before.counter⟩
  | release i =>
    obtain ⟨other, elsewhere, same⟩ := step
    rw [same]
    exact sane.set nofun (fun first => absurd first other) fun current => absurd current elsewhere

end Kernel

theorem sane_of_reaches (reached : (scheduler.restrict Modest).Reaches k) : k.Sane := by
  apply reached.invariant
  · intro k start
    have same : k = ⟨Function.update (fun _ => none) 0 (some initTask), 0, 0⟩ := start
    subst same
    refine ⟨?_, rfl, rfl⟩
    intro i p there
    replace there : Function.update (fun _ => none) 0 (some initTask) i = some p := there
    by_cases first : i = 0
    · rw [first, Function.update_self] at there
      cases there
      exact ⟨by decide, by decide, by decide⟩
    · rw [Function.update_of_ne first] at there
      cases there
  · exact fun k e k' sane step => sane.step step

/-- As long as `nice` gives no priority above `2^30`, no number of a task goes wrong, and `schedule` comes to an
    end and never chooses task 0 while another task is running. -/
theorem numbers_stay_sane (reached : (scheduler.restrict Modest).Reaches k) :
    (∀ i p, k.task i = some p → 1 ≤ p.priority.toInt ∧ 0 ≤ p.counter.toInt) ∧
    ∃ k' best, k.checkSignals.select 2 0 = some (k', best) ∧
      ∀ i p, i ≠ 0 → k.checkSignals.task i = some p → p.state = .running → best.pnext ≠ 0 ∧ best.next = best.pnext := by
  have sane := sane_of_reaches reached
  obtain ⟨k', best, selected, -, which⟩ := sane.checkSignals.select 0
  refine ⟨fun i p there => ⟨(sane.tasks i p there).priority, (sane.tasks i p there).counter⟩, k', best, selected, ?_⟩
  intro i p other there running
  rcases which with ⟨q, runnable, same⟩ | ⟨-, -, -, none⟩
  · exact ⟨runnable.1, same⟩
  · exact absurd ⟨other, there, running⟩ (none i p)

section Examples

def Kernel.next (k : Kernel) : Event → Option Kernel
  | .fork => some k.fork
  | .tick cpl => k.doTimer cpl 2
  | .schedule => k.schedule 2
  | .nice increment => some (k.sysNice increment)
  | .elsewhere i state signal blocked alarm =>
    some (k.change i fun p => { p with state := state, signal := signal, blocked := blocked, alarm := alarm })
  | .release _ => none

theorem Kernel.next_sound (k : Kernel) (e : Event) (k' : Kernel) (next : k.next e = some k') :
    scheduler.step k e k' := by
  cases e with
  | tick cpl => exact ⟨2, next⟩
  | schedule => exact ⟨2, next⟩
  | release => cases next
  | _ => exact (Option.some.inj next).symm

def started : Kernel := ⟨Function.update (fun _ => none) 0 (some initTask), 0, 0⟩

theorem forked_sane : ∃ k, scheduler.Reaches k ∧ (k.task 1).isSome ∧ ∃ k' best,
    k.checkSignals.select 2 0 = some (k', best) ∧ best.pnext = 1 := by
  have reached : (scheduler.restrict Modest).Reaches started.fork := ⟨started, [.fork], rfl, .one ⟨trivial, rfl⟩⟩
  obtain ⟨-, k', best, selected, -⟩ := numbers_stay_sane reached
  have check : (started.fork.checkSignals.select 2 0).any (fun r => r.2.pnext = 1) = true := by decide +kernel
  rw [selected] at check
  exact ⟨started.fork, ⟨started, [.fork], rfl, .one rfl⟩, by decide, k', best, selected, of_decide_eq_true check⟩

/-- The priority of task 1 becomes `2^31 - 1`, and task 2 gets it with a counter as large. The next recharge
    round overflows the counter. -/
def overflow : List Event := [.nice 14, .fork, .schedule, .nice 0x80000002, .fork, .elsewhere 2 .interruptible 0 0 0,
  .tick true, .elsewhere 1 .interruptible 0 0 0, .elsewhere 2 .running 0 0 0]

theorem starved : ∃ k, scheduler.Run started overflow k ∧
    (∃ p, k.checkSignals.task 2 = some p ∧ p.state = .running ∧ p.counter.toInt = -1073741826) ∧
    ∃ k' best, k.checkSignals.select 2 0 = some (k', best) ∧ best.pnext = 0 := by
  have ran : (overflow.foldlM Kernel.next started).any (fun k =>
      (k.checkSignals.task 2).any (fun p => p.state = .running ∧ p.counter.toInt = -1073741826) ∧
        (k.checkSignals.select 2 0).any fun r => r.2.pnext = 0) = true := by decide +kernel
  obtain ⟨k, ends, found⟩ := (Option.any_eq_true _ _).mp ran
  obtain ⟨second, idle⟩ := of_decide_eq_true found
  obtain ⟨p, there, negative⟩ := (Option.any_eq_true _ _).mp second
  obtain ⟨r, selected, zero⟩ := (Option.any_eq_true _ _).mp idle
  exact ⟨k, Machine.run_of_foldlM Kernel.next_sound ends, ⟨p, there, of_decide_eq_true negative⟩,
    r.1, r.2, selected, of_decide_eq_true zero⟩

end Examples

end Linux011.Sched

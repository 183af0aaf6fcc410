import Linux011.Sched.Numbers

namespace Linux011.Sched

namespace Kernel

variable (k : Kernel)

/-- The loop over the tasks as it is without `pnext`: what it has found is `c` and `next`. -/
def lookNext (best : BitVec 32 × Fin 64) (i : Fin 64) : BitVec 32 × Fin 64 :=
  match k.task i with
  | none => best
  | some p => if p.state = .running ∧ best.1.slt p.counter then (p.counter, i) else best

def chooseNext : BitVec 32 × Fin 64 := others.foldl k.lookNext (-1, 0)

/-- `while (1)` without `pnext`. -/
def selectNext : Nat → Kernel → Option (Kernel × Fin 64)
  | 0, _ => none
  | rounds + 1, k =>
    let best := k.chooseNext
    if best.1 ≠ 0 then some (k, best.2) else selectNext rounds (k.changeOthers TaskStruct.recharge)

/-- Numbers of tasks that a recharge cannot overflow. -/
def Chargeable : Prop := ∀ i p, k.task i = some p →
  1 ≤ p.priority.toInt ∧ 0 ≤ p.counter.toInt ∧ p.counter.toInt / 2 + p.priority.toInt < 2 ^ 31

/-- A running task that comes before all others that run: the highest slot with the largest counter. -/
def Foremost (i : Fin 64) (p : TaskStruct) : Prop :=
  k.Runnable i p ∧ ∀ j q, k.Runnable j q →
    q.counter.toInt < p.counter.toInt ∨ q.counter.toInt = p.counter.toInt ∧ j ≤ i

/-- What the selection should come to, with the tasks as it leaves them. -/
structure Selects (k k' : Kernel) (next : Fin 64) : Prop where
  recharged : k' = k ∨ k' = k.changeOthers TaskStruct.recharge ∧ ∀ i p, k.Runnable i p → p.counter = 0
  idle : next = 0 ↔ ∀ i p, ¬ k.Runnable i p
  foremost : next ≠ 0 → ∃ p, k'.Foremost next p

variable {k} {k' : Kernel} {pnext : Fin 64}

section Agreement

theorem look_next (best : Choice) (i : Fin 64) :
    ((k.look best i).c, (k.look best i).next) = k.lookNext (best.c, best.next) i := by
  rw [look, lookNext]
  cases k.task i with
  | none => rfl
  | some p =>
    dsimp only
    split <;> rfl

theorem choose_next (pnext : Fin 64) : ((k.choose pnext).c, (k.choose pnext).next) = k.chooseNext := by
  have fold (l : List (Fin 64)) (best : Choice) :
      ((l.foldl k.look best).c, (l.foldl k.look best).next) = l.foldl k.lookNext (best.c, best.next) := by
    induction l generalizing best with
    | nil => rfl
    | cons i l ih => rw [List.foldl_cons, List.foldl_cons, ih, look_next]
  exact fold others _

theorem selectNext_eq (rounds : Nat) (k : Kernel) (pnext : Fin 64) :
    k.selectNext rounds = (k.select rounds pnext).map fun r => (r.1, r.2.next) := by
  induction rounds generalizing k pnext with
  | zero => rfl
  | succ n ih =>
    have same := choose_next (k := k) pnext
    rw [selectNext, select, ← same]
    dsimp only
    split
    · rfl
    · exact ih _ _

end Agreement

section Round

theorem others_sorted : others.Pairwise (· > ·) := by decide

theorem foldl_foremost {l : List (Fin 64)} (sorted : l.Pairwise (· > ·)) (start : Choice) :
    (l.foldl k.look start = start ∧
      ∀ j ∈ l, ∀ q, k.task j = some q → q.state = .running → q.counter.toInt ≤ start.c.toInt) ∨
    ∃ i ∈ l, ∃ p, k.task i = some p ∧ p.state = .running ∧ l.foldl k.look start = ⟨p.counter, i, i⟩ ∧
      start.c.toInt < p.counter.toInt ∧ ∀ j ∈ l, ∀ q, k.task j = some q → q.state = .running →
        q.counter.toInt < p.counter.toInt ∨ q.counter.toInt = p.counter.toInt ∧ j ≤ i := by
  induction l generalizing start with
  | nil => exact .inl ⟨rfl, nofun⟩
  | cons i l ih =>
    have below : ∀ {j}, j ∈ l → i > j := List.rel_of_pairwise_cons sorted
    rw [List.foldl_cons]
    by_cases better : ∃ p, k.task i = some p ∧ p.state = .running ∧ start.c.toInt < p.counter.toInt
    · rcases better with ⟨p, there, running, more⟩
      have looked : k.look start i = ⟨p.counter, i, i⟩ := by
        rw [look, there]
        exact if_pos ⟨running, BitVec.slt_iff_toInt_lt.mpr more⟩
      rw [looked]
      rcases ih sorted.of_cons ⟨p.counter, i, i⟩ with ⟨same, least⟩ | ⟨j, member, q, there', running', same, more', least⟩
      · refine .inr ⟨i, List.mem_cons_self, p, there, running, same, more, ?_⟩
        intro j member q there' running'
        rcases List.mem_cons.mp member with rfl | member
        · rw [there] at there'
          cases there'
          exact .inr ⟨rfl, le_refl _⟩
        · exact (least j member q there' running').lt_or_eq.imp_right fun equal => ⟨equal, (below member).le⟩
      · refine .inr ⟨j, List.mem_cons_of_mem _ member, q, there', running', same, more.trans more', ?_⟩
        intro n member' r there'' running''
        rcases List.mem_cons.mp member' with rfl | member'
        · rw [there] at there''
          cases there''
          exact .inl more'
        · exact least n member' r there'' running''
    · have looked : k.look start i = start := by
        rw [look]
        cases there : k.task i with
        | none => rfl
        | some p =>
          apply if_neg
          intro found
          exact better ⟨p, there, found.1, BitVec.slt_iff_toInt_lt.mp found.2⟩
      have small : ∀ q, k.task i = some q → q.state = .running → q.counter.toInt ≤ start.c.toInt := by
        intro q there running
        by_contra more
        exact better ⟨q, there, running, not_le.mp more⟩
      rw [looked]
      rcases ih sorted.of_cons start with ⟨same, least⟩ | ⟨j, member, q, there', running', same, more', least⟩
      · refine .inl ⟨same, ?_⟩
        intro j member q there running
        rcases List.mem_cons.mp member with rfl | member
        · exact small q there running
        · exact least j member q there running
      · refine .inr ⟨j, List.mem_cons_of_mem _ member, q, there', running', same, more', ?_⟩
        intro n member' r there'' running''
        rcases List.mem_cons.mp member' with rfl | member'
        · exact .inl ((small r there'' running'').trans_lt more')
        · exact least n member' r there'' running''

theorem choose_foremost (counters : ∀ i p, k.task i = some p → 0 ≤ p.counter.toInt) (pnext : Fin 64) :
    (∃ i p, k.Foremost i p ∧ k.choose pnext = ⟨p.counter, i, i⟩) ∨
    k.choose pnext = ⟨-1, 0, pnext⟩ ∧ ∀ i p, ¬ k.Runnable i p := by
  rcases foldl_foremost (k := k) others_sorted ⟨-1, 0, pnext⟩ with ⟨same, least⟩ | ⟨i, member, p, there, running, same, -, least⟩
  · refine .inr ⟨same, fun i p runnable => ?_⟩
    have less := least i (mem_others.mpr runnable.1) p runnable.2.1 runnable.2.2
    have positive := counters i p runnable.2.1
    have start : (-1 : BitVec 32).toInt = -1 := rfl
    rw [start] at less
    omega
  · refine .inl ⟨i, p, ⟨⟨mem_others.mp member, there, running⟩, fun j q runnable => ?_⟩, same⟩
    exact least j (mem_others.mpr runnable.1) q runnable.2.1 runnable.2.2

end Round

section Selection

theorem recharge_counter {p : TaskStruct} (priority : 1 ≤ p.priority.toInt) (counter : 0 ≤ p.counter.toInt)
    (fits : p.counter.toInt / 2 + p.priority.toInt < 2 ^ 31) :
    p.recharge.counter.toInt = p.counter.toInt / 2 + p.priority.toInt := by
  have half := toInt_half p.counter
  rw [TaskStruct.recharge, ← half]
  apply toInt_add <;> omega

theorem Chargeable.recharged (chargeable : k.Chargeable) {i : Fin 64} {p : TaskStruct} (other : i ≠ 0)
    (there : (k.changeOthers TaskStruct.recharge).task i = some p) : 0 < p.counter.toInt := by
  rw [changeOthers_some _ other] at there
  rcases Option.map_eq_some_iff.mp there with ⟨q, before, rfl⟩
  have numbers := chargeable i q before
  rw [recharge_counter numbers.1 numbers.2.1 numbers.2.2]
  omega

theorem recharge_runnable {i : Fin 64} {p : TaskStruct} (runnable : k.Runnable i p) :
    (k.changeOthers TaskStruct.recharge).Runnable i p.recharge := by
  refine ⟨runnable.1, ?_, runnable.2.2⟩
  rw [changeOthers_some _ runnable.1, runnable.2.1]
  rfl

/-- The loop comes to an end after at most one recharge, with and without `pnext`, and with the same task. -/
theorem select_selects (chargeable : k.Chargeable) (rounds : Nat) : ∃ k' c next,
    k.select (rounds + 2) 0 = some (k', ⟨c, next, next⟩) ∧ k.selectNext (rounds + 2) = some (k', next) ∧
      Selects k k' next := by
  have answer : ∃ k' c next, k.select (rounds + 2) 0 = some (k', ⟨c, next, next⟩) ∧ Selects k k' next := by
    rcases choose_foremost (fun i p there => (chargeable i p there).2.1) 0 with ⟨i, p, foremost, chosen⟩ | ⟨chosen, none⟩
    · have some : ¬ ∀ i p, ¬ k.Runnable i p := fun none => none i p foremost.1
      by_cases zero : p.counter = 0
      · have zeros : ∀ j q, k.Runnable j q → q.counter = 0 := by
          intro j q runnable
          have least := foremost.2 j q runnable
          have positive := (chargeable j q runnable.2.1).2.1
          rw [zero, show (0 : BitVec 32).toInt = 0 from rfl] at least
          exact BitVec.eq_of_toInt_eq (by rw [show (0 : BitVec 32).toInt = 0 from rfl]; omega)
        have counters : ∀ i p, (k.changeOthers TaskStruct.recharge).task i = .some p → 0 ≤ p.counter.toInt := by
          intro j q there
          by_cases first : j = 0
          · rw [first] at there
            exact (chargeable 0 q there).2.1
          · exact (chargeable.recharged first there).le
        rcases choose_foremost counters i with ⟨j, q, foremost', chosen'⟩ | ⟨-, none⟩
        · have positive := chargeable.recharged foremost'.1.1 foremost'.1.2.1
          refine ⟨_, q.counter, j, ?_, .inr ⟨rfl, zeros⟩, ?_, fun _ => ⟨q, foremost'⟩⟩
          · rw [select_later chosen zero]
            exact select_now chosen' (nonzero_of_positive positive)
          · exact ⟨fun first => absurd first foremost'.1.1, fun none => absurd none some⟩
        · exact absurd (recharge_runnable foremost.1) (none i _)
      · refine ⟨k, p.counter, i, select_now chosen zero, .inl rfl, ?_, fun _ => ⟨p, foremost⟩⟩
        exact ⟨fun first => absurd first foremost.1.1, fun none => absurd none some⟩
    · exact ⟨k, -1, 0, select_now chosen minus_one, .inl rfl, ⟨fun _ => none, fun _ => rfl⟩, fun other => absurd rfl other⟩
  rcases answer with ⟨k', c, next, selected, selects⟩
  refine ⟨k', c, next, selected, ?_, selects⟩
  rw [selectNext_eq _ _ 0, selected]
  rfl

/-- Two tasks have run out of time, and a third one sleeps with some left. -/
def expired : Kernel where
  task i :=
    if i = 0 then some initTask
    else if i = 1 ∨ i = 2 then some { initTask with counter := 0 }
    else if i = 3 then some { initTask with state := .interruptible, counter := 4 }
    else none
  current := 1
  jiffies := 1000

theorem expired_chargeable : expired.Chargeable := by
  intro i p there
  replace there : (if i = 0 then some initTask
    else if i = 1 ∨ i = 2 then some { initTask with counter := 0 }
    else if i = 3 then some { initTask with state := .interruptible, counter := 4 }
    else none) = some p := there
  split at there
  · cases there
    decide
  · split at there
    · cases there
      decide
    · split at there
      · cases there
        decide
      · cases there

/-- They are recharged, and the one in the higher slot goes on. -/
theorem select_expired : ∃ k' c, expired.select 2 0 = some (k', ⟨c, 2, 2⟩) ∧
    expired.selectNext 2 = some (k', 2) ∧ Selects expired k' 2 := by
  have check : (expired.select 2 0).any (fun r => r.2.next = 2) = true := by decide +kernel
  rcases select_selects expired_chargeable 0 with ⟨k', c, next, selected, selected', selects⟩
  rw [selected] at check
  have second : next = 2 := of_decide_eq_true check
  rw [second] at selected selected' selects
  exact ⟨k', c, selected, selected', selects⟩

end Selection

end Kernel

end Linux011.Sched

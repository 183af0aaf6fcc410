import Linux011.LifeCycle.LogText

namespace Linux011.LifeCycle

namespace Process

def beginTime (p : Process) : Int := (p.states.head p.nonempty).2

def endTime (p : Process) : Int := p.last.2

def turnaroundTime (p : Process) : Int := p.last.2 - (p.states.head p.nonempty).2

/-- A round of the loop of `state_last_time`, on its `time` and its `state_begin`; `none` is a failed assertion. -/
def lastTimeRound (state : Mark) : Int × Int → Mark × Int → Option (Int × Int)
  | (time, stateBegin), (s, t) =>
    if s = state then some (time, t)
    else if stateBegin ≠ 0 then
      if stateBegin ≤ t then some (time + (t - stateBegin), 0) else none
    else some (time, stateBegin)

def stateLastTime (p : Process) (state : Mark) : Option Int :=
  (p.states.foldlM (lastTimeRound state) (0, 0)).map Prod.fst

def waitingTime (p : Process) : Option Int := p.stateLastTime .ready

def cpuTime (p : Process) : Option Int := p.stateLastTime .running

def ioTime (p : Process) : Option Int := p.stateLastTime .waiting

def newTime (p : Process) : Int :=
  match p.states with
  | first :: second :: _ => second.2 - first.2
  | _ => 0

end Process

/-- What the loop for a state counts of the time between two entries. -/
def counted (state : Mark) (a b : Mark × Int) : Int :=
  if a.1 = state ∧ a.1 ≠ b.1 ∧ a.2 ≠ 0 then b.2 - a.2 else 0

def total (state : Mark) : List (Mark × Int) → Int
  | a :: b :: rest => counted state a b + total state (b :: rest)
  | _ => 0

/-- Time goes by only behind an entry that is not of tick 0 and not repeated by the next one. -/
def Timed (states : List (Mark × Int)) : Prop := states.IsChain fun a b => a.2 < b.2 → a.2 ≠ 0 ∧ a.1 ≠ b.1

instance (states : List (Mark × Int)) : Decidable (Timed states) := inferInstanceAs (Decidable (List.IsChain _ _))

section Loop

variable {state : Mark} {a b : Mark × Int} {l : List (Mark × Int)} {time : Int}

theorem round_eq (late : a.2 ≤ b.2) (time : Int) :
    Process.lastTimeRound state (time, if a.1 = state then a.2 else 0) b =
      some (time + counted state a b, if b.1 = state then b.2 else 0) := by
  unfold Process.lastTimeRound counted
  dsimp only
  by_cases here : b.1 = state
  · have none : ¬ (a.1 = state ∧ a.1 ≠ b.1 ∧ a.2 ≠ 0) := fun all => all.2.1 (all.1.trans here.symm)
    rw [if_pos here, if_pos here, if_neg none, Int.add_zero]
  · by_cases there : a.1 = state
    · have apart : a.1 ≠ b.1 := fun same => here (same ▸ there)
      by_cases zero : a.2 = 0
      · simp [here, zero]
      · simp [here, there, zero, late, there ▸ apart]
    · simp [here, there]

theorem rounds_eq (ordered : (a :: l).Pairwise fun a b => a.2 ≤ b.2) (time : Int) :
    (l.foldlM (Process.lastTimeRound state) (time, if a.1 = state then a.2 else 0)).map Prod.fst =
      some (time + total state (a :: l)) := by
  induction l generalizing a time with
  | nil => simp [total]
  | cons b l ih =>
    rw [List.pairwise_cons] at ordered
    have late := ordered.1 b List.mem_cons_self
    rw [List.foldlM_cons, round_eq late, Option.bind_eq_bind, Option.bind_some, ih ordered.2, total, Int.add_assoc]

theorem counted_all (busy : a.1 ≠ .new ∧ a.1 ≠ .exit) :
    counted .ready a b + counted .running a b + counted .waiting a b =
      if a.1 ≠ b.1 ∧ a.2 ≠ 0 then b.2 - a.2 else 0 := by
  unfold counted
  rcases a with ⟨m, t⟩
  cases m with
  | new => exact absurd rfl busy.1
  | exit => exact absurd rfl busy.2
  | ready => simp
  | running => simp
  | waiting => simp

/-- The three loops count no time twice, and all of it where every entry is timed. -/
theorem total_all (ordered : (a :: l).Pairwise fun a b => a.2 ≤ b.2)
    (busy : ∀ s ∈ (a :: l).dropLast, s.1 ≠ .new ∧ s.1 ≠ .exit) :
    total .ready (a :: l) + total .running (a :: l) + total .waiting (a :: l) ≤
        ((a :: l).getLast (List.cons_ne_nil a l)).2 - a.2 ∧
      (total .ready (a :: l) + total .running (a :: l) + total .waiting (a :: l) =
        ((a :: l).getLast (List.cons_ne_nil a l)).2 - a.2 ↔ Timed (a :: l)) := by
  induction l generalizing a with
  | nil => simp [total, Timed]
  | cons b l ih =>
    rw [List.pairwise_cons] at ordered
    have late := ordered.1 b List.mem_cons_self
    have here := busy a (by simp)
    have rest := ih ordered.2 fun s member => busy s (List.mem_cons_of_mem a member)
    have gap := counted_all (b := b) here
    have chain : Timed (a :: b :: l) ↔ (a.2 < b.2 → a.2 ≠ 0 ∧ a.1 ≠ b.1) ∧ Timed (b :: l) := List.isChain_cons_cons
    rw [chain, ← rest.2, List.getLast_cons_cons]
    simp only [total]
    split at gap
    · rename_i both
      have kept : (a.2 < b.2 → a.2 ≠ 0 ∧ a.1 ≠ b.1) ↔ True := iff_true_intro fun _ => ⟨both.2, both.1⟩
      rw [kept, true_and]
      omega
    · rename_i lost
      have none : (a.2 < b.2 → a.2 ≠ 0 ∧ a.1 ≠ b.1) ↔ ¬ a.2 < b.2 :=
        ⟨fun told later => lost (told later).symm, fun same later => absurd later same⟩
      rw [none]
      omega

end Loop

section Whole

variable {p : Process} {lines : List Text} {r : LogReader}

theorem stateLastTime_eq (recorded : Recorded lines p) {state : Mark} (other : state ≠ .new) :
    p.stateLastTime state = some (total state p.states) := by
  have first := recorded.first
  have ordered := recorded.ordered
  unfold Process.stateLastTime
  cases states : p.states with
  | nil => exact absurd states p.nonempty
  | cons a l =>
    simp only [states, List.head_cons] at first
    have away : a.1 ≠ state := fun same => other (same.symm.trans first)
    have start : Process.lastTimeRound state (0, 0) a = some (0, if a.1 = state then a.2 else 0) := by
      simp [Process.lastTimeRound, away]
    rw [states] at ordered
    rw [List.foldlM_cons, start, Option.bind_eq_bind, Option.bind_some, rounds_eq ordered, Int.zero_add]

theorem total_new {a b : Mark × Int} {l : List (Mark × Int)} (first : a.1 = .new) {state : Mark} (other : state ≠ .new) :
    total state (a :: b :: l) = total state (b :: l) := by
  have none : ¬ (a.1 = state ∧ a.1 ≠ b.1 ∧ a.2 ≠ 0) := fun all => other (all.1.symm.trans first)
  rw [total, counted, if_neg none, Int.zero_add]

theorem Recorded.partition (recorded : Recorded lines p) :
    p.newTime + total .ready p.states + total .running p.states + total .waiting p.states = p.turnaroundTime ↔
      Timed p.states.tail := by
  rcases p with ⟨pid, states, nonempty⟩
  rcases states with _ | ⟨a, _ | ⟨b, l⟩⟩
  · exact absurd rfl nonempty
  · simp [Process.newTime, Process.turnaroundTime, Process.last, total, Timed]
  · have first : a.1 = .new := recorded.first
    have ordered := (List.pairwise_cons.mp recorded.ordered).2
    have busy : ∀ s ∈ (b :: l).dropLast, s.1 ≠ .new ∧ s.1 ≠ .exit := fun s member =>
      ⟨recorded.later s (List.dropLast_subset _ member), recorded.ended s (List.mem_cons_of_mem a member)⟩
    have rest := (total_all ordered busy).2
    have span : Process.turnaroundTime ⟨pid, a :: b :: l, nonempty⟩ =
        b.2 - a.2 + (((b :: l).getLast (List.cons_ne_nil b l)).2 - b.2) := by
      unfold Process.turnaroundTime Process.last
      rw [List.getLast_cons_cons, List.head_cons]
      omega
    have ready : total .ready (a :: b :: l) = total .ready (b :: l) := total_new first (by decide)
    have running : total .running (a :: b :: l) = total .running (b :: l) := total_new first (by decide)
    have waiting : total .waiting (a :: b :: l) = total .waiting (b :: l) := total_new first (by decide)
    dsimp only
    rw [ready, running, waiting, span, List.tail_cons, ← rest]
    simp only [Process.newTime]
    omega

/-- The initial state and the three bursts of a process make up its life exactly when, from its second state on, time goes
    by only behind an entry that is not of tick 0 and that the next one does not repeat. -/
theorem bursts_partition (parsed : parseLog lines = .ok r) : ∀ p ∈ r.processes, ∃ waiting cpu io,
    p.waitingTime = some waiting ∧ p.cpuTime = some cpu ∧ p.ioTime = some io ∧
      (p.newTime + waiting + cpu + io = p.turnaroundTime ↔ Timed (life p.pid (entries lines p.pid)).tail) := by
  intro p member
  have recorded := (parseLog_sound parsed).recorded p member
  refine ⟨total .ready p.states, total .running p.states, total .waiting p.states, ?_, ?_, ?_, ?_⟩
  · exact stateLastTime_eq recorded nofun
  · exact stateLastTime_eq recorded nofun
  · exact stateLastTime_eq recorded nofun
  · rw [recorded.partition, recorded.recorded]

theorem busy_partitioned : ∃ r, parseLog busy = .ok r ∧ ∀ p ∈ r.processes, ∃ waiting cpu io,
    p.waitingTime = some waiting ∧ p.cpuTime = some cpu ∧ p.ioTime = some io ∧
      (p.newTime + waiting + cpu + io = p.turnaroundTime ↔ Timed (life p.pid (entries busy p.pid)).tail) := by
  have accepted : (parseLog busy).toOption.isSome = true := by decide
  cases parsed : parseLog busy with
  | error e =>
    rw [parsed] at accepted
    cases accepted
  | ok r => exact ⟨r, rfl, bursts_partition parsed⟩

/-- Process 1 waits from tick 0 to tick 5, and process 0 is said to run at tick 40 and again at tick 50. -/
def lost : List Text :=
  ["1\tN\t0\n".toList, "1\tJ\t0\n".toList, "1\tR\t5\n".toList, "1\tE\t7\n".toList, "0\tR\t50\n".toList, "0\tJ\t60\n".toList]

theorem intervals_lost : ∃ r, parseLog lost = .ok r ∧ r.processes.map Process.pid = [0, 1] ∧
    ∀ p ∈ r.processes, (do
      let waiting ← p.waitingTime
      let cpu ← p.cpuTime
      let io ← p.ioTime
      return p.newTime + waiting + cpu + io) ≠ some p.turnaroundTime := by
  have ran : ((parseLog lost).toOption.any fun r => r.processes.map Process.pid = [0, 1] ∧
      ∀ p ∈ r.processes, (do
        let waiting ← p.waitingTime
        let cpu ← p.cpuTime
        let io ← p.ioTime
        return p.newTime + waiting + cpu + io) ≠ some p.turnaroundTime) = true := by decide
  rcases (Option.any_eq_true _ _).mp ran with ⟨r, ends, both⟩
  cases parsed : parseLog lost with
  | error e =>
    rw [parsed] at ends
    cases ends
  | ok r' =>
    rw [parsed] at ends
    cases ends
    exact ⟨r, rfl, of_decide_eq_true both⟩

end Whole

end Linux011.LifeCycle

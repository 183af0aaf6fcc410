import Linux011.LifeCycle.Bursts
import Mathlib.Data.Rat.Defs
import Mathlib.Order.Bounds.Basic

namespace Linux011.LifeCycle

namespace Pool

/-- The loop of `remove` goes on behind the process that has moved up. -/
def remove (pid : Int) : Pool → Pool
  | [] => []
  | [p] => if p.pid = pid then [] else [p]
  | p :: q :: rest => if p.pid = pid then q :: remove pid rest else p :: remove pid (q :: rest)

/-- The pool of a `statistics` object. -/
def select (pool : Pool) (included excluded : List Int) : Pool :=
  excluded.foldl (fun pool pid => if (pool.getProcess pid).isSome then pool.remove pid else pool)
    (if included ≠ [] then pool.filter fun p => p.pid ∈ included else pool)

def beginTime (pool : Pool) : Int :=
  pool.foldl (fun first p => if p.beginTime < first then p.beginTime else first) 0xEFFFFF

def endTime (pool : Pool) : Int :=
  pool.foldl (fun last p => if last < p.endTime then p.endTime else last) 0

def HZ : Int := 100

/-- The quotient, before it is rounded to a `float`; `none` is a `ZeroDivisionError`. -/
def throughput (pool : Pool) : Option ℚ :=
  if pool.endTime - pool.beginTime = 0 then none
  else some (((pool.length * HZ : Int) : ℚ) / ((pool.endTime - pool.beginTime : Int) : ℚ))

end Pool

/-- A process the statistics are about, by the log and the arguments. -/
def Selected (lines : List Text) (included excluded : List Int) (pid : Int) : Prop :=
  (pid = 0 ∨ entries lines pid ≠ []) ∧ (included = [] ∨ pid ∈ included) ∧ pid ∉ excluded

def lastTick (pid : Int) (es : List Entry) : Int := ((life pid es).getLast (List.cons_ne_nil _ _)).2

section Loop

variable {α β : Type} [LinearOrder β] (f : α → β) (l : List α)

theorem foldl_isLeast (start : β) :
    IsLeast (insert start {b | ∃ a ∈ l, f a = b}) (l.foldl (fun best a => if f a < best then f a else best) start) := by
  induction l generalizing start with
  | nil => simp [IsLeast, lowerBounds]
  | cons a l ih =>
    rcases ih (if f a < start then f a else start) with ⟨member, least⟩
    constructor
    · rcases member with same | ⟨b, there, same⟩
      · rw [List.foldl_cons, same]
        split
        · exact .inr ⟨a, List.mem_cons_self, rfl⟩
        · exact .inl rfl
      · exact .inr ⟨b, List.mem_cons_of_mem a there, same⟩
    · have first := least (.inl rfl)
      intro b among
      rw [List.foldl_cons]
      rcases among with rfl | ⟨c, there, rfl⟩
      · apply first.trans
        split
        · rename_i less
          exact less.le
        · exact le_refl _
      · rcases List.mem_cons.mp there with rfl | later
        · apply first.trans
          split
          · exact le_refl _
          · rename_i more
            exact not_lt.mp more
        · exact least (.inr ⟨c, later, rfl⟩)

theorem foldl_isGreatest (start : β) :
    IsGreatest (insert start {b | ∃ a ∈ l, f a = b}) (l.foldl (fun best a => if best < f a then f a else best) start) :=
  foldl_isLeast (β := βᵒᵈ) f l start

end Loop

section Selection

variable {pool : Pool} {p : Process} {pid : Int} {included excluded : List Int}

theorem filter_absent (absent : pid ∉ pool.map Process.pid) : (pool.filter fun p => p.pid ≠ pid) = pool := by
  rw [List.filter_eq_self]
  intro p member
  have other : p.pid ≠ pid := fun same => absent (same ▸ List.mem_map_of_mem member)
  simpa using other

theorem remove_eq (unique : (pool.map Process.pid).Nodup) : pool.remove pid = pool.filter fun p => p.pid ≠ pid := by
  induction pool using Pool.remove.induct pid with
  | case1 => rfl
  | case2 p same => simp [Pool.remove, same]
  | case3 p other => simp [Pool.remove, other]
  | case4 p q rest same ih =>
    simp only [List.map_cons, List.nodup_cons, List.mem_cons, not_or] at unique
    rcases unique with ⟨⟨here, absent⟩, _, unique⟩
    have apart : q.pid ≠ pid := fun again => here (same.trans again.symm)
    rw [Pool.remove, if_pos same, ih unique, List.filter_cons_of_neg (by simpa using same),
      List.filter_cons_of_pos (by simpa using apart)]
  | case5 p q rest other ih =>
    rw [List.map_cons, List.nodup_cons] at unique
    rw [Pool.remove, if_neg other, ih unique.2]
    exact (List.filter_cons_of_pos (by simpa using other)).symm

theorem unique_filter (unique : (pool.map Process.pid).Nodup) (chosen : Process → Bool) :
    ((pool.filter chosen).map Process.pid).Nodup :=
  unique.sublist (List.filter_sublist.map Process.pid)

theorem excluded_eq (unique : (pool.map Process.pid).Nodup) :
    (excluded.foldl (fun pool pid => if (pool.getProcess pid).isSome then pool.remove pid else pool) pool) =
      pool.filter fun p => p.pid ∉ excluded := by
  induction excluded generalizing pool with
  | nil => simp
  | cons pid excluded ih =>
    have first : (if (pool.getProcess pid).isSome then pool.remove pid else pool) = pool.filter fun p => p.pid ≠ pid := by
      split
      · exact remove_eq unique
      · rename_i none
        exact (filter_absent (unknown_pid (Option.not_isSome_iff_eq_none.mp none))).symm
    rw [List.foldl_cons, first, ih (unique_filter unique _), List.filter_filter]
    apply List.filter_congr
    intro p _
    simp [Bool.and_comm]

theorem select_eq (unique : (pool.map Process.pid).Nodup) : pool.select included excluded =
    pool.filter fun p => (included = [] ∨ p.pid ∈ included) ∧ p.pid ∉ excluded := by
  unfold Pool.select
  split
  · rename_i some
    rw [excluded_eq (unique_filter unique _), List.filter_filter]
    apply List.filter_congr
    intro p _
    simp [some, Bool.and_comm]
  · rename_i none
    rw [excluded_eq unique]
    apply List.filter_congr
    intro p _
    simp [not_not.mp none]

end Selection

section Extremes

variable {lines : List Text} {r : LogReader} {p : Process} {pid : Int} {included excluded : List Int}

theorem Recorded.begins (recorded : Recorded lines p) : p.beginTime = born (entries lines p.pid) := by
  simp [Process.beginTime, recorded.recorded, life]

theorem Recorded.ends (recorded : Recorded lines p) : p.endTime = lastTick p.pid (entries lines p.pid) := by
  simp [Process.endTime, Process.last, recorded.recorded, lastTick]

theorem Recorded.spans (recorded : Recorded lines p) : p.beginTime ≤ p.endTime :=
  before_last recorded.ordered (List.head_mem p.nonempty)

theorem Sound.selected (sound : Sound lines r) : Selected lines included excluded pid ↔
    ∃ p ∈ r.processes.select included excluded, p.pid = pid := by
  simp only [select_eq sound.unique, List.mem_filter, decide_eq_true_eq]
  constructor
  · rintro ⟨there, chosen⟩
    have known : pid ∈ r.processes.map Process.pid := by
      rcases there with rfl | some
      · exact sound.idle
      · by_contra unknown
        exact some (sound.none unknown)
    rcases List.mem_map.mp known with ⟨p, member, rfl⟩
    exact ⟨p, ⟨member, chosen⟩, rfl⟩
  · rintro ⟨p, ⟨member, chosen⟩, rfl⟩
    refine ⟨?_, chosen⟩
    by_cases idle : p.pid = 0
    · exact .inl idle
    · right
      intro none
      have states := (sound.recorded p member).once idle
      rw [none] at states
      exact p.nonempty states

theorem Sound.mem (sound : Sound lines r) (member : p ∈ r.processes.select included excluded) : Recorded lines p := by
  rw [select_eq sound.unique] at member
  exact sound.recorded p (List.mem_of_mem_filter member)

/-- The statistics of a selection are what they should be exactly when one of its processes begins by the tick the minimum
    starts from, and one ends later than one begins. -/
theorem statistics_exact (parsed : parseLog lines = .ok r) (included excluded : List Int) :
    let pool := r.processes.select included excluded
    (IsLeast {t | ∃ p ∈ pool, p.beginTime = t} pool.beginTime ∧ IsGreatest {t | ∃ p ∈ pool, p.endTime = t} pool.endTime ∧
      pool.throughput = some (((pool.length * Pool.HZ : Int) : ℚ) / ((pool.endTime - pool.beginTime : Int) : ℚ))) ↔
    (∃ pid, Selected lines included excluded pid ∧ born (entries lines pid) ≤ 0xEFFFFF) ∧
      ∃ pid pid', Selected lines included excluded pid ∧ Selected lines included excluded pid' ∧
        born (entries lines pid) < lastTick pid' (entries lines pid') := by
  intro pool
  have sound := parseLog_sound parsed
  have recorded : ∀ p ∈ pool, Recorded lines p := fun p member => sound.mem member
  have first : IsLeast _ pool.beginTime := foldl_isLeast Process.beginTime pool 0xEFFFFF
  have last : IsGreatest _ pool.endTime := foldl_isGreatest Process.endTime pool 0
  constructor
  · rintro ⟨⟨begins, _⟩, ⟨ends, _⟩, quotient⟩
    rcases begins with ⟨p, member, begins⟩
    rcases ends with ⟨q, member', ends⟩
    have early := first.2 (.inl rfl)
    have span := (recorded p member).spans
    have least := last.2 (.inr ⟨p, member, rfl⟩)
    have apart : pool.endTime - pool.beginTime ≠ 0 := by
      intro same
      rw [Pool.throughput, if_pos same] at quotient
      cases quotient
    refine ⟨⟨p.pid, sound.selected.mpr ⟨p, member, rfl⟩, ?_⟩,
      p.pid, q.pid, sound.selected.mpr ⟨p, member, rfl⟩, sound.selected.mpr ⟨q, member', rfl⟩, ?_⟩
    · rw [← (recorded p member).begins, begins]
      exact early
    · rw [← (recorded p member).begins, ← (recorded q member').ends]
      omega
  · rintro ⟨⟨pid, selected, early⟩, pid', pid'', selected', selected'', elapsed⟩
    rcases sound.selected.mp selected with ⟨p, member, rfl⟩
    rcases sound.selected.mp selected' with ⟨p', member', rfl⟩
    rcases sound.selected.mp selected'' with ⟨q, member'', rfl⟩
    rw [← (recorded p member).begins] at early
    rw [← (recorded p' member').begins, ← (recorded q member'').ends] at elapsed
    have below := first.2 (.inr ⟨p, member, rfl⟩)
    have below' := first.2 (.inr ⟨p', member', rfl⟩)
    have above := last.2 (.inr ⟨q, member'', rfl⟩)
    refine ⟨⟨?_, fun b among => first.2 (.inr among)⟩, ⟨?_, fun b among => last.2 (.inr among)⟩, ?_⟩
    · rcases first.1 with same | among
      · exact ⟨p, member, by omega⟩
      · exact among
    · rcases last.1 with same | among
      · have start := (recorded q member'').start q.last (List.getLast_mem q.nonempty)
        exact ⟨q, member'', Int.le_antisymm above (same ▸ start)⟩
      · exact among
    · have apart : pool.endTime - pool.beginTime ≠ 0 := by omega
      exact if_neg apart

theorem busy_statistics : ∃ r, parseLog busy = .ok r ∧
    let pool := r.processes.select [1] []
    (IsLeast {t | ∃ p ∈ pool, p.beginTime = t} pool.beginTime ∧ IsGreatest {t | ∃ p ∈ pool, p.endTime = t} pool.endTime ∧
      pool.throughput = some (((pool.length * Pool.HZ : Int) : ℚ) / ((pool.endTime - pool.beginTime : Int) : ℚ))) ↔
    (∃ pid, Selected busy [1] [] pid ∧ born (entries busy pid) ≤ 0xEFFFFF) ∧
      ∃ pid pid', Selected busy [1] [] pid ∧ Selected busy [1] [] pid' ∧
        born (entries busy pid) < lastTick pid' (entries busy pid') := by
  have accepted : (parseLog busy).toOption.isSome = true := by decide
  cases parsed : parseLog busy with
  | error e =>
    rw [parsed] at accepted
    cases accepted
  | ok r => exact ⟨r, rfl, statistics_exact parsed [1] []⟩

/-- Process 1 lives from tick 15728640 to tick 15728700. -/
def late : List Text := ["1\tN\t15728640\n".toList, "1\tE\t15728700\n".toList]

/-- An empty log ends in a division by zero, and process 1 is said to begin a tick before it does. -/
theorem statistics_wrong :
    (∃ r, parseLog [] = .ok r ∧ r.processes.select [] [] ≠ [] ∧ (r.processes.select [] []).throughput = none) ∧
    ∃ r, parseLog late = .ok r ∧ (r.processes.select [1] []).map Process.beginTime = [15728640] ∧
      (r.processes.select [1] []).beginTime = 15728639 := by
  constructor
  · exact ⟨_, rfl, nofun, rfl⟩
  · have ran : ((parseLog late).toOption.any fun r => (r.processes.select [1] []).map Process.beginTime = [15728640] ∧
        (r.processes.select [1] []).beginTime = 15728639) = true := by decide
    rcases (Option.any_eq_true _ _).mp ran with ⟨r, ends, both⟩
    cases parsed : parseLog late with
    | error e =>
      rw [parsed] at ends
      cases ends
    | ok r' =>
      rw [parsed] at ends
      cases ends
      exact ⟨r, rfl, of_decide_eq_true both⟩

end Extremes

end Linux011.LifeCycle

import Mathlib.Data.List.Basic
import Mathlib.Data.List.Chain

namespace Linux011.LifeCycle

/-- The states `P_NEW`, `P_READY`, `P_RUNNING`, `P_WAITING` and `P_EXIT` of `stat_log.py`. -/
inductive Mark
  | new
  | ready
  | running
  | waiting
  | exit
  deriving DecidableEq, Repr

def Mark.letter : Mark → Char
  | new => 'N'
  | ready => 'J'
  | running => 'R'
  | waiting => 'W'
  | exit => 'E'

def Mark.ofLetter (s : Char) : Option Mark :=
  [new, ready, running, waiting, exit].find? fun m => m.letter = s

/-- The fields of a line of `process.log`. -/
structure Line where
  pid : Int
  letter : Char
  time : Int
  deriving DecidableEq, Repr

def Line.mark (line : Line) : Option Mark := Mark.ofLetter line.letter.toUpper

inductive MyError
  | duplicateNew (pid : Int)
  | unknownState (state : Char)
  | badTime (time : Int)
  | taskHasExited (state : Mark)
  | repeatState (pid : Int)
  | sameLine
  | noNew (pid : Int) (state : Char)
  deriving DecidableEq, Repr

structure Process where
  pid : Int
  states : List (Mark × Int)
  nonempty : states ≠ []

namespace Process

def last (p : Process) : Mark × Int := p.states.getLast p.nonempty

def changeState (p : Process) (state : Mark) (time : Int) : Except MyError Process :=
  if state = .new then .error (.duplicateNew p.pid)
  else if time < p.last.2 then .error (.badTime time)
  else if p.last.1 = .exit then .error (.taskHasExited state)
  else if p.last.1 = state ∧ p.pid ≠ 0 then .error (.repeatState p.pid)
  else .ok { p with states := p.states ++ [(state, time)], nonempty := List.append_ne_nil_of_right_ne_nil _ (by simp) }

end Process

/-- The list of a `process_pool`. -/
abbrev Pool := List Process

namespace Pool

def getProcess (pool : Pool) (pid : Int) : Option Process := pool.find? fun p => p.pid = pid

/-- What the pool holds once the process object found under a pid has been changed. -/
def changed : Pool → Process → Pool
  | [], _ => []
  | q :: rest, p => if q.pid = p.pid then p :: rest else q :: changed rest p

def new (pool : Pool) (pid time : Int) : Except MyError Pool :=
  match pool.getProcess pid with
  | some p =>
    if pid ≠ 0 then .error (.duplicateNew pid)
    else .ok (pool.changed { p with states := [(.new, time)], nonempty := by simp })
  | none => .ok (pool ++ [⟨pid, [(.new, time)], by simp⟩])

end Pool

structure Reader where
  processes : Pool
  prevTime : Int
  prevLine : Option Line

/-- One round of the parsing loop. -/
def Reader.read (r : Reader) (line : Line) : Except MyError Reader :=
  if r.prevLine = some line then .error .sameLine
  else if line.time < r.prevTime then .error (.badTime line.time)
  else
    match line.mark with
    | none => .error (.unknownState line.letter.toUpper)
    | some .new =>
      match r.processes.new line.pid line.time with
      | .ok processes => .ok ⟨processes, line.time, some line⟩
      | .error e => .error e
    | some state =>
      match r.processes.getProcess line.pid with
      | none => .error (.noNew line.pid line.letter.toUpper)
      | some p =>
        match p.changeState state line.time with
        | .ok p => .ok ⟨r.processes.changed p, line.time, some line⟩
        | .error e => .error e

def patched : Reader := ⟨[⟨0, [(.new, 40), (.running, 40)], by simp⟩], 0, none⟩

def parse (lines : List Line) : Except MyError Reader := lines.foldlM Reader.read patched

def marks (lines : List Line) (pid : Int) : List Mark :=
  lines.filterMap fun line => if line.pid = pid then line.mark else none

def lastMark (lines : List Line) (pid : Int) : Option Mark := (marks lines pid).getLast?

/-- Which entry may come next. -/
def Follows : Option Mark → Mark → Prop
  | none, .new | some .new, .ready | some .ready, .running | some .running, .ready | some .running, .waiting
  | some .running, .exit | some .waiting, .ready => True
  | _, _ => False

namespace Follows

variable {o : Option Mark} {m : Mark}

theorem of_new (follows : Follows o .new) : o = none := by
  rcases o with _ | _ | _ | _ | _ | _ <;> first | rfl | exact follows.elim

theorem of_none (follows : Follows none m) : m = .new := by
  cases m <;> first | rfl | exact follows.elim

theorem not_self : ¬ Follows (some m) m := by
  cases m <;> exact id

theorem not_exit : ¬ Follows (some .exit) m := by
  cases m <;> exact id

end Follows

/-- A line that continues a log as the life of its process does. -/
structure Fits (lines : List Line) (line : Line) (m : Mark) : Prop where
  mark : line.mark = some m
  start : 0 ≤ line.time
  late : ∀ earlier ∈ lines, earlier.time ≤ line.time
  follows : line.pid ≠ 0 → Follows (lastMark lines line.pid) m
  idle : line.pid = 0 → m ≠ .new ∧ m ≠ .exit ∧ 40 ≤ line.time

inductive Written : List Line → Prop
  | nil : Written []
  | snoc {lines : List Line} {line : Line} {m : Mark} (written : Written lines) (fits : Fits lines line m) :
      Written (lines ++ [line])

/-- `N`, `J`, then entries among `J`, `R` and `W` and perhaps a last `E`, none repeating the one before. -/
def Lawful (entries : List Mark) : Prop :=
  ∃ rest, entries = .new :: .ready :: rest ∧ .new ∉ rest ∧ .exit ∉ entries.dropLast ∧ entries.IsChain (· ≠ ·)

section Entries

variable {lines : List Line} {line : Line} {m : Mark} {pid : Int}

@[simp] theorem mark_letter (m : Mark) (pid time : Int) : (Line.mk pid m.letter time).mark = some m := by
  cases m <;> rfl

theorem marks_snoc (mark : line.mark = some m) :
    marks (lines ++ [line]) pid = if line.pid = pid then marks lines pid ++ [m] else marks lines pid := by
  unfold marks
  rw [List.filterMap_append]
  split <;> simp_all

theorem lastMark_snoc (mark : line.mark = some m) :
    lastMark (lines ++ [line]) pid = if line.pid = pid then some m else lastMark lines pid := by
  unfold lastMark
  rw [marks_snoc mark]
  split <;> simp

theorem lastMark_none (unknown : ∀ line ∈ lines, line.pid ≠ pid) : lastMark lines pid = none := by
  unfold lastMark marks
  rw [List.getLast?_eq_none_iff, List.filterMap_eq_nil_iff]
  intro line member
  rw [if_neg (unknown line member)]

theorem Lawful.snoc {entries : List Mark} (lawful : Lawful entries) (follows : Follows entries.getLast? m) :
    Lawful (entries ++ [m]) := by
  obtain ⟨rest, rfl, later, last, apart⟩ := lawful
  obtain ⟨before, x, split⟩ : ∃ before x, Mark.new :: .ready :: rest = before ++ [x] :=
    ⟨_, _, (List.dropLast_append_getLast (List.cons_ne_nil _ _)).symm⟩
  rw [split] at follows last apart
  rw [List.getLast?_concat] at follows
  rw [List.dropLast_concat] at last
  refine ⟨rest ++ [m], rfl, ?_, ?_, ?_⟩
  · intro member
    rcases List.mem_append.mp member with member | member
    · exact later member
    · rw [List.mem_singleton] at member
      subst member
      cases follows.of_new
  · rw [split, List.dropLast_concat]
    intro member
    rcases List.mem_append.mp member with member | member
    · exact last member
    · rw [List.mem_singleton] at member
      subst member
      exact Follows.not_exit follows
  · rw [split]
    apply apart.append (List.isChain_singleton m)
    intro a is b is'
    rw [List.getLast?_concat] at is
    cases is
    cases is'
    rintro rfl
    exact Follows.not_self follows

theorem Written.lawful (written : Written lines) (other : pid ≠ 0) :
    marks lines pid = [] ∨ marks lines pid = [.new] ∨ Lawful (marks lines pid) := by
  induction written with
  | nil => exact .inl rfl
  | @snoc lines line m _ fits ih =>
    rw [marks_snoc fits.mark]
    split
    · rename_i same
      subst same
      have follows := fits.follows other
      rw [lastMark] at follows
      rcases ih with empty | first | lawful
      · rw [empty] at follows ⊢
        cases Follows.of_none follows
        exact .inr (.inl rfl)
      · rw [first] at follows ⊢
        cases m <;> first | exact follows.elim | exact .inr (.inr ⟨[], rfl, by simp, by simp, by simp⟩)
      · exact .inr (.inr (lawful.snoc follows))
    · exact ih

end Entries

section Reading

variable {pool : Pool} {p : Process} {pid : Int}

theorem getProcess_pid (found : pool.getProcess pid = some p) : p.pid = pid := by
  simpa using List.find?_some found

theorem getProcess_changed {q : Process} (known : pool.getProcess p.pid = some q) :
    (pool.changed p).getProcess pid = if p.pid = pid then some p else pool.getProcess pid := by
  induction pool with
  | nil => cases known
  | cons r rest ih =>
    unfold Pool.getProcess at known ih ⊢
    unfold Pool.changed
    by_cases mine : r.pid = p.pid
    · rw [if_pos mine, List.find?_cons]
      by_cases same : p.pid = pid
      · simp [same]
      · simp [same, mine]
    · rw [List.find?_cons_of_neg (by simpa using mine)] at known
      rw [if_neg mine, List.find?_cons, List.find?_cons, ih known]
      by_cases same : p.pid = pid
      · subst same
        simp [mine]
      · simp [same]

theorem getProcess_appended (unknown : pool.getProcess p.pid = none) :
    Pool.getProcess (pool ++ [p]) pid = if p.pid = pid then some p else pool.getProcess pid := by
  unfold Pool.getProcess at unknown ⊢
  rw [List.find?_append]
  by_cases same : p.pid = pid
  · subst same
    rw [unknown]
    simp
  · simp [same]

/-- What the parser remembers of the lines it has read. -/
structure Agrees (r : Reader) (lines : List Line) : Prop where
  time : ∀ t, 0 ≤ t → (∀ line ∈ lines, line.time ≤ t) → r.prevTime ≤ t
  known : ∀ pid, pid ≠ 0 → (r.processes.getProcess pid).map (fun p => p.last.1) = lastMark lines pid
  idle : ∃ p, r.processes.getProcess 0 = some p ∧ p.last.1 ≠ .exit
  past : ∀ pid p t, r.processes.getProcess pid = some p → 0 ≤ t → (pid = 0 → 40 ≤ t) →
    (∀ line ∈ lines, line.time ≤ t) → p.last.2 ≤ t

theorem patched_agrees : Agrees patched [] where
  time _ start _ := start
  known pid other := by
    have apart : ¬ (0 : Int) = pid := fun same => other same.symm
    simp [patched, Pool.getProcess, lastMark, marks, apart]
  idle := ⟨_, rfl, by simp [Process.last]⟩
  past pid p t found _ late _ := by
    have same : p.pid = pid := getProcess_pid found
    have idle : pid = 0 := by
      by_contra other
      have apart : ¬ (0 : Int) = pid := fun same => other same.symm
      simp [patched, Pool.getProcess, apart] at found
    subst idle
    cases found
    exact late rfl

variable {r : Reader} {lines : List Line} {line : Line} {m : Mark}

theorem Agrees.appended (agrees : Agrees r lines) (fits : Fits lines line m) {processes : Pool}
    (last : p.last = (m, line.time)) (mine : p.pid = line.pid)
    (found : ∀ pid, processes.getProcess pid = if p.pid = pid then some p else r.processes.getProcess pid) :
    Agrees ⟨processes, line.time, some line⟩ (lines ++ [line]) where
  time t _ late := late line (by simp)
  known pid other := by
    rw [found, lastMark_snoc fits.mark, mine]
    split
    · simp [last]
    · exact agrees.known pid other
  idle := by
    rw [found]
    split
    · rename_i same
      refine ⟨p, rfl, ?_⟩
      rw [last]
      exact (fits.idle (mine ▸ same)).2.1
    · exact agrees.idle
  past pid q t here start idle late := by
    rw [found] at here
    split at here
    · cases here
      rw [last]
      exact late line (by simp)
    · exact agrees.past pid q t here start idle fun earlier member => late earlier (by simp [member])

theorem changeState_follows (follows : p.pid ≠ 0 → Follows (some p.last.1) m) (other : m ≠ .new)
    (time : p.last.2 ≤ line.time) (alive : p.last.1 ≠ .exit) :
    ∃ q, p.changeState m line.time = .ok q ∧ q.pid = p.pid ∧ q.last = (m, line.time) := by
  have apart : ¬ (p.last.1 = m ∧ p.pid ≠ 0) := by
    rintro ⟨same, here⟩
    exact Follows.not_self (same ▸ follows here)
  refine ⟨⟨p.pid, p.states ++ [(m, line.time)], by simp⟩, ?_, rfl, by simp [Process.last]⟩
  unfold Process.changeState
  rw [if_neg other, if_neg (Int.not_lt.mpr time), if_neg alive, if_neg apart]

theorem Agrees.read (agrees : Agrees r lines) (fits : Fits lines line m) :
    r.read line = .error .sameLine ∨ ∃ r', r.read line = .ok r' ∧ Agrees r' (lines ++ [line]) := by
  unfold Reader.read
  by_cases same : r.prevLine = some line
  · rw [if_pos same]
    exact .inl rfl
  · rw [if_neg same, if_neg (Int.not_lt.mpr (agrees.time line.time fits.start fits.late)), fits.mark]
    right
    by_cases first : m = .new
    · subst first
      have other : line.pid ≠ 0 := fun idle => (fits.idle idle).1 rfl
      have unknown : r.processes.getProcess line.pid = none := by
        have here := agrees.known line.pid other
        rw [Follows.of_new (fits.follows other)] at here
        exact Option.map_eq_none_iff.mp here
      have fresh : r.processes.new line.pid line.time = .ok (r.processes ++ [⟨line.pid, [(.new, line.time)], by simp⟩]) := by
        unfold Pool.new
        rw [unknown]
      simp only [fresh]
      refine ⟨_, rfl, agrees.appended fits (p := ⟨line.pid, [(.new, line.time)], by simp⟩) rfl rfl fun pid => ?_⟩
      exact getProcess_appended unknown
    · obtain ⟨p, known, alive, follows⟩ : ∃ p, r.processes.getProcess line.pid = some p ∧ p.last.1 ≠ .exit ∧
          (p.pid ≠ 0 → Follows (some p.last.1) m) := by
        by_cases idle : line.pid = 0
        · obtain ⟨p, known, alive⟩ := agrees.idle
          refine ⟨p, idle ▸ known, alive, fun other => absurd (getProcess_pid known) other⟩
        · have here := agrees.known line.pid idle
          have follows := fits.follows idle
          rw [← here] at follows
          cases known : r.processes.getProcess line.pid with
          | none =>
            rw [known] at follows
            exact absurd (Follows.of_none follows) first
          | some p =>
            rw [known] at follows
            refine ⟨p, rfl, ?_, fun _ => follows⟩
            intro ended
            rw [Option.map_some, ended] at follows
            exact Follows.not_exit follows
      have mine := getProcess_pid known
      have time := agrees.past line.pid p line.time known fits.start (fun idle => (fits.idle idle).2.2) fits.late
      obtain ⟨q, appended, pid, last⟩ := changeState_follows follows first time alive
      refine ⟨⟨r.processes.changed q, line.time, some line⟩, ?_, ?_⟩
      · cases m <;> first | exact absurd rfl first | simp only [known, appended]
      · apply agrees.appended fits last (pid.trans mine)
        intro pid'
        exact getProcess_changed (by rw [pid, mine]; exact known)

/-- The parser takes a log that fits, but for a line it finds twice in a row. -/
theorem Written.accepted (written : Written lines) :
    parse lines = .error .sameLine ∨ ∃ r, parse lines = .ok r ∧ Agrees r lines := by
  induction written with
  | nil => exact .inr ⟨patched, rfl, patched_agrees⟩
  | snoc _ fits ih =>
    have last (lines : List Line) (line : Line) : parse (lines ++ [line]) = parse lines >>= fun r => r.read line := by
      unfold parse
      rw [List.foldlM_append]
      simp
    rw [last]
    rcases ih with twice | ⟨r, read, agrees⟩
    · rw [twice]
      exact .inl rfl
    · rw [read]
      exact agrees.read fits

end Reading

end Linux011.LifeCycle

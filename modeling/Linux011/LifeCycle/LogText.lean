import Linux011.LifeCycle.StatLog
import Mathlib.Data.List.DropRight

namespace Linux011.LifeCycle

/-- A string of `stat_log.py`. -/
abbrev Text := List Char

def isspace (c : Char) : Bool := c ∈ [' ', '\t', '\n', '\x0b', '\x0c', '\r']

def strip (s : Text) : Text := (s.dropWhile isspace).rdropWhile isspace

def digits (s : Text) : Option Nat :=
  if s ≠ [] ∧ s.all Char.isDigit then some (s.foldl (fun n c => 10 * n + (c.toNat - 48)) 0) else none

/-- `int` of a string: decimal digits, perhaps with a sign, between white space. -/
def int (s : Text) : Option Int :=
  match strip s with
  | '-' :: s => (digits s).map fun n => -(n : Int)
  | '+' :: s => (digits s).map fun n => (n : Int)
  | s => (digits s).map fun n => (n : Int)

def Mark.ofText (s : Text) : Option Mark := [new, ready, running, waiting, exit].find? fun m => [m.letter] = s

/-- What ends the loop before the file does: a `MyError`, or the `ValueError` of `int`. -/
inductive LogError
  | my (error : MyError)
  | badFormat
  | unknownState (state : Text)
  | valueError (literal : Text)
  deriving DecidableEq, Repr

/-- The variables of the parsing loop, with the lines as they stand in the file. -/
structure LogReader where
  processes : Pool
  prevTime : Int
  prevLine : Text

def LogReader.enter (r : LogReader) (line : Text) (pid : Int) (s : Text) (time : Int) : Except LogError LogReader :=
  match Mark.ofText s with
  | none => .error (.unknownState s)
  | some .new =>
    match r.processes.new pid time with
    | .ok processes => .ok ⟨processes, time, line⟩
    | .error e => .error (.my e)
  | some state =>
    match r.processes.getProcess pid with
    | none => .error (.my (.noNew pid state.letter))
    | some p =>
      match p.changeState state time with
      | .ok p => .ok ⟨r.processes.changed p, time, line⟩
      | .error e => .error (.my e)

def LogReader.read (r : LogReader) (line : Text) : Except LogError LogReader :=
  if line = r.prevLine then .error (.my .sameLine)
  else
    match line.splitOn '\t' with
    | [first, second, third] =>
      match int first with
      | none => .error (.valueError first)
      | some pid =>
        match int third with
        | none => .error (.valueError third)
        | some time =>
          if time < r.prevTime then .error (.my (.badTime time))
          else r.enter line pid (second.map Char.toUpper) time
    | _ => .error .badFormat

def parseLog (lines : List Text) : Except LogError LogReader :=
  lines.foldlM LogReader.read ⟨patched.processes, 0, []⟩

structure Entry where
  pid : Int
  mark : Mark
  time : Int
  deriving DecidableEq, Repr

def Entry.stamp (e : Entry) : Mark × Int := (e.mark, e.time)

def entry (line : Text) : Option Entry :=
  match line.splitOn '\t' with
  | [first, second, third] => do
    let pid ← int first
    let mark ← Mark.ofText (second.map Char.toUpper)
    let time ← int third
    return ⟨pid, mark, time⟩
  | _ => none

def entries (lines : List Text) (pid : Int) : List Entry := (lines.filterMap entry).filter fun e => e.pid = pid

/-- The tick of the last `N`, or the one process 0 is given before the loop. -/
def born (es : List Entry) : Int := ((es.filter fun e => e.mark = .new).getLast?.map Entry.time).getD 40

/-- What stands behind the last `N`. -/
def since (es : List Entry) : List Entry := es.rtakeWhile fun e => e.mark ≠ .new

/-- The state process 0 is given before the loop, unless an `N` creates it anew. -/
def patch (pid : Int) (es : List Entry) : List (Mark × Int) :=
  if pid = 0 ∧ ∀ e ∈ es, e.mark ≠ .new then [(.running, 40)] else []

def life (pid : Int) (es : List Entry) : List (Mark × Int) :=
  (.new, born es) :: (patch pid es ++ (since es).map Entry.stamp)

/-- What the parser makes of a process. -/
structure Recorded (lines : List Text) (p : Process) : Prop where
  first : (p.states.head p.nonempty).1 = .new
  later : ∀ s ∈ p.states.tail, s.1 ≠ .new
  ordered : p.states.Pairwise fun a b => a.2 ≤ b.2
  ended : ∀ s ∈ p.states.dropLast, s.1 ≠ .exit
  apart : p.pid ≠ 0 → p.states.IsChain fun a b => a.1 ≠ b.1
  once : p.pid ≠ 0 → p.states = (entries lines p.pid).map Entry.stamp
  recorded : p.states = life p.pid (entries lines p.pid)
  start : ∀ s ∈ p.states, 0 ≤ s.2

section Steps

variable {r r' : LogReader} {line : Text} {lines : List Text} {pool pool' : Pool} {p q : Process} {pid time : Int}
  {m : Mark} {e : Entry}

theorem changeState_cases (changed : p.changeState m time = .ok q) :
    m ≠ .new ∧ p.last.2 ≤ time ∧ p.last.1 ≠ .exit ∧ (p.pid ≠ 0 → p.last.1 ≠ m) ∧
      q.pid = p.pid ∧ q.states = p.states ++ [(m, time)] := by
  unfold Process.changeState at changed
  split at changed
  · cases changed
  · rename_i other
    split at changed
    · cases changed
    · rename_i late
      split at changed
      · cases changed
      · rename_i alive
        split at changed
        · cases changed
        · rename_i apart
          cases changed
          exact ⟨other, Int.not_lt.mp late, alive, fun task same => apart ⟨same, task⟩, rfl, rfl⟩

theorem new_cases (created : pool.new pid time = .ok pool') :
    (pool.getProcess pid = none ∧ pool' = pool ++ [⟨pid, [(.new, time)], by simp⟩]) ∨
      ∃ p, pid = 0 ∧ pool.getProcess pid = some p ∧
        pool' = pool.changed { p with states := [(.new, time)], nonempty := by simp } := by
  unfold Pool.new at created
  split at created
  · rename_i p known
    split at created
    · cases created
    · rename_i idle
      cases created
      exact .inr ⟨p, not_not.mp idle, known, rfl⟩
  · rename_i unknown
    cases created
    exact .inl ⟨unknown, rfl⟩

theorem read_cases (read : r.read line = .ok r') : ∃ e, entry line = some e ∧ r.prevTime ≤ e.time ∧ r'.prevTime = e.time ∧
    (e.mark = .new ∧ r.processes.new e.pid e.time = .ok r'.processes ∨
      ∃ p q, r.processes.getProcess e.pid = some p ∧ p.changeState e.mark e.time = .ok q ∧
        r'.processes = r.processes.changed q) := by
  unfold LogReader.read at read
  split at read
  · cases read
  split at read
  · rename_i first second third fields
    split at read
    · cases read
    rename_i pid isPid
    split at read
    · cases read
    rename_i time isTime
    split at read
    · cases read
    rename_i late
    unfold LogReader.enter at read
    split at read
    · cases read
    · rename_i isNew
      split at read
      · rename_i processes created
        cases read
        refine ⟨⟨pid, .new, time⟩, ?_, Int.not_lt.mp late, rfl, .inl ⟨rfl, created⟩⟩
        simp [entry, fields, isPid, isTime, isNew]
      · cases read
    · rename_i state other isMark
      split at read
      · cases read
      rename_i p known
      split at read
      · rename_i q changed
        cases read
        refine ⟨⟨pid, state, time⟩, ?_, Int.not_lt.mp late, rfl, .inr ⟨p, q, known, changed, rfl⟩⟩
        simp [entry, fields, isPid, isTime, isMark]
      · cases read
  · cases read

end Steps

section Entries

variable {line : Text} {lines : List Text} {pid : Int} {e : Entry} {es : List Entry}

theorem entries_snoc (told : entry line = some e) (pid : Int) :
    entries (lines ++ [line]) pid = entries lines pid ++ if e.pid = pid then [e] else [] := by
  have last : [line].filterMap entry = [e] := by simp [told]
  unfold entries
  rw [List.filterMap_append, last, List.filter_append]
  by_cases mine : e.pid = pid <;> simp [mine]

theorem entries_mine (told : entry line = some e) :
    entries (lines ++ [line]) e.pid = entries lines e.pid ++ [e] := by
  rw [entries_snoc told, if_pos rfl]

theorem entries_other (told : entry line = some e) (other : e.pid ≠ pid) :
    entries (lines ++ [line]) pid = entries lines pid := by
  rw [entries_snoc told, if_neg other, List.append_nil]

theorem life_new (created : e.mark = .new) : life pid (es ++ [e]) = [(.new, e.time)] := by
  have unpatched : ¬ (pid = 0 ∧ ∀ e' ∈ es ++ [e], e'.mark ≠ .new) := fun both => both.2 e (by simp) created
  unfold life patch
  rw [if_neg unpatched]
  simp [born, since, created]

theorem life_snoc (other : e.mark ≠ .new) : life pid (es ++ [e]) = life pid es ++ [e.stamp] := by
  have patched : (∀ e' ∈ es ++ [e], e'.mark ≠ .new) ↔ ∀ e' ∈ es, e'.mark ≠ .new := by
    rw [List.forall_mem_append, List.forall_mem_singleton, and_iff_left other]
  unfold life patch
  simp only [patched]
  simp [born, since, other]

end Entries

section Pools

variable {pool : Pool} {p q : Process} {pid : Int}

theorem changed_pids (pool : Pool) (q : Process) : (pool.changed q).map Process.pid = pool.map Process.pid := by
  induction pool with
  | nil => rfl
  | cons r rest ih =>
    rw [Pool.changed]
    split
    · rename_i same
      simp [same]
    · simp [ih]

theorem mem_changed (unique : (pool.map Process.pid).Nodup) (member : p ∈ pool.changed q) :
    p = q ∨ p ∈ pool ∧ p.pid ≠ q.pid := by
  induction pool with
  | nil => cases member
  | cons r rest ih =>
    rw [List.map_cons, List.nodup_cons] at unique
    rw [Pool.changed] at member
    split at member
    · rename_i same
      rcases List.mem_cons.mp member with here | later
      · exact .inl here
      · have known : p.pid ∈ rest.map Process.pid := List.mem_map_of_mem later
        exact .inr ⟨List.mem_cons_of_mem r later, fun mine => unique.1 (same ▸ mine ▸ known)⟩
    · rename_i other
      rcases List.mem_cons.mp member with rfl | later
      · exact .inr ⟨List.mem_cons_self, other⟩
      · exact (ih unique.2 later).imp_right fun both => ⟨List.mem_cons_of_mem r both.1, both.2⟩

theorem mem_of_getProcess (found : pool.getProcess pid = some p) : p ∈ pool := List.mem_of_find?_eq_some found

theorem unknown_pid (unknown : pool.getProcess pid = none) : pid ∉ pool.map Process.pid := by
  intro member
  rcases List.mem_map.mp member with ⟨p, there, mine⟩
  have other := List.find?_eq_none.mp unknown p there
  simp [mine] at other

end Pools

section Rounds

variable {r r' : LogReader} {line : Text} {lines : List Text} {pool : Pool} {p q : Process} {e : Entry}

theorem Recorded.elsewhere (recorded : Recorded lines p) (told : entry line = some e) (other : e.pid ≠ p.pid) :
    Recorded (lines ++ [line]) p := by
  have same : entries (lines ++ [line]) p.pid = entries lines p.pid := entries_other told other
  exact { recorded with
    once := fun task => same ▸ recorded.once task
    recorded := same ▸ recorded.recorded }

theorem Recorded.created (told : entry line = some e) (isNew : e.mark = .new) (mine : p.pid = e.pid)
    (states : p.states = [(.new, e.time)]) (start : 0 ≤ e.time) (unknown : e.pid ≠ 0 → entries lines e.pid = []) :
    Recorded (lines ++ [line]) p where
  first := by simp [states]
  later := by simp [states]
  ordered := by simp [states]
  ended := by simp [states]
  apart := by simp [states]
  once task := by
    rw [mine] at task
    rw [mine, entries_mine told, unknown task, states]
    simp [Entry.stamp, isNew]
  recorded := by rw [mine, entries_mine told, life_new isNew, states]
  start := by simp [states, start]

theorem before_last (ordered : p.states.Pairwise fun a b => a.2 ≤ b.2) {s : Mark × Int} (member : s ∈ p.states) :
    s.2 ≤ p.last.2 := by
  have split : p.states = p.states.dropLast ++ [p.last] := (List.dropLast_append_getLast p.nonempty).symm
  rw [split] at ordered member
  rcases List.mem_append.mp member with earlier | last
  · exact (List.pairwise_append.mp ordered).2.2 s earlier p.last (by simp)
  · exact Int.le_of_eq (congrArg Prod.snd (List.mem_singleton.mp last))

theorem Recorded.appended (recorded : Recorded lines p) (told : entry line = some e) (mine : e.pid = p.pid)
    (changed : p.changeState e.mark e.time = .ok q) (start : 0 ≤ e.time) : Recorded (lines ++ [line]) q := by
  rcases changeState_cases changed with ⟨other, late, alive, apart, pid, states⟩
  have split : p.states = p.states.dropLast ++ [p.last] := (List.dropLast_append_getLast p.nonempty).symm
  have lines' : entries (lines ++ [line]) e.pid = entries lines e.pid ++ [e] := entries_mine told
  constructor
  · simp only [states, List.head_append_of_ne_nil p.nonempty]
    exact recorded.first
  · rw [states, List.tail_append_of_ne_nil p.nonempty]
    intro s member
    rcases List.mem_append.mp member with earlier | last
    · exact recorded.later s earlier
    · rw [List.mem_singleton.mp last]
      exact other
  · rw [states]
    apply List.pairwise_append.mpr ⟨recorded.ordered, by simp, ?_⟩
    intro a member b last
    rw [List.mem_singleton.mp last]
    exact Int.le_trans (before_last recorded.ordered member) late
  · rw [states, List.dropLast_concat, split]
    intro s member
    rcases List.mem_append.mp member with earlier | last
    · exact recorded.ended s earlier
    · rw [List.mem_singleton.mp last]
      exact alive
  · intro task
    rw [pid] at task
    rw [states]
    apply (recorded.apart task).append (List.isChain_singleton _)
    intro a isLast b isNext
    rw [split, List.getLast?_concat] at isLast
    cases isLast
    cases isNext
    exact apart task
  · intro task
    rw [pid] at task
    rw [pid, ← mine, lines', states, recorded.once task, mine]
    simp [Entry.stamp]
  · rw [pid, ← mine, lines', life_snoc other, states, recorded.recorded, mine]
    rfl
  · rw [states]
    intro s member
    rcases List.mem_append.mp member with earlier | last
    · exact recorded.start s earlier
    · rw [List.mem_singleton.mp last]
      exact start

/-- What holds of the pool after every line. -/
structure Sound (lines : List Text) (r : LogReader) : Prop where
  unique : (r.processes.map Process.pid).Nodup
  recorded : ∀ p ∈ r.processes, Recorded lines p
  known : ∀ line ∈ lines, ∃ e, entry line = some e ∧ e.pid ∈ r.processes.map Process.pid
  start : 0 ≤ r.prevTime
  idle : 0 ∈ r.processes.map Process.pid

theorem Sound.none (sound : Sound lines r) {pid : Int} (unknown : pid ∉ r.processes.map Process.pid) :
    entries lines pid = [] := by
  unfold entries
  rw [List.filter_eq_nil_iff]
  intro e member mine
  rcases List.mem_filterMap.mp member with ⟨line, there, told⟩
  rcases sound.known line there with ⟨e', told', known⟩
  cases told.symm.trans told'
  have same : e.pid = pid := of_decide_eq_true mine
  exact unknown (same ▸ known)

theorem Sound.changed (sound : Sound lines r) (told : entry line = some e) (start : 0 ≤ r'.prevTime)
    (processes : r'.processes = r.processes.changed q) (mine : q.pid = e.pid)
    (there : e.pid ∈ r.processes.map Process.pid) (recorded : Recorded (lines ++ [line]) q) : Sound (lines ++ [line]) r' := by
  have pids : r'.processes.map Process.pid = r.processes.map Process.pid := by rw [processes, changed_pids]
  constructor
  · rw [pids]
    exact sound.unique
  · intro p member
    rw [processes] at member
    rcases mem_changed sound.unique member with rfl | ⟨earlier, other⟩
    · exact recorded
    · exact (sound.recorded p earlier).elsewhere told fun same => other (same.symm.trans mine.symm)
  · intro line' member
    rw [pids]
    rcases List.mem_append.mp member with earlier | last
    · exact sound.known line' earlier
    · rw [List.mem_singleton.mp last]
      exact ⟨e, told, there⟩
  · exact start
  · rw [pids]
    exact sound.idle

theorem Sound.read (sound : Sound lines r) (read : r.read line = .ok r') : Sound (lines ++ [line]) r' := by
  rcases read_cases read with ⟨e, told, late, time, next⟩
  have start : 0 ≤ e.time := Int.le_trans sound.start late
  have start' : 0 ≤ r'.prevTime := time ▸ start
  rcases next with ⟨isNew, created⟩ | ⟨p, q, known, changed, processes⟩
  · rcases new_cases created with ⟨unknown, processes⟩ | ⟨p, idle, known, processes⟩
    · have absent := unknown_pid unknown
      constructor
      · rw [processes, List.map_append, List.nodup_append]
        refine ⟨sound.unique, by simp, ?_⟩
        intro a there b last same
        have here : a = e.pid := same.trans (List.mem_singleton.mp last)
        exact absent (here ▸ there)
      · rw [processes]
        intro p member
        rcases List.mem_append.mp member with earlier | last
        · have other : e.pid ≠ p.pid := fun same => absent (same ▸ List.mem_map_of_mem earlier)
          exact (sound.recorded p earlier).elsewhere told other
        · rw [List.mem_singleton.mp last]
          exact .created told isNew rfl rfl start fun _ => sound.none absent
      · rw [processes]
        intro line' member
        rcases List.mem_append.mp member with earlier | last
        · rcases sound.known line' earlier with ⟨e', told', there⟩
          exact ⟨e', told', by simp [there]⟩
        · rw [List.mem_singleton.mp last]
          exact ⟨e, told, by simp⟩
      · exact start'
      · rw [processes, List.map_append]
        exact List.mem_append_left _ sound.idle
    · have mine := getProcess_pid known
      have there : e.pid ∈ r.processes.map Process.pid := mine ▸ List.mem_map_of_mem (mem_of_getProcess known)
      exact sound.changed told start' processes mine there
        (.created told isNew mine rfl start fun task => absurd idle task)
  · have mine := getProcess_pid known
    have member := mem_of_getProcess known
    have there : e.pid ∈ r.processes.map Process.pid := mine ▸ List.mem_map_of_mem member
    have same := (changeState_cases changed).2.2.2.2.1
    exact sound.changed told start' processes (same.trans mine) there
      ((sound.recorded p member).appended told mine.symm changed start)

theorem sound_patched : Sound [] ⟨patched.processes, 0, []⟩ where
  unique := by simp [patched]
  recorded p member := by
    rw [List.mem_singleton.mp member]
    constructor <;> simp [life, born, patch, since, entries]
  known line member := by cases member
  start := Int.le_refl 0
  idle := List.mem_singleton.mpr rfl

theorem parseLog_snoc (parsed : parseLog (lines ++ [line]) = .ok r') :
    ∃ r, parseLog lines = .ok r ∧ r.read line = .ok r' := by
  unfold parseLog at parsed ⊢
  rw [List.foldlM_append] at parsed
  cases before : lines.foldlM LogReader.read ⟨patched.processes, 0, []⟩ with
  | error e =>
    rw [before] at parsed
    cases parsed
  | ok r =>
    rw [before] at parsed
    simp only [List.foldlM_cons, List.foldlM_nil, bind_pure] at parsed
    exact ⟨r, rfl, parsed⟩

theorem parseLog_sound (parsed : parseLog lines = .ok r) : Sound lines r := by
  induction lines using List.reverseRecOn generalizing r with
  | nil =>
    cases parsed
    exact sound_patched
  | append_singleton lines line ih =>
    rcases parseLog_snoc parsed with ⟨before, parsedBefore, read⟩
    exact (ih parsedBefore).read read

/-- Whatever the lines are, the processes of a loop that raises nothing have pids of their own and the states their
    lines have given them, and every line has its process. -/
theorem records_the_log (parsed : parseLog lines = .ok r) :
    (r.processes.map Process.pid).Nodup ∧ (∀ p ∈ r.processes, Recorded lines p) ∧
      ∀ line ∈ lines, ∃ e, entry line = some e ∧ ∃ p ∈ r.processes, p.pid = e.pid := by
  have sound := parseLog_sound parsed
  refine ⟨sound.unique, sound.recorded, ?_⟩
  intro line member
  rcases sound.known line member with ⟨e, told, there⟩
  exact ⟨e, told, List.mem_map.mp there⟩

/-- Process 0 is created anew, repeats a state and meets process 1. -/
def busy : List Text :=
  ["0\tR\t41\n".toList, "0\tN\t44\n".toList, "1\tn\t44\n".toList, "1\tJ\t44\n".toList, "0\tR\t45\n".toList,
    "0\tR\t47\n".toList, " 1\tr\t+49 \n".toList, "1\tE\t52\n".toList]

theorem busy_recorded : ∃ r, parseLog busy = .ok r ∧
    (r.processes.map Process.pid).Nodup ∧ (∀ p ∈ r.processes, Recorded busy p) ∧
      ∀ line ∈ busy, ∃ e, entry line = some e ∧ ∃ p ∈ r.processes, p.pid = e.pid := by
  have accepted : (parseLog busy).toOption.isSome = true := by decide
  cases parsed : parseLog busy with
  | error e =>
    rw [parsed] at accepted
    cases accepted
  | ok r => exact ⟨r, rfl, records_the_log parsed⟩

end Rounds

end Linux011.LifeCycle

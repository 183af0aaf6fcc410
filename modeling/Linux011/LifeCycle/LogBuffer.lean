import Linux011.Library.Machine
import Linux011.LifeCycle.StatLog
import Linux011.Proc.Text

namespace Linux011.LifeCycle

open Linux011.Library
open Linux011.Proc (Byte byte literal decimal)

/-- What `vsprintf` makes of `"%ld\t%c\t%ld\n"`. -/
def Line.text (line : Line) : List Byte :=
  decimal line.pid ++ literal "\t" ++ [byte line.letter] ++ literal "\t" ++ decimal line.time ++ literal "\n"

/-- A call of `fprintk(3, ...)`: the line of its arguments, and the bytes `file_write` has taken for it. -/
structure LogCall where
  text : List Byte
  data : List Byte
  deriving DecidableEq

/-- The log of the kernel: each task's calls of `fprintk` in progress, the innermost first, and those that
    have returned. -/
structure LogBuffer (Task : Type) where
  logbuf : Nat → Byte
  opened : Bool
  stack : Task → List LogCall
  handed : List LogCall

/-- `vsprintf(logbuf, ...)`: the line and the 0 behind it. -/
def vsprintf (logbuf : Nat → Byte) (text : List Byte) : Nat → Byte :=
  fun i => if i < text.length then text.getD i 0 else if i = text.length then 0 else logbuf i

namespace LogBuffer

variable {Task : Type} [DecidableEq Task]

inductive Event (Task : Type)
  | openLog
  | fprintk (t : Task) (text : List Byte)
  | copy (t : Task) (n : Nat)
  | finish (t : Task)

/-- `file_write` may let other tasks run, and its own task log, before and between its copies from the buffer. -/
inductive Step (s : LogBuffer Task) : Event Task → LogBuffer Task → Prop
  | openLog : Step s .openLog { s with opened := true }
  | fprintk (t : Task) (text : List Byte) (fits : text.length < 1024) :
      Step s (.fprintk t text) { s with
        logbuf := vsprintf s.logbuf text
        stack := if s.opened then Function.update s.stack t (⟨text, []⟩ :: s.stack t) else s.stack }
  | copy (t : Task) (n : Nat) (call : LogCall) (rest : List LogCall) (top : s.stack t = call :: rest)
      (left : call.data.length + n ≤ call.text.length) :
      Step s (.copy t n) { s with
        stack := Function.update s.stack t
          (⟨call.text, call.data ++ (List.range n).map fun i => s.logbuf (call.data.length + i)⟩ :: rest) }
  | finish (t : Task) (call : LogCall) (rest : List LogCall) (top : s.stack t = call :: rest)
      (all : call.data.length = call.text.length) :
      Step s (.finish t) { s with stack := Function.update s.stack t rest, handed := s.handed ++ [call] }

/-- The step an event makes, where it makes one. -/
def perform (s : LogBuffer Task) : Event Task → Option (LogBuffer Task)
  | .openLog => some { s with opened := true }
  | .fprintk t text =>
    if text.length < 1024 then
      some { s with
        logbuf := vsprintf s.logbuf text
        stack := if s.opened then Function.update s.stack t (⟨text, []⟩ :: s.stack t) else s.stack }
    else none
  | .copy t n =>
    match s.stack t with
    | [] => none
    | call :: rest =>
      if call.data.length + n ≤ call.text.length then
        some { s with
          stack := Function.update s.stack t
            (⟨call.text, call.data ++ (List.range n).map fun i => s.logbuf (call.data.length + i)⟩ :: rest) }
      else none
  | .finish t =>
    match s.stack t with
    | [] => none
    | call :: rest =>
      if call.data.length = call.text.length then
        some { s with stack := Function.update s.stack t rest, handed := s.handed ++ [call] }
      else none

theorem perform_step {s s' : LogBuffer Task} {e : Event Task} (done : s.perform e = some s') : Step s e s' := by
  cases e with
  | openLog =>
    cases done
    exact .openLog
  | fprintk t text =>
    obtain ⟨fits, same⟩ := Option.ite_none_right_eq_some.mp done
    cases same
    exact .fprintk t text fits
  | copy t n =>
    cases top : s.stack t with
    | nil =>
      simp only [perform, top] at done
      cases done
    | cons call rest =>
      simp only [perform, top] at done
      obtain ⟨left, same⟩ := Option.ite_none_right_eq_some.mp done
      cases same
      exact .copy t n call rest top left
  | finish t =>
    cases top : s.stack t with
    | nil =>
      simp only [perform, top] at done
      cases done
    | cons call rest =>
      simp only [perform, top] at done
      obtain ⟨all, same⟩ := Option.ite_none_right_eq_some.mp done
      cases same
      exact .finish t call rest top all

def machine (Task : Type) [DecidableEq Task] : Machine (LogBuffer Task) (Event Task) where
  init s := s.opened = false ∧ (∀ t, s.stack t = []) ∧ s.handed = []
  step := Step

/-- No line is formatted over bytes that another call has still to hand over, unless they stay as they are. -/
def Undisturbed (s : LogBuffer Task) : Event Task → Prop
  | .fprintk _ text => ∀ u, ∀ call ∈ s.stack u, ∀ i, call.data.length ≤ i → i < call.text.length →
      vsprintf s.logbuf text i = s.logbuf i
  | _ => True

/-- A call has taken the first bytes of its line, and the others are in the buffer. -/
structure Held (logbuf : Nat → Byte) (call : LogCall) : Prop where
  taken : call.data <+: call.text
  left : ∀ i, call.data.length ≤ i → ∀ below : i < call.text.length, logbuf i = call.text[i]

structure Sorted (s : LogBuffer Task) : Prop where
  held : ∀ t, ∀ call ∈ s.stack t, Held s.logbuf call
  own : ∀ call ∈ s.handed, call.data = call.text

theorem Held.kept {logbuf logbuf' : Nat → Byte} {call : LogCall} (held : Held logbuf call)
    (same : ∀ i, call.data.length ≤ i → i < call.text.length → logbuf' i = logbuf i) : Held logbuf' call where
  taken := held.taken
  left i above below := (same i above below).trans (held.left i above below)

theorem Held.start (logbuf : Nat → Byte) (text : List Byte) : Held (vsprintf logbuf text) ⟨text, []⟩ where
  taken := List.nil_prefix
  left i _ below := by
    have inside : i < text.length := below
    rw [vsprintf, if_pos inside, List.getD_eq_getElem?_getD, List.getElem?_eq_getElem inside]
    rfl

theorem Held.copy {logbuf : Nat → Byte} {call : LogCall} (held : Held logbuf call) {n : Nat}
    (left : call.data.length + n ≤ call.text.length) :
    Held logbuf ⟨call.text, call.data ++ (List.range n).map fun i => logbuf (call.data.length + i)⟩ where
  taken := by
    have next : (List.range n).map (fun i => logbuf (call.data.length + i)) =
        (call.text.drop call.data.length).take n := by
      apply List.ext_getElem
      · rw [List.length_map, List.length_range, List.length_take, List.length_drop]
        omega
      · intro i below _
        have inside : i < n := by simpa using below
        rw [List.getElem_map, List.getElem_range, List.getElem_take, List.getElem_drop]
        exact held.left _ (by omega) (by omega)
    have before := List.prefix_iff_eq_take.mp held.taken
    show call.data ++ _ <+: call.text
    rw [next]
    nth_rewrite 1 [before]
    rw [← List.take_add]
    exact List.take_prefix _ _
  left i above below := by
    apply held.left i _ below
    have longer : call.data.length + n ≤ i := by simpa using above
    omega

theorem Held.all {logbuf : Nat → Byte} {call : LogCall} (held : Held logbuf call)
    (all : call.data.length = call.text.length) : call.data = call.text := held.taken.eq_of_length all

variable {s s' : LogBuffer Task} {e : Event Task}

theorem Sorted.step (sorted : Sorted s) (condition : Undisturbed s e) (step : Step s e s') : Sorted s' := by
  have others {t : Task} {calls : List LogCall} {logbuf : Nat → Byte} (mine : ∀ call ∈ calls, Held logbuf call)
      (kept : ∀ u, ∀ call ∈ s.stack u, Held logbuf call) :
      ∀ u, ∀ call ∈ Function.update s.stack t calls u, Held logbuf call := by
    intro u call member
    by_cases same : u = t
    · rw [same, Function.update_self] at member
      exact mine call member
    · rw [Function.update_of_ne same] at member
      exact kept u call member
  cases step with
  | openLog => exact ⟨sorted.held, sorted.own⟩
  | fprintk t text =>
    have kept (u : Task) (call : LogCall) (member : call ∈ s.stack u) : Held (vsprintf s.logbuf text) call :=
      (sorted.held u call member).kept fun i above below => condition u call member i above below
    refine ⟨?_, sorted.own⟩
    dsimp only
    split
    · apply others _ kept
      intro call member
      rcases List.mem_cons.mp member with rfl | member
      · exact .start s.logbuf text
      · exact kept t call member
    · exact kept
  | copy t n call rest top left =>
    refine ⟨others (fun other member => ?_) sorted.held, sorted.own⟩
    rcases List.mem_cons.mp member with rfl | member
    · exact (sorted.held t call (top ▸ List.mem_cons_self)).copy left
    · exact sorted.held t other (top ▸ List.mem_cons_of_mem _ member)
  | finish t call rest top all =>
    constructor
    · exact others (fun other member => sorted.held t other (top ▸ List.mem_cons_of_mem _ member)) sorted.held
    · intro other member
      rcases List.mem_append.mp member with before | last
      · exact sorted.own other before
      · rw [List.mem_singleton.mp last]
        exact (sorted.held t call (top ▸ List.mem_cons_self)).all all

/-- Where no call formats over bytes another has still to hand over, each call hands over its own line. -/
theorem hands_own_line (reached : ((machine Task).restrict Undisturbed).Reaches s) :
    (∀ call ∈ s.handed, call.data = call.text) ∧ ∀ t, ∀ call ∈ s.stack t, call.data <+: call.text := by
  have sorted : Sorted s := by
    apply reached.invariant
    · rintro s ⟨-, none, nothing⟩
      constructor
      · intro t call member
        rw [none] at member
        cases member
      · intro call member
        rw [nothing] at member
        cases member
    · exact fun _ _ _ sorted step => sorted.step step.1 step.2
  exact ⟨sorted.own, fun t call member => (sorted.held t call member).taken⟩

def empty : LogBuffer Nat := ⟨fun _ => 0, false, fun _ => [], []⟩

def waiting : List Byte := (⟨1, 'W', 10⟩ : Line).text

/-- Task 1 logs that it waits, and `file_write` copies the line in two parts. -/
theorem hands_own_waiting : ∃ s, ((machine Nat).restrict Undisturbed).Reaches s ∧ s.handed = [⟨waiting, waiting⟩] ∧
    (∀ call ∈ s.handed, call.data = call.text) ∧ ∀ t, ∀ call ∈ s.stack t, call.data <+: call.text := by
  have next {s s' : LogBuffer Nat} {e : Event Nat} (reached : ((machine Nat).restrict Undisturbed).Reaches s)
      (quiet : s.Undisturbed e) (done : s.perform e = some s') : ((machine Nat).restrict Undisturbed).Reaches s' :=
    reached.step ⟨quiet, perform_step done⟩
  have start : ((machine Nat).restrict Undisturbed).Reaches empty := ⟨empty, [], ⟨rfl, fun _ => rfl, rfl⟩, .nil _⟩
  have alone : Undisturbed { empty with opened := true } (.fprintk 1 waiting) :=
    fun _ _ member => (List.not_mem_nil member).elim
  have opened := next (e := .openLog) start trivial rfl
  have formatted := next opened alone rfl
  have half := next (e := .copy 1 4) formatted trivial rfl
  have whole := next (e := .copy 1 3) half trivial rfl
  have returned := next (e := .finish 1) whole trivial rfl
  exact ⟨_, returned, by decide, hands_own_line returned⟩

/-- While task 1 waits in `file_write`, task 2 logs that it runs. -/
theorem hands_other_line : ∃ s, (machine Nat).Reaches s ∧ ∃ call ∈ s.handed, call.data ≠ call.text := by
  have ran : (([.openLog, .fprintk 1 waiting, .fprintk 2 (⟨2, 'R', 10⟩ : Line).text, .copy 1 7, .finish 1].foldlM
      perform empty).any fun s => s.handed.any fun call => call.data ≠ call.text) = true := by decide
  obtain ⟨s, ends, mixed⟩ := (Option.any_eq_true _ _).mp ran
  obtain ⟨call, member, other⟩ := List.any_eq_true.mp mixed
  have run := Machine.run_of_foldlM (m := machine Nat) (fun _ _ _ => perform_step) ends
  exact ⟨s, ⟨empty, _, ⟨rfl, fun _ => rfl, rfl⟩, run⟩, call, member, of_decide_eq_true other⟩

end LogBuffer

end Linux011.LifeCycle

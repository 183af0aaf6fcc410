import Linux011.LifeCycle.Table

namespace Linux011.LifeCycle

open Linux011.Library
open Linux011.Sched (TaskState)

namespace Lives

/-- The last entry a task should have. -/
def mark (s : Lives) (t : Task) : Mark :=
  match s.state t with
  | .running => if t = s.current then .running else .ready
  | .zombie => .exit
  | _ => .waiting

def Asleep (s : Lives) (t : Task) : Prop := s.state t = .interruptible ∨ s.state t = .uninterruptible

/-- The moves that log a change there really is, and a line of process 0 only after its patched ones. -/
def Loggable (s : Lives) : Move → Prop
  | .wake t => t < s.fresh ∧ (t = initTask → 40 ≤ s.jiffies) ∧ (t ≠ initTask → s.Asleep t ∧ t ≠ s.current)
  | .sleep state => (state = .interruptible ∨ state = .uninterruptible) ∧
      (s.current = initTask → 40 ≤ s.jiffies) ∧ (s.current ≠ initTask → s.state s.current = .running)
  | .doze => s.current = initTask
  | .switch t => t < s.fresh ∧ t ≠ s.current ∧ (t ≠ initTask → s.state t = .running) ∧
      (t = initTask ∨ s.current = initTask ∧ s.state initTask = .running → 40 ≤ s.jiffies)
  | .born pid => pid ≠ 0 ∧ ∀ line ∈ s.log, line.pid ≠ pid.toInt
  | .die => s.current ≠ initTask ∧ s.state s.current = .running
  | .tick => True

end Lives

/-- The log is in order, and its last entry for each task is the given one. -/
structure Logged (s : Lives) (mark : Task → Mark) : Prop where
  written : Written s.log
  past : ∀ line ∈ s.log, line.time ≤ s.jiffies
  here : s.current < s.fresh
  idle : s.pid initTask = 0
  apart : ∀ t u, t < s.fresh → u < s.fresh → s.pid t = s.pid u → t = u
  last : ∀ t, t ≠ initTask → t < s.fresh → lastMark s.log (s.pid t).toInt = some (mark t)
  known : ∀ line ∈ s.log, ∃ t, t < s.fresh ∧ line.pid = (s.pid t).toInt

section Log

variable {s : Lives} {mark : Task → Mark} {t : Task} {m : Mark}

/-- The entries that may follow in the life of a task, and those of process 0. -/
def Continues (s : Lives) (mark : Task → Mark) (t : Task) (m : Mark) : Prop :=
  (t ≠ initTask → Follows (some (mark t)) m) ∧ (t = initTask → m ≠ .new ∧ m ≠ .exit ∧ 40 ≤ s.jiffies)

theorem Logged.pid_zero (logged : Logged s mark) (born : t < s.fresh) : (s.pid t).toInt = 0 ↔ t = initTask := by
  constructor
  · intro zero
    have start : initTask < s.fresh := Nat.lt_of_le_of_lt (Nat.zero_le _) born
    apply logged.apart t initTask born start
    rw [logged.idle]
    exact BitVec.eq_of_toInt_eq zero
  · rintro rfl
    rw [logged.idle]
    rfl

theorem Logged.fits (logged : Logged s mark) (born : t < s.fresh) (continues : Continues s mark t m) :
    Fits s.log (s.line t m) m where
  mark := mark_letter _ _ _
  start := Int.natCast_nonneg _
  late := logged.past
  follows other := by
    have apart : t ≠ initTask := fun same => other ((logged.pid_zero born).mpr same)
    have last := logged.last t apart born
    rw [show (s.line t m).pid = (s.pid t).toInt from rfl, last]
    exact continues.1 apart
  idle zero := by
    obtain ⟨notNew, notExit, late⟩ := continues.2 ((logged.pid_zero born).mp zero)
    exact ⟨notNew, notExit, Int.ofNat_le.mpr late⟩

theorem Logged.append (logged : Logged s mark) (born : t < s.fresh) (continues : Continues s mark t m) {s' : Lives}
    (log : s'.log = s.log ++ [s.line t m]) (pid : s'.pid = s.pid) (fresh : s'.fresh = s.fresh)
    (jiffies : s'.jiffies = s.jiffies) (here : s'.current < s.fresh) : Logged s' (Function.update mark t m) := by
  have mine : (s.line t m).pid = (s.pid t).toInt := rfl
  refine ⟨?_, fun line member => ?_, fresh ▸ here, pid ▸ logged.idle, ?_, fun u other born' => ?_, fun line member => ?_⟩
  · rw [log]
    exact logged.written.snoc (logged.fits born continues)
  · rw [log] at member
    rw [jiffies]
    rcases List.mem_append.mp member with member | member
    · exact logged.past line member
    · obtain rfl := List.mem_singleton.mp member
      exact Int.le_refl _
  · rw [pid, fresh]
    exact logged.apart
  · rw [fresh] at born'
    have now : (s.line t m).mark = some m := mark_letter _ _ _
    rw [log, pid, lastMark_snoc now, mine, Function.update_apply]
    by_cases same : u = t
    · subst same
      rw [if_pos rfl, if_pos rfl]
    · have apart : ¬ (s.pid t).toInt = (s.pid u).toInt := fun twice =>
        same (logged.apart u t born' born (BitVec.eq_of_toInt_eq twice.symm))
      rw [if_neg apart, if_neg same]
      exact logged.last u other born'
  · rw [log] at member
    rw [pid, fresh]
    rcases List.mem_append.mp member with member | member
    · exact logged.known line member
    · rw [List.mem_singleton.mp member]
      exact ⟨t, born, mine⟩

theorem Logged.congr {mark' : Task → Mark} (logged : Logged s mark)
    (same : ∀ t, t ≠ initTask → t < s.fresh → mark t = mark' t) : Logged s mark' where
  written := logged.written
  past := logged.past
  here := logged.here
  idle := logged.idle
  apart := logged.apart
  known := logged.known
  last t other born := (logged.last t other born).trans (congrArg some (same t other born))

theorem Logged.change (logged : Logged s s.mark) (born : t < s.fresh) (continues : Continues s s.mark t m)
    {state : TaskState} {s' : Lives} (state' : s'.state = Function.update s.state t state)
    (log : s'.log = s.log ++ [s.line t m]) (pid : s'.pid = s.pid) (fresh : s'.fresh = s.fresh)
    (jiffies : s'.jiffies = s.jiffies) (current : s'.current = s.current) (now : t ≠ initTask → s'.mark t = m) :
    Logged s' s'.mark := by
  have appended := logged.append born continues log pid fresh jiffies (current ▸ logged.here)
  apply appended.congr
  intro u other _
  rw [Function.update_apply]
  split
  · rename_i same
    subst same
    exact (now other).symm
  · rename_i apart
    unfold Lives.mark
    rw [state', current, Function.update_of_ne apart]

theorem mark_asleep (asleep : s.Asleep t) : s.mark t = .waiting := by
  unfold Lives.mark
  rcases asleep with asleep | asleep <;> rw [asleep]

theorem mark_running (running : s.state t = .running) :
    s.mark t = if t = s.current then Mark.running else .ready := by
  unfold Lives.mark
  rw [running]

theorem Logged.wake (logged : Logged s s.mark) (loggable : s.Loggable (.wake t)) :
    Logged (s.apply (.wake t)) (s.apply (.wake t)).mark := by
  obtain ⟨born, idle, asleep⟩ := loggable
  have continues : Continues s s.mark t .ready := by
    refine ⟨fun other => ?_, fun same => ⟨Mark.noConfusion, Mark.noConfusion, idle same⟩⟩
    rw [mark_asleep (asleep other).1]
    trivial
  refine logged.change born continues rfl rfl rfl rfl rfl rfl fun other => ?_
  have running : (s.apply (.wake t)).state t = .running := Function.update_self _ _ _
  rw [mark_running running]
  exact if_neg (asleep other).2

theorem Logged.sleep (logged : Logged s s.mark) {state : TaskState} (loggable : s.Loggable (.sleep state)) :
    Logged (s.apply (.sleep state)) (s.apply (.sleep state)).mark := by
  obtain ⟨asleep, idle, running⟩ := loggable
  have continues : Continues s s.mark s.current .waiting := by
    refine ⟨fun other => ?_, fun same => ⟨Mark.noConfusion, Mark.noConfusion, idle same⟩⟩
    rw [mark_running (running other), if_pos rfl]
    trivial
  refine logged.change logged.here continues rfl rfl rfl rfl rfl rfl fun other => ?_
  apply mark_asleep
  have now : (s.apply (.sleep state)).state s.current = state := Function.update_self _ _ _
  unfold Lives.Asleep
  rw [now]
  exact asleep

theorem Logged.die (logged : Logged s s.mark) (loggable : s.Loggable .die) :
    Logged (s.apply .die) (s.apply .die).mark := by
  obtain ⟨other, running⟩ := loggable
  have continues : Continues s s.mark s.current .exit := by
    refine ⟨fun _ => ?_, fun same => absurd same other⟩
    rw [mark_running running, if_pos rfl]
    trivial
  refine logged.change logged.here continues rfl rfl rfl rfl rfl rfl fun _ => ?_
  have now : (s.apply .die).state s.current = .zombie := Function.update_self _ _ _
  unfold Lives.mark
  rw [now]

theorem switched_mark (running : t ≠ initTask → s.state t = .running) {u : Task}
    (apart : u ≠ initTask) :
    (s.apply (.switch t)).mark u =
      if u = t then .running else if u = s.current ∧ s.state u = .running then .ready else s.mark u := by
  have now : (s.apply (.switch t)).state = s.state := rfl
  unfold Lives.mark
  rw [now]
  by_cases same : u = t
  · subst same
    rw [running apart]
    simp [Lives.apply]
  · cases state : s.state u <;> simp [same, Lives.apply]

theorem Logged.switch (logged : Logged s s.mark) (loggable : s.Loggable (.switch t)) :
    Logged (s.apply (.switch t)) (s.apply (.switch t)).mark := by
  obtain ⟨born, other, running, idle⟩ := loggable
  have next (mark : Task → Mark) (still : mark t = s.mark t) : Continues s mark t .running := by
    refine ⟨fun apart => ?_, fun same => ⟨Mark.noConfusion, Mark.noConfusion, idle (.inl same)⟩⟩
    rw [still, mark_running (running apart), if_neg other]
    trivial
  by_cases preempted : s.state s.current = .running
  · -- `current` has run out of its time slice
    have expired : Continues s s.mark s.current .ready := by
      refine ⟨fun apart => ?_, fun same => ⟨Mark.noConfusion, Mark.noConfusion, ?_⟩⟩
      · rw [mark_running preempted, if_pos rfl]
        trivial
      · exact idle (.inr ⟨same, same ▸ preempted⟩)
    have first : Logged { s with log := s.log ++ [s.line s.current .ready] } (Function.update s.mark s.current .ready) :=
      logged.append logged.here expired rfl rfl rfl rfl logged.here
    have lines : (s.apply (.switch t)).log = s.log ++ [s.line s.current .ready] ++ [s.line t .running] := by
      unfold Lives.apply Lives.switching
      dsimp only
      rw [if_pos preempted, List.append_assoc]
    have second := next (Function.update s.mark s.current .ready) (Function.update_of_ne other _ _)
    have both : Logged (s.apply (.switch t)) (Function.update (Function.update s.mark s.current .ready) t .running) :=
      first.append born second lines rfl rfl rfl born
    apply both.congr
    intro u apart _
    rw [switched_mark running apart, Function.update_apply, Function.update_apply]
    by_cases same : u = s.current
    · subst same
      simp [preempted]
    · simp [same]
  · have lines : (s.apply (.switch t)).log = s.log ++ [s.line t .running] := by
      unfold Lives.apply Lives.switching
      dsimp only
      rw [if_neg preempted, List.nil_append]
    have once : Logged (s.apply (.switch t)) (Function.update s.mark t .running) :=
      logged.append born (next s.mark rfl) lines rfl rfl rfl born
    apply once.congr
    intro u apart _
    rw [switched_mark running apart, Function.update_apply]
    have kept : ¬ (u = s.current ∧ s.state u = .running) := fun ⟨same, there⟩ => preempted (same ▸ there)
    rw [if_neg kept]

theorem Logged.born (logged : Logged s s.mark) {pid : BitVec 32} (loggable : s.Loggable (.born pid)) :
    Logged (s.apply (.born pid)) (s.apply (.born pid)).mark := by
  obtain ⟨positive, unknown⟩ := loggable
  have other : pid.toInt ≠ 0 := fun zero => positive (BitVec.eq_of_toInt_eq zero)
  have free (t : Task) (born : t < s.fresh) : s.pid t ≠ pid := by
    intro same
    by_cases idle : t = initTask
    · exact positive (by rw [← same, idle, logged.idle])
    · have last := logged.last t idle born
      rw [same, lastMark_none unknown] at last
      cases last
  have mine : (s.apply (.born pid)).pid s.fresh = pid := Function.update_self _ _ _
  have theirs (t : Task) (born : t < s.fresh) : (s.apply (.born pid)).pid t = s.pid t :=
    Function.update_of_ne (Nat.ne_of_lt born) _ _
  have lines : (s.apply (.born pid)).log = s.log ++ [⟨pid.toInt, Mark.new.letter, s.jiffies⟩] ++
      [⟨pid.toInt, Mark.ready.letter, s.jiffies⟩] := (List.append_assoc _ [_] [_]).symm
  have now (p : Int) : lastMark (s.apply (.born pid)).log p =
      if pid.toInt = p then some .ready else lastMark s.log p := by
    rw [lines, lastMark_snoc (mark_letter _ _ _), lastMark_snoc (mark_letter _ _ _)]
    dsimp only
    split <;> rfl
  have first : Fits s.log ⟨pid.toInt, Mark.new.letter, s.jiffies⟩ .new := by
    refine ⟨mark_letter _ _ _, Int.natCast_nonneg _, logged.past, fun _ => ?_, fun zero => absurd zero other⟩
    rw [lastMark_none unknown]
    trivial
  have past (line : Line) (member : line ∈ s.log ++ [⟨pid.toInt, Mark.new.letter, s.jiffies⟩]) :
      line.time ≤ s.jiffies := by
    rcases List.mem_append.mp member with member | member
    · exact logged.past line member
    · obtain rfl := List.mem_singleton.mp member
      exact Int.le_refl _
  have second : Fits (s.log ++ [⟨pid.toInt, Mark.new.letter, s.jiffies⟩]) ⟨pid.toInt, Mark.ready.letter, s.jiffies⟩
      .ready := by
    refine ⟨mark_letter _ _ _, Int.natCast_nonneg _, past, fun _ => ?_, fun zero => absurd zero other⟩
    rw [lastMark_snoc (mark_letter _ _ _), if_pos rfl]
    trivial
  have start : initTask < s.fresh := Nat.lt_of_le_of_lt (Nat.zero_le _) logged.here
  have split (t : Task) (born : t < s.fresh + 1) : t < s.fresh ∨ t = s.fresh := Nat.lt_succ_iff_lt_or_eq.mp born
  refine ⟨?_, fun line member => ?_, Nat.lt_succ_of_lt logged.here, ?_, fun t u born born' same => ?_,
    fun t idle born => ?_, fun line member => ?_⟩
  · rw [lines]
    exact (logged.written.snoc first).snoc second
  · rw [lines] at member
    rcases List.mem_append.mp member with member | member
    · exact past line member
    · obtain rfl := List.mem_singleton.mp member
      exact Int.le_refl _
  · rw [theirs initTask start]
    exact logged.idle
  · rcases split t born with old | rfl <;> rcases split u born' with old' | rfl
    · rw [theirs t old, theirs u old'] at same
      exact logged.apart t u old old' same
    · rw [theirs t old, mine] at same
      exact absurd same (free t old)
    · rw [theirs u old', mine] at same
      exact absurd same.symm (free u old')
    · rfl
  · rw [now]
    rcases split t born with old | rfl
    · have apart : ¬ pid.toInt = (s.pid t).toInt := fun twice => free t old (BitVec.eq_of_toInt_eq twice.symm)
      rw [theirs t old, if_neg apart, logged.last t idle old]
      have kept : (s.apply (.born pid)).state t = s.state t := Function.update_of_ne (Nat.ne_of_lt old) _ _
      unfold Lives.mark
      rw [kept]
      rfl
    · have running : (s.apply (.born pid)).state s.fresh = .running := Function.update_self _ _ _
      have away : s.fresh ≠ s.current := (Nat.ne_of_lt logged.here).symm
      rw [mine, if_pos rfl, mark_running running]
      exact congrArg some (if_neg away).symm
  · rw [lines] at member
    rcases List.mem_append.mp member with member | member
    · rcases List.mem_append.mp member with member | member
      · obtain ⟨t, born, same⟩ := logged.known line member
        exact ⟨t, Nat.lt_succ_of_lt born, by rw [theirs t born, same]⟩
      · rw [List.mem_singleton.mp member]
        exact ⟨s.fresh, Nat.lt_succ_self _, by rw [mine]⟩
    · rw [List.mem_singleton.mp member]
      exact ⟨s.fresh, Nat.lt_succ_self _, by rw [mine]⟩

theorem Logged.move {move : Move} (logged : Logged s s.mark) (loggable : s.Loggable move) :
    Logged (s.apply move) (s.apply move).mark := by
  cases move with
  | wake t => exact logged.wake loggable
  | sleep state => exact logged.sleep loggable
  | doze =>
    have here : s.current = initTask := loggable
    have still : Logged (s.apply .doze) s.mark :=
      ⟨logged.written, logged.past, logged.here, logged.idle, logged.apart, logged.last, logged.known⟩
    apply still.congr
    intro t other _
    have apart : t ≠ s.current := fun same => other (same.trans here)
    have kept : (s.apply .doze).state t = s.state t := Function.update_of_ne apart _ _
    unfold Lives.mark
    rw [kept]
    rfl
  | switch t => exact logged.switch loggable
  | born pid => exact logged.born loggable
  | die => exact logged.die loggable
  | tick =>
    refine { logged with past := fun line member => ?_ }
    have later := logged.past line member
    have one : (s.apply .tick).jiffies = s.jiffies + 1 := rfl
    rw [one]
    omega

theorem Logged.known_mark (logged : Logged s s.mark) {pid : Int} (other : pid ≠ 0)
    (last : lastMark s.log pid = some m) : ∃ t, t ≠ initTask ∧ t < s.fresh ∧ (s.pid t).toInt = pid ∧ s.mark t = m := by
  obtain ⟨line, member, mine⟩ : ∃ line ∈ s.log, line.pid = pid := by
    by_contra unknown
    rw [lastMark_none fun line member same => unknown ⟨line, member, same⟩] at last
    cases last
  obtain ⟨t, born, same⟩ := logged.known line member
  have apart : t ≠ initTask := fun idle => other (by rw [← mine, same, (logged.pid_zero born).mpr idle])
  have there := logged.last t apart born
  rw [← same, mine, last] at there
  exact ⟨t, apart, born, same.symm.trans mine, (Option.some.inj there).symm⟩

theorem mark_running_iff : s.mark t = .running ↔ s.state t = .running ∧ t = s.current := by
  unfold Lives.mark
  cases s.state t <;> simp

theorem mark_not_new : s.mark t ≠ .new := by
  unfold Lives.mark
  cases s.state t <;> dsimp only <;> first | exact Mark.noConfusion | (split <;> exact Mark.noConfusion)

theorem Logged.lawful (logged : Logged s s.mark) {pid : Int} (other : pid ≠ 0) :
    marks s.log pid = [] ∨ Lawful (marks s.log pid) := by
  rcases logged.written.lawful other with empty | first | lawful
  · exact .inl empty
  · have last : lastMark s.log pid = some .new := by
      unfold lastMark
      rw [first]
      rfl
    obtain ⟨t, _, _, _, new⟩ := logged.known_mark other last
    exact absurd new mark_not_new
  · exact .inr lawful

theorem Logged.running_iff (logged : Logged s s.mark) {pid : Int} (other : pid ≠ 0) :
    lastMark s.log pid = some .running ↔
      (s.pid s.current).toInt = pid ∧ lastMark s.log pid ≠ some .waiting ∧ lastMark s.log pid ≠ some .exit := by
  constructor
  · intro last
    obtain ⟨t, _, _, same, running⟩ := logged.known_mark other last
    rw [← (mark_running_iff.mp running).2, last]
    exact ⟨same, nofun, nofun⟩
  · rintro ⟨mine, awake, alive⟩
    have apart : s.current ≠ initTask := fun idle => other (mine ▸ (logged.pid_zero logged.here).mpr idle)
    have last := logged.last s.current apart logged.here
    rw [mine] at last
    rw [last] at awake alive ⊢
    unfold Lives.mark at awake alive ⊢
    cases state : s.state s.current <;> simp [state] at awake alive ⊢

def turns (log : List Line) (pid : Int) : Nat := (marks log pid).count .running

theorem turns_snoc {log : List Line} {line : Line} {pid : Int} (mark : line.mark = some m) :
    turns (log ++ [line]) pid = turns log pid + if line.pid = pid ∧ m = .running then 1 else 0 := by
  unfold turns
  rw [marks_snoc mark]
  by_cases mine : line.pid = pid
  · simp [mine, List.count_singleton]
  · simp [mine]

theorem turns_other {log : List Line} {line : Line} {pid : Int} (mark : line.mark = some m) (other : m ≠ .running) :
    turns (log ++ [line]) pid = turns log pid := by
  rw [turns_snoc mark, if_neg fun both => other both.2]
  rfl

theorem turns_apply {pid : Int} (move : Move) (switches : ∀ t, move ≠ .switch t) :
    turns (s.apply move).log pid = turns s.log pid := by
  cases move with
  | wake t => exact turns_other (mark_letter .ready _ _) Mark.noConfusion
  | sleep state => exact turns_other (mark_letter .waiting _ _) Mark.noConfusion
  | switch t => exact absurd rfl (switches t)
  | born new =>
    have lines : (s.apply (.born new)).log = s.log ++ [⟨new.toInt, Mark.new.letter, s.jiffies⟩] ++
        [⟨new.toInt, Mark.ready.letter, s.jiffies⟩] := (List.append_assoc _ [_] [_]).symm
    rw [lines, turns_other (mark_letter .ready _ _) Mark.noConfusion, turns_other (mark_letter .new _ _) Mark.noConfusion]
  | die => exact turns_other (mark_letter .exit _ _) Mark.noConfusion
  | doze => rfl
  | tick => rfl

theorem turns_switch {pid : Int} :
    turns (s.apply (.switch t)).log pid = turns s.log pid + if (s.pid t).toInt = pid then 1 else 0 := by
  have last (log : List Line) : turns (log ++ [s.line t .running]) pid =
      turns log pid + if (s.pid t).toInt = pid then 1 else 0 := by
    have now : (s.line t .running).mark = some .running := mark_letter _ _ _
    rw [turns_snoc now]
    simp [Lives.line]
  unfold Lives.apply Lives.switching
  dsimp only
  split
  · have first : turns (s.log ++ [s.line s.current .ready]) pid = turns s.log pid :=
      turns_other (mark_letter .ready _ _) Mark.noConfusion
    rw [← List.append_assoc, last, first]
  · rw [List.nil_append, last]

end Log

namespace Kernel

variable {Queue : Type}

theorem nextPid_free {k : Kernel Queue} {lastPid pid : BitVec 32} {rounds : Nat}
    (found : k.nextPid lastPid rounds = some pid) {i : Fin 64} {t : Task} (there : k.task i = some t) :
    (k.info t).pid ≠ pid := by
  induction rounds generalizing lastPid with
  | zero => cases found
  | succ rounds ih =>
    unfold nextPid at found
    generalize (if (lastPid + 1).slt 0 = true then 1 else lastPid + 1) = next at found
    dsimp only at found
    split at found
    · exact ih found
    · rename_i none
      cases found
      intro same
      apply none
      rw [List.any_eq_true]
      refine ⟨i, List.mem_finRange i, ?_⟩
      rw [there]
      exact decide_eq_true same

theorem Started.logged {k : Kernel Queue} (started : k.Started) : Logged k.lives k.lives.mark where
  written := by
    have empty : k.lives.log = [] := started.log
    rw [empty]
    exact .nil
  past line member := by
    have empty : k.lives.log = [] := started.log
    rw [empty] at member
    cases member
  here := started.shape.here
  idle := started.shape.pid
  apart t u born born' _ := by
    have one : k.lives.fresh = 1 := started.fresh
    rw [one] at born born'
    exact (Nat.lt_one_iff.mp born).trans (Nat.lt_one_iff.mp born').symm
  last t other born := by
    have one : k.lives.fresh = 1 := started.fresh
    rw [one] at born
    exact absurd (Nat.lt_one_iff.mp born) other
  known line member := by
    have empty : k.lives.log = [] := started.log
    rw [empty] at member
    cases member

variable [DecidableEq Queue] {k k' : Kernel Queue} {e : Event Queue}

/-- Whoever is woken is asleep and not `current`; `schedule` finds no signal for `current`; a pid is new to the log;
    and process 0 logs nothing before the time its patched lines have. -/
def Logs (k : Kernel Queue) (e : Event Queue) : Prop :=
  (∀ t, k.target e = some t →
    (t = initTask → 40 ≤ k.jiffies) ∧ (t ≠ initTask → k.lives.Asleep t ∧ t ≠ k.current)) ∧
  (k.Waits e → k.current = initTask → 40 ≤ k.jiffies) ∧
  match e with
  | .schedule rounds => (k.current ≠ initTask → ¬ k.Due k.current) ∧ (k.TurnsIdle rounds → 40 ≤ k.jiffies)
  | .fork rounds true =>
    ∀ pid nr, k.findEmptyProcess rounds = some (pid, some nr) → ∀ line ∈ k.log, line.pid ≠ pid.toInt
  | _ => True

theorem Made.loggable (shape : k.Shape) (logged : Logged k.lives k.lives.mark) (condition : k.Logs e) {s : Lives}
    {m : Move} (made : Made k e s m) : s.Loggable m := by
  obtain ⟨wakes, waits, own⟩ := condition
  have runs (back : k.calling = false) (other : k.current ≠ initTask) : k.lives.state k.current = .running :=
    (shape.active back).resolve_left other
  cases made with
  | called target =>
    obtain ⟨idle, asleep⟩ := wakes _ target
    exact ⟨shape.points _ (target_points target), idle, asleep⟩
  | slept asleep back idle => exact ⟨asleep, fun here => waits (idle here) here, runs back⟩
  | again back other waiting =>
    refine ⟨.inl rfl, waits waiting, fun apart => ?_⟩
    exact (Function.update_of_ne (Ne.symm other) _ _).trans (runs back apart)
  | dozed back idle =>
    apply (logged.pid_zero logged.here).mp
    rw [show k.lives.pid k.lives.current = (k.info k.current).pid from rfl, idle]
    rfl
  | signalled fresh current asleep other born due =>
    refine ⟨fresh ▸ born, fun idle => absurd idle other, fun _ => ⟨.inl asleep, fun same => ?_⟩⟩
    have here := same.trans current
    exact own.1 (here ▸ other) (here ▸ due here)
  | switched fresh jiffies current other born running idle =>
    refine ⟨fresh ▸ born, other, running, fun turn => ?_⟩
    rw [jiffies]
    exact own.2 (idle turn)
  | forked found =>
    refine ⟨?_, own _ _ found⟩
    unfold findEmptyProcess at found
    simp only [Option.bind_eq_bind, Option.bind_eq_some_iff, Option.pure_def, Option.some.injEq, Prod.mk.injEq] at found
    obtain ⟨_, next, rfl, _⟩ := found
    have taken := nextPid_free next shape.idle
    rw [shape.pid] at taken
    exact taken.symm
  | exited back other => exact ⟨other, runs back other⟩
  | ticked => trivial

theorem Step.logged (shape : k.Shape) (logged : Logged k.lives k.lives.mark) (condition : k.Logs e)
    (step : Step k e k') : Logged k'.lives k'.lives.mark := by
  obtain ⟨ms, run⟩ := step.walks shape
  apply run.invariant (I := fun s => Logged s s.mark)
  · rintro s m _ logged' ⟨made, rfl⟩
    exact logged'.move (made.loggable shape logged condition)
  · exact logged

/-- The log has one more `R` of a process when its task becomes `current`, and only then. -/
theorem Step.turns (shape : k.Shape) (step : Step k e k') (pid : Int) :
    turns k'.log pid = turns k.log pid +
      if k'.current ≠ k.current ∧ (k'.info k'.current).pid.toInt = pid then 1 else 0 := by
  obtain ⟨ms, run⟩ := step.walks shape
  have kept : Lively k'.lives ∧ LifeCycle.turns k'.lives.log pid = LifeCycle.turns k.log pid +
      if k'.lives.current ≠ k.current ∧ (k'.lives.pid k'.lives.current).toInt = pid then 1 else 0 := by
    apply run.invariant (I := fun s => Lively s ∧ LifeCycle.turns s.log pid = LifeCycle.turns k.log pid +
      if s.current ≠ k.current ∧ (s.pid s.current).toInt = pid then 1 else 0)
    · rintro s m _ ⟨lively, counted⟩ ⟨made, rfl⟩
      refine ⟨lively.move made, ?_⟩
      by_cases switches : ∃ t, m = .switch t
      · obtain ⟨t, rfl⟩ := switches
        cases made with
        | switched fresh jiffies current other =>
          have same : (s.apply (.switch t)).current = t := rfl
          have pids : (s.apply (.switch t)).pid = s.pid := rfl
          rw [turns_switch, counted, same, pids, current]
          simp [current ▸ other]
      · rw [turns_apply m fun t same => switches ⟨t, same⟩, counted]
        have same : (s.apply m).current = s.current := by
          cases m <;> first | rfl | exact absurd ⟨_, rfl⟩ switches
        have pids : (s.apply m).pid s.current = s.pid s.current := by
          cases m <;> first | rfl | exact Function.update_of_ne (Nat.ne_of_lt lively.here) _ _
        rw [same, pids]
    · refine ⟨⟨shape.here, shape.alive, shape.pid⟩, ?_⟩
      have same : k.lives.current = k.current := rfl
      rw [same, if_neg fun both => both.1 rfl]
      rfl
  exact kept.2

end Kernel

variable {Queue : Type} [DecidableEq Queue] {k : Kernel Queue}

/-- Where every wake-up, signal and pid meets the condition, the log is `N`, `J` and lawful changes for every process,
    `R` says who runs, and the parser does not complain but about a repeated line. -/
theorem log_accepted (reached : ((kernel Queue).restrict Kernel.Logs).Reaches k) :
    (∀ pid : Int, pid ≠ 0 → (marks k.log pid = [] ∨ Lawful (marks k.log pid)) ∧
      (lastMark k.log pid = some .running ↔ (k.info k.current).pid.toInt = pid ∧
        lastMark k.log pid ≠ some .waiting ∧ lastMark k.log pid ≠ some .exit) ∧
      ∀ e k', (kernel Queue).step k e k' → turns k'.log pid = turns k.log pid +
        if k'.current ≠ k.current ∧ (k'.info k'.current).pid.toInt = pid then 1 else 0) ∧
      ∀ e, parse k.log = .error e → e = .sameLine := by
  have kept : k.Shape ∧ Logged k.lives k.lives.mark := by
    apply reached.invariant (I := fun k => k.Shape ∧ Logged k.lives k.lives.mark)
    · exact fun _ started => ⟨started.shape, started.logged⟩
    · exact fun _ _ _ before step => ⟨before.1.step step.2, step.2.logged before.1 before.2 step.1⟩
  obtain ⟨shape, logged⟩ := kept
  refine ⟨fun pid other => ⟨logged.lawful other, logged.running_iff other, ?_⟩, fun e raised => ?_⟩
  · exact fun e k' step => step.turns shape pid
  · rcases logged.written.accepted with twice | ⟨r, read, _⟩
    · exact (Except.error.inj (raised.symm.trans twice))
    · cases raised.symm.trans read

/-- Process 0 creates process 1, pauses and switches to it. -/
def firstTurn : List (Event Unit) := [.fork 1 true, .pause, .schedule 1]

theorem first_turn_accepted : ∃ k : Kernel Unit, marks k.log 1 = [.new, .ready, .running] ∧
    (∀ pid : Int, pid ≠ 0 → (marks k.log pid = [] ∨ Lawful (marks k.log pid)) ∧
      (lastMark k.log pid = some .running ↔ (k.info k.current).pid.toInt = pid ∧
        lastMark k.log pid ≠ some .waiting ∧ lastMark k.log pid ≠ some .exit) ∧
      ∀ e k', (kernel Unit).step k e k' → turns k'.log pid = turns k.log pid +
        if k'.current ≠ k.current ∧ (k'.info k'.current).pid.toInt = pid then 1 else 0) ∧
      ∀ e, parse k.log = .error e → e = .sameLine := by
  have ran : ((firstTurn.foldlM (fun k e => if k.current = initTask ∧ 40 ≤ k.jiffies ∧
      (e = .fork 1 true ∧ k.log = [] ∨ e = .pause ∨ e = .schedule 1) then k.perform e else none) (opened Unit)).any
        fun k => marks k.log 1 = [.new, .ready, .running]) = true := by decide +kernel
  obtain ⟨k, ends, entries⟩ := (Option.any_eq_true _ _).mp ran
  refine ⟨k, of_decide_eq_true entries, log_accepted ⟨opened Unit, firstTurn, opened_started Unit, ?_⟩⟩
  apply Machine.run_of_foldlM _ ends
  intro k e k' done
  rw [Option.ite_none_right_eq_some] at done
  obtain ⟨⟨idle, late, events⟩, done⟩ := done
  refine ⟨⟨?_, fun _ _ => late, ?_⟩, Kernel.perform_step done⟩
  · rcases events with ⟨rfl, _⟩ | rfl | rfl <;> exact nofun
  · rcases events with ⟨rfl, empty⟩ | rfl | rfl
    · intro _ _ _ line member
      rw [empty] at member
      cases member
    · trivial
    · exact ⟨fun other => absurd idle other, fun _ => late⟩

/-- Both tasks sleep on one queue; the second is woken, the first gets a signal, and the second wakes it once more. -/
def wokenTwice : List (Event Unit) :=
  [.fork 1 true, .pause, .schedule 2, .fork 1 true, .interruptibleSleepOn (), .schedule 2, .sleepOn (), .schedule 2,
    .wakeUp (), .sendSig 1 2, .pause, .schedule 2, .resume]

theorem ready_logged_twice : ∃ k, (kernel Unit).Reaches k ∧
    marks k.log 1 = [.new, .ready, .running, .waiting, .ready, .ready] ∧ parse k.log = .error (.repeatState 1) := by
  have ran : ((wokenTwice.foldlM Kernel.perform (opened Unit)).any fun k =>
      decide (marks k.log 1 = [.new, .ready, .running, .waiting, .ready, .ready]) &&
        match parse k.log with
        | .error e => decide (e = .repeatState 1)
        | .ok _ => false) = true := by decide +kernel
  obtain ⟨k, ends, last⟩ := (Option.any_eq_true _ _).mp ran
  obtain ⟨entries, raised⟩ := Bool.and_eq_true_iff.mp last
  refine ⟨k, ⟨opened Unit, wokenTwice, opened_started Unit, ?_⟩, of_decide_eq_true entries, ?_⟩
  · exact Machine.run_of_foldlM (fun _ _ _ => Kernel.perform_step) ends
  · split at raised
    · rename_i e parsed
      rw [parsed, of_decide_eq_true raised]
    · cases raised

end Linux011.LifeCycle

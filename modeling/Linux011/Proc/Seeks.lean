import Linux011.Proc.Reads

namespace Linux011.Proc

open Linux011.Library

variable {L : Layout}

def texts (node : Node) (es : List Event) : List (List Byte) :=
  es.filterMap fun e => e.reply.produced.bind fun p => if p.1 = node then some p.2 else none

/-- What the latest refresh of a node wrote. -/
def latest (es : List Event) (node : Node) : List Byte := (texts node es).getLast?.getD []

section History

variable {es : List Event} {e : Event} {node : Node}

theorem texts_none (quiet : e.reply.produced = none) : texts node (es ++ [e]) = texts node es := by
  simp [texts, quiet]

theorem texts_some {n : Node} {text : List Byte} (made : e.reply.produced = some (n, text)) :
    texts node (es ++ [e]) = texts node es ++ if n = node then [text] else [] := by
  by_cases same : n = node
  · simp [texts, made, same]
  · simp [texts, made, same]

theorem latest_none (quiet : e.reply.produced = none) : latest (es ++ [e]) = latest es := by
  funext node
  rw [latest, texts_none quiet, ← latest]

theorem latest_some {n : Node} {text : List Byte} (made : e.reply.produced = some (n, text)) :
    latest (es ++ [e]) = Function.update (latest es) n text := by
  funext node
  rw [latest, texts_some made]
  by_cases same : n = node
  · subst same
    simp
  · rw [if_neg same, List.append_nil, ← latest, Function.update_of_ne (Ne.symm same)]

end History

section SysRead

variable {s t : State} {es : List Event} {pid : Int} {fd : Nat} {file : File} {node : Node}

theorem sysRead_node (here : s.files fd = some file) (proc : nodeOf file.dev = some node) {count : Nat}
    (positive : 0 < count) :
    s.sysRead L pid fd count =
      let out := readNode L s.device s.system pid node file.pos count
      (⟨out.1, s.system, Function.update s.files fd (some { file with pos := out.2.1 })⟩, out.2.2) := by
  have natural : ¬ ((count : Int) < 0) := by omega
  have some : ¬ ((count : Int) = 0) := by omega
  simp only [State.sysRead, here, if_neg natural, if_neg some, procRead, proc, Int.toNat_natCast]

theorem sysRead_system (count : Int) : (s.sysRead L pid fd count).1.system = s.system := by
  unfold State.sysRead
  split
  · rfl
  · split
    · rfl
    · split <;> rfl

theorem sysRead_zero (here : s.files fd = some file) : (s.sysRead L pid fd 0) = (s, .plain 0) := by
  simp [State.sysRead, here]

theorem sysRead_other {count : Int} (other : ∀ file node, s.files fd = some file → nodeOf file.dev = some node →
    count ≤ 0) :
    (s.sysRead L pid fd count).1 = s ∧ (s.sysRead L pid fd count).2.produced = none := by
  unfold State.sysRead
  split
  · exact ⟨rfl, rfl⟩
  · rename_i file here
    split
    · exact ⟨rfl, rfl⟩
    · split
      · exact ⟨rfl, rfl⟩
      · have absent : nodeOf file.dev = none := by
          cases proc : nodeOf file.dev with
          | none => rfl
          | some node =>
            have bound := other file node here proc
            omega
        have same : Function.update s.files fd (some file) = s.files := by rw [← here, Function.update_eq_self]
        simp [procRead, absent, same, Reply.plain]

theorem seek_device (pos : BitVec 32) :
    (s.seek fd file pos).1.device = s.device ∧ (s.seek fd file pos).2.produced = none := by
  unfold State.seek
  split
  · exact ⟨rfl, rfl⟩
  · exact ⟨rfl, rfl⟩

theorem sysLseek_device (offset : BitVec 32) (origin : Int) :
    (s.sysLseek fd offset origin).1.device = s.device ∧ (s.sysLseek fd offset origin).2.produced = none := by
  unfold State.sysLseek
  split
  · exact ⟨rfl, rfl⟩
  · split
    · exact seek_device _
    · split
      · exact seek_device _
      · split
        · exact seek_device _
        · exact ⟨rfl, rfl⟩

end SysRead

theorem Served.latest {system : System} {es : List Event} {node : Node} {pos : BitVec 32} {count : Nat}
    {out : Device × BitVec 32 × Reply} (served : Served L system (latest es) node pos count out) {e : Event}
    (reply : e.reply = out.2.2) :
    latest (es ++ [e]) = Function.update (Proc.latest es) node (source system (Proc.latest es) node pos) := by
  have produced := served.produced
  rw [← reply] at produced
  unfold source
  by_cases start : pos = 0
  · rw [if_pos start] at produced
    rw [if_pos start, latest_some produced]
  · rw [if_neg start] at produced
    rw [if_neg start, latest_none produced, Function.update_eq_self]

theorem Keeps.step {es : List Event} {s t : State} {e : Event} (keeps : Keeps L s.device (latest es))
    (fits : s.system.Fits) (step : (procfs L).step s e t) : Keeps L t.device (latest (es ++ [e])) := by
  have performed : s.perform L e.pid e.call = (t, e.reply) := step
  have quiet (same : (s.perform L e.pid e.call).1.device = s.device ∧ (s.perform L e.pid e.call).2.produced = none) :
      Keeps L t.device (latest (es ++ [e])) := by
    rw [performed] at same
    rw [latest_none same.2, same.1]
    exact keeps
  cases called : e.call with
  | change system =>
    apply quiet
    rw [called]
    exact ⟨rfl, rfl⟩
  | lseek fd offset origin =>
    apply quiet
    rw [called]
    exact sysLseek_device offset origin
  | read fd n =>
    by_cases serves : ∃ file node, s.files fd = some file ∧ nodeOf file.dev = some node ∧ 0 < n
    · obtain ⟨file, node, here, proc, positive⟩ := serves
      obtain ⟨count, rfl⟩ := Int.eq_ofNat_of_zero_le (Int.le_of_lt positive)
      rw [called] at performed
      rw [State.perform, sysRead_node here proc (Int.natCast_pos.mp positive), Prod.mk.injEq] at performed
      have served := keeps.readNode fits e.pid node file.pos count
      rw [served.latest performed.2.symm, ← performed.1]
      exact served.keeps
    · have idle : (s.sysRead L e.pid fd n).1 = s ∧ (s.sysRead L e.pid fd n).2.produced = none :=
        sysRead_other fun file node here proc =>
          Int.not_lt.mp fun positive => serves ⟨file, node, here, proc, positive⟩
      apply quiet
      rw [called]
      exact ⟨congrArg State.device idle.1, idle.2⟩

theorem Booted.keeps {s : State} (booted : Booted L s) : Keeps L s.device (latest []) where
  free := booted.pid
  holds node := by
    have none : latest [] node = [] := rfl
    rw [none]
    exact ⟨Nat.zero_lt_succ _, fun _ member => (nomatch member), fun _ inside => (nomatch inside),
      booted.clear node 0 (by decide)⟩

/-- The texts fit the buffers whenever the processes do anything. -/
def Fitting (s : State) (_ : Event) : Prop := s.system.Fits

theorem Booted.run_keeps {s₀ s : State} {es : List Event} (booted : Booted L s₀)
    (run : ((procfs L).restrict Fitting).Run s₀ es s) : Keeps L s.device (latest es) := by
  apply run.trace_invariant (I := fun es s => Keeps L s.device (latest es))
  · intro es s e t keeps step
    exact keeps.step step.1 step.2
  · exact booted.keeps

/-- A read returns bytes of a text only, and no others than those asked for. -/
structure Within (text : List Byte) (pos : BitVec 32) (count : Nat) (reply : Reply) : Prop where
  indexes : ∀ i ∈ reply.indexes, i.toNat < text.length
  short : text.length ≤ 1023
  bytes : reply.bytes = (text.drop pos.toNat).take count
  result : reply.result = (min count (text.length - pos.toNat) : Nat)

/-- The same but for the byte 0 behind the text, which the loop looks at. -/
structure Bounded (text : List Byte) (pos : BitVec 32) (count : Nat) (reply : Reply) : Prop where
  indexes : ∀ i ∈ reply.indexes, i.toNat ≤ text.length
  short : text.length ≤ 1023
  bytes : reply.bytes = (text.drop pos.toNat).take count
  result : reply.result = (min count (text.length - pos.toNat) : Nat)

theorem scan_first {buf : BitVec 32 → Byte} {count : Nat} (pos : BitVec 32) (positive : 0 < count) :
    pos ∈ (scan buf count pos).indexes := by
  cases count with
  | zero => cases positive
  | succ count =>
    rw [scan]
    split <;> simp

section Served

variable {system : System} {before : Node → List Byte} {node : Node} {pos : BitVec 32} {count : Nat}
  {out : Device × BitVec 32 × Reply}

theorem Served.scanned (served : Served L system before node pos count out)
    (start : pos.toNat ≤ (source system before node pos).length) :
    ∃ loop, Scanned (source system before node pos) pos.toNat count loop ∧ out.2.1 = loop.pos ∧
      out.2.2.bytes = loop.bytes ∧ out.2.2.indexes = loop.indexes := by
  obtain ⟨memory, holds, loop, rfl, rest⟩ := served.loop
  have scanned := holds.scanned count pos.toNat start
  rw [BitVec.ofNat_toNat, BitVec.setWidth_eq] at scanned
  exact ⟨_, scanned, rest⟩

theorem Served.first (served : Served L system before node pos count out) (positive : 0 < count) :
    pos ∈ out.2.2.indexes := by
  obtain ⟨memory, _, loop, rfl, _, _, indexes⟩ := served.loop
  rw [indexes]
  exact scan_first pos positive

theorem Served.short (served : Served L system before node pos count out) :
    (source system before node pos).length < 1024 := by
  obtain ⟨_, holds, _⟩ := served.loop
  exact holds.short

theorem Served.bounded_iff (served : Served L system before node pos count out) (positive : 0 < count) :
    Bounded (source system before node pos) pos count out.2.2 ↔
      pos.toNat ≤ (source system before node pos).length := by
  refine ⟨fun bounded => bounded.indexes pos (served.first positive), fun start => ?_⟩
  have short := served.short
  obtain ⟨loop, scanned, _, bytes, indexes⟩ := served.scanned start
  have result := served.result
  rw [bytes, scanned.bytes, List.length_take, List.length_drop] at result
  exact ⟨fun i member => scanned.toEnd i (indexes ▸ member), by omega, bytes.trans scanned.bytes, result⟩

theorem Served.within_iff (served : Served L system before node pos count out) (positive : 0 < count) :
    Within (source system before node pos) pos count out.2.2 ↔
      pos.toNat + count ≤ (source system before node pos).length := by
  constructor
  · intro within
    have start := within.indexes pos (served.first positive)
    obtain ⟨loop, scanned, _, _, indexes⟩ := served.scanned (Nat.le_of_lt start)
    apply scanned.within.mp
    rw [← indexes]
    exact within.indexes
  · intro inside
    have start : pos.toNat ≤ (source system before node pos).length := by omega
    have bounded := (served.bounded_iff positive).mpr start
    obtain ⟨loop, scanned, _, _, indexes⟩ := served.scanned start
    refine ⟨?_, bounded.short, bounded.bytes, bounded.result⟩
    rw [indexes]
    exact scanned.within.mpr inside

end Served

/-- A read at a position other calls left stays inside the latest text exactly when it does not pass its end,
    and reads nothing behind the end exactly when it starts no later than there. -/
theorem read_within_iff {s₀ s : State} {es : List Event} (booted : Booted L s₀)
    (run : ((procfs L).restrict Fitting).Run s₀ es s) (fits : s.system.Fits) {fd : Nat} {file : File} {node : Node}
    (here : s.files fd = some file) (proc : nodeOf file.dev = some node) (pid : Int) (count : Nat) :
    let reply := (s.sysRead L pid fd count).2
    let text := latest (es ++ [⟨pid, .read fd count, reply⟩]) node
    (Within text file.pos count reply ↔ count = 0 ∨ file.pos.toNat + count ≤ text.length) ∧
      (Bounded text file.pos count reply ↔ count = 0 ∨ file.pos.toNat ≤ text.length) := by
  intro reply text
  have keeps := booted.run_keeps run
  rcases Nat.eq_zero_or_pos count with rfl | positive
  · have none : reply = .plain 0 := congrArg Prod.snd (sysRead_zero here)
    have same : text = latest es node := by
      have quiet : reply.produced = Option.none := by rw [none]; rfl
      exact congrFun (latest_none quiet) node
    have short : text.length ≤ 1023 := by
      have bound := (keeps.holds node).short
      rw [same]
      omega
    rw [none]
    simp only [true_or, iff_true]
    exact ⟨⟨fun _ member => (nomatch member), short, by simp [Reply.plain], by simp [Reply.plain]⟩,
      ⟨fun _ member => (nomatch member), short, by simp [Reply.plain], by simp [Reply.plain]⟩⟩
  · have served := keeps.readNode fits pid node file.pos count
    have made : reply = (readNode L s.device s.system pid node file.pos count).2.2 :=
      congrArg Prod.snd (sysRead_node here proc positive)
    have now : text = source s.system (latest es) node file.pos := by
      have after := congrFun (served.latest (show (⟨pid, .read fd count, reply⟩ : Event).reply = _ from made)) node
      rw [Function.update_self] at after
      exact after
    have some : count ≠ 0 := by omega
    rw [now, made]
    simp only [some, false_or]
    exact ⟨served.within_iff positive, served.bounded_iff positive⟩

section Linked

def linked : Layout where
  psinfoBuf := 0x20000
  hdinfoBuf := 0x20400
  apart := by
    intro i low j low' same
    have value := congrArg BitVec.toNat same
    simp only [BitVec.toNat_add, BitVec.toNat_ofNat, BitVec.reduceToNat] at value
    omega

def system : System where
  task i := if i = 1 then some ⟨1, 0, 0, 15, 40⟩ else none
  root := none

/-- Three open files, none of them read, with a memory that is clear but for one byte behind the buffers. -/
def started : State where
  device := ⟨fun a => if a = 0x21388 then 0x53 else 0, fun _ => -1⟩
  system := system
  files fd := if fd < 2 then some ⟨0, 0, 0⟩ else if fd = 2 then some ⟨1, 0, 0⟩ else none

theorem started_booted : Booted linked started where
  pid _ := rfl
  clear := by
    intro node i low
    apply if_neg
    intro same
    have value := congrArg BitVec.toNat same
    cases node <;>
      simp only [Layout.buf, linked, BitVec.toNat_add, BitVec.toNat_ofNat, BitVec.reduceToNat] at value <;>
      omega
  start := by
    intro fd file here
    simp only [started] at here
    split at here
    · exact Option.some.inj here ▸ rfl
    · split at here
      · exact Option.some.inj here ▸ rfl
      · cases here

theorem system_fits : system.Fits := by
  unfold System.Fits
  decide +kernel

/-- A process reads, seeks past the text, and reads again. -/
def oneRead : State × Reply := started.sysRead linked 1 0 (1 : Nat)

def sought : State × Reply := oneRead.1.sysLseek 0 5000 0

def soughtEvents : List Event := [⟨1, .read 0 (1 : Nat), oneRead.2⟩, ⟨1, .lseek 0 5000 0, sought.2⟩]

theorem oneRead_fits : oneRead.1.system.Fits := by
  rw [oneRead, sysRead_system]
  exact system_fits

/-- It reads on where the first read has stopped. -/
theorem header_read_within :
    let reply := (oneRead.1.sysRead linked 1 0 (10 : Nat)).2
    let text := latest ([⟨1, .read 0 (1 : Nat), oneRead.2⟩] ++ [⟨1, .read 0 (10 : Nat), reply⟩]) .psinfo
    Within text 1 10 reply ∧ (Bounded text 1 10 reply ↔ 10 = 0 ∨ (1 : BitVec 32).toNat ≤ text.length) := by
  have first : ((procfs linked).restrict Fitting).step started ⟨1, .read 0 (1 : Nat), oneRead.2⟩ oneRead.1 :=
    ⟨system_fits, rfl⟩
  have here : oneRead.1.files 0 = some ⟨0, 0, 1⟩ := by
    have one : (readNode linked started.device started.system 1 .psinfo 0 1).2.1 = 1 := by decide +kernel
    rw [oneRead, sysRead_node rfl rfl (by decide)]
    exact congrArg (fun pos => some (File.mk 0 0 pos)) one
  have both := read_within_iff started_booted (.one first) oneRead_fits here rfl 1 10
  have long : (1 : BitVec 32).toNat + 10 ≤ (latest ([⟨1, .read 0 (1 : Nat), oneRead.2⟩] ++
      [⟨1, .read 0 (10 : Nat), (oneRead.1.sysRead linked 1 0 (10 : Nat)).2⟩]) .psinfo).length := by
    decide +kernel
  exact ⟨both.1.mpr (.inr long), both.2⟩

theorem sought_state :
    sought.1 = { oneRead.1 with files := Function.update oneRead.1.files 0 (some ⟨0, 0, 5000⟩) } := by
  have opened : ∃ pos, oneRead.1.files 0 = some ⟨0, 0, pos⟩ := by
    rw [oneRead, sysRead_node rfl rfl (by decide)]
    exact ⟨_, rfl⟩
  obtain ⟨pos, opened⟩ := opened
  simp [sought, State.sysLseek, opened, State.seek]

theorem sought_run : ((procfs linked).restrict Fitting).Run started soughtEvents sought.1 := by
  have first : ((procfs linked).restrict Fitting).step started ⟨1, .read 0 (1 : Nat), oneRead.2⟩ oneRead.1 :=
    ⟨system_fits, rfl⟩
  exact (Machine.Run.one first).snoc ⟨oneRead_fits, rfl⟩

/-- Behind the text a read gives out the memory of the kernel. -/
theorem memory_read_behind_text :
    Booted linked started ∧ ((procfs linked).restrict Fitting).Run started soughtEvents sought.1 ∧
      sought.1.system.Fits ∧ sought.1.files 0 = some ⟨0, 0, 5000⟩ ∧
      let reply := (sought.1.sysRead linked 1 0 (1 : Nat)).2
      reply.bytes = [0x53] ∧
        ¬ Within (latest (soughtEvents ++ [⟨1, .read 0 (1 : Nat), reply⟩]) .psinfo) 5000 1 reply := by
  have fits : sought.1.system.Fits := by
    rw [sought_state]
    exact oneRead_fits
  have here : sought.1.files 0 = some ⟨0, 0, 5000⟩ := by
    rw [sought_state]
    rfl
  refine ⟨started_booted, sought_run, fits, here, by decide +kernel, ?_⟩
  intro within
  have keeps := started_booted.run_keeps sought_run
  have first : (5000 : BitVec 32) ∈ (sought.1.sysRead linked 1 0 (1 : Nat)).2.indexes := by
    rw [sysRead_node here rfl (by decide)]
    exact (keeps.readNode fits 1 .psinfo 5000 1).first (by decide)
  have inside := within.indexes 5000 first
  have short := within.short
  have value : (5000 : BitVec 32).toNat = 5000 := by decide
  omega

end Linked

end Linux011.Proc

import Linux011.Mm.Debug
import Linux011.Mm.FreePages
import Linux011.Mm.Supervisor

namespace Linux011.Mm

/-- Memory but for the data of the kernel itself, the caller's `filp[]`, and what else the file system calls change. -/
structure Session (File Rest : Type) where
  memory : Memory
  filp : Nat → Option File
  rest : Rest

/-- The calls made to report, each with its arguments first. `sys_open` does not return where the caller is killed: for
    want of a page its path is to be loaded to, or for a path that leaves its segment. -/
structure FileCalls (File Rest : Type) where
  sysOpen : Nat → Session File Rest → Option (BitVec 32 × Session File Rest)
  /-- The linear addresses of the bytes of a path that `sys_open` reads. -/
  pathBytes : Nat → Session File Rest → List Nat
  isPipe : File → Bool
  sysClose : BitVec 32 → Session File Rest → Session File Rest
  sysWrite : BitVec 32 → Line → Session File Rest → Session File Rest
  fileWrite : File → Line → Session File Rest → Session File Rest
  ttyWrite : String → Session File Rest → Session File Rest

variable {File Rest : Type}

namespace FileCalls

variable (c : FileCalls File Rest) (s : Session File Rest)

def printk (text : String) : Session File Rest := c.ttyWrite text s

def fprintk (fd : BitVec 32) (line : Line) (s : Session File Rest) : Session File Rest :=
  if fd.slt 3 then c.sysWrite fd line s
  else
    match s.filp fd.toNat with
    | none => s
    | some file => c.fileWrite file line s

def fprintks (fd : BitVec 32) (lines : List Line) : Session File Rest :=
  lines.foldl (fun s line => c.fprintk fd line s) s

/-- The first loop: print the page directory, and fill `pageTablesAddress`. -/
def printDirs (fd : BitVec 32) (first : Nat) (is : List Nat) : List Nat × Session File Rest :=
  is.foldl
    (fun found i => (found.1 ++ [found.2.memory.pageTablesAddress first i],
      c.fprintks found.2 fd (found.2.memory.dirLines first i))) ([], s)

def printTable (fd : BitVec 32) (table : Nat) : Session File Rest :=
  if table ≠ 0 then
    (List.range shownEntries).foldl (fun s j => c.fprintks s fd (s.memory.pageLines table j))
      (c.fprintks s fd [.tableTitle table, .pageTitle])
  else s

/-- `if (logPath) sys_close(outputFd);` and `return 0;` -/
def finish (logPath : Nat) (outputFd : BitVec 32) : Int × Session File Rest :=
  (0, if logPath ≠ 0 then c.sysClose outputFd s else s)

def printAll (fd : BitVec 32) (linearAddressBase : Nat) : Session File Rest :=
  let s := c.fprintk fd .dirTitle s
  let (pageTablesAddress, s) := c.printDirs s fd (linearAddressBase / 0x400000) (List.range 16)
  let s := pageTablesAddress.foldl (fun s table => c.printTable s fd table) s
  c.fprintk fd .separator s

/-- Only the paging of one address: an entry that is missing returns at once. -/
def printAddress (fd : BitVec 32) (linearAddress logPath : Nat) : Int × Session File Rest :=
  let dir := linearAddress / 0x400000
  let index := Memory.pageIndex linearAddress
  let offset := linearAddress % 4096
  let s := c.fprintks s fd [.linearAddress linearAddress, .indices dir index offset]
  if present (s.memory.words dir) then
    let table := frame (s.memory.words dir)
    if present (s.memory.words (tableWord table index)) then
      let page := frame (s.memory.words (tableWord table index))
      let s := c.fprintks s fd [.addresses table page (page * 4096 + offset), .separator]
      c.finish s logPath fd
    else (-22, s)
  else (-22, s)

/-- The log file's descriptor where there is a log path, else 1. -/
def output (logPath : Nat) : Option (BitVec 32 × Session File Rest) :=
  if logPath ≠ 0 then c.sysOpen logPath s else some (1, s)

/-- From the check of the descriptor on. -/
def printPaging (taskNumber : Nat) (pid : Int) (address logPath : Nat) (outputFd : BitVec 32) : Int × Session File Rest :=
  let linearAddressBase := Memory.base taskNumber
  -- `outputFd` is unsigned: of all errors only -1 is seen
  if logPath ≠ 0 ∧ outputFd = -1 then (-22, c.printk s "Failed to open output file!\n")
  else
    let s := c.fprintk outputFd (.task pid taskNumber linearAddressBase) s
    if address = 0 then c.finish (c.printAll s outputFd linearAddressBase) logPath outputFd
    else c.printAddress s outputFd ((linearAddressBase + address) % 2 ^ 32) logPath

/-- `sys_debug_paging` with its effects, where it returns. -/
def sysDebugPaging (pids : Nat → Option Int) (pid : Int) (address logPath : Nat) : Option (Int × Session File Rest) :=
  match findTask pids pid 63 with
  | none => some (-22, s)
  | some taskNumber =>
    (c.output s logPath).map fun (outputFd, s) => c.printPaging s taskNumber pid address logPath outputFd

end FileCalls

structure Same (s s' : Session File Rest) : Prop where
  memory : s'.memory = s.memory
  filp : s'.filp = s.filp

/-- What `sys_open` made of the open files: the lowest free descriptor is taken, for no pipe, or the error is negative. -/
inductive OpenResult (c : FileCalls File Rest) (s : Session File Rest) : BitVec 32 × Session File Rest → Prop
  | opened (fd : Nat) (file : File) (s' : Session File Rest) (inside : fd < 20) (free : s.filp fd = none)
      (lowest : ∀ i < fd, s.filp i ≠ none) (named : c.isPipe file = false)
      (filp : s'.filp = Function.update s.filp fd (some file)) : OpenResult c s (BitVec.ofNat 32 fd, s')
  | failed (error : BitVec 32) (s' : Session File Rest) (negative : error.toInt < 0) (filp : s'.filp = s.filp) :
      OpenResult c s (error, s')

/-- Every byte of the path that `sys_open` reads is in a present page. -/
def FileCalls.PathPresent (c : FileCalls File Rest) (path : Nat) (s : Session File Rest) : Prop :=
  ∀ x ∈ c.pathBytes path s, (s.memory.translate x).isSome

/-- The file system's calls do what they are for. A read of the path that finds no page has one mapped; the last close of
    a pipe frees a page; no other call changes memory. -/
structure FileCalls.Documented (c : FileCalls File Rest) : Prop where
  sysOpen : ∀ path s opened, c.sysOpen path s = some opened → OpenResult c s opened
  faults : ∀ path s opened, c.sysOpen path s = some opened → (opened.2.memory = s.memory ↔ c.PathPresent path s)
  sysClose : ∀ fd s, (c.sysClose fd s).filp = if fd.toNat < 20 then Function.update s.filp fd.toNat none else s.filp
  closed : ∀ fd s, (∀ file, fd.toNat < 20 → s.filp fd.toNat = some file → c.isPipe file = false) →
    (c.sysClose fd s).memory = s.memory
  sysWrite : ∀ fd line s, Same s (c.sysWrite fd line s)
  fileWrite : ∀ file line s, Same s (c.fileWrite file line s)
  ttyWrite : ∀ text s, Same s (c.ttyWrite text s)

namespace FileCalls

variable (c : FileCalls File Rest) (s : Session File Rest)

section Observer

variable (pids : Nat → Option Int) (pid : Int) (address logPath : Nat)

/-- A pure observer, that returns, and reports a log it could not open. -/
def Observes : Prop :=
  ∃ result s', c.sysDebugPaging s pids pid address logPath = some (result, s') ∧ Same s s' ∧
    (logPath ≠ 0 → ∀ opened, c.sysOpen logPath s = some opened → opened.1.toInt < 0 → result < 0)

/-- The address is `NULL`, or the MMU knows it. -/
def Answered (nr : Nat) : Prop := address = 0 ∨ (s.memory.translate ((Memory.base nr + address) % 2 ^ 32)).isSome

/-- The path is there to be read; and with a log that opens there is an answer, and with one that does not there is none,
    but for the error -1. -/
def Fitting : Prop :=
  logPath ≠ 0 → ∀ nr, findTask pids pid 63 = some nr → ∃ opened, c.sysOpen logPath s = some opened ∧
    c.PathPresent logPath s ∧ (opened.1 ≠ -1 → (0 ≤ opened.1.toInt ↔ Answered s address nr))

end Observer

end FileCalls

namespace Same

variable {s s' s'' : Session File Rest}

theorem refl (s : Session File Rest) : Same s s := ⟨rfl, rfl⟩

theorem trans (first : Same s s') (second : Same s' s'') : Same s s'' :=
  ⟨second.memory.trans first.memory, second.filp.trans first.filp⟩

theorem foldl {α : Type} {f : Session File Rest → α → Session File Rest} (step : ∀ s x, Same s (f s x))
    (xs : List α) (s : Session File Rest) : Same s (xs.foldl f s) := by
  induction xs generalizing s with
  | nil => exact refl s
  | cons x xs ih => exact (step s x).trans (ih _)

end Same

namespace FileCalls

variable {c : FileCalls File Rest} {s : Session File Rest} {fd : BitVec 32} {logPath : Nat}

section Printing

variable (documented : c.Documented)
include documented

theorem fprintk_same (fd : BitVec 32) (line : Line) (s : Session File Rest) : Same s (c.fprintk fd line s) := by
  rw [fprintk]
  split
  · exact documented.sysWrite ..
  · split
    · exact .refl s
    · exact documented.fileWrite ..

theorem fprintks_same (s : Session File Rest) (fd : BitVec 32) (lines : List Line) :
    Same s (c.fprintks s fd lines) :=
  Same.foldl (fun s line => fprintk_same documented fd line s) lines s

/-- Printing does not change what a loop reads, so that the loop prints what it would find at its start. -/
theorem foldl_fprintks {α : Type} (f : Session File Rest → α → Session File Rest) (lines : Memory → α → List Line)
    (step : ∀ s', s'.memory = s.memory → ∀ x, f s' x = c.fprintks s' fd (lines s.memory x)) (xs : List α) :
    xs.foldl f s = c.fprintks s fd (xs.flatMap (lines s.memory)) := by
  induction xs using List.reverseRecOn with
  | nil => rfl
  | append_singleton xs x ih =>
    have before := (fprintks_same documented s fd (xs.flatMap (lines s.memory))).memory
    rw [List.foldl_append, List.foldl_cons, List.foldl_nil, ih, step _ before, List.flatMap_append,
      List.flatMap_singleton, fprintks, fprintks, fprintks, List.foldl_append]

theorem printDirs_eq (first : Nat) (is : List Nat) :
    c.printDirs s fd first is =
      (is.map (s.memory.pageTablesAddress first), c.fprintks s fd (is.flatMap (s.memory.dirLines first))) := by
  induction is using List.reverseRecOn with
  | nil => rfl
  | append_singleton is i ih =>
    have before := (fprintks_same documented s fd (is.flatMap (s.memory.dirLines first))).memory
    rw [printDirs] at ih ⊢
    rw [List.foldl_append, ih, List.foldl_cons, List.foldl_nil, before, List.map_append, List.flatMap_append,
      List.flatMap_singleton]
    simp only [fprintks, List.foldl_append, List.map_cons, List.map_nil]

theorem printTable_eq (first i : Nat) (s' : Session File Rest) (same : s'.memory = s.memory) :
    c.printTable s' fd (s.memory.pageTablesAddress first i) = c.fprintks s' fd (s.memory.tableLines first i) := by
  have titled := (fprintks_same documented s' fd
    [.tableTitle (s.memory.pageTablesAddress first i), .pageTitle]).memory.trans same
  rw [printTable, Memory.tableLines]
  split
  · rw [foldl_fprintks documented _ fun m => m.pageLines (s.memory.pageTablesAddress first i)]
    · rw [titled]
      rfl
    · intro s'' same' j
      rw [same']
  · rfl

theorem printTables_eq {m : Memory} (same : s.memory = m) (first : Nat) (is : List Nat) :
    (is.map (m.pageTablesAddress first)).foldl (fun s' table => c.printTable s' fd table) s =
      c.fprintks s fd (is.flatMap (m.tableLines first)) := by
  subst same
  rw [List.foldl_map]
  exact foldl_fprintks documented _ (fun m => m.tableLines first)
    (fun s' same i => printTable_eq documented first i s' same) is

theorem printAll_eq (start : Nat) : c.printAll s fd start = c.fprintks s fd (s.memory.allLines start) := by
  have titled := (fprintk_same documented fd .dirTitle s).memory
  have listed := (fprintks_same documented (c.fprintk fd .dirTitle s) fd
    ((List.range 16).flatMap (s.memory.dirLines (start / 0x400000)))).memory.trans titled
  rw [printAll, Memory.allLines]
  dsimp only
  rw [printDirs_eq documented, titled, printTables_eq documented listed]
  simp only [fprintks, List.foldl_append, List.foldl_cons, List.foldl_nil, List.cons_append]

theorem printAddress_some {linear p : Nat} (found : s.memory.translate linear = some p) :
    c.printAddress s fd linear logPath =
      c.finish (c.fprintks s fd (s.memory.addressLines linear).2) logPath fd := by
  have before := (fprintks_same documented s fd [.linearAddress linear,
    .indices (linear / 0x400000) (Memory.pageIndex linear) (linear % 4096)]).memory
  rw [Memory.translate] at found
  split at found
  · next there =>
    have entry := there.2
    rw [Memory.entryWord] at entry
    rw [printAddress, Memory.addressLines]
    dsimp only
    rw [before, if_pos there.1, if_pos there.1, if_pos entry, if_pos entry]
    rfl
  · cases found

theorem printAddress_none {linear : Nat} (missing : s.memory.translate linear = none) :
    c.printAddress s fd linear logPath = (-22, c.fprintks s fd (s.memory.addressLines linear).2) := by
  have before := (fprintks_same documented s fd [.linearAddress linear,
    .indices (linear / 0x400000) (Memory.pageIndex linear) (linear % 4096)]).memory
  rw [Memory.translate, Memory.entryWord] at missing
  rw [printAddress, Memory.addressLines]
  dsimp only
  rw [before]
  by_cases there : present (s.memory.words (linear / 0x400000)) = true
  · have entry : ¬ present (s.memory.words (tableWord (frame (s.memory.words (linear / 0x400000)))
        (Memory.pageIndex linear))) = true := by
      intro other
      rw [if_pos ⟨there, other⟩] at missing
      cases missing
    rw [if_pos there, if_pos there, if_neg entry, if_neg entry]
  · rw [if_neg there, if_neg there]

/-- What is printed and returned is the report on the memory there is once the log is open. -/
theorem sysDebugPaging_report {pids : Nat → Option Int} {pid : Int} {nr : Nat} {log : Option Int}
    {s' : Session File Rest} (address : Nat) (found : findTask pids pid 63 = some nr)
    (output : c.output s logPath = some (fd, s')) (usable : ¬ (logPath ≠ 0 ∧ fd = -1)) (opened : log ≠ some (-1)) :
    let report := Mm.sysDebugPaging s'.memory pids pid address log
    c.sysDebugPaging s pids pid address logPath = some
      (if address = 0 ∨ (s'.memory.translate ((Memory.base nr + address) % 2 ^ 32)).isSome then
        c.finish (c.fprintks s' fd report.2) logPath fd
      else (-22, c.fprintks s' fd report.2)) := by
  have titled := (fprintk_same documented fd (.task pid nr (Memory.base nr)) s').memory
  rw [sysDebugPaging, Mm.sysDebugPaging, found]
  dsimp only
  rw [output, if_neg opened, Option.map_some, printPaging]
  dsimp only
  rw [if_neg usable]
  congr 1
  by_cases all : address = 0
  · rw [if_pos all, if_pos all, if_pos (.inl all), printAll_eq documented, titled]
    rfl
  · rw [if_neg all, if_neg all]
    cases translated : s'.memory.translate ((Memory.base nr + address) % 2 ^ 32) with
    | none =>
      rw [if_neg (by simp [all]), printAddress_none documented (by rw [titled, translated]), titled]
      rfl
    | some p =>
      rw [if_pos (by simp), printAddress_some documented (by rw [titled, translated]), titled]
      rfl

end Printing

section Exits

variable {pids : Nat → Option Int} {pid : Int} {address nr : Nat} {s' : Session File Rest} (documented : c.Documented)
  (found : findTask pids pid 63 = some nr) (output : c.output s logPath = some (fd, s'))
  (usable : ¬ (logPath ≠ 0 ∧ fd = -1))
include documented found output usable

theorem answered (named : logPath ≠ 0 → ∀ file, fd.toNat < 20 → s'.filp fd.toNat = some file → c.isPipe file = false)
    (answer : Answered s' address nr) : ∃ s'', c.sysDebugPaging s pids pid address logPath = some (0, s'') ∧
      s''.memory = s'.memory ∧
      s''.filp = if logPath ≠ 0 ∧ fd.toNat < 20 then Function.update s'.filp fd.toNat none else s'.filp := by
  have report := sysDebugPaging_report documented address found output usable unopened.ne_error
  rw [Answered] at answer
  dsimp only at report
  rw [report, if_pos answer, finish]
  have printed := fprintks_same documented s' fd (Mm.sysDebugPaging s'.memory pids pid address none).2
  refine ⟨_, rfl, ?_⟩
  by_cases log : logPath ≠ 0
  · have filp := documented.sysClose fd (c.fprintks s' fd (Mm.sysDebugPaging s'.memory pids pid address none).2)
    have memory := documented.closed fd (c.fprintks s' fd (Mm.sysDebugPaging s'.memory pids pid address none).2)
      (printed.filp ▸ named log)
    rw [if_pos log]
    exact ⟨memory.trans printed.memory, by rw [filp, printed.filp, if_congr (and_iff_right log) rfl rfl]⟩
  · rw [if_neg log, if_neg fun both => log both.1]
    exact ⟨printed.memory, printed.filp⟩

theorem unanswered (missing : ¬ Answered s' address nr) :
    ∃ s'', c.sysDebugPaging s pids pid address logPath = some (-22, s'') ∧ Same s' s'' := by
  have report := sysDebugPaging_report documented address found output usable unopened.ne_error
  rw [Answered] at missing
  dsimp only at report
  rw [report, if_neg missing]
  exact ⟨_, rfl, fprintks_same documented s' fd (Mm.sysDebugPaging s'.memory pids pid address none).2⟩

end Exits

section Descriptor

variable {n : Nat} (inside : n < 20)
include inside

theorem descriptor_toNat : (BitVec.ofNat 32 n).toNat = n := Nat.mod_eq_of_lt (by omega)

theorem descriptor_ne : BitVec.ofNat 32 n ≠ -1 := by
  intro error
  have same := congrArg BitVec.toNat error
  rw [descriptor_toNat inside, show (-1 : BitVec 32).toNat = 0xffffffff from rfl] at same
  omega

theorem descriptor_nonneg : 0 ≤ (BitVec.ofNat 32 n).toInt := by
  rw [BitVec.toInt_eq_toNat_of_lt (by rw [descriptor_toNat inside]; omega)]
  exact Int.natCast_nonneg _

end Descriptor

section Logged

variable {pids : Nat → Option Int} {pid : Int} {address nr : Nat} {s' : Session File Rest} (documented : c.Documented)
  (found : findTask pids pid 63 = some nr) (log : logPath ≠ 0)
include documented found log

/-- With a log that opened, the open files are as before just when there is an answer. -/
theorem observes_opened {n : Nat} {file : File} (inside : n < 20) (free : s.filp n = none)
    (named : c.isPipe file = false) (filp : s'.filp = Function.update s.filp n (some file))
    (opened : c.sysOpen logPath s = some (BitVec.ofNat 32 n, s')) :
    c.Observes s pids pid address logPath ↔ s'.memory = s.memory ∧ Answered s' address nr := by
  have number := descriptor_toNat inside
  have output : c.output s logPath = some (BitVec.ofNat 32 n, s') := (if_pos log).trans opened
  have usable : ¬ (logPath ≠ 0 ∧ BitVec.ofNat 32 n = -1) := fun error => descriptor_ne inside error.2
  have mine : s'.filp n = some file := by rw [filp, Function.update_self]
  have named' : logPath ≠ 0 → ∀ file', (BitVec.ofNat 32 n).toNat < 20 →
      s'.filp (BitVec.ofNat 32 n).toNat = some file' → c.isPipe file' = false := by
    intro _ file' _ there
    rw [number, mine] at there
    cases there
    exact named
  constructor
  · rintro ⟨result, s'', run, same, -⟩
    by_cases answer : Answered s' address nr
    · obtain ⟨t, run', memory, -⟩ := answered documented found output usable named' answer
      cases run.symm.trans run'
      exact ⟨memory.symm.trans same.memory, answer⟩
    · obtain ⟨t, run', left⟩ := unanswered documented found output usable answer
      cases run.symm.trans run'
      have there : some file = s.filp n := mine.symm.trans (congrFun (left.filp.symm.trans same.filp) n)
      rw [free] at there
      cases there
  · rintro ⟨memory, answer⟩
    obtain ⟨t, run, kept, closed⟩ := answered documented found output usable named' answer
    refine ⟨0, t, run, ⟨kept.trans memory, ?_⟩, ?_⟩
    · rw [closed, if_pos ⟨log, by omega⟩, number, filp, Function.update_idem, ← free, Function.update_eq_self]
    · intro _ other there negative
      cases opened.symm.trans there
      exact absurd negative (not_lt.mpr (descriptor_nonneg inside))

/-- With a log that did not open, the error is seen as -1 or by a missing entry only. -/
theorem observes_failed {error : BitVec 32} (negative : error.toInt < 0) (filp : s'.filp = s.filp)
    (opened : c.sysOpen logPath s = some (error, s')) :
    c.Observes s pids pid address logPath ↔ s'.memory = s.memory ∧ (error = -1 ∨ ¬ Answered s' address nr) := by
  have output : c.output s logPath = some (error, s') := (if_pos log).trans opened
  have observes {t : Session File Rest} (run : c.sysDebugPaging s pids pid address logPath = some (-22, t))
      (after : Same s' t) : c.Observes s pids pid address logPath ↔ s'.memory = s.memory := by
    constructor
    · rintro ⟨result, s'', run', same, -⟩
      cases run.symm.trans run'
      exact after.memory.symm.trans same.memory
    · intro memory
      exact ⟨-22, t, run, ⟨after.memory.trans memory, after.filp.trans filp⟩, fun _ _ _ _ => Int.negSucc_lt_zero 21⟩
  by_cases seen : error = -1
  · have run : c.sysDebugPaging s pids pid address logPath = some (-22, c.printk s' "Failed to open output file!\n") := by
      rw [sysDebugPaging, found]
      dsimp only
      rw [output, Option.map_some, printPaging]
      dsimp only
      rw [if_pos ⟨log, seen⟩]
    rw [observes run (documented.ttyWrite _ s')]
    exact (and_iff_left (.inl seen)).symm
  · have usable : ¬ (logPath ≠ 0 ∧ error = -1) := fun unusable => seen unusable.2
    rw [or_iff_right seen]
    by_cases answer : Answered s' address nr
    · refine iff_of_false ?_ fun both => both.2 answer
      rintro ⟨result, s'', run, -, failed⟩
      have large : ∀ file, error.toNat < 20 → s'.filp error.toNat = some file → c.isPipe file = false := by
        intro _ small
        rw [BitVec.toInt_eq_toNat_of_lt (by omega)] at negative
        omega
      obtain ⟨t, run', -⟩ := answered documented found output usable (fun _ => large) answer
      cases run.symm.trans run'
      exact absurd (failed log _ opened negative) (lt_irrefl 0)
    · obtain ⟨t, run, after⟩ := unanswered documented found output usable answer
      rw [observes run after]
      exact (and_iff_left answer).symm

end Logged

theorem answered_congr {s' : Session File Rest} {address nr : Nat} (memory : s'.memory = s.memory) :
    Answered s' address nr ↔ Answered s address nr := by
  rw [Answered, Answered, memory]

/-- Any `pid`, `address` and log path: the path is present, an answer goes with a log that opens, and no answer with one
    that does not. -/
theorem observes_iff (documented : c.Documented) {pids : Nat → Option Int} {pid : Int} {address : Nat} :
    c.Observes s pids pid address logPath ↔ c.Fitting s pids pid address logPath := by
  cases found : findTask pids pid 63 with
  | none =>
    have unchanged : c.sysDebugPaging s pids pid address logPath = some (-22, s) := by rw [sysDebugPaging, found]
    refine iff_of_true ⟨-22, s, unchanged, .refl s, fun _ _ _ _ => Int.negSucc_lt_zero 21⟩ ?_
    intro _ nr other
    rw [found] at other
    cases other
  | some nr =>
    by_cases log : logPath = 0
    · have output : c.output s logPath = some (1, s) := if_neg (not_not.mpr log)
      have usable : ¬ (logPath ≠ 0 ∧ (1 : BitVec 32) = -1) := fun unusable => unusable.1 log
      refine iff_of_true ?_ fun given => absurd log given
      by_cases answer : Answered s address nr
      · obtain ⟨t, run, memory, filp⟩ := answered documented found output usable (fun given => absurd log given) answer
        exact ⟨0, t, run, ⟨memory, filp.trans (if_neg fun given => given.1 log)⟩, fun given => absurd log given⟩
      · obtain ⟨t, run, same⟩ := unanswered documented found output usable answer
        exact ⟨-22, t, run, same, fun given => absurd log given⟩
    · have fitting {opened : BitVec 32 × Session File Rest} (there : c.sysOpen logPath s = some opened) :
          c.Fitting s pids pid address logPath ↔ c.PathPresent logPath s ∧
            (opened.1 ≠ -1 → (0 ≤ opened.1.toInt ↔ Answered s address nr)) := by
        constructor
        · intro fits
          obtain ⟨opened', there', rest⟩ := fits log nr found
          cases there.symm.trans there'
          exact rest
        · rintro rest - nr' found'
          cases found.symm.trans found'
          exact ⟨opened, there, rest⟩
      rcases opened : c.sysOpen logPath s with _ | ⟨fd, s'⟩
      · -- the caller is killed
        refine iff_of_false ?_ ?_
        · rintro ⟨result, s', run, -⟩
          rw [sysDebugPaging, found, output, if_pos log, opened] at run
          cases run
        · intro fits
          obtain ⟨_, there, -⟩ := fits log nr found
          rw [opened] at there
          cases there
      · rw [fitting opened, ← documented.faults logPath s _ opened]
        have result := documented.sysOpen logPath s _ opened
        cases result with
        | opened n file _ inside free _ named filp =>
          rw [observes_opened documented found log inside free named filp opened]
          refine and_congr_right fun memory => ?_
          rw [answered_congr memory]
          simp only [ne_eq, descriptor_ne inside, not_false_eq_true, descriptor_nonneg inside, true_iff, forall_const]
        | failed _ _ negative filp =>
          have errs : ¬ 0 ≤ fd.toInt := by omega
          rw [observes_failed documented found log negative filp opened]
          refine and_congr_right fun memory => ?_
          rw [answered_congr memory]
          simp only [errs, false_iff, ne_eq, Decidable.imp_iff_not_or, not_not]

end FileCalls

section Example

/-- Memory once a byte is read: a missing page of a task without an executable is an empty one. -/
def readIn (m : Memory) (linear : Nat) : Option Memory :=
  if (m.translate linear).isSome then some m
  else
    match m.getEmptyPage linear with
    | .ok m => some m
    | .error _ => none

/-- A path of one character is read, by the task in slot 1. -/
def readPath (m : Memory) (path : Nat) : Option Memory :=
  (readIn m (Memory.base 1 + path)).bind fun m => readIn m (Memory.base 1 + path + 1)

/-- A terminal, file 0, and a log, file 1, that is called `l` in a directory no file can be made in; what is written is
    kept with its file. -/
def logAndTerminal : FileCalls Nat (List (Nat × Line)) where
  sysOpen path s :=
    match (List.range 20).find? fun fd => (s.filp fd).isNone with
    | none => some (-22, s)
    | some fd => (readPath s.memory path).map fun memory =>
      let first := memory.byteAt (Memory.base 1 + path)
      let second := memory.byteAt (Memory.base 1 + path + 1)
      if first = 0x6c ∧ second = 0 then
        (BitVec.ofNat 32 fd, { s with memory, filp := Function.update s.filp fd (some 1) })
      else (if first = 0 then -21 else if second = 0x2f then -2 else -13, { s with memory })
  pathBytes path s :=
    match (List.range 20).find? fun fd => (s.filp fd).isNone with
    | none => []
    | some _ => [Memory.base 1 + path, Memory.base 1 + path + 1]
  isPipe _ := false
  sysClose fd s := if fd.toNat < 20 then { s with filp := Function.update s.filp fd.toNat none } else s
  sysWrite fd line s :=
    match if fd.toNat < 20 then s.filp fd.toNat else none with
    | some file => { s with rest := s.rest ++ [(file, line)] }
    | none => s
  fileWrite file line s := { s with rest := s.rest ++ [(file, line)] }
  ttyWrite _ s := s

theorem readIn_present {m m' : Memory} {linear : Nat} (there : (m.translate linear).isSome) (read : readIn m linear = some m') :
    m' = m := by
  rw [readIn, if_pos there] at read
  exact (Option.some.inj read).symm

theorem readIn_missing {m m' : Memory} {linear : Nat} (missing : ¬ (m.translate linear).isSome)
    (read : readIn m linear = some m') : m'.freePages < m.freePages := by
  rw [readIn, if_neg missing, Memory.getEmptyPage, Memory.newPage] at read
  cases got : m.getFreePage with
  | none =>
    rw [got] at read
    cases read
  | some taken =>
    rcases taken with ⟨page, m₁⟩
    have taken := getFreePage_counts got
    rw [got] at read
    dsimp only at read
    cases put : m₁.putPage page linear with
    | some m₂ =>
      rw [put] at read
      cases read
      obtain ⟨⟨table, m₃⟩, found, rfl⟩ := Option.map_eq_some_iff.mp put
      have tabled := tableFor_counts found
      have same : (m₃.set (tableWord table (Memory.pageIndex linear)) (entry page)).freePages = m₃.freePages :=
        freePages_congr rfl
      dsimp only
      omega
    | none =>
      rw [put] at read
      cases freed : m₁.freePage page with
      | ok m₂ =>
        rw [freed] at read
        cases read
      | error why =>
        rw [freed] at read
        cases read

theorem readIn_freePages {m m' : Memory} {linear : Nat} (read : readIn m linear = some m') : m'.freePages ≤ m.freePages := by
  by_cases there : (m.translate linear).isSome
  · rw [readIn_present there read]
  · exact (readIn_missing there read).le

theorem readPath_iff {m m' : Memory} {path : Nat} (read : readPath m path = some m') :
    m' = m ↔ ∀ x ∈ [Memory.base 1 + path, Memory.base 1 + path + 1], (m.translate x).isSome := by
  obtain ⟨m₁, first, second⟩ := Option.bind_eq_some_iff.mp read
  have fewer := readIn_freePages first
  have fewer' := readIn_freePages second
  rw [List.forall_mem_cons, List.forall_mem_singleton]
  constructor
  · rintro rfl
    have there : (m'.translate (Memory.base 1 + path)).isSome := by
      by_contra missing
      have less := readIn_missing missing first
      omega
    cases readIn_present there first
    refine ⟨there, ?_⟩
    by_contra missing
    exact absurd (readIn_missing missing second) (lt_irrefl _)
  · rintro ⟨there, there'⟩
    cases readIn_present there first
    exact readIn_present there' second

theorem logAndTerminal_documented : logAndTerminal.Documented where
  sysOpen path s opened := by
    rw [logAndTerminal]
    dsimp only
    split
    · rintro ⟨⟩
      exact .failed _ s (by decide) rfl
    · next fd found =>
      intro done
      obtain ⟨memory, -, rfl⟩ := Option.map_eq_some_iff.mp done
      have lowest := List.find?_range_eq_some.mp found
      split
      · refine .opened fd 1 _ (List.mem_range.mp lowest.2.1) (Option.isNone_iff_eq_none.mp lowest.1) ?_ rfl rfl
        intro i below missing
        simpa [missing] using lowest.2.2 i below
      · refine .failed _ _ ?_ rfl
        split
        · decide
        · split <;> decide
  faults path s opened := by
    rw [logAndTerminal, FileCalls.PathPresent]
    dsimp only
    split
    · rintro ⟨⟩
      exact iff_of_true rfl fun _ member => absurd member (List.not_mem_nil)
    · intro done
      obtain ⟨memory, read, rfl⟩ := Option.map_eq_some_iff.mp done
      rw [← readPath_iff read]
      split <;> rfl
  sysClose fd s := by
    rw [logAndTerminal]
    dsimp only
    split <;> rfl
  closed fd s _ := by
    rw [logAndTerminal]
    dsimp only
    split <;> rfl
  sysWrite fd line s := by
    rw [logAndTerminal]
    dsimp only
    split
    · exact ⟨rfl, rfl⟩
    · exact .refl s
  fileWrite _ _ _ := ⟨rfl, rfl⟩
  ttyWrite _ s := .refl s

/-- The task with one page, which begins with the paths `l` and `n/x`, has the terminal as its first three files. One
    page is free. -/
def atTerminal : Session Nat (List (Nat × Line)) where
  memory := { (onePage.set (tableWord 301 0) 0x6c).set (tableWord 301 1) 0x782f6e with
    memMap := Function.update onePage.memMap 3839 0 }
  filp fd := if fd < 3 then some 0 else none
  rest := []

/-- The page at 0x1000 is missing, and descriptor 3 stays open; no directory is called `n`, and the result is 0; a path is
    in a missing page, and the free page is taken. -/
theorem log_stays_open :
    logAndTerminal.Documented ∧
      ((logAndTerminal.sysDebugPaging atTerminal onlyTask 7 0x1000 0x80000).bind fun done => done.2.filp 3) = some 1 ∧
      ¬ logAndTerminal.Observes atTerminal onlyTask 7 0x1000 0x80000 ∧
      (logAndTerminal.sysOpen 0x80004 atTerminal).map Prod.fst = some (-2) ∧
      (logAndTerminal.sysDebugPaging atTerminal onlyTask 7 0 0x80004).map Prod.fst = some 0 ∧
      ¬ logAndTerminal.Observes atTerminal onlyTask 7 0 0x80004 ∧
      (logAndTerminal.sysDebugPaging atTerminal onlyTask 7 0x2000 0x1000).map (fun done => done.2.memory.memMap 3839) =
        some 1 ∧
      ¬ logAndTerminal.Observes atTerminal onlyTask 7 0x2000 0x1000 := by
  have open3 : ((logAndTerminal.sysDebugPaging atTerminal onlyTask 7 0x1000 0x80000).bind fun done => done.2.filp 3) =
      some 1 := by
    decide +kernel
  have error : (logAndTerminal.sysOpen 0x80004 atTerminal).map Prod.fst = some (-2) := by decide +kernel
  have zero : (logAndTerminal.sysDebugPaging atTerminal onlyTask 7 0 0x80004).map Prod.fst = some 0 := by decide +kernel
  have taken : (logAndTerminal.sysDebugPaging atTerminal onlyTask 7 0x2000 0x1000).map
      (fun done => done.2.memory.memMap 3839) = some 1 := by
    decide +kernel
  refine ⟨logAndTerminal_documented, open3, ?_, error, zero, ?_, taken, ?_⟩
  · rintro ⟨result, s, run, same, -⟩
    rw [run, Option.bind_some, same.filp] at open3
    cases open3
  · rintro ⟨result, s, run, -, failed⟩
    obtain ⟨opened, there, negative⟩ := Option.map_eq_some_iff.mp error
    rw [run] at zero
    cases zero
    exact absurd (failed (by decide) opened there (negative ▸ by decide)) (lt_irrefl 0)
  · rintro ⟨result, s, run, same, -⟩
    rw [run, Option.map_some, same.memory] at taken
    exact absurd taken (by decide +kernel)

/-- The log opens, and the page is mapped. -/
theorem observes_atTerminal : logAndTerminal.Observes atTerminal onlyTask 7 0x80010 0x80000 := by
  apply (FileCalls.observes_iff logAndTerminal_documented).mpr
  intro _ nr found
  have slot : findTask onlyTask 7 63 = some 1 := onlyTask_found
  cases found.symm.trans slot
  have three : (logAndTerminal.sysOpen 0x80000 atTerminal).map Prod.fst = some 3 := by decide +kernel
  obtain ⟨opened, there, number⟩ := Option.map_eq_some_iff.mp three
  have path : ∀ x ∈ logAndTerminal.pathBytes 0x80000 atTerminal, (atTerminal.memory.translate x).isSome = true := by
    decide +kernel
  have answer : (atTerminal.memory.translate ((Memory.base 1 + 0x80010) % 2 ^ 32)).isSome = true := by decide +kernel
  refine ⟨opened, there, path, fun _ => ?_⟩
  rw [number]
  exact iff_of_true (by decide) (.inr answer)

end Example

end Linux011.Mm

import Linux011.Mm.PageWalks

namespace Linux011.Mm

/-- `PAGE_SIZE/PAGE_FRAME_SIZE` -/
def shownEntries : Nat := 4096 / 0x20

/-- What `fprintk` is called with, page frames standing for their addresses. -/
inductive Line
  | task (pid : Int) (taskNumber linearAddressBase : Nat)
  | dirTitle
  | dir (index table : Nat)
  | tableTitle (table : Nat)
  | pageTitle
  | page (index page : Nat)
  | separator
  | linearAddress (address : Nat)
  | indices (dirIndex tableIndex offset : Nat)
  | addresses (tableAddress pageAddress physicalAddress : Nat)
  deriving DecidableEq

/-- The search from `LAST_TASK` down, `FIRST_TASK` left out. -/
def findTask (pids : Nat → Option Int) (pid : Int) : Nat → Option Nat
  | 0 => none
  | n + 1 => if pids (n + 1) = some pid then some (n + 1) else findTask pids pid n

namespace Memory

variable (m : Memory)

def pageTablesAddress (first i : Nat) : Nat :=
  if present (m.words (first + i)) then frame (m.words (first + i)) else 0

def dirLines (first i : Nat) : List Line :=
  if present (m.words (first + i)) then [.dir (first + i) (m.pageTablesAddress first i)] else []

def pageLines (table j : Nat) : List Line :=
  if present (m.words (tableWord table j)) then [.page j (frame (m.words (tableWord table j)))] else []

def tableLines (first i : Nat) : List Line :=
  let table := m.pageTablesAddress first i
  if table ≠ 0 then .tableTitle table :: .pageTitle :: (List.range shownEntries).flatMap (m.pageLines table)
  else []

/-- Print all directories and pages. -/
def allLines (linearAddressBase : Nat) : List Line :=
  let first := linearAddressBase / 0x400000
  .dirTitle :: (List.range 16).flatMap (m.dirLines first) ++
    ((List.range 16).flatMap (m.tableLines first) ++ [.separator])

/-- Only the paging of one address. -/
def addressLines (linearAddress : Nat) : Int × List Line :=
  let dir := linearAddress / 0x400000
  let index := pageIndex linearAddress
  let offset := linearAddress % 4096
  let asked := [.linearAddress linearAddress, .indices dir index offset]
  if present (m.words dir) then
    let table := frame (m.words dir)
    if present (m.words (tableWord table index)) then
      let page := frame (m.words (tableWord table index))
      (0, asked ++ [.addresses table page (page * 4096 + offset), .separator])
    else (-22, asked)
  else (-22, asked)

end Memory

/-- The result and the lines written. `log` is what `sys_open` returned, where there is a log path. -/
def sysDebugPaging (m : Memory) (pids : Nat → Option Int) (pid : Int) (address : Nat) (log : Option Int) :
    Int × List Line :=
  match findTask pids pid 63 with
  | none => (-22, [])
  | some taskNumber =>
    if log = some (-1) then (-22, [])
    else
      let opening := Line.task pid taskNumber (Memory.base taskNumber)
      if address = 0 then (0, opening :: m.allLines (Memory.base taskNumber))
      else
        let (result, lines) := m.addressLines ((Memory.base taskNumber + address) % 2 ^ 32)
        (result, opening :: lines)

/-- The rows of the printed tables, each with the title it stands under. -/
def rows : Nat → List Line → List (Nat × Nat × Nat)
  | _, [] => []
  | _, .tableTitle table :: lines => rows table lines
  | table, .page index page :: lines => (table, index, page) :: rows table lines
  | table, _ :: lines => rows table lines

/-- A listing shows a page: a directory line names the table under whose title the page stands. -/
def Shown (lines : List Line) (d i page : Nat) : Prop :=
  ∃ table, .dir d table ∈ lines ∧ (table, i, page) ∈ rows 0 lines

def Physical (lines : List Line) (address : Nat) : Prop :=
  ∃ table page, .addresses table page address ∈ lines

namespace Memory

/-- A present entry in the 64 MB of a task: its two indices and its page. -/
def Mapped (m : Memory) (nr d i page : Nat) : Prop :=
  d / 16 = nr ∧ i < 1024 ∧ present (m.words d) = true ∧
    present (m.words (tableWord (frame (m.words d)) i)) = true ∧
    frame (m.words (tableWord (frame (m.words d)) i)) = page

def translate (m : Memory) (linear : Nat) : Option Nat :=
  let e := m.words (m.entryWord linear)
  if present (m.words (linear / 0x400000)) ∧ present e then some (frame e * 4096 + linear % 4096) else none

end Memory

theorem findTask_slot {pids : Nat → Option Int} {pid : Int} {n nr : Nat}
    (found : findTask pids pid n = some nr) : 1 ≤ nr ∧ nr ≤ n ∧ pids nr = some pid := by
  induction n with
  | zero => cases found
  | succ n ih =>
    rw [findTask] at found
    split at found
    · next here =>
      cases found
      exact ⟨by omega, le_rfl, here⟩
    · have below := ih found
      exact ⟨below.1, by omega, below.2.2⟩

theorem findTask_of_only {pids : Nat → Option Int} {pid : Int} {n nr : Nat} (slot : 1 ≤ nr) (inside : nr ≤ n)
    (here : pids nr = some pid) (only : ∀ k, pids k = some pid → k = nr) : findTask pids pid n = some nr := by
  induction n with
  | zero => omega
  | succ n ih =>
    rw [findTask]
    by_cases last : nr = n + 1
    · rw [← last, if_pos here]
    · rw [if_neg fun other => last (only _ other).symm]
      exact ih (by omega)

section Rows

/-- Lines that are neither a table's title nor a page. -/
def Line.Plain : Line → Prop
  | .tableTitle _ | .page _ _ => False
  | _ => True

theorem rows_cons_plain {line : Line} (plain : line.Plain) (t : Nat) (lines : List Line) :
    rows t (line :: lines) = rows t lines := by
  cases line <;> first | rfl | exact plain.elim

theorem rows_plain {lines : List Line} (plain : ∀ line ∈ lines, line.Plain) (t : Nat) (rest : List Line) :
    rows t (lines ++ rest) = rows t rest := by
  induction lines with
  | nil => rfl
  | cons line lines ih =>
    rw [List.cons_append, rows_cons_plain (plain _ (List.mem_cons_self ..))]
    exact ih fun other member => plain _ (List.mem_cons_of_mem _ member)

variable (m : Memory)

theorem rows_pageLines (table : Nat) (js : List Nat) (rest : List Line) :
    rows table (js.flatMap (m.pageLines table) ++ rest) =
      (js.filter fun j => present (m.words (tableWord table j))).map
        (fun j => (table, j, frame (m.words (tableWord table j)))) ++ rows table rest := by
  induction js with
  | nil => rfl
  | cons j js ih =>
    rw [List.flatMap_cons, List.append_assoc, Memory.pageLines, List.filter_cons]
    split
    · rw [List.map_cons, List.cons_append, List.cons_append, ← ih]
      rfl
    · exact ih

def Memory.tableRows (first i : Nat) : List (Nat × Nat × Nat) :=
  let table := m.pageTablesAddress first i
  if table ≠ 0 then
    ((List.range shownEntries).filter fun j => present (m.words (tableWord table j))).map
      fun j => (table, j, frame (m.words (tableWord table j)))
  else []

theorem rows_tableLines (first : Nat) (is : List Nat) (t : Nat) :
    rows t (is.flatMap (m.tableLines first) ++ [.separator]) = is.flatMap (m.tableRows first) := by
  induction is generalizing t with
  | nil => rfl
  | cons i is ih =>
    rw [List.flatMap_cons, List.flatMap_cons, List.append_assoc, Memory.tableLines, Memory.tableRows]
    split
    · rw [List.cons_append, List.cons_append, rows, rows_cons_plain (by trivial), rows_pageLines, ih]
    · rw [List.nil_append, List.nil_append, ih]

theorem mem_tableRows {first i : Nat} {row : Nat × Nat × Nat} :
    row ∈ m.tableRows first i ↔
      m.pageTablesAddress first i ≠ 0 ∧ row.1 = m.pageTablesAddress first i ∧ row.2.1 < shownEntries ∧
        present (m.words (tableWord row.1 row.2.1)) = true ∧
        frame (m.words (tableWord row.1 row.2.1)) = row.2.2 := by
  rcases row with ⟨table, j, page⟩
  rw [Memory.tableRows]
  dsimp only
  split
  · next nonzero =>
    constructor
    · intro member
      rcases List.mem_map.mp member with ⟨j', shown, same⟩
      rcases List.mem_filter.mp shown with ⟨below, there⟩
      cases same
      exact ⟨nonzero, rfl, List.mem_range.mp below, there, rfl⟩
    · rintro ⟨-, rfl, below, there, rfl⟩
      exact List.mem_map.mpr ⟨j, List.mem_filter.mpr ⟨List.mem_range.mpr below, there⟩, rfl⟩
  · next zero => exact ⟨nofun, fun h => absurd h.1 zero⟩

theorem dirLines_plain (first : Nat) : ∀ line ∈ (List.range 16).flatMap (m.dirLines first), line.Plain := by
  intro line member
  rcases List.mem_flatMap.mp member with ⟨i, -, here⟩
  rw [Memory.dirLines] at here
  split at here
  · rw [List.mem_singleton.mp here]
    trivial
  · cases here

theorem rows_allLines (pid : Int) (nr start t : Nat) :
    rows t (.task pid nr start :: m.allLines start) =
      (List.range 16).flatMap (m.tableRows (start / 0x400000)) := by
  rw [rows_cons_plain (by trivial), Memory.allLines, List.cons_append, rows_cons_plain (by trivial),
    rows_plain (dirLines_plain m _), rows_tableLines]

end Rows

section Listing

variable (m : Memory)

theorem dir_mem_dirLines {first d table : Nat} :
    .dir d table ∈ (List.range 16).flatMap (m.dirLines first) ↔
      first ≤ d ∧ d < first + 16 ∧ present (m.words d) = true ∧ table = frame (m.words d) := by
  rw [List.mem_flatMap]
  constructor
  · rintro ⟨i, below, here⟩
    rw [Memory.dirLines] at here
    split at here
    · next there =>
      cases List.mem_singleton.mp here
      exact ⟨Nat.le_add_right .., by have := List.mem_range.mp below; omega, there, if_pos there⟩
    · cases here
  · rintro ⟨low, high, there, rfl⟩
    have place : first + (d - first) = d := by omega
    refine ⟨d - first, List.mem_range.mpr (by omega), ?_⟩
    rw [Memory.dirLines, Memory.pageTablesAddress, place, if_pos there, if_pos there]
    exact List.mem_singleton.mpr rfl

theorem dir_not_mem_tableLines {first d table : Nat} :
    .dir d table ∉ (List.range 16).flatMap (m.tableLines first) := by
  intro member
  rcases List.mem_flatMap.mp member with ⟨i, -, here⟩
  rw [Memory.tableLines] at here
  split at here
  · rcases List.mem_cons.mp here with here | here
    · cases here
    rcases List.mem_cons.mp here with here | here
    · cases here
    rcases List.mem_flatMap.mp here with ⟨j, -, here⟩
    rw [Memory.pageLines] at here
    split at here
    · cases List.mem_singleton.mp here
    · cases here
  · cases here

theorem dir_mem_allLines {pid : Int} {nr start d table : Nat} :
    .dir d table ∈ Line.task pid nr start :: m.allLines start ↔
      .dir d table ∈ (List.range 16).flatMap (m.dirLines (start / 0x400000)) := by
  have others : .dir d table ∉ (List.range 16).flatMap (m.tableLines (start / 0x400000)) := dir_not_mem_tableLines m
  simp only [Memory.allLines, List.cons_append, List.mem_cons, List.mem_append, reduceCtorEq, false_or,
    List.not_mem_nil, or_false]
  exact or_iff_left others

theorem shown_iff {pid : Int} {nr d i page : Nat} :
    Shown (.task pid nr (Memory.base nr) :: m.allLines (Memory.base nr)) d i page ↔
      (d / 16 = nr ∧ present (m.words d) = true ∧ frame (m.words d) ≠ 0) ∧ i < shownEntries ∧
        present (m.words (tableWord (frame (m.words d)) i)) = true ∧
        frame (m.words (tableWord (frame (m.words d)) i)) = page := by
  have first : Memory.base nr / 0x400000 = nr * 16 := by rw [Memory.base]; omega
  constructor
  · rintro ⟨table, line, row⟩
    rw [dir_mem_allLines, first, dir_mem_dirLines] at line
    rw [rows_allLines, first] at row
    rcases line with ⟨low, high, there, rfl⟩
    rcases List.mem_flatMap.mp row with ⟨k, -, row⟩
    rcases (mem_tableRows m).mp row with ⟨nonzero, same, rest⟩
    exact ⟨⟨by omega, there, fun zero => nonzero (same.symm.trans zero)⟩, rest⟩
  · rintro ⟨⟨inside, there, nonzero⟩, rest⟩
    have place : nr * 16 + (d - nr * 16) = d := by omega
    have address : m.pageTablesAddress (nr * 16) (d - nr * 16) = frame (m.words d) := by
      rw [Memory.pageTablesAddress, place, if_pos there]
    refine ⟨frame (m.words d), ?_, ?_⟩
    · rw [dir_mem_allLines, first, dir_mem_dirLines]
      exact ⟨by omega, by omega, there, rfl⟩
    · rw [rows_allLines, first]
      refine List.mem_flatMap.mpr ⟨d - nr * 16, List.mem_range.mpr (by omega), ?_⟩
      exact (mem_tableRows m).mpr ⟨address ▸ nonzero, address.symm, rest⟩

end Listing

section Address

theorem addressLines_some {m : Memory} {linear p : Nat} (found : m.translate linear = some p) :
    (m.addressLines linear).1 = 0 ∧ ∀ q, Physical (m.addressLines linear).2 q ↔ q = p := by
  rw [Memory.translate] at found
  split at found
  · next there =>
    cases found
    have entry := there.2
    rw [Memory.entryWord] at entry ⊢
    rw [Memory.addressLines]
    simp [there.1, entry, Physical]
  · cases found

theorem addressLines_none {m : Memory} {linear : Nat} (missing : m.translate linear = none) :
    (m.addressLines linear).1 = -22 ∧ ∀ q, ¬ Physical (m.addressLines linear).2 q := by
  rw [Memory.translate, Memory.entryWord] at missing
  rw [Memory.addressLines]
  by_cases there : present (m.words (linear / 0x400000)) = true
  · have entry : present (m.words (tableWord (frame (m.words (linear / 0x400000)))
        (Memory.pageIndex linear))) = false := by
      by_contra other
      simp [there, other] at missing
    simp [there, entry, Physical]
  · simp [there, Physical]

theorem translate_eq_some {m : Memory} {nr linear page : Nat} (inside : linear / 0x4000000 = nr) :
    m.translate linear = some (page * 4096 + linear % 4096) ↔
      m.Mapped nr (linear / 0x400000) (Memory.pageIndex linear) page := by
  have window : linear / 0x400000 / 16 = nr := by omega
  have index : Memory.pageIndex linear < 1024 := Nat.mod_lt _ (by decide)
  rw [Memory.translate, Memory.Mapped, Memory.entryWord]
  constructor
  · intro found
    split at found
    · next there =>
      have same := Option.some.inj found
      exact ⟨window, index, there.1, there.2, by omega⟩
    · cases found
  · rintro ⟨-, -, there, entry, rfl⟩
    rw [if_pos ⟨there, entry⟩]

theorem translate_putPage {m m' : Memory} {page linear : Nat} (physical : page < 2 ^ 20)
    (apart : present (m.words (linear / 0x400000)) = true → frame (m.words (linear / 0x400000)) ≠ 0)
    (below : linear < 2 ^ 32) (put : m.putPage page linear = some m') :
    m'.translate linear = some (page * 4096 + linear % 4096) := by
  rcases Option.map_eq_some_iff.mp put with ⟨⟨table, m₁⟩, found, rfl⟩
  have known : present (m₁.words (linear / 0x400000)) = true ∧ frame (m₁.words (linear / 0x400000)) = table ∧
      table ≠ 0 := by
    rw [Memory.tableFor] at found
    split at found
    · next there =>
      cases found
      exact ⟨there, rfl, apart there⟩
    · rcases Option.map_eq_some_iff.mp found with ⟨⟨fresh, m₂⟩, got, same⟩
      rcases Option.map_eq_some_iff.mp got with ⟨i, scanned, taken⟩
      have small := (scan_some scanned).1
      cases taken
      cases same
      rw [set_self, frame_entry (by rw [pagingPages] at small; rw [lowMem]; omega)]
      exact ⟨present_entry _, rfl, by rw [lowMem]; omega⟩
  have index : Memory.pageIndex linear < 1024 := Nat.mod_lt _ (by decide)
  have directory : linear / 0x400000 ≠ tableWord table (Memory.pageIndex linear) := by
    intro same
    have := congrArg (· / 1024) same
    simp only [tableWord_div index] at this
    omega
  rw [Memory.translate, Memory.entryWord]
  dsimp only
  rw [set_other directory, known.2.1, set_self, frame_entry physical, if_pos ⟨known.1, present_entry _⟩]

end Address

section Report

variable (m : Memory) (pids : Nat → Option Int) (pid : Int) (nr : Nat) (log : Option Int)

def ListsAll : Prop :=
  (sysDebugPaging m pids pid 0 log).1 = 0 ∧
    ∀ d i page, Shown (sysDebugPaging m pids pid 0 log).2 d i page ↔ m.Mapped nr d i page

/-- Each address is reported as the page tables have it. -/
def FindsEach : Prop :=
  ∀ address, 0 < address → address < 0x4000000 →
    let linear := Memory.base nr + address
    let report := sysDebugPaging m pids pid address log
    (∀ page, (report.1 = 0 ∧ Physical report.2 (page * 4096 + linear % 4096)) ↔
      m.Mapped nr (linear / 0x400000) (Memory.pageIndex linear) page) ∧
    ((∀ page, ¬ m.Mapped nr (linear / 0x400000) (Memory.pageIndex linear) page) → report.1 = -22)

/-- What `put_page` has stored is reported as the MMU translates it. -/
def AgreesWithPutPage : Prop :=
  ∀ address, 0 < address → address < 0x4000000 →
    let linear := Memory.base nr + address
    (present (m.words (linear / 0x400000)) = true → frame (m.words (linear / 0x400000)) ≠ 0) →
    ∀ page m', page < 2 ^ 20 → m.putPage page linear = some m' →
      m'.translate linear = some (page * 4096 + linear % 4096) ∧
        (sysDebugPaging m' pids pid address log).1 = 0 ∧
        Physical (sysDebugPaging m' pids pid address log).2 (page * 4096 + linear % 4096)

end Report

section Found

variable {m : Memory} {pids : Nat → Option Int} {pid : Int} {nr : Nat} {log : Option Int}

theorem sysDebugPaging_all (found : findTask pids pid 63 = some nr) (opened : log ≠ some (-1)) :
    sysDebugPaging m pids pid 0 log = (0, .task pid nr (Memory.base nr) :: m.allLines (Memory.base nr)) := by
  rw [sysDebugPaging, found]
  dsimp only
  rw [if_neg opened, if_pos rfl]

theorem sysDebugPaging_address (found : findTask pids pid 63 = some nr) (opened : log ≠ some (-1))
    {address : Nat} (nonzero : 0 < address) (below : address < 0x4000000) :
    sysDebugPaging m pids pid address log =
      ((m.addressLines (Memory.base nr + address)).1,
        .task pid nr (Memory.base nr) :: (m.addressLines (Memory.base nr + address)).2) := by
  have slot := findTask_slot found
  have fits : (Memory.base nr + address) % 2 ^ 32 = Memory.base nr + address :=
    Nat.mod_eq_of_lt (by rw [Memory.base]; omega)
  rw [sysDebugPaging, found]
  dsimp only
  rw [if_neg opened, if_neg (by omega), fits]

theorem physical_task (lines : List Line) (p : Nat) :
    Physical (.task pid nr (Memory.base nr) :: lines) p ↔ Physical lines p := by
  simp [Physical]

theorem finds_each (found : findTask pids pid 63 = some nr) (opened : log ≠ some (-1)) :
    FindsEach m pids pid nr log := by
  intro address nonzero below
  have window : (Memory.base nr + address) / 0x4000000 = nr := by rw [Memory.base]; omega
  dsimp only
  rw [sysDebugPaging_address found opened nonzero below]
  simp only [physical_task, ← translate_eq_some window]
  cases result : m.translate (Memory.base nr + address) with
  | none =>
    have missing := addressLines_none result
    constructor
    · intro page
      exact ⟨fun reported => absurd reported.2 (missing.2 _), nofun⟩
    · intro
      exact missing.1
  | some p =>
    have there := addressLines_some result
    constructor
    · intro page
      rw [there.2, Option.some.injEq]
      exact ⟨fun reported => reported.2.symm, fun same => ⟨there.1, same.symm⟩⟩
    · intro none
      have translated : p = p / 4096 * 4096 + (Memory.base nr + address) % 4096 := by
        have mapped := result
        rw [Memory.translate] at mapped
        split at mapped
        · have same := Option.some.inj mapped
          omega
        · cases mapped
      exact absurd (congrArg some translated) (none _)

theorem agrees_with_putPage (found : findTask pids pid 63 = some nr) (opened : log ≠ some (-1)) :
    AgreesWithPutPage m pids pid nr log := by
  intro address nonzero below linear apart page m' physical put
  have slot := findTask_slot found
  have small : linear < 2 ^ 32 := by
    have : linear = nr * 0x4000000 + address := rfl
    omega
  have translated := translate_putPage physical apart small put
  have there := addressLines_some translated
  refine ⟨translated, ?_⟩
  rw [sysDebugPaging_address found opened nonzero below]
  exact ⟨there.1, (physical_task _ _).mpr ((there.2 _).mpr rfl)⟩

theorem lists_all_iff (found : findTask pids pid 63 = some nr) (opened : log ≠ some (-1)) :
    ListsAll m pids pid nr log ↔
      ∀ d i page, m.Mapped nr d i page → i < shownEntries ∧ frame (m.words d) ≠ 0 := by
  rw [ListsAll, sysDebugPaging_all found opened]
  simp only [shown_iff, true_and]
  constructor
  · intro same d i page mapped
    have shown := (same d i page).mpr mapped
    exact ⟨shown.2.1, shown.1.2.2⟩
  · intro visible d i page
    constructor
    · rintro ⟨⟨window, there, -⟩, index, entry⟩
      exact ⟨window, index.trans (by decide), there, entry⟩
    · intro mapped
      have here := visible d i page mapped
      rcases mapped with ⟨window, -, there, entry⟩
      exact ⟨⟨window, there, here.2⟩, here.1, entry⟩

/-- `sys_open` gave a file descriptor, where there is a log path. -/
def Opened (log : Option Int) : Prop := ∀ fd ∈ log, 0 ≤ fd

theorem Opened.ne_error (opened : Opened log) : log ≠ some (-1) := by
  intro failed
  have := opened (-1) failed
  omega

/-- The report is that of the real page tables just when there is no entry the listing leaves out. -/
theorem reports_page_tables_iff (found : findTask pids pid 63 = some nr) (opened : Opened log) :
    (ListsAll m pids pid nr log ∧ FindsEach m pids pid nr log ∧ AgreesWithPutPage m pids pid nr log) ↔
      ∀ d i page, m.Mapped nr d i page → i < shownEntries ∧ frame (m.words d) ≠ 0 := by
  rw [lists_all_iff found opened.ne_error]
  exact and_iff_left ⟨finds_each found opened.ne_error, agrees_with_putPage found opened.ne_error⟩

end Found

section Example

/-- Task 1 with one page, at entry 128 of its first page table. -/
def onePage : Memory where
  words := Function.update (Function.update (fun _ => 0) 16 (entry 300)) (tableWord 300 128) (entry 301)
  memMap _ := 1
  highMemory := 4096
  sharedPages _ := ⟨0, 0⟩

def onlyTask : Nat → Option Int := fun nr => if nr = 1 then some 7 else none

theorem onlyTask_found : findTask onlyTask 7 63 = some 1 :=
  findTask_of_only le_rfl (by decide) rfl fun k here => by
    rw [onlyTask] at here
    split at here
    · assumption
    · cases here

theorem onePage_mapped : onePage.Mapped 1 16 128 301 := by
  have dir : onePage.words 16 = entry 300 :=
    (Function.update_of_ne (by rw [tableWord]; decide) _ _).trans (Function.update_self ..)
  have page : onePage.words (tableWord 300 128) = entry 301 := Function.update_self ..
  have table : frame (entry 300) = 300 := frame_entry (by decide)
  refine ⟨rfl, by decide, ?_, ?_, ?_⟩
  · rw [dir]
    exact present_entry _
  · rw [dir, table, page]
    exact present_entry _
  · rw [dir, table, page]
    exact frame_entry (by decide)

theorem unopened : Opened none := fun fd there => absurd there (Option.not_mem_none fd)

/-- The page at index 128 is not listed. -/
theorem page_128_missing :
    findTask onlyTask 7 63 = some 1 ∧ onePage.Mapped 1 16 128 301 ∧
      ¬ Shown (sysDebugPaging onePage onlyTask 7 0 none).2 16 128 301 ∧ ¬ ListsAll onePage onlyTask 7 1 none := by
  have missing : ¬ Shown (sysDebugPaging onePage onlyTask 7 0 none).2 16 128 301 := by
    rw [sysDebugPaging_all onlyTask_found unopened.ne_error, shown_iff]
    intro shown
    exact absurd shown.2.1 (by decide)
  exact ⟨onlyTask_found, onePage_mapped, missing, fun all => missing ((all.2 16 128 301).mpr onePage_mapped)⟩

def earlyPage : Memory :=
  { onePage with words := Function.update (Function.update (fun _ => 0) 16 (entry 300)) (tableWord 300 5) (entry 301) }

theorem earlyPage_only {d i page : Nat} (mapped : earlyPage.Mapped 1 d i page) :
    i < shownEntries ∧ frame (earlyPage.words d) ≠ 0 := by
  rcases mapped with ⟨slot, -, dir, there, -⟩
  have absent (w : Nat) (first : w ≠ 16) (second : w ≠ tableWord 300 5) : ¬ present (earlyPage.words w) = true := by
    have zero : earlyPage.words w = 0 := (Function.update_of_ne second ..).trans (Function.update_of_ne first ..)
    rw [zero]
    decide
  have first : d = 16 := by
    by_contra other
    exact absent d other (by rw [tableWord]; omega) dir
  subst first
  have table : earlyPage.words 16 = entry 300 :=
    (Function.update_of_ne (by rw [tableWord]; decide) ..).trans (Function.update_self ..)
  rw [table, frame_entry (by decide)] at there ⊢
  have second : i = 5 := by
    by_contra other
    exact absent _ (by rw [tableWord]; omega) (by rw [tableWord, tableWord]; omega) there
  exact ⟨by rw [second]; decide, by decide⟩

theorem reports_one_page : ListsAll earlyPage onlyTask 7 1 none ∧ FindsEach earlyPage onlyTask 7 1 none ∧
    AgreesWithPutPage earlyPage onlyTask 7 1 none :=
  (reports_page_tables_iff onlyTask_found unopened).mpr fun _ _ _ mapped => earlyPage_only mapped

end Example

end Linux011.Mm

import Linux011.Library.Machine
import Linux011.Mm.PageWalks
import Linux011.Mm.Shm

namespace Linux011.Mm

open Linux011.Library

/-- A process between its calls: its slot, the page of its window in which its stack begins, `brk`, and
    memory. -/
structure Caller where
  nr : Fin 64
  stackPage : Nat
  brk : BitVec 32
  memory : Memory

inductive ShmCall
  | shmget (key size : BitVec 32)
  | shmat (shmid : BitVec 32)

namespace Caller

/-- `get_base(current->ldt[1]) + current->brk` -/
def linearAddress (p : Caller) : BitVec 32 := BitVec.ofNat 32 (Memory.base p.nr) + p.brk

/-- A failed `sys_shmat` leaves everything as it was. -/
def call (p : Caller) : ShmCall → Caller
  | .shmget key size => { p with memory := (p.memory.sysShmget key size).1 }
  | .shmat shmid =>
    match p.memory.sysShmat shmid p.linearAddress.toNat with
    | some memory => { p with memory := memory, brk := p.brk + 4096 }
    | none => p

/-- The linear addresses of its window below its stack. -/
def Own (p : Caller) (address : Nat) : Prop :=
  Memory.base p.nr ≤ address ∧ address < Memory.base p.nr + p.stackPage * 4096

end Caller

/-- Every directory entry has a page table of its own, which is not free. -/
structure TablesInUse (m : Memory) : Prop extends Laid m where
  inUse : ∀ page, lowMem ≤ page → 0 < m.tables page → m.memMap (mapNr page) ≠ 0

/-- The stack is inside the window, and the break below it. -/
structure Caller.Legal (p : Caller) : Prop where
  tables : TablesInUse p.memory
  stack : p.stackPage < 0x4000
  brk : p.brk.toNat < p.stackPage * 4096

def shmCalls : Machine Caller ShmCall where
  init := Caller.Legal
  step := fun p e q => q = p.call e

/-- What the calls of a process may change: entries of its own addresses, and a break within its window. -/
structure Isolated (p q : Caller) : Prop where
  directory : ∀ d : Fin 1024, q.memory.words d ≠ p.memory.words d →
    ∃ address, p.Own address ∧ address / 0x400000 = d
  entries : ∀ d i : Fin 1024, q.memory.pte d i ≠ p.memory.pte d i →
    ∃ address, p.Own address ∧ address / 0x400000 = d ∧ Memory.pageIndex address = i
  brk : q.brk.toNat ≤ 0x4000000

/-- The page that holds the break lies below the stack whenever something is attached there. -/
def Below (p : Caller) : ShmCall → Prop
  | .shmget _ _ => True
  | .shmat _ => p.brk.toNat / 4096 < p.stackPage

namespace TablesInUse

variable {m m' : Memory}

theorem unused (kept : TablesInUse m) {page : Nat} (above : lowMem ≤ page) (free : m.memMap (mapNr page) = 0) :
    m.tables page = 0 := by
  by_contra use
  exact kept.inUse page above (Nat.pos_of_ne_zero use) free

theorem congr (kept : TablesInUse m) (directory : m'.pdes = m.pdes)
    (map : ∀ page, lowMem ≤ page → m.memMap (mapNr page) ≠ 0 → m'.memMap (mapNr page) ≠ 0) : TablesInUse m' where
  single page := by
    rw [tables_eq directory]
    exact kept.single page
  tablePage page := by
    rw [tables_eq directory]
    exact kept.tablePage page
  inUse page above := by
    rw [tables_eq directory]
    exact fun use => map page above (kept.inUse page above use)

theorem getFreePage (kept : TablesInUse m) {page : Nat} (got : m.getFreePage = some (page, m')) :
    m' = m.take page ∧ lowMem ≤ page ∧ page < 2 ^ 20 ∧ m.tables page = 0 := by
  obtain ⟨i, found, same⟩ := Option.map_eq_some_iff.mp got
  obtain ⟨rfl, rfl⟩ := Prod.mk.inj same
  obtain ⟨below, free⟩ := scan_some found
  have above : lowMem ≤ i + lowMem := Nat.le_add_left _ _
  refine ⟨rfl, above, ?_, kept.unused above (by rw [mapNr_add]; exact free)⟩
  simp only [pagingPages, lowMem] at *
  omega

theorem take (kept : TablesInUse m) {page : Nat} (above : lowMem ≤ page) (unused : m.tables page = 0) :
    TablesInUse (m.take page) := by
  have positive : 0 < page := Nat.lt_of_lt_of_le (by decide) above
  apply kept.congr (take_views positive unused).1
  intro other above' inUse
  by_cases same : other = page
  · rw [same]
    exact fun zero => absurd (setMap_same.symm.trans zero) (by decide)
  · exact (setMap_other above above' same).symm ▸ inUse

theorem tableFor (kept : TablesInUse m) {d : Fin 1024} {table : Nat} (got : m.tableFor d = some (table, m')) :
    TablesInUse m' ∧ m'.ptes = m.ptes ∧ (∀ d' : Fin 1024, d' ≠ d → m'.words d' = m.words d') ∧
      present (m'.words d) = true ∧ frame (m'.words d) = table := by
  unfold Memory.tableFor at got
  split at got
  · rename_i here
    cases got
    exact ⟨kept, rfl, fun _ _ => rfl, here, rfl⟩
  · rename_i absent
    obtain ⟨⟨page, m₁⟩, found, same⟩ := Option.map_eq_some_iff.mp got
    obtain ⟨rfl, rfl⟩ := Prod.mk.inj same
    obtain ⟨rfl, above, physical, unused⟩ := kept.getFreePage found
    have positive : 0 < page := Nat.lt_of_lt_of_le (by decide) above
    have before := take_views positive unused
    have taken := kept.take above unused
    have dir : (m.take page).words d = m.words d := congrFun before.1 d
    have missing : present ((m.take page).words d) = false := by
      rw [dir]
      simpa using absent
    have views := taken.toLaid.install_views missing positive physical fun i => take_zero m
    refine ⟨?_, views.2.trans before.2, ?_, by rw [set_self, present_entry], by rw [set_self, frame_entry physical]⟩
    · have tables (other : Nat) : ((m.take page).set d (entry page)).tables other =
          m.tables other + if page = other then 1 else 0 := by
        have moved := tables_update other views.1
        rw [pointsTo_absent missing, pointsTo_entry physical, tables_eq before.1] at moved
        omega
      constructor
      · constructor
        · intro other
          rw [tables]
          by_cases same : page = other
          · rw [← same, unused, if_pos rfl]
          · rw [if_neg same, Nat.add_zero]
            exact kept.single other
        · intro other
          rw [tables]
          by_cases same : page = other
          · rw [← same]
            exact fun _ => positive
          · rw [if_neg same, Nat.add_zero]
            exact kept.tablePage other
      · intro other above' use
        rw [tables] at use
        by_cases same : page = other
        · rw [← same]
          exact fun zero => absurd (setMap_same.symm.trans zero) (by decide)
        · rw [if_neg same, Nat.add_zero] at use
          have map : ((m.take page).set d (entry page)).memMap (mapNr other) = m.memMap (mapNr other) :=
            setMap_other above above' (Ne.symm same)
          rw [map]
          exact kept.inUse other above' use
    · intro d' other
      rw [set_other fun same => other (Fin.ext same)]
      exact congrFun before.1 d'

theorem putPage (kept : TablesInUse m) {page address : Nat} {d i : Fin 1024} (dir : address / 0x400000 = d)
    (index : Memory.pageIndex address = i) (put : m.putPage page address = some m') :
    TablesInUse m' ∧ m'.ptes = Function.update m.ptes (d, i) (entry page) ∧
      ∀ d' : Fin 1024, d' ≠ d → m'.words d' = m.words d' := by
  unfold Memory.putPage at put
  rw [dir, index] at put
  obtain ⟨⟨table, m₁⟩, found, rfl⟩ := Option.map_eq_some_iff.mp put
  obtain ⟨tabled, ptes, others, here, is⟩ := kept.tableFor found
  have word : tableWord table i = m₁.entryAt d i := by rw [Memory.entryAt, is]
  dsimp only
  rw [word]
  refine ⟨tabled.congr (tabled.toLaid.set_pdes here i _) fun _ _ inUse => inUse, ?_, ?_⟩
  · rw [tabled.toLaid.set_ptes here i, ptes]
  · intro d' other
    have dirs := tabled.toLaid.set_pdes here i (entry page)
    exact (congrFun dirs d').trans (others d' other)

theorem sysShmget (kept : TablesInUse m) (key size : BitVec 32) :
    TablesInUse (m.sysShmget key size).1 ∧ (m.sysShmget key size).1.pdes = m.pdes ∧
      (m.sysShmget key size).1.ptes = m.ptes := by
  unfold Memory.sysShmget
  split
  · exact ⟨kept, rfl, rfl⟩
  · split
    · exact ⟨kept, rfl, rfl⟩
    · split
      · exact ⟨kept.congr rfl fun _ _ inUse => inUse, rfl, rfl⟩
      · split
        · exact ⟨kept, rfl, rfl⟩
        · rename_i page m₁ found
          obtain ⟨rfl, above, -, unused⟩ := kept.getFreePage found
          have views := take_views (Nat.lt_of_lt_of_le (by decide) above) unused
          exact ⟨(kept.take above unused).congr rfl fun _ _ inUse => inUse, views⟩

theorem sysShmat {shmid : BitVec 32} {address : Nat} (attached : m.sysShmat shmid address = some m') :
    ∃ page, m.putPage page address = some m' := by
  unfold Memory.sysShmat at attached
  split at attached
  · cases attached
  · split at attached
    · cases attached
    · exact ⟨_, attached⟩

end TablesInUse

/-- What a run of calls keeps, beside the isolation of the caller. -/
structure Attached (p q : Caller) : Prop extends Isolated p q where
  tables : TablesInUse q.memory
  nr : q.nr = p.nr
  stack : q.stackPage = p.stackPage

section Runs

variable {p q : Caller} {e : ShmCall} {es : List ShmCall}

theorem linearAddress_inside (stack : q.stackPage < 0x4000) (below : q.brk.toNat / 4096 < q.stackPage) :
    q.Own q.linearAddress.toNat ∧ (q.brk + 4096).toNat ≤ 0x4000000 := by
  have slot := q.nr.isLt
  have window : Memory.base q.nr + 0x4000000 ≤ 2 ^ 32 := by
    unfold Memory.base
    omega
  have address : q.linearAddress.toNat = Memory.base q.nr + q.brk.toNat := by
    rw [Caller.linearAddress, BitVec.toNat_add, BitVec.toNat_ofNat]
    omega
  have next : (q.brk + 4096).toNat = q.brk.toNat + 4096 := by
    rw [BitVec.toNat_add, show (4096 : BitVec 32).toNat = 4096 from rfl]
    omega
  refine ⟨⟨?_, ?_⟩, ?_⟩ <;> omega

theorem Attached.step (attached : Attached p q) (stack : p.stackPage < 0x4000) (below : Below q e) :
    Attached p (q.call e) := by
  cases e with
  | shmget key size =>
    obtain ⟨tables, pdes, ptes⟩ := attached.tables.sysShmget key size
    refine ⟨⟨?_, ?_, attached.brk⟩, tables, attached.nr, attached.stack⟩
    · intro d changed
      apply attached.directory d
      exact fun same => changed ((congrFun pdes d).trans same)
    · intro d i changed
      apply attached.entries d i
      exact fun same => changed ((congrFun ptes (d, i)).trans same)
  | shmat shmid =>
    unfold Caller.call
    dsimp only
    split
    · rename_i memory got
      obtain ⟨page, put⟩ := TablesInUse.sysShmat got
      obtain ⟨own, brk⟩ := linearAddress_inside (attached.stack ▸ stack) below
      have owned : p.Own q.linearAddress.toNat := by
        unfold Caller.Own at own ⊢
        rw [← attached.nr, ← attached.stack]
        exact own
      have small := q.linearAddress.isLt
      have dirs : q.linearAddress.toNat / 0x400000 < 1024 := by omega
      have indices : Memory.pageIndex q.linearAddress.toNat < 1024 := Nat.mod_lt _ (by decide)
      obtain ⟨tables, ptes, others⟩ := attached.tables.putPage (d := ⟨_, dirs⟩) (i := ⟨_, indices⟩) rfl rfl put
      refine ⟨⟨?_, ?_, brk⟩, tables, attached.nr, attached.stack⟩
      · intro d changed
        by_cases here : d = ⟨_, dirs⟩
        · exact ⟨_, owned, by rw [here]⟩
        · apply attached.directory d
          exact fun same => changed ((others d here).trans same)
      · intro d i changed
        by_cases here : (d, i) = (⟨_, dirs⟩, ⟨_, indices⟩)
        · obtain ⟨rfl, rfl⟩ := Prod.mk.inj here
          exact ⟨_, owned, rfl, rfl⟩
        · apply attached.entries d i
          intro same
          apply changed
          have kept := congrFun ptes (d, i)
          rw [Function.update_of_ne here] at kept
          exact kept.trans same
    · exact attached

theorem attaches_stay_inside (legal : shmCalls.init p) (run : (shmCalls.restrict Below).Run p es q) :
    Isolated p q := by
  have start : Attached p p := by
    refine ⟨⟨fun _ changed => absurd rfl changed, fun _ _ changed => absurd rfl changed, ?_⟩, legal.tables, rfl, rfl⟩
    have brk := legal.brk
    have stack := legal.stack
    omega
  have kept : Attached p q := by
    apply run.invariant (I := Attached p) _ start
    intro q e q' attached step
    rw [step.2]
    exact attached.step legal.stack step.1
  exact kept.toIsolated

end Runs

section Examples

theorem cleared_tables : TablesInUse .cleared := by
  have none (page : Nat) : Memory.cleared.tables page = 0 :=
    (total_eq_zero_iff _ _).mpr fun _ => pointsTo_zero page
  constructor
  · constructor <;> intro page <;> rw [none]
    · exact Nat.zero_le _
    · exact fun use => absurd use (Nat.lt_irrefl 0)
  · intro page _
    rw [none]
    exact fun use => absurd use (Nat.lt_irrefl 0)

/-- A process in slot 1 whose stack is the last page of its window. -/
def stacked : Memory := ((Memory.cleared.take 4095).putPage 4095 0x7fff000).getD .cleared

theorem stacked_put : (Memory.cleared.take 4095).putPage 4095 0x7fff000 = some stacked := by
  have put : ((Memory.cleared.take 4095).putPage 4095 0x7fff000).isSome = true := by decide +kernel
  obtain ⟨m, is⟩ := Option.isSome_iff_exists.mp put
  rw [stacked, is]
  rfl

def nearStack : Caller where
  nr := 1
  stackPage := 0x3fff
  brk := 0x3ffa000
  memory := stacked

theorem nearStack_legal : nearStack.Legal := by
  have free := cleared_tables.unused (by decide : lowMem ≤ 4095) (by decide +kernel)
  have taken := cleared_tables.take (by decide : lowMem ≤ 4095) free
  have tables := (taken.putPage (d := 31) (i := 1023) (by decide) (by decide) stacked_put).1
  exact ⟨tables, by decide, by decide⟩

theorem first_attach_inside : ∃ q, q.memory.pte 31 1018 ≠ nearStack.memory.pte 31 1018 ∧ Isolated nearStack q := by
  have first : (shmCalls.restrict Below).step nearStack (.shmget 0 4096) (nearStack.call (.shmget 0 4096)) :=
    ⟨trivial, rfl⟩
  have second : (shmCalls.restrict Below).step (nearStack.call (.shmget 0 4096)) (.shmat 0)
      ((nearStack.call (.shmget 0 4096)).call (.shmat 0)) := ⟨show 0x3ffa000 / 4096 < 0x3fff by decide, rfl⟩
  exact ⟨_, by decide +kernel, attaches_stay_inside nearStack_legal ((Machine.Run.one first).snoc second)⟩

def sevenAttaches : List ShmCall := .shmget 0 4096 :: List.replicate 7 (.shmat 0)

/-- The sixth time replaces the stack, and the last one maps the page in the window of slot 2. -/
theorem attached_over_stack : nearStack.Legal ∧ ∃ q, shmCalls.Run nearStack sevenAttaches q ∧
    q.memory.pte 31 1023 ≠ nearStack.memory.pte 31 1023 ∧ present (q.memory.pte 32 0) = true ∧
    q.brk = 0x4001000 ∧ ¬ Isolated nearStack q := by
  have ran : (sevenAttaches.foldlM (fun p e => some (Caller.call p e)) nearStack).any (fun q =>
      q.memory.pte 31 1023 ≠ nearStack.memory.pte 31 1023 ∧ present (q.memory.pte 32 0) = true ∧
        q.brk = 0x4001000) = true := by decide +kernel
  obtain ⟨q, ends, found⟩ := (Option.any_eq_true _ _).mp ran
  have run : shmCalls.Run nearStack sevenAttaches q :=
    Machine.run_of_foldlM (fun _ _ _ same => (Option.some.inj same).symm) ends
  obtain ⟨overrun, next, brk⟩ := of_decide_eq_true found
  refine ⟨nearStack_legal, q, run, overrun, next, brk, fun isolated => ?_⟩
  have bound := isolated.brk
  rw [brk] at bound
  exact absurd bound (by decide)

end Examples

end Linux011.Mm

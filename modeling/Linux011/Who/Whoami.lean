import Linux011.Mm.FreePages
import Linux011.Mm.Supervisor
import Linux011.Who.Name

namespace Linux011.Who

open Linux011.Library Linux011.Mm

/-- The loop of `sys_whoami`, over the bytes that are left. -/
def putBytes (files : Nat → File) (s : Fin 64) (t : Task) (iCount : Nat) :
    Kernel → Nat → List (BitVec 8) → Except Panic (Kernel × Outcome)
  | k, _, [] => .ok (k, .done)
  | k, a, c :: cs => do
    let (k, outcome) ← k.putFsByte files s t a iCount c
    if outcome = .killed then return (k, .killed)
    else putBytes files s t iCount k (a + 1) cs

def sysWhoami (k : Kernel) (files : Nat → File) (s : Fin 64) (t : Task) (stored : NameInKernel) (name : Nat)
    (size : BitVec 32) (iCount : Nat) : Except Panic (Kernel × Outcome) :=
  if size < BitVec.ofNat 32 stored.needLength then .ok (k, .returned (-EINVAL))
  else do
    let (k, outcome) ← putBytes files s t iCount k name stored.stores
    if outcome = .killed then return (k, .killed)
    else return (k, .returned stored.strlen)

section Landing

variable (k : Kernel) (s : Fin 64) (t : Task) (iCount a : Nat)

/-- The page an address has, or would get from another task in a fault. -/
def landing (b : Nat) : Option Nat :=
  if present (k.memory.pteOf (Memory.base s + b)) then some (frame (k.memory.pteOf (Memory.base s + b)))
  else (k.donor s t b iCount).map fun q : Fin 64 => frame (k.memory.pteOf (Memory.base q + b))

/-- The free pages the byte `i` of a buffer takes, for itself and for a page table. -/
def byteCost (i : Nat) : Nat :=
  (if (i = 0 ∨ (a + i) % 4096 = 0) ∧ landing k s t iCount (a + i) = none then 1 else 0) +
    if i = 0 ∨ (a + i) % 0x400000 = 0 then k.memory.tableCost ((Memory.base s + (a + i)) / 0x400000) else 0

/-- What the first bytes of a buffer take. -/
def spent : Nat → Nat
  | 0 => 0
  | i + 1 => spent i + byteCost k s t iCount a i

/-- The byte `i` of a buffer can be stored: it is within the segment, and memory lasts. -/
def Stored (i : Nat) : Prop := a + i < t.dataLimit ∧ spent k s t iCount a (i + 1) ≤ k.memory.freePages

/-- The byte `i` of a buffer is where another task has an address. -/
def Meets (i : Nat) (q : Fin 64) (b : Nat) : Prop :=
  landing k s t iCount (a + i) = some (frame (k.memory.pteOf (Memory.base q + b))) ∧ b % 4096 = (a + i) % 4096

instance (i : Nat) (q : Fin 64) (b : Nat) : Decidable (Meets k s t iCount a i q b) := inferInstanceAs (Decidable (_ ∧ _))

/-- A buffer does not lie in the page directory or in a page table. -/
def Clear (n : Nat) : Prop := ∀ i < n, present (k.memory.pteOf (Memory.base s + (a + i))) = true →
  k.memory.InUse (frame (k.memory.pteOf (Memory.base s + (a + i))))

end Landing

variable {L : Layout} {files : Nat → File} {k k' : Kernel} {s q : Fin 64} {t : Task} {iCount a b n : Nat} {m m' : Memory}
  {j : Fin 16} {i : Fin 1024}

section Pages

theorem landing_page (place : At s a j i) (same : b / 4096 = a / 4096) :
    landing k s t iCount b = landing k s t iCount a := by
  have place' : At s b j i := place.of_page same
  have sources : (fun q : Fin 64 => frame (k.memory.pteOf (Memory.base q + b))) =
      fun q : Fin 64 => frame (k.memory.pteOf (Memory.base q + a)) := by
    funext q
    have source : At q a j i := ⟨place.dir, place.index⟩
    have source' : At q b j i := source.of_page same
    rw [source.pteOf, source'.pteOf]
  unfold landing
  rw [place.pteOf, place'.pteOf, donor_page same, sources]

theorem spent_mono {n n' : Nat} (more : n ≤ n') : spent k s t iCount a n ≤ spent k s t iCount a n' := by
  induction more with
  | refl => exact Nat.le_refl _
  | step _ ih => exact ih.trans (Nat.le_add_right _ _)

end Pages

/-- A page of the caller is the one the buffer was to land in. -/
structure Landed (k : Kernel) (s : Fin 64) (t : Task) (iCount b : Nat) (m : Memory) (j : Fin 16) (i : Fin 1024) : Prop where
  here : present (m.window s (j, i)) = true
  inUse : m.InUse (frame (m.window s (j, i)))
  page : match landing k s t iCount b with
    | some f => frame (m.window s (j, i)) = f
    | none => ∀ q, q ≠ s → ∀ x, present (k.memory.window q x) = true → frame (k.memory.window q x) ≠ frame (m.window s (j, i))

/-- What holds when the pages of the first `n` bytes of a buffer are there, and `l` bytes are stored. -/
structure During (L : Layout) (k : Kernel) (s : Fin 64) (t : Task) (iCount a : Nat) (bytes : List (BitVec 8)) (n l : Nat)
    (m : Memory) : Prop where
  exact : Exact L ⟨m, k.task⟩
  high : m.highMemory = k.memory.highMemory
  free : m.freePages + spent k s t iCount a n = k.memory.freePages
  others : ∀ q, q ≠ s → ∀ x, Alike (m.window q x) (k.memory.window q x)
  inUse : ∀ f, k.memory.InUse f → m.InUse f
  ahead : ∀ j i, (∀ r < n, ¬ At s (a + r) j i) → Alike (m.window s (j, i)) (k.memory.window s (j, i))
  landed : ∀ r < n, ∀ j i, At s (a + r) j i → Landed k s t iCount (a + r) m j i
  dirs : ∀ j : Fin 16, (∀ r < n, (a + r) / 0x400000 ≠ j) → m.words (dirOf s j) = k.memory.words (dirOf s j)
  hit : ∀ q b, q ≠ s → k.Readable q b → ∀ r < l, Meets k s t iCount a r q b →
    some (m.byteAt (Memory.base q + b)) = bytes[r]?
  missed : ∀ q b, q ≠ s → k.Readable q b → (∀ r < l, ¬ Meets k s t iCount a r q b) →
    m.byteAt (Memory.base q + b) = k.memory.byteAt (Memory.base q + b)

variable {bytes : List (BitVec 8)} {l : Nat}

theorem During.start (exact : Exact L k) : During L k s t iCount a bytes 0 0 k.memory where
  exact := exact
  high := rfl
  free := by rw [spent, Nat.add_zero]
  others := fun _ _ _ => .refl _
  inUse := fun _ inUse => inUse
  ahead := fun _ _ _ => .refl _
  landed := fun _ none => absurd none (Nat.not_lt_zero _)
  dirs := fun _ _ => rfl
  hit := fun _ _ _ _ _ none => absurd none (Nat.not_lt_zero _)
  missed := fun _ _ _ _ _ => rfl

theorem During.reader (during : During L k s t iCount a bytes n l m) (apart : q ≠ s) (readable : k.Readable q b) :
    ∃ j i, At q b j i ∧ present (m.window q (j, i)) = true ∧ m.InUse (frame (m.window q (j, i))) ∧
      frame (k.memory.pteOf (Memory.base q + b)) = frame (m.window q (j, i)) := by
  obtain ⟨u, there, limit, here, inUse⟩ := readable
  obtain ⟨j, i, place⟩ := At.of_limit (s := q) limit (during.exact.tasks.fits q u there)
  have alike := during.others q apart (j, i)
  rw [place.pteOf] at here inUse
  have here' := alike.1.trans here
  have same := (alike.2 here').1
  refine ⟨j, i, place, here', ?_, ?_⟩
  · rw [same]
    exact during.inUse _ inUse
  · rw [place.pteOf, same]

theorem Landed.kept (landed : Landed k s t iCount b m j i) (here : present (m'.window s (j, i)) = true)
    (same : frame (m'.window s (j, i)) = frame (m.window s (j, i))) (inUse : ∀ f, m.InUse f → m'.InUse f) :
    Landed k s t iCount b m' j i := by
  refine ⟨here, same ▸ inUse _ landed.inUse, ?_⟩
  rw [same]
  exact landed.page

theorem During.again (during : During L k s t iCount a bytes n l m) (place : At s (a + n) j i) (positive : 0 < n)
    (inside : (a + n) % 4096 ≠ 0) : During L k s t iCount a bytes (n + 1) l m := by
  have before : At s (a + (n - 1)) j i := place.of_page (by omega)
  have cost : byteCost k s t iCount a n = 0 := by
    rw [byteCost, if_neg fun both => by omega, if_neg (by omega)]
  refine { during with free := ?_, ahead := ?_, landed := ?_, dirs := ?_ }
  · rw [spent, cost]
    exact during.free
  · exact fun j i outside => during.ahead j i fun r below => outside r (by omega)
  · intro r below j' i' place'
    by_cases last : r = n
    · rw [last] at place' ⊢
      obtain ⟨rfl, rfl⟩ := place.unique place'
      have landed := during.landed (n - 1) (by omega) _ _ before
      refine ⟨landed.here, landed.inUse, ?_⟩
      rw [landing_page before (by omega)]
      exact landed.page
    · exact during.landed r (by omega) j' i' place'
  · exact fun j outside => during.dirs j fun r below => outside r (by omega)

theorem first_in_page (place : At s (a + n) j i) (first : n = 0 ∨ (a + n) % 4096 = 0) {r : Nat} (earlier : r < n) :
    ¬ At s (a + r) j i := by
  intro before
  have same := before.page_eq place
  omega

section Fault

variable (during : During L k s t iCount a bytes n l m) (place : At s (a + n) j i) (first : n = 0 ∨ (a + n) % 4096 = 0)

include during place

theorem During.donor : (⟨m, k.task⟩ : Kernel).donor s t (a + n) iCount = k.donor s t (a + n) iCount :=
  donor_congr place (fun p apart => during.others p apart (j, i)) during.high

include first

theorem During.before : Alike (m.window s (j, i)) (k.memory.window s (j, i)) :=
  during.ahead j i fun _ earlier => first_in_page place first earlier

theorem During.found (clear : present (k.memory.window s (j, i)) = true → k.memory.InUse (frame (k.memory.window s (j, i))))
    (here : present (m.window s (j, i)) = true) : During L k s t iCount a bytes (n + 1) l m := by
  have alike := during.before place first
  have here' := alike.1.symm.trans here
  have landing' : landing k s t iCount (a + n) = some (frame (k.memory.window s (j, i))) := by
    rw [landing, place.pteOf, if_pos here']
  have cost : byteCost k s t iCount a n = 0 := by
    have table : k.memory.tableCost (dirOf s j) = 0 := if_pos (table_of_pte here')
    rw [byteCost, place.linear, table, landing', if_neg fun both => nomatch both.2]
    split <;> rfl
  refine { during with free := ?_, ahead := ?_, landed := ?_, dirs := ?_ }
  · rw [spent, cost]
    exact during.free
  · exact fun j i outside => during.ahead j i fun r below => outside r (by omega)
  · intro r below j' i' place'
    by_cases last : r = n
    · rw [last] at place' ⊢
      obtain ⟨rfl, rfl⟩ := place.unique place'
      refine ⟨here, ?_, ?_⟩
      · rw [(alike.2 here).1]
        exact during.inUse _ (clear here')
      · rw [landing']
        exact (alike.2 here).1
    · exact during.landed r (by omega) j' i' place'
  · exact fun j outside => during.dirs j fun r below => outside r (by omega)

theorem During.cost (absent : present (m.window s (j, i)) = false) :
    (⟨m, k.task⟩ : Kernel).faultCost s t (a + n) iCount = byteCost k s t iCount a n := by
  have alike := during.before place first
  have absent' : ¬ present (k.memory.window s (j, i)) = true := by
    rw [← alike.1, absent]
    exact nofun
  have page : landing k s t iCount (a + n) = none ↔ k.donor s t (a + n) iCount = none := by
    rw [landing, place.pteOf, if_neg absent', Option.map_eq_none_iff]
  have table : m.tableCost (dirOf s j) =
      if n = 0 ∨ (a + n) % 0x400000 = 0 then k.memory.tableCost (dirOf s j) else 0 := by
    have dir := place.dir
    split
    · have same := during.dirs j fun r below => by omega
      rw [Memory.tableCost, same, Memory.tableCost]
    · rename_i inside
      have earlier : (a + (n - 1)) / 0x400000 = j := by omega
      have there := during.landed (n - 1) (by omega) j ⟨_, Nat.mod_lt _ (by decide)⟩ ⟨earlier, rfl⟩
      exact if_pos (table_of_pte there.here)
  rw [Kernel.faultCost, byteCost, during.donor place, place.linear, table]
  simp only [first, true_and, page]

theorem During.fetched (absent : present (m.window s (j, i)) = false)
    (fetched : Fetched L k.taskPages files ⟨m, k.task⟩ s t (a + n) iCount j i m')
    (counted : m'.freePages + (⟨m, k.task⟩ : Kernel).faultCost s t (a + n) iCount = m.freePages)
    (dirs : ∀ d, d ≠ dirOf s j → m'.words d = m.words d) : During L k s t iCount a bytes (n + 1) l m' := by
  have alike := during.before place first
  have absent' : ¬ present (k.memory.window s (j, i)) = true := by
    rw [← alike.1, absent]
    exact nofun
  have keeps {f : Nat} (inUse : m.InUse f) : m'.InUse f := fetched.inUse absent inUse
  have exact' : Exact L ⟨m', k.task⟩ := during.exact.walked fetched.walk
  have others (q : Fin 64) (apart : q ≠ s) (x : Fin 16 × Fin 1024) : Alike (m'.window q x) (m.window q x) :=
    fetched.alike (x := (dirOf q x.1, x.2)) fun same => apart (dirOf_inj (Prod.mk.inj same).1).1
  have own (j' : Fin 16) (i' : Fin 1024) (elsewhere : ¬ (j' = j ∧ i' = i)) : Alike (m'.window s (j', i')) (m.window s (j', i')) :=
    fetched.alike (x := (dirOf s j', i')) fun same =>
      elsewhere ⟨(dirOf_inj (Prod.mk.inj same).1).2, (Prod.mk.inj same).2⟩
  have reads (q : Fin 64) (b : Nat) (apart : q ≠ s) (readable : k.Readable q b) :
      m'.byteAt (Memory.base q + b) = m.byteAt (Memory.base q + b) := by
    obtain ⟨j', i', place', here, inUse, -⟩ := during.reader apart readable
    exact place'.byteAt_kept here (others q apart _) (fetched.spares _ inUse)
  refine ⟨exact', ?_, ?_, ?_, ?_, ?_, ?_, ?_, ?_, ?_⟩
  case refine_1 =>
    rw [← during.high]
    exact exact'.orderly.sound.high.trans during.exact.orderly.sound.high.symm
  case refine_2 =>
    have free := during.free
    rw [during.cost place first absent] at counted
    rw [spent]
    omega
  case refine_3 => exact fun q apart x => (others q apart x).trans (during.others q apart x)
  case refine_4 => exact fun f inUse => keeps (during.inUse f inUse)
  case refine_5 =>
    intro j' i' outside
    have elsewhere : ¬ (j' = j ∧ i' = i) := by
      rintro ⟨rfl, rfl⟩
      exact outside n (Nat.lt_succ_self n) place
    exact (own j' i' elsewhere).trans (during.ahead j' i' fun r below => outside r (by omega))
  case refine_6 =>
    intro r below j' i' place'
    by_cases last : r = n
    · rw [last] at place' ⊢
      obtain ⟨rfl, rfl⟩ := place.unique place'
      have landing' : landing k s t iCount (a + n) =
          (k.donor s t (a + n) iCount).map fun q : Fin 64 => frame (k.memory.pteOf (Memory.base q + (a + n))) := by
        rw [landing, place.pteOf, if_neg absent']
      rcases fetched.page with ⟨none, p, loaded⟩ | ⟨q, found, borrowed⟩
      · have window : m'.ptes (dirOf s j', i') = entry p := by rw [loaded.ptes, Function.update_self]
        have here : present (m'.ptes (dirOf s j', i')) = true := by rw [window, present_entry]
        have same : frame (m'.ptes (dirOf s j', i')) = p := by rw [window, frame_entry loaded.managed.physical.2]
        have above : lowMem ≤ frame (m'.ptes (dirOf s j', i')) := by
          rw [same]
          exact loaded.managed.physical.1
        refine ⟨here, exact'.inUse here above, ?_⟩
        rw [landing', ← during.donor place, none]
        intro q apart x there equal
        have alike := (others q apart x).trans (during.others q apart x)
        have there' := alike.1.trans there
        have write : writable (m'.ptes (dirOf s j', i')) = true := by rw [window, writable_entry]
        have sole := exact'.orderly.sole (dirOf s j', i') (dirOf q x.1, x.2) here write above there'
          ((alike.2 there').1.trans equal)
        exact apart (dirOf_inj (Prod.mk.inj sole).1).1
      · have apart := borrowed.apart
        have window : m'.ptes (dirOf s j', i') = protect (m.window q (j', i')) := by
          have other : (dirOf s j', i') ≠ (dirOf q j', i') := fun same => apart (dirOf_inj (Prod.mk.inj same).1).1.symm
          rw [borrowed.ptes, Function.update_of_ne other, Function.update_self]
        have here : present (m'.ptes (dirOf s j', i')) = true := by
          rw [window, present_protect]
          exact borrowed.here
        have same : frame (m'.ptes (dirOf s j', i')) = frame (m.window q (j', i')) := by rw [window, frame_protect]
        refine ⟨here, exact'.inUse here (same ▸ borrowed.above), ?_⟩
        have source : At q (a + n) j' i' := ⟨place.dir, place.index⟩
        rw [landing', ← during.donor place, found, Option.map_some, source.pteOf]
        exact same.trans ((during.others q apart (j', i')).2 borrowed.here).1
    · have elsewhere : ¬ (j' = j ∧ i' = i) := by
        rintro ⟨rfl, rfl⟩
        exact first_in_page place first (by omega) place'
      have landed := during.landed r (by omega) j' i' place'
      have alike := own j' i' elsewhere
      have here := alike.1.trans landed.here
      exact landed.kept here (alike.2 here).1 fun f inUse => keeps inUse
  case refine_7 =>
    intro j' outside
    have other : dirOf s j' ≠ dirOf s j := by
      intro same
      rw [(dirOf_inj same).2] at outside
      exact outside n (Nat.lt_succ_self n) place.dir
    rw [dirs _ other]
    exact during.dirs j' fun r below => outside r (by omega)
  case refine_8 =>
    intro q b apart readable r below meets
    rw [reads q b apart readable]
    exact during.hit q b apart readable r below meets
  case refine_9 =>
    intro q b apart readable none
    rw [reads q b apart readable]
    exact during.missed q b apart readable none

end Fault

theorem During.put (during : During L k s t iCount a bytes (n + 1) n m) (place : At s (a + n) j i) {c : BitVec 8}
    (byte : bytes[n]? = some c) (short : n < 4096) (put : Put m s j i (a + n) c m') :
    During L k s t iCount a bytes (n + 1) (n + 1) m' := by
  have landed := during.landed n (Nat.lt_succ_self n) j i place
  have own (j' : Fin 16) (i' : Fin 1024) (elsewhere : ¬ (j' = j ∧ i' = i)) : m'.window s (j', i') = m.window s (j', i') := by
    rw [put.window_own, Function.update_of_ne]
    exact fun same => elsewhere (Prod.mk.inj same)
  -- The one address of another task that reads the byte.
  have meets (q : Fin 64) (b : Nat) (apart : q ≠ s) (readable : k.Readable q b) :
      m'.byteAt (Memory.base q + b) = if Meets k s t iCount a n q b then c else m.byteAt (Memory.base q + b) := by
    obtain ⟨j', i', place', here, inUse, same⟩ := during.reader apart readable
    have meeting : frame (m.window q (j', i')) = frame (m.window s (j, i)) ↔
        landing k s t iCount (a + n) = some (frame (m.window q (j', i'))) := by
      have page := landed.page
      cases found : landing k s t iCount (a + n) with
      | some f =>
        rw [found] at page
        rw [page, Option.some_inj, eq_comm]
      | none =>
        rw [found] at page
        have alike := during.others q apart (j', i')
        have fresh := page q apart (j', i') (alike.1.symm.trans here)
        rw [← (alike.2 here).1] at fresh
        exact ⟨fun equal => absurd equal fresh, nofun⟩
    rw [put.byteAt apart place' inUse]
    simp only [meeting, Meets, same]
  have exact' : Exact L ⟨m', k.task⟩ := Put.exact (k := ⟨m, k.task⟩) put landed.here during.exact
  refine ⟨exact', put.high.trans during.high, ?_, ?_, ?_, ?_, ?_, ?_, ?_, ?_⟩
  case refine_1 =>
    rw [freePages_congr put.map]
    exact during.free
  case refine_2 =>
    intro q apart x
    rw [put.window_other apart]
    exact during.others q apart x
  case refine_3 => exact fun f inUse => put.inUse (during.inUse f inUse)
  case refine_4 =>
    intro j' i' outside
    rw [own j' i']
    · exact during.ahead j' i' outside
    · rintro ⟨rfl, rfl⟩
      exact outside n (Nat.lt_succ_self n) place
  case refine_5 =>
    intro r below j' i' place'
    have before := during.landed r below j' i' place'
    by_cases same : j' = j ∧ i' = i
    · obtain ⟨rfl, rfl⟩ := same
      have window : m'.window s (j', i') = touched (m.window s (j', i')) := by rw [put.window_own, Function.update_self]
      exact before.kept (by rw [window, present_touched, before.here]) (by rw [window, frame_touched])
        fun f inUse => put.inUse inUse
    · have window := own j' i' same
      exact before.kept (by rw [window, before.here]) (by rw [window]) fun f inUse => put.inUse inUse
  case refine_6 =>
    intro j' outside
    rw [show m'.words (dirOf s j') = m.words (dirOf s j') from congrFun put.pdes _]
    exact during.dirs j' outside
  case refine_7 =>
    intro q b apart readable r below here
    rw [meets q b apart readable]
    by_cases last : r = n
    · rw [← last, if_pos here, last, byte]
    · rw [if_neg fun both => by have offset := here.2.symm.trans both.2; omega]
      exact during.hit q b apart readable r (by omega) here
  case refine_8 =>
    intro q b apart readable none
    rw [meets q b apart readable, if_neg (none n (Nat.lt_succ_self n))]
    exact during.missed q b apart readable fun r below => none r (by omega)

/-- How a fault for a byte may end the task: without memory, that memory as it was. -/
def Starves (L : Layout) (k : Kernel) (s : Fin 64) (t : Task) (iCount a n : Nat) (m : Memory) (stop : Stop) : Prop :=
  (∃ why, stop = .panic why) ∨ ∃ m', stop = .noMemory m' ∧ Sound L m' k.taskPages ∧ Unchanged m m' ∧
    k.memory.freePages < spent k s t iCount a (n + 1)

theorem During.touch (during : During L k s t iCount a bytes n n m) (place : At s (a + n) j i)
    (clear : present (k.memory.window s (j, i)) = true → k.memory.InUse (frame (k.memory.window s (j, i)))) :
    Ends (During L k s t iCount a bytes (n + 1) n) (Starves L k s t iCount a n m)
      ((⟨m, k.task⟩ : Kernel).touch files s t (a + n) iCount) := by
  unfold Kernel.touch
  rw [place.pteOf]
  by_cases first : n = 0 ∨ (a + n) % 4096 = 0
  · by_cases here : present (m.window s (j, i)) = true
    · rw [if_pos here]
      exact .pure (during.found place first clear here)
    · rw [if_neg here]
      have absent : present (m.window s (j, i)) = false := by simpa using here
      have sound : Sound L m k.taskPages := during.exact.orderly.sound
      have fetch : Ends (Fetched L k.taskPages files ⟨m, k.task⟩ s t (a + n) iCount j i)
          (fun stop => (∃ why, stop = .panic why ∧ Harmless why) ∨ ∃ m', stop = .noMemory m' ∧ Starved L k.taskPages m m')
          ((⟨m, k.task⟩ : Kernel).doNoPage files s t (a + n) iCount) :=
        Sound.fetch (k := ⟨m, k.task⟩) sound during.exact.spare place absent
      have counts : Ends (fun m' => m'.freePages + (⟨m, k.task⟩ : Kernel).faultCost s t (a + n) iCount = m.freePages)
          (fun stop => (∃ why, stop = .panic why) ∨ m.freePages < (⟨m, k.task⟩ : Kernel).faultCost s t (a + n) iCount)
          ((⟨m, k.task⟩ : Kernel).doNoPage files s t (a + n) iCount) :=
        Sound.doNoPage_counts (k := ⟨m, k.task⟩) sound during.exact.spare place
      rw [during.cost place first absent] at counts
      constructor
      · intro m' returned
        have counted := counts.ok m' returned
        rw [← during.cost place first absent] at counted
        apply during.fetched place first absent (fetch.ok m' returned) counted
        intro d other
        exact (Sound.doNoPage_dir (k := ⟨m, k.task⟩) sound place other).ok m' returned
      · intro stop stopped
        rcases fetch.error stop stopped with ⟨why, same, -⟩ | ⟨m', same, starved⟩
        · exact .inl ⟨why, same⟩
        · refine .inr ⟨m', same, ?_, starved.toUnchanged, ?_⟩
          · obtain ⟨entries, walk⟩ := starved.walk
            exact walk.sound sound
          · rcases counts.error stop stopped with ⟨why, panic⟩ | short
            · rw [same] at panic
              cases panic
            · have free := during.free
              rw [spent]
              omega
  · have before : At s (a + (n - 1)) j i := place.of_page (by omega)
    have here := (during.landed (n - 1) (by omega) j i before).here
    rw [if_pos here]
    exact .pure (during.again place (by omega) (by omega))

/-- What the loop leaves of the bytes of the other tasks, with `n` bytes stored. -/
structure Wrote (k : Kernel) (s : Fin 64) (t : Task) (iCount a : Nat) (bytes : List (BitVec 8)) (n : Nat) (m : Memory) :
    Prop where
  hit : ∀ q b, q ≠ s → k.Readable q b → ∀ r < n, Meets k s t iCount a r q b →
    some (m.byteAt (Memory.base q + b)) = bytes[r]?
  missed : ∀ q b, q ≠ s → k.Readable q b → (∀ r < n, ¬ Meets k s t iCount a r q b) →
    m.byteAt (Memory.base q + b) = k.memory.byteAt (Memory.base q + b)

theorem During.wrote (during : During L k s t iCount a bytes n n m) : Wrote k s t iCount a bytes n m :=
  ⟨during.hit, during.missed⟩

theorem During.ended (during : During L k s t iCount a bytes n n m) (there : k.task s = some t)
    (sound : Sound L m' k.taskPages) (unchanged : Unchanged m m') (gone : (⟨m', k.task⟩ : Kernel).doExit s t = .ok k') :
    Wrote k s t iCount a bytes n k'.memory := by
  have ended : Ends (Left ⟨m', k.task⟩ s t { t with zombie := true, executable := none }) Harmless
      ((⟨m', k.task⟩ : Kernel).doExit s t) := Sound.doExit_left (k := ⟨m', k.task⟩) sound (during.exact.tasks.fits s t there)
  have left := ended.ok k' gone
  have same (q : Fin 64) (b : Nat) (apart : q ≠ s) (readable : k.Readable q b) :
      k'.memory.byteAt (Memory.base q + b) = m.byteAt (Memory.base q + b) := by
    obtain ⟨j, i, place, here, inUse, -⟩ := during.reader apart readable
    have window : m'.window q = m.window q := by
      unfold Memory.window
      rw [unchanged.ptes]
    have first : m'.byteAt (Memory.base q + b) = m.byteAt (Memory.base q + b) :=
      place.byteAt_kept here (congrFun window (j, i) ▸ .refl _) (unchanged.spares _ inUse)
    have plain := (unchanged.spares _ inUse).plain
    have second : k'.memory.byteAt (Memory.base q + b) = m'.byteAt (Memory.base q + b) := by
      apply place.byteAt_kept ((congrArg present (congrFun window _)).trans here)
        (congrFun (left.vacated.others q apart) (j, i) ▸ .refl _)
      rw [congrFun window]
      exact left.vacated.untouched _ inUse.positive plain
    exact second.trans first
  constructor
  · intro q b apart readable
    rw [same q b apart readable]
    exact during.hit q b apart readable
  · intro q b apart readable
    rw [same q b apart readable]
    exact during.missed q b apart readable

theorem During.stored (during : During L k s t iCount a bytes n l m) : spent k s t iCount a n ≤ k.memory.freePages := by
  have free := during.free
  omega

theorem not_stored {r : Nat} (stuck : ¬ Stored k s t iCount a n) (later : n ≤ r) : ¬ Stored k s t iCount a r := by
  rintro ⟨limit, enough⟩
  exact stuck ⟨by omega, (spent_mono (by omega)).trans enough⟩

theorem During.byte (there : k.task s = some t) (clear : Clear k s a bytes.length) (short : bytes.length ≤ 4096)
    (during : During L k s t iCount a bytes n n m) {c : BitVec 8} (byte : bytes[n]? = some c) {outcome : Outcome}
    (returned : (⟨m, k.task⟩ : Kernel).putFsByte files s t (a + n) iCount c = .ok (k', outcome)) :
    (outcome = .killed ∧ ¬ Stored k s t iCount a n ∧ Wrote k s t iCount a bytes n k'.memory) ∨
      (outcome = .done ∧ Stored k s t iCount a n ∧
        ∃ m', k' = ⟨m', k.task⟩ ∧ During L k s t iCount a bytes (n + 1) (n + 1) m') := by
  have sound : Sound L m k.taskPages := during.exact.orderly.sound
  have inside : n < bytes.length := (List.getElem?_eq_some_iff.mp byte).1
  unfold Kernel.putFsByte at returned
  by_cases beyond : t.dataLimit ≤ a + n
  · rw [if_pos beyond] at returned
    obtain ⟨k₁, gone, same⟩ := returned_map returned
    cases same
    exact .inl ⟨rfl, fun both => absurd both.1 (by omega), during.ended there sound (.refl m) gone⟩
  · rw [if_neg beyond] at returned
    have limit : a + n < t.dataLimit := by omega
    obtain ⟨j, i, place⟩ := At.of_limit (s := s) limit (during.exact.tasks.fits s t there)
    have free := clear n inside
    rw [place.pteOf] at free
    have touch : Ends (During L k s t iCount a bytes (n + 1) n) (Starves L k s t iCount a n m)
        ((⟨m, k.task⟩ : Kernel).touch files s t (a + n) iCount) := during.touch place free
    rcases settled returned with ⟨m₁, stored, rfl, rfl⟩ | ⟨m', starved, rfl, gone⟩
    · obtain ⟨m', touched, rfl⟩ := returned_map stored
      have during' := touch.ok m' touched
      have landed := during'.landed n (Nat.lt_succ_self n) j i place
      have put := during'.exact.orderly.sound.laid.put place landed.here landed.inUse c
      exact .inr ⟨rfl, ⟨limit, during'.stored⟩, _, rfl, during'.put place byte (by omega) put⟩
    · rcases touch.error _ (stopped_map starved) with ⟨why, panic⟩ | ⟨m₁, same, sound', unchanged, scarce⟩
      · cases panic
      · cases same
        exact .inl ⟨rfl, fun both => absurd both.2 (by omega), during.ended there sound' unchanged gone⟩

theorem During.loop (there : k.task s = some t) (clear : Clear k s a bytes.length) (short : bytes.length ≤ 4096)
    {rest : List (BitVec 8)} (during : During L k s t iCount a bytes n n m) (left : rest = bytes.drop n)
    (stored : ∀ r < n, Stored k s t iCount a r) {outcome : Outcome}
    (returned : putBytes files s t iCount ⟨m, k.task⟩ (a + n) rest = .ok (k', outcome)) :
    ∃ N, (∀ r < bytes.length, Stored k s t iCount a r ↔ r < N) ∧ Wrote k s t iCount a bytes N k'.memory := by
  induction rest generalizing n m with
  | nil =>
    cases returned
    have all := List.drop_eq_nil_iff.mp left.symm
    exact ⟨n, fun r below => ⟨fun _ => by omega, stored r⟩, during.wrote⟩
  | cons c cs ih =>
    have byte : bytes[n]? = some c := by rw [← List.head?_drop, ← left, List.head?_cons]
    have tail : cs = bytes.drop (n + 1) := by rw [← List.tail_drop, ← left, List.tail_cons]
    unfold putBytes at returned
    obtain ⟨⟨k₁, outcome₁⟩, first, rest⟩ := returned_bind returned
    rcases during.byte there clear short byte first with ⟨rfl, stuck, wrote⟩ | ⟨rfl, now, m', rfl, during'⟩
    · cases rest
      refine ⟨n, fun r _ => ⟨fun more => ?_, stored r⟩, wrote⟩
      by_contra later
      exact not_stored stuck (by omega) more
    · apply ih during' tail
      · intro r below
        rcases Nat.lt_succ_iff_lt_or_eq.mp below with earlier | rfl
        · exact stored r earlier
        · exact now
      · exact rest

/-- When `sys_whoami` shows nothing to the other tasks: each byte it can store goes to a page that is the
    caller's alone, or is there already. -/
theorem whoami_unseen_iff {stored : NameInKernel} {size : BitVec 32} {outcome : Outcome}
    (reached : ((kernel files L).restrict fun _ e => e.call.Plain).Reaches k) (there : k.task s = some t)
    (clear : Clear k s a stored.needLength)
    (returned : sysWhoami k files s t stored a size iCount = .ok (k', outcome)) :
    Unseen k k' s ↔ (BitVec.ofNat 32 stored.needLength ≤ size → ∀ i : Fin 24, i < stored.needLength →
      Stored k s t iCount a i → ∀ q b, q ≠ s → k.Readable q b → Meets k s t iCount a i q b →
      k.memory.byteAt (Memory.base q + b) = stored.bytes i) := by
  have short : stored.needLength ≤ 24 := stored.strlen_lt
  have bytes (i : Fin 24) (below : i < stored.needLength) : stored.stores[i.val]? = some (stored.bytes i) := by
    rw [NameInKernel.stores, List.getElem?_take_of_lt below, List.getElem?_ofFn, dif_pos i.isLt]
  unfold sysWhoami at returned
  by_cases small : size < BitVec.ofNat 32 stored.needLength
  · rw [if_pos small] at returned
    cases returned
    exact ⟨fun _ enough => absurd small (BitVec.not_lt.mpr enough), fun _ _ _ _ _ => rfl⟩
  · rw [if_neg small] at returned
    have enough := BitVec.not_lt.mp small
    obtain ⟨⟨k₁, outcome₁⟩, put, rest⟩ := returned_bind returned
    have same : k₁ = k' := by
      dsimp only at rest
      split at rest <;> cases rest <;> rfl
    subst same
    have start : During L k s t iCount a stored.stores 0 0 k.memory := .start (exact_of_reaches reached)
    obtain ⟨N, counted, wrote⟩ := start.loop there (stored.length_stores ▸ clear)
      (by rw [stored.length_stores]; omega) rfl (fun _ none => absurd none (Nat.not_lt_zero _)) put
    rw [stored.length_stores] at counted
    constructor
    · intro unseen _ i below can q b apart readable meets
      have hit := wrote.hit q b apart readable i ((counted i below).mp can) meets
      rw [unseen q b apart readable, bytes i below] at hit
      exact Option.some.inj hit
    · intro kept q b apart readable
      by_cases meets : ∃ r < N, Meets k s t iCount a r q b
      · obtain ⟨r, below, meets⟩ := meets
        have hit := wrote.hit q b apart readable r below meets
        have inside : r < stored.needLength := by
          rw [← stored.length_stores]
          exact (List.getElem?_eq_some_iff.mp hit.symm).1
        rw [bytes ⟨r, by omega⟩ inside] at hit
        have old := kept enough ⟨r, by omega⟩ inside ((counted r inside).mpr below) q b apart readable meets
        exact (Option.some.inj hit).trans old.symm
      · apply wrote.missed q b apart readable
        exact fun r below here => meets ⟨r, below, here⟩

section First

def someName : NameInKernel := ⟨fun i => if i = 0 then 65 else 0, rfl⟩

def noFile : Nat → File := fun _ => ⟨fun _ _ => 0, 0⟩

theorem child_whoami : ∃ k t k', ((kernel noFile sixteenMegabytes).restrict fun _ e => e.call.Plain).Reaches k ∧
    k.task 0 = some firstTask ∧ k.task 1 = some t ∧ k.memory.InUse 5 ∧
    sysWhoami k noFile 1 t someName 0x5000 24 0 = .ok (k', .returned 1) ∧
    (∀ i < 2, frame (k.memory.pteOf (Memory.base (1 : Fin 64) + (0x5000 + i))) = 5) ∧
    present (k.memory.pteOf (Memory.base (0 : Fin 64) + 0x5000)) = true ∧
    frame (k.memory.pteOf (Memory.base (0 : Fin 64) + 0x5000)) = 5 ∧
    k.memory.byteAt (Memory.base (0 : Fin 64) + 0x5000) = 0 ∧ k'.memory.byteAt (Memory.base (0 : Fin 64) + 0x5000) = 65 ∧
    landing k 1 t 0 0x5000 = some 5 ∧ ∃ k'', sysWhoami k noFile 1 t unnamed 0x5000 24 0 = .ok (k'', .returned 0) := by
  obtain ⟨⟨⟨k, outcome⟩, ⟨k', answer⟩, k'', answer'⟩, run, found⟩ := returns_of_any
    (x := do
      let r ← bootKernel.sysFork 0 firstTask
      let r' ← sysWhoami r.1 noFile 1 ((r.1.task 1).getD firstTask) someName 0x5000 24 0
      let r'' ← sysWhoami r.1 noFile 1 ((r.1.task 1).getD firstTask) unnamed 0x5000 24 0
      return (r, r', r''))
    (p := fun ((k, _), (k', answer), _, answer') => decide ((k.task 1).isSome = true ∧ answer = .returned 1 ∧
      frame (k.memory.pteOf (Memory.base (1 : Fin 64) + 0x5000)) = 5 ∧
      frame (k.memory.pteOf (Memory.base (1 : Fin 64) + 0x5001)) = 5 ∧
      present (k.memory.pteOf (Memory.base (0 : Fin 64) + 0x5000)) = true ∧
      frame (k.memory.pteOf (Memory.base (0 : Fin 64) + 0x5000)) = 5 ∧
      k.memory.byteAt (Memory.base (0 : Fin 64) + 0x5000) = 0 ∧ k'.memory.byteAt (Memory.base (0 : Fin 64) + 0x5000) = 65 ∧
      landing k 1 ((k.task 1).getD firstTask) 0 0x5000 = some 5 ∧ answer' = .returned 0))
    (by decide +kernel)
  obtain ⟨child, rfl, own, own', here, same, before, behind, lands, rfl⟩ := of_decide_eq_true found
  obtain ⟨r, forked, rest⟩ := returned_bind run
  obtain ⟨r', asked, rest'⟩ := returned_bind rest
  obtain ⟨r'', asked', last⟩ := returned_bind rest'
  cases last
  obtain ⟨t, task⟩ := Option.isSome_iff_exists.mp child
  rw [task, Option.getD_some] at asked asked' lands
  have reached : ((kernel noFile sixteenMegabytes).restrict fun _ e => e.call.Plain).Reaches k := by
    refine ⟨bootKernel, [⟨0, .fork, outcome⟩], bootKernel_booted, .one ⟨trivial, firstTask, rfl, ?_, forked⟩⟩
    exact ⟨rfl, trivial⟩
  have forks : Ends (fun r => Forks bootKernel 0 firstTask r.1) (fun _ => True) (bootKernel.sysFork 0 firstTask) :=
    bootKernel_booted.sound.forks rfl (bootKernel_booted.exact.room 0) ⟨by decide, by decide⟩
      fun nr other _ => bootKernel_booted.blank other
  have spares := (forks.ok _ forked).spares
  have plain : bootKernel.memory.InUse 5 := by
    refine ⟨by decide, ?_, ?_⟩
    · apply (total_eq_zero_iff _ _).mpr
      intro d
      by_contra use
      obtain ⟨dir, points⟩ := pointsTo_pos.mp (Nat.pos_of_ne_zero use)
      have first : d = 0 := Fin.ext (boot_present d.isLt dir)
      subst first
      revert points
      decide
    · have use := mappings_pos (m := bootKernel.memory) (0 : Fin 1024) (5 : Fin 1024) (by decide +kernel)
      rwa [show frame (bootKernel.memory.pte (0 : Fin 1024) (5 : Fin 1024)) = 5 by decide +kernel] at use
  have parent : k.task 0 = some firstTask := by
    rcases forks.ok _ forked with _ | _ | ⟨-, other, -⟩
    · rfl
    · rfl
    · exact Function.update_of_ne other.symm _ _
  refine ⟨k, t, k', reached, parent, task, ⟨by decide, (spares 5 plain).plain, ?_⟩, asked, ?_, here, same, before, behind,
    lands, k'', asked'⟩
  · have place : At (0 : Fin 64) 0x5000 0 5 := ⟨by decide, by decide⟩
    rw [place.pteOf] at here same
    rw [← same]
    exact mappings_pos (dirOf 0 0) 5 here
  · intro i below
    have two : ∀ i < 2, i = 0 ∨ i = 1 := by decide
    rcases two i below with rfl | rfl
    · exact own
    · exact own'

theorem byteAt_congr {m : Memory} {x y : Nat} (same : frame (m.pteOf x) = frame (m.pteOf y)) (offset : x % 4096 = y % 4096) :
    m.byteAt x = m.byteAt y := by
  have word : x / 4 % 1024 = y / 4 % 1024 := by omega
  have byte : x % 4 = y % 4 := by omega
  rw [Memory.byteAt, Memory.byteAt, Memory.wordOf, Memory.wordOf, same, word, byte]

/-- The NUL of no name stands there already. -/
theorem whoami_unseen_child : ∃ k t k', k.task 1 = some t ∧
    sysWhoami k noFile 1 t unnamed 0x5000 24 0 = .ok (k', .returned 0) ∧ Unseen k k' 1 := by
  obtain ⟨k, t, -, reached, -, there, inUse, -, own, -, same, before, -, lands, k', returned⟩ := child_whoami
  have clear : Clear k 1 0x5000 unnamed.needLength := by
    intro i below _
    rw [own i (Nat.lt_trans below (by decide))]
    exact inUse
  refine ⟨k, t, k', there, returned, (whoami_unseen_iff reached there clear returned).mpr ?_⟩
  intro _ i below _ q b _ _ meets
  have first : i.val = 0 := Nat.lt_one_iff.mp (Nat.lt_of_lt_of_le below (by decide))
  rw [Meets, first, Nat.add_zero, lands] at meets
  have frame := Option.some.inj meets.1
  have offset : (Memory.base q + b) % 4096 = (Memory.base (0 : Fin 64) + 0x5000) % 4096 := by
    have apart := meets.2
    unfold Memory.base
    omega
  rw [byteAt_congr (frame.symm.trans same.symm) offset]
  exact before

/-- The name is written into a page of the first task. -/
theorem whoami_seen : ¬ ∀ (files : Nat → File) (L : Layout) (k k' : Kernel) (s : Fin 64) (t : Task)
    (stored : NameInKernel) (name : Nat) (size : BitVec 32) (iCount : Nat) (outcome : Outcome),
    ((kernel files L).restrict fun _ e => e.call.Plain).Reaches k → k.task s = some t →
    sysWhoami k files s t stored name size iCount = .ok (k', outcome) → Unseen k k' s := by
  intro claim
  obtain ⟨k, t, k', reached, first, there, inUse, returned, -, here, same, before, behind, -⟩ := child_whoami
  have unseen := claim noFile sixteenMegabytes k k' 1 t someName 0x5000 24 0 (.returned 1) reached there returned
  have kept := unseen 0 0x5000 (by decide) ⟨firstTask, first, by decide, here, same ▸ inUse⟩
  rw [before, behind] at kept
  cases kept

end First

end Linux011.Who

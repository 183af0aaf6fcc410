import Linux011.Mm.Calls

namespace Linux011.Mm

open Linux011.Library

variable {L : Layout} {files : Nat → File} {k k' : Kernel} {s : Fin 64} {b b' : Books}

section Bounds

variable {page : Nat}

theorem Aligned.mappings_le {m : Memory} (aligned : Aligned m.ptes) (above : lowMem ≤ page) :
    m.mappings page ≤ 64 := by
  apply total_le_card (pointsTo page) m.ptes (fun x : Fin 1024 × Fin 1024 => (⟨x.1.val / 16, by omega⟩ : Fin 64))
    (fun x => pointsTo_le _ _)
  intro x y first second same
  obtain ⟨here, points⟩ := pointsTo_pos.mp first
  obtain ⟨here', points'⟩ := pointsTo_pos.mp second
  have place := aligned x y here here' (points.symm ▸ above) (points.trans points'.symm)
  have slot : x.1.val / 16 = y.1.val / 16 := congrArg Fin.val same
  exact Prod.ext (Fin.ext (by omega)) place.2

theorem Aligned.uses_le {m : Memory} (aligned : Aligned m.ptes) (above : lowMem ≤ page) (s : Fin 64) :
    m.uses s page ≤ 1 := by
  apply total_le_card (pointsTo page) (m.window s) (fun _ => ()) (fun x => pointsTo_le _ _)
  intro x y first second _
  obtain ⟨here, points⟩ := pointsTo_pos.mp first
  obtain ⟨here', points'⟩ := pointsTo_pos.mp second
  have place := aligned (dirOf s x.1, x.2) (dirOf s y.1, y.2) here here' (points.symm ▸ above)
    (points.trans points'.symm)
  simp only [dirOf_mod] at place
  exact Prod.ext (Fin.ext place.1) place.2

theorem structAt_le (page : Nat) (t : Option Task) : structAt page t ≤ 1 := by
  cases t with
  | none => exact Nat.zero_le _
  | some t =>
    by_cases same : t.page = page <;> simp [structAt, same]

theorem taskPages_le (k : Kernel) (page : Nat) : k.taskPages page ≤ 64 :=
  total_le_card (structAt page) k.task id (fun s => structAt_le page (k.task s)) fun _ _ _ _ same => same

theorem uses_mapped {m : Memory} (use : 0 < m.uses s page) : 0 < m.mappings page := by
  obtain ⟨x, positive⟩ := (total_pos_iff _ _).mp use
  obtain ⟨here, rfl⟩ := pointsTo_pos.mp positive
  exact mappings_pos (dirOf s x.1) x.2 here

end Bounds

structure Exact (L : Layout) (k : Kernel) : Prop where
  orderly : Orderly L ⟨k.memory, k.taskPages⟩
  tasks : Tasks L k

namespace Exact

variable (exact : Exact L k)

include exact

theorem managed {page : Nat} (above : lowMem ≤ page) (mapped : 0 < k.memory.mappings page) : L.Managed page := by
  rcases exact.orderly.sound.dataPage page mapped with low | managed
  · omega
  · exact managed

theorem few {page : Nat} (above : lowMem ≤ page) (mapped : 0 < k.memory.mappings page) :
    (k.memory.memMap (mapNr page)).toNat ≤ 129 := by
  have counted := exact.orderly.counted (exact.managed above mapped)
  have tables := exact.orderly.sound.single page
  have mappings := exact.orderly.aligned.mappings_le above
  have structs := taskPages_le k page
  simp only at counted tables mappings
  omega

theorem room (s : Fin 64) : k.memory.Room s := by
  intro page above use
  have bound := exact.few above (uses_mapped use)
  have once := exact.orderly.aligned.uses_le above s
  simp only at once
  omega

theorem spare : k.memory.Spare := by
  intro page above mapped full
  have bound := exact.few above mapped
  rw [full, show (255 : BitVec 8).toNat = 255 from rfl] at bound
  omega

theorem roomy (call : Call) (s : Fin 64) : call.Roomy k s := by
  cases call with
  | fork => exact exact.room s
  | noPage | read | write => exact exact.spare
  | _ => trivial

end Exact

theorem Walk.orderly_user {entries : Set (Fin 1024 × Fin 1024)} (walk : Walk L (Move.user entries) b b')
    (orderly : Orderly L b) : Orderly L b' := by
  apply walk.invariant orderly
  rintro move b (own | ⟨d, i, j, value, rfl, -⟩) legal orderly
  · exact orderly.own own legal
  · exact orderly.store legal

theorem Served.exact (served : Served L k.taskPages k k') (exact : Exact L k) : Exact L k' where
  tasks := served.tasks
  orderly := by
    obtain ⟨held', walk, even⟩ := served.walk
    have pages : held' = k'.taskPages := by
      funext page
      have same := even page
      omega
    exact pages ▸ walk.orderly_user exact.orderly

theorem Exact.step {e : Event} (exact : Exact L k) (plain : e.call.Plain) (step : (kernel files L).step k e k') :
    Exact L k' := by
  obtain ⟨t, here, ready, performed⟩ := step
  have served : Ends (fun r => Served L k.taskPages k r.1) Harmless (e.call.perform files k e.caller t) :=
    e.call.serve exact.orderly.sound exact.tasks (fun _ => Nat.le_refl _) here ready plain
      (exact.roomy e.call e.caller)
  exact (served.ok _ performed).exact exact

section Boot

variable (booted : Booted L k)

include booted

theorem Booted.table_dir {d : Fin 1024} (here : present (k.memory.words d) = true) : d.val < 16 := by
  by_contra high
  rw [booted.others d d.isLt (by omega)] at here
  cases here

theorem Booted.pte_low {x : Fin 1024 × Fin 1024} (here : present (k.memory.ptes x) = true) :
    frame (k.memory.ptes x) < lowMem :=
  booted.low x.1 (booted.table_dir (table_of_pte here)) x.2 x.2.isLt here

theorem Booted.tables_low {page : Nat} (use : 0 < k.memory.tables page) : 0 < page ∧ page < lowMem := by
  obtain ⟨d, positive⟩ := (total_pos_iff _ _).mp use
  obtain ⟨here, rfl⟩ := pointsTo_pos.mp positive
  exact booted.tables d (booted.table_dir here) here

theorem Booted.mappings_low {page : Nat} (use : 0 < k.memory.mappings page) : page < lowMem := by
  obtain ⟨x, positive⟩ := (total_pos_iff _ _).mp use
  obtain ⟨here, rfl⟩ := pointsTo_pos.mp positive
  exact booted.pte_low here

theorem Booted.taskPages_high {page : Nat} (managed : L.Managed page) : k.taskPages page = 0 := by
  apply (total_eq_zero_iff _ _).mpr
  intro s
  by_cases same : s = 0
  · obtain ⟨t, here, -, low, -⟩ := booted.first
    have above := managed.physical.1
    rw [same, here]
    exact if_neg (by omega)
  · rw [booted.alone s same]
    rfl

theorem Booted.map {i : Nat} : k.memory.memMap i =
    if mapNr L.startMem ≤ i ∧ i < mapNr L.startMem + (L.endMem - L.startMem) then 0 else used := by
  obtain ⟨m, memory⟩ := booted.memory
  rw [memory]
  rfl

theorem Booted.quiet (key : Fin 64) : (k.memory.sharedPages key).count = 0 := by
  obtain ⟨m, memory⟩ := booted.memory
  rw [memory]

theorem Booted.balanced {page : Nat} (managed : L.Managed page) : k.memory.booked page = 0 := by
  have none : total (sharers page) k.memory.sharedPages = 0 := by
    rw [total_eq_zero_iff]
    exact fun key => sharers_dead (booted.quiet key) page
  have above := L.aboveLow
  have inside : mapNr L.startMem ≤ mapNr page ∧ mapNr page < mapNr L.startMem + (L.endMem - L.startMem) := by
    obtain ⟨low, high⟩ := managed
    unfold mapNr
    omega
  rw [Memory.booked, none, booted.map, if_pos inside]
  rfl

theorem Booted.sound : Sound L k.memory k.taskPages where
  high := by
    obtain ⟨m, memory⟩ := booted.memory
    rw [memory]
    rfl
  reserved := by
    intro i below outside
    rw [booted.map, if_neg]
    · decide
    · intro inside
      apply outside
      have above := L.aboveLow
      unfold mapNr at inside
      exact ⟨by omega, by omega⟩
  single := by
    intro page
    apply total_le_card (pointsTo page) k.memory.pdes (fun _ => ()) (fun d => pointsTo_le _ _)
    intro d d' first second _
    obtain ⟨here, points⟩ := pointsTo_pos.mp first
    obtain ⟨here', points'⟩ := pointsTo_pos.mp second
    exact Fin.ext (booted.apart d (booted.table_dir here) d' (booted.table_dir here') here here'
      (points.trans points'.symm))
  tablePage := fun page use => .inr (booted.tables_low use)
  apart := by
    intro page above use
    have low := booted.tables_low use
    omega
  dataPage := fun page use => .inl (booted.mappings_low use)
  sharedPage := fun key live => absurd (booted.quiet key) live
  distinct := fun key _ live => absurd (booted.quiet key) live
  balanced := by
    intro page managed
    have above := managed.physical.1
    have tables : k.memory.tables page = 0 := by
      by_contra use
      have low := booted.tables_low (Nat.pos_of_ne_zero use)
      omega
    have mappings : k.memory.mappings page = 0 := by
      by_contra use
      have low := booted.mappings_low (Nat.pos_of_ne_zero use)
      omega
    rw [booted.balanced managed, booted.taskPages_high managed, tables, mappings]

theorem Booted.exact : Exact L k where
  orderly := by
    refine ⟨booted.sound, booted.quiet, ?_, ?_⟩
    · intro x y here _ above
      exact absurd (booted.pte_low here) (Nat.not_lt.mpr above)
    · intro x y here _ above
      exact absurd (booted.pte_low here) (Nat.not_lt.mpr above)
  tasks := by
    obtain ⟨t, here, -, low, -, fits⟩ := booted.first
    refine ⟨?_, ?_, ?_⟩
    · intro s u there
      by_cases same : s = 0
      · rw [same, here] at there
        cases there
        exact fits
      · rw [booted.alone s same] at there
        cases there
    · intro s u there other
      rw [booted.alone s other] at there
      cases there
    · intro u there
      rw [here] at there
      cases there
      exact low

end Boot

theorem exact_of_reaches (reached : ((kernel files L).restrict fun _ e => e.call.Plain).Reaches k) : Exact L k := by
  apply reached.invariant
  · exact fun k (booted : Booted L k) => booted.exact
  · exact fun k e k' exact step => exact.step step.1 step.2

/-- In every run without shared pages `mem_map` counts the page-table entries, the page-directory entries
    and the task structures of each page of the main memory. -/
theorem counts_exact (reached : ((kernel files L).restrict fun _ e => e.call.Plain).Reaches k) {page : Nat}
    (managed : L.Managed page) : (k.memory.memMap (mapNr page)).toNat =
      k.memory.mappings page + k.memory.tables page + k.taskPages page := by
  have counted := (exact_of_reaches reached).orderly.counted managed
  simp only at counted
  omega

/-- A machine of 16 MB with 4 MB of them below the main memory. -/
def sixteenMegabytes : Layout := ⟨1024, 4096, by decide, by decide⟩

def firstTask : Task := ⟨1, false, none, 0, 0, 0xA0000, 0xA0000⟩

/-- The first 160 pages mapped as they are, through one page table. -/
def bootWords (w : Nat) : BitVec 32 :=
  if w = 0 then entry 1 else if 1024 ≤ w ∧ w < 1184 then entry (w - 1024) else 0

def bootKernel : Kernel where
  memory := { (⟨bootWords, fun _ => 0, 0, fun _ => ⟨0, 0⟩⟩ : Memory).memInit 1024 4096 with
    sharedPages := fun _ => ⟨0, 0⟩ }
  task := Function.update (fun _ => none) 0 (some firstTask)

theorem boot_present {d : Nat} (dir : d < 1024) (here : present (bootWords d) = true) : d = 0 := by
  by_contra other
  rw [bootWords, if_neg other, if_neg (by omega), present_zero] at here
  cases here

theorem bootKernel_booted : Booted sixteenMegabytes bootKernel where
  memory := ⟨_, rfl⟩
  others := by
    intro d dir high
    by_contra here
    have first := boot_present dir (Bool.eq_true_of_not_eq_false here)
    omega
  tables := by
    intro d dir here
    have first := boot_present (by omega) here
    subst first
    decide
  apart := by
    intro d dir d' dir' here here' _
    rw [boot_present (by omega) here, boot_present (by omega) here']
  low := by
    intro d dir i index here
    have first := boot_present (by omega) (table_of_pte here)
    subst first
    have table : bootKernel.memory.pte 0 i = bootWords (1024 + i) := by
      rw [pte_of_table (table_of_pte here), Memory.entryAt, show frame (bootKernel.memory.words 0) = 1 by decide]
      unfold tableWord
      rfl
    rw [table, bootWords, if_neg (by omega)] at here ⊢
    split at here
    · rename_i inside
      rw [if_pos inside, frame_entry (by omega)]
      simp only [lowMem]
      omega
    · cases here
  first := ⟨firstTask, rfl, rfl, by decide, rfl, by decide, by decide⟩
  alone := by
    intro s other
    exact Function.update_of_ne other (some firstTask) fun _ => none

theorem fork_counted : ∃ k, ((kernel (fun _ => ⟨fun _ _ => 0, 0⟩) sixteenMegabytes).restrict
      fun _ e => e.call.Plain).Reaches k ∧ (k.task 1).isSome ∧
    (k.memory.memMap (mapNr 4094)).toNat = k.memory.mappings 4094 + k.memory.tables 4094 + k.taskPages 4094 := by
  obtain ⟨⟨k, outcome⟩, forked, answer⟩ := returns_of_any (x := bootKernel.sysFork 0 firstTask)
    (p := fun r => (r.1.task 1).isSome && r.2 = .returned 1) (by decide +kernel)
  simp only [Bool.and_eq_true] at answer
  have reached : ((kernel (fun _ => ⟨fun _ _ => 0, 0⟩) sixteenMegabytes).restrict
      fun _ e => e.call.Plain).Reaches k := by
    refine ⟨bootKernel, [⟨0, .fork, outcome⟩], bootKernel_booted, .one ⟨trivial, firstTask, rfl, ?_, forked⟩⟩
    exact ⟨rfl, trivial⟩
  exact ⟨k, reached, answer.1, counts_exact reached ⟨by decide, by decide⟩⟩

end Linux011.Mm

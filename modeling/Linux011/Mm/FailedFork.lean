import Linux011.Mm.Buffers
import Linux011.Mm.Exact
import Linux011.Mm.Undo

namespace Linux011.Mm

open Linux011.Library

variable {L : Layout} {m m' h u : Memory} {held : Nat → Nat} {s nr : Fin 64} {n p : Nat} {k : Fin 16}

section Unmanaged

variable {i : Nat}

theorem unmanaged_other (unmanaged : ¬ L.Managed (i + lowMem)) (managed : L.Managed p) : i ≠ mapNr p := by
  have above := managed.physical.1
  rintro rfl
  apply unmanaged
  unfold mapNr
  rw [Nat.sub_add_cancel above]
  exact managed

theorem freed_unmanaged (unmanaged : ¬ L.Managed (i + lowMem)) (managed : L.Managed p) :
    (m.freed p).memMap i = m.memMap i := by
  have other := unmanaged_other unmanaged managed
  have given := freed_given m p
  generalize m.freed p = m' at given
  cases given with
  | own => exact setMap_elsewhere other
  | shared => rfl
  | last => exact setMap_elsewhere other

theorem unref_unmanaged (unmanaged : ¬ L.Managed (i + lowMem)) (known : p < lowMem ∨ L.Managed p) :
    (m.unref p).memMap i = m.memMap i := by
  unfold Memory.unref
  split
  · rfl
  · exact freed_unmanaged unmanaged (known.resolve_left (by assumption))

theorem Move.Legal.unmanaged {move : Move} {b : Books} (legal : move.Legal L b) (sound : Sound L b.memory b.held)
    (unmanaged : ¬ L.Managed (i + lowMem)) : (move.apply b).memory.memMap i = b.memory.memMap i := by
  have mapped {d j : Fin 1024} (here : present (b.memory.pte d j) = true)
      (high : lowMem ≤ frame (b.memory.pte d j)) : i ≠ mapNr (frame (b.memory.pte d j)) :=
    unmanaged_other unmanaged (sound.mapped_managed here high)
  cases move with
  | take p => exact setMap_elsewhere (unmanaged_other unmanaged legal.1)
  | drop p => exact freed_unmanaged unmanaged legal.1
  | newTable d t => exact setMap_elsewhere (unmanaged_other unmanaged legal.2.1)
  | share d j d' =>
    have word := word_of_pte (table_of_pte legal.1) j
    apply setMap_elsewhere
    rw [word, frame_protect]
    exact mapped legal.1 legal.2.1
  | copy d j p =>
    have word := word_of_pte (table_of_pte legal.1) j
    have taken : (b.memory.take p).memMap i = b.memory.memMap i :=
      setMap_elsewhere (unmanaged_other unmanaged legal.2.1)
    show (Move.copied b.memory (b.memory.entryAt d j) p).memMap i = _
    unfold Move.copied
    dsimp only
    split
    · rename_i high
      rw [word] at high
      rw [← taken]
      apply setMap_elsewhere
      rw [word]
      exact mapped legal.1 high
    · exact taken
  | unmap d j =>
    show (Move.unmapped b.memory (b.memory.entryAt d j)).memMap i = _
    unfold Move.unmapped
    split
    · rename_i here
      rw [word_of_pte legal j] at here ⊢
      apply unref_unmanaged unmanaged
      by_cases low : frame (b.memory.pte d j) < lowMem
      · exact .inl low
      · exact .inr (sound.mapped_managed here (Nat.le_of_not_lt low))
    · rfl
  | dropTable d =>
    exact unref_unmanaged unmanaged ((sound.tablePage _ (tables_pos d legal.1)).symm.imp_left And.right)
  | fill | map | mapLow | grant | store | claim | get => rfl

theorem Walk.unmanaged {allowed : Move → Books → Prop} {b b' : Books} (walk : Walk L allowed b b')
    (sound : Sound L b.memory b.held) (unmanaged : ¬ L.Managed (i + lowMem)) : b'.memory.memMap i = b.memory.memMap i := by
  apply walk.invariant_sound (I := fun b' => b'.memory.memMap i = b.memory.memMap i) sound rfl
  intro move b' _ legal sound same
  exact (legal.unmanaged sound unmanaged).trans same

theorem Walk.same_map {allowed : Move → Books → Prop} (walk : Walk L allowed ⟨m, held⟩ ⟨m', held⟩)
    (sound : Sound L m held) (shared : m'.sharedPages = m.sharedPages) (tables : ∀ page, m'.tables page = m.tables page)
    (mappings : ∀ page, m'.mappings page = m.mappings page) : m'.memMap = m.memMap := by
  have sound' : Sound L m' held := walk.sound sound
  funext i
  by_cases managed : L.Managed (i + lowMem)
  · have before := sound.balanced _ managed
    have after := sound'.balanced _ managed
    have count := tables (i + lowMem)
    have count' := mappings (i + lowMem)
    rw [Memory.booked, mapNr_add] at before after
    rw [shared] at after
    exact BitVec.eq_of_toNat_eq (by omega)
  · exact walk.unmanaged sound managed

end Unmanaged

section Tables

variable {j j' : Nat}

theorem tablesBelow_congr (same : ∀ j : Fin 16, m'.words (dirOf s j) = m.words (dirOf s j)) (inside : j ≤ 16) :
    m'.tablesBelow s j = m.tablesBelow s j := by
  induction j with
  | zero => rfl
  | succ j ih =>
    have word : m'.words (16 * s + j) = m.words (16 * s + j) := same ⟨j, by omega⟩
    rw [Memory.tablesBelow, Memory.tablesBelow, ih (by omega), word]

theorem tablesBelow_mono (later : j ≤ j') : m.tablesBelow s j ≤ m.tablesBelow s j' := by
  induction later with
  | refl => exact Nat.le_refl _
  | step _ ih => exact ih.trans (Nat.le_add_right _ _)

theorem tablesBelow_lt {j : Fin 16} (here : present (m.words (dirOf s j)) = true) (later : j.val < j') :
    m.tablesBelow s j + 1 ≤ m.tablesBelow s j' := by
  have next : m.tablesBelow s (j + 1) = m.tablesBelow s j + 1 := by
    rw [Memory.tablesBelow]
    exact congrArg _ (if_pos here)
  rw [← next]
  exact tablesBelow_mono later

end Tables

/-- The page tables `copy_page_tables` has pages for, behind the one for the task. -/
def Memory.Reached (m : Memory) (s : Fin 64) (j : Fin 16) : Prop :=
  present (m.words (dirOf s j)) = true ∧ m.tablesBelow s j + 1 < m.freePages

/-- A fork that found a page for the task and not for all its page tables, and has undone what it did with these. -/
structure FailedFork (L : Layout) (held : Nat → Nat) (m : Memory) (s nr : Fin 64) (n p : Nat) (k : Fin 16)
    (h u : Memory) : Prop where
  managed : L.Managed p
  free : m.memMap (mapNr p) = 0
  counted : (m.take p).freePages + 1 = m.freePages
  failed : Failed L (Function.update held p (held p + 1)) (m.take p) s nr n k h
  undone : Undone L (Function.update held p (held p + 1)) h nr n u
  inside : n ≤ 16

theorem Sound.copyMem_fails {t : Task} (sound : Sound L m held) (apart : s ≠ nr) (other : nr ≠ 0) (room : m.Room s)
    (fits : t.Fits) :
    Ends (fun r => r.2 = 0 ∧ Halted L held m s nr (Memory.dirs t.dataLimit) r.1 ∨
        r.2 = -ENOMEM ∧ ∃ k h, Failed L held m s nr (Memory.dirs t.dataLimit) k h ∧
          Undone L held h nr (Memory.dirs t.dataLimit) r.1)
      (fun _ => ∃ j : Fin 16, j.val < Memory.dirs t.dataLimit ∧ present (m.words (dirOf nr j)) = true)
      (m.copyMem s nr t) := by
  have limits := fits.1
  have short := dirs_fit fits.2
  have copied := sound.copyPageTables_halts apart room short
  unfold Memory.copyMem
  rw [if_neg (by omega)]
  generalize m.copyPageTables (Memory.base s) (Memory.base nr) t.dataLimit = x at copied
  match x with
  | .ok m' => exact .pure (.inl ⟨rfl, copied.ok m' rfl⟩)
  | .error (.panic why) =>
    rcases copied.error _ rfl with there | ⟨_, _, same, _⟩
    · exact .stop there.2
    · cases same
  | .error (.noMemory h) =>
    rcases copied.error _ rfl with ⟨same, -⟩ | ⟨_, k, same, failed⟩
    · cases same
    cases same
    have halted : Sound L h held := failed.walk.sound sound
    exact ((halted.undo other short).mono (fun _ undone => undone) fun _ none => none.elim).map
      fun u undone => .inr ⟨rfl, k, h, failed, undone⟩

/-- A fork that found a page for the task and one for each of its page tables. -/
structure MadeFork (L : Layout) (held : Nat → Nat) (k : Kernel) (s nr : Fin 64) (t : Task) (p : Nat) (k' : Kernel) :
    Prop where
  managed : L.Managed p
  free : k.memory.memMap (mapNr p) = 0
  counted : (k.memory.take p).freePages + 1 = k.memory.freePages
  copied : Halted L (Function.update held p (held p + 1)) (k.memory.take p) s nr (Memory.dirs t.dataLimit) k'.memory
  task : k'.task = Function.update k.task nr (some { t with page := p })

theorem Sound.copyProcess_fails {kernel : Kernel} {t : Task} (sound : Sound L kernel.memory held) (apart : s ≠ nr)
    (other : nr ≠ 0) (room : kernel.memory.Room s) (fits : t.Fits) :
    Ends (fun r => (r.2 = .returned nr ∧ ∃ p, MadeFork L held kernel s nr t p r.1) ∨
        r.2 = .returned (-EAGAIN) ∧ r.1.task = kernel.task ∧
          (kernel.memory.freePages = 0 ∧ r.1.memory = kernel.memory ∨ ∃ p k h u,
            FailedFork L held kernel.memory s nr (Memory.dirs t.dataLimit) p k h u ∧ r.1.memory = u.unref p))
      (fun _ => ∃ j : Fin 16, j.val < Memory.dirs t.dataLimit ∧ present (kernel.memory.words (dirOf nr j)) = true)
      (kernel.copyProcess nr s t) := by
  have short := dirs_fit fits.2
  unfold Kernel.copyProcess
  split
  · rename_i nothing
    exact .pure (.inr ⟨rfl, rfl, .inl ⟨getFreePage_none nothing, rfl⟩⟩)
  · rename_i p m got
    have counted := getFreePage_counts got
    rcases sound.getFreePage got with ⟨rfl, managed, free⟩
    have taken : Sound L (kernel.memory.take p) (Function.update held p (held p + 1)) := sound.take managed free
    have views := take_views (Sound.positive managed) (sound.free managed free).1
    have dir (d : Fin 1024) : (kernel.memory.take p).words d = kernel.memory.words d := congrFun views.1 d
    have copied := taken.copyMem_fails apart other (sound.room_taken room managed free) fits
    simp only [dir] at copied
    refine copied.bind fun r result => ?_
    rcases r with ⟨u, failed⟩
    rcases result with ⟨rfl, copied⟩ | ⟨rfl, k, h, failed, undone⟩
    · exact .pure (.inl ⟨rfl, p, managed, free, counted, copied, rfl⟩)
    · have sound' : Sound L u (Function.update held p (held p + 1)) :=
        undone.walk.sound (failed.walk.sound taken)
      have holding : 0 < Function.update held p (held p + 1) p := by
        rw [Function.update_self]
        omega
      have given := sound'.freePage (.inr managed) (by omega)
      dsimp only
      rw [if_pos (by decide), given]
      exact .pure (.inr ⟨rfl, rfl, .inr ⟨p, k, h, u, ⟨managed, free, counted, failed, undone, short⟩, rfl⟩⟩)

theorem MadeFork.enough {kernel kernel' : Kernel} {t : Task} (made : MadeFork L held kernel s nr t p kernel')
    (sound : Sound L kernel.memory held) (short : Memory.dirs t.dataLimit ≤ 16) :
    kernel.memory.tablesBelow s (Memory.dirs t.dataLimit) + 1 ≤ kernel.memory.freePages := by
  have views := take_views (Sound.positive made.managed) (sound.free made.managed made.free).1
  have dir (d : Fin 1024) : (kernel.memory.take p).words d = kernel.memory.words d := congrFun views.1 d
  have below := tablesBelow_congr (fun j => dir (dirOf s j)) short
  have counted := made.counted
  have free := made.copied.free
  omega

theorem Sound.copyProcess_short {kernel : Kernel} {t : Task} (sound : Sound L kernel.memory held) (apart : s ≠ nr)
    (other : nr ≠ 0) (room : kernel.memory.Room s) (fits : t.Fits)
    (empty : ∀ j : Fin 16, present (kernel.memory.words (dirOf nr j)) = false)
    (few : kernel.memory.freePages ≤ kernel.memory.tablesBelow s (Memory.dirs t.dataLimit)) :
    ∃ k', kernel.copyProcess nr s t = .ok (k', .returned (-EAGAIN)) := by
  have fails := sound.copyProcess_fails apart other room fits
  cases result : kernel.copyProcess nr s t with
  | error why =>
    rcases fails.error why result with ⟨j, -, there⟩
    rw [empty j] at there
    cases there
  | ok r =>
    rcases fails.ok r result with ⟨-, p, made⟩ | ⟨answer, -⟩
    · have enough := made.enough sound (dirs_fit fits.2)
      omega
    · rcases r with ⟨k', outcome⟩
      cases answer
      exact ⟨k', rfl⟩

/-- Memory as it was, but for write bits the parent has lost: what a fork should leave that comes to nothing. -/
structure Restored (m : Memory) (s nr : Fin 64) (m' : Memory) : Prop where
  memMap : m'.memMap = m.memMap
  shared : m'.sharedPages = m.sharedPages
  dirs : ∀ j : Fin 16, m'.words (dirOf nr j) = m.words (dirOf nr j)
  parent : ∀ x, m'.window s x = m.window s x ∨ m'.window s x = protect (m.window s x)

/-- A fork that stops short can be undone: the new task's entries of the page directory are empty, and no page
    copied is a shared one. -/
structure Undoable (m : Memory) (s nr : Fin 64) (n : Nat) : Prop where
  empty : ∀ j : Fin 16, j.val < n → present (m.words (dirOf nr j)) = false
  fresh : ∀ j : Fin 16, j.val < n → m.Reached s j → m.words (dirOf nr j) = 0
  unshared : ∀ (j : Fin 16) (i : Fin 1024), j.val < n → m.Reached s j → i.val < copiedEntries s →
    present (m.window s (j, i)) = true → ∀ key, (m.sharedPages key).count ≠ 0 →
    (m.sharedPages key).physicalAddress ≠ frame (m.window s (j, i))

namespace FailedFork

variable (fork : FailedFork L held m s nr n p k h u) (sound : Sound L m held)
include fork sound

theorem taken : Sound L (m.take p) (Function.update held p (held p + 1)) := sound.take fork.managed fork.free

theorem halted : Sound L h (Function.update held p (held p + 1)) := fork.failed.walk.sound (fork.taken sound)

theorem views : (m.take p).pdes = m.pdes ∧ (m.take p).ptes = m.ptes :=
  take_views (Sound.positive fork.managed) (sound.free fork.managed fork.free).1

theorem dir (d : Fin 1024) : (m.take p).words d = m.words d := congrFun (fork.views sound).1 d

theorem window (r : Fin 64) : (m.take p).window r = m.window r := window_eq (fork.views sound).2 r

theorem reached_iff (j : Fin 16) : m.Reached s j ↔ j.val < k ∧ present (m.words (dirOf s j)) = true := by
  have free := fork.failed.free
  have none := fork.failed.none
  have counted := fork.counted
  have tables : (m.take p).tablesBelow s k = m.tablesBelow s k :=
    tablesBelow_congr (fun j => fork.dir sound (dirOf s j)) (Nat.le_of_lt k.isLt)
  constructor
  · rintro ⟨here, room⟩
    refine ⟨?_, here⟩
    by_contra late
    have mono : m.tablesBelow s k ≤ m.tablesBelow s j := tablesBelow_mono (Nat.le_of_not_lt late)
    omega
  · rintro ⟨below, here⟩
    have less := tablesBelow_lt here below
    exact ⟨here, by omega⟩

/-- The copy has changed only those entries of the page directory it had a page for. -/
theorem halted_dir (d : Fin 1024) (outside : ∀ j : Fin 16, m.Reached s j → d ≠ dirOf nr j) : h.words d = m.words d := by
  rw [← fork.dir sound]
  apply fork.failed.dirs
  intro j below there
  rw [fork.dir sound] at there
  exact outside j ((fork.reached_iff sound j).mpr ⟨below, there⟩)

theorem child_dir {j : Fin 16} (below : j.val < n) :
    m.Reached s j ∧ u.words (dirOf nr j) = 0 ∨
      ¬ m.Reached s j ∧ u.words (dirOf nr j) = if present (m.words (dirOf nr j)) then 0 else m.words (dirOf nr j) := by
  have freed : u.words (dirOf nr j) = if present (h.words (dirOf nr j)) then 0 else h.words (dirOf nr j) :=
    fork.undone.dirs j below
  by_cases reached : m.Reached s j
  · have there := (fork.reached_iff sound j).mp reached
    have copied := fork.failed.tables j there.1 (by rw [fork.dir sound]; exact there.2)
    rw [if_pos copied] at freed
    exact .inl ⟨reached, freed⟩
  · have same := fork.halted_dir sound (dirOf nr j) fun j' reached' same => by
      rw [(dirOf_inj same).2] at reached
      exact reached reached'
    rw [same] at freed
    exact .inr ⟨reached, freed⟩

theorem other_dir {d : Fin 1024} (other : ∀ j : Fin 16, j.val < n → d ≠ dirOf nr j) : u.words d = m.words d := by
  have inside := fork.inside
  have slot := nr.isLt
  have same : h.words d = m.words d := by
    apply fork.halted_dir sound
    intro j reached
    have below := ((fork.reached_iff sound j).mp reached).1
    exact other j (below.trans fork.failed.inside)
  rw [← same]
  apply fork.undone.words
  apply (fork.halted sound).laid.dir_outside (by omega) d.isLt
  intro j below same
  exact other ⟨j, by omega⟩ below (Fin.ext same)

theorem vacated : Vacated h nr n u :=
  (fork.halted sound).laid.vacated fork.inside fork.undone.words fork.undone.absent

theorem parent (apart : s ≠ nr) (x : Fin 16 × Fin 1024) :
    u.window s x = m.window s x ∨ u.window s x = protect (m.window s x) := by
  rw [(fork.vacated sound).others s apart, ← fork.window sound]
  exact fork.failed.parent x

theorem others {r : Fin 64} (other : r ≠ s) (other' : r ≠ nr) : u.window r = m.window r := by
  rw [(fork.vacated sound).others r other', ← fork.window sound]
  exact fork.failed.others r other other'

theorem rest {x : Fin 16 × Fin 1024} (beyond : n ≤ x.1.val) : u.window nr x = m.window nr x := by
  have inside := fork.failed.inside
  rw [(fork.vacated sound).rest x beyond, ← fork.window sound]
  exact fork.failed.beyond x (by omega)

omit sound in
theorem shared : h.sharedPages = m.sharedPages := fork.failed.shared

theorem plain_halted (plain : m.SharedPlain) : h.SharedPlain := by
  have taken : (m.take p).SharedPlain := by
    intro key live
    rw [tables_eq (fork.views sound).1]
    exact plain key live
  exact (fork.failed.walk.mono fun move b own => move.user_lawful b (.inl own)).sharedPlain (fork.taken sound) taken

theorem copied {j : Fin 16} {i : Fin 1024} (below : j.val < k) (index : i.val < copiedEntries s) :
    Alike (h.window nr (j, i)) (m.window s (j, i)) := by
  have source := fork.failed.source (j, i)
  rw [fork.window sound] at source
  exact (fork.failed.alike (j, i) (.inl below) index).trans source

theorem behind_copied (undoable : Undoable m s nr n) {j : Fin 16} (below : j.val < n) {f : Nat}
    (there : f ∈ h.behind (dirOf nr j)) : 0 < h.tables f ∨ m.Reached s j ∧ ∃ i : Fin 1024, i.val < copiedEntries s ∧
      present (m.window s (j, i)) = true ∧ frame (m.window s (j, i)) = f := by
  rcases there with ⟨here, rfl | ⟨i, mapped, rfl⟩⟩
  · exact .inl (tables_pos (dirOf nr j) here)
  · have early : j.val < k := by
      by_contra late
      have same := fork.failed.fresh_dir (Nat.le_of_not_lt late)
      rw [fork.dir sound] at same
      have none := undoable.empty j below
      rw [← same] at none
      rw [none] at here
      cases here
    have index := fork.failed.child (j, i) early mapped
    have alike := fork.copied sound early index
    have source : present (m.window s (j, i)) = true := alike.1.symm.trans mapped
    exact .inr ⟨(fork.reached_iff sound j).mpr ⟨early, table_of_pte source⟩, i, index, source, (alike.2 mapped).1.symm⟩

theorem undone_shared (undoable : Undoable m s nr n) (plain : m.SharedPlain) :
    (u.unref p).sharedPages = m.sharedPages := by
  have undone : u.sharedPages = m.sharedPages := by
    rw [← fork.shared]
    apply fork.undone.given.kept
    rintro key live ⟨j, below, there⟩
    have inside := fork.inside
    rcases fork.behind_copied sound undoable (j := ⟨j, by omega⟩) below there with table | ⟨reached, i, index, here, same⟩
    · rw [fork.plain_halted sound plain key live] at table
      cases table
    · rw [fork.shared] at live same
      exact undoable.unshared _ i below reached index here key live same.symm
  have sound' : Sound L u (Function.update held p (held p + 1)) := fork.undone.walk.sound (fork.halted sound)
  rw [← undone]
  apply (sound'.unref_givenUp p).kept
  intro key live same
  rw [undone] at live same
  have used := (sound.sharedPage key live).2
  rw [Set.mem_singleton_iff] at same
  rw [same] at used
  exact used fork.free

omit sound in
theorem walk : Walk L (Move.own (windowAt nr)) ⟨m, held⟩ ⟨u.unref p, held⟩ := by
  have above := fork.managed.physical.1
  have holding : 0 < Function.update held p (held p + 1) p := by
    rw [Function.update_self]
    omega
  have taken : Walk L (Move.own (windowAt nr)) ⟨m, held⟩ ⟨m.take p, Function.update held p (held p + 1)⟩ :=
    .one (.take p) trivial ⟨fork.managed, fork.free⟩
  have given := ((taken.append fork.failed.walk).append fork.undone.walk).next (.drop p) trivial ⟨fork.managed, holding⟩
  simp only [Move.apply, held_again] at given
  rw [Memory.unref, if_neg (by omega)]
  exact given

theorem restored (apart : s ≠ nr) (undoable : Undoable m s nr n) (plain : m.SharedPlain) : Restored m s nr (u.unref p) := by
  have words := unref_words u p
  have shared := fork.undone_shared sound undoable plain
  have child (j : Fin 16) : u.words (dirOf nr j) = m.words (dirOf nr j) := by
    by_cases below : j.val < n
    · rcases fork.child_dir sound below with ⟨reached, gone⟩ | ⟨-, same⟩
      · rw [gone, undoable.fresh j below reached]
      · rw [undoable.empty j below] at same
        exact same
    · apply fork.other_dir sound
      intro j' below' same
      rw [(dirOf_inj same).2] at below
      exact below below'
  have dirs (d : Fin 1024) : u.words d = m.words d := by
    rcases dirOf_surjective d with ⟨r, j, rfl⟩
    by_cases own : r = nr
    · rw [own]
      exact child j
    · exact fork.other_dir sound fun j' _ same => own (dirOf_inj same).1
  have points (r : Fin 64) (x : Fin 16 × Fin 1024) (f : Nat) : pointsTo f (u.window r x) = pointsTo f (m.window r x) := by
    by_cases own : r = nr
    · rw [own]
      by_cases below : x.1.val < n
      · have before : present (m.window nr x) = false := by
          have none := pte_without_table (i := x.2) (undoable.empty x.1 below)
          rw [show m.window nr x = m.pte (dirOf nr x.1) x.2 from rfl, none, present_zero]
        rw [pointsTo_absent before, pointsTo_absent ((fork.vacated sound).gone x below)]
      · rw [fork.rest sound (Nat.le_of_not_lt below)]
    · by_cases parent : r = s
      · rw [parent]
        rcases fork.parent sound apart x with same | marked
        · rw [same]
        · rw [marked]
          exact (Alike.protect _).pointsTo f
      · rw [fork.others sound parent own]
  have views : (u.unref p).pdes = u.pdes ∧ (u.unref p).ptes = u.ptes :=
    views_kept (fun w _ => congrFun words w) fun _ _ _ => congrFun words _
  constructor
  case memMap =>
    apply fork.walk.same_map sound shared
    · intro page
      exact (tables_eq views.1).trans (tables_eq (funext dirs))
    · intro page
      rw [mappings_eq views.2]
      apply total_congr
      rintro ⟨d, i⟩
      rcases dirOf_surjective d with ⟨r, j, rfl⟩
      exact points r (j, i) page
  case shared => exact shared
  case dirs =>
    intro j
    rw [words]
    exact child j
  case parent =>
    intro x
    rw [window_eq views.2]
    exact fork.parent sound apart x

theorem mappings_copied {j : Fin 16} {i : Fin 1024} (reached : m.Reached s j)
    (index : i.val < copiedEntries s) (here : present (m.window s (j, i)) = true) :
    m.mappings (frame (m.window s (j, i))) < h.mappings (frame (m.window s (j, i))) := by
  have early := ((fork.reached_iff sound j).mp reached).1
  generalize shown : frame (m.window s (j, i)) = f
  have grown (r : Fin 64) (x : Fin 16 × Fin 1024) : pointsTo f (m.window r x) ≤ pointsTo f (h.window r x) := by
    rw [← fork.window sound]
    exact fork.failed.grown r x f
  have alike := fork.copied sound early index
  have copy : pointsTo f (h.ptes (dirOf nr j, i)) = 1 := by
    rw [show h.ptes (dirOf nr j, i) = h.window nr (j, i) from rfl, alike.pointsTo, ← shown]
    exact pointsTo_self here
  have before : pointsTo f (m.ptes (dirOf nr j, i)) = 0 := by
    have none := fork.failed.absent j early
    rw [fork.dir sound] at none
    have gone := pte_without_table (i := i) none
    rw [show m.ptes (dirOf nr j, i) = m.pte (dirOf nr j) i from rfl, gone, pointsTo_zero]
  have one := total_update (pointsTo f) m.ptes (dirOf nr j, i) (h.ptes (dirOf nr j, i))
  have all : total (pointsTo f) (Function.update m.ptes (dirOf nr j, i) (h.ptes (dirOf nr j, i))) ≤
      total (pointsTo f) h.ptes := by
    apply total_mono
    rintro ⟨d, i'⟩
    by_cases same : (d, i') = (dirOf nr j, i)
    · rw [same, Function.update_self]
    · rw [Function.update_of_ne same]
      rcases dirOf_surjective d with ⟨r, j', rfl⟩
      exact grown r (j', i')
  unfold Memory.mappings
  omega

/-- A shared page that was copied is counted once more in `mem_map` and once less in its key, or only the latter. -/
theorem unshared (plain : m.SharedPlain) (restored : Restored m s nr (u.unref p)) {j : Fin 16}
    {i : Fin 1024} (reached : m.Reached s j) (index : i.val < copiedEntries s)
    (here : present (m.window s (j, i)) = true) {key : Fin 64} (live : (m.sharedPages key).count ≠ 0) :
    (m.sharedPages key).physicalAddress ≠ frame (m.window s (j, i)) := by
  intro same
  have more := fork.mappings_copied sound reached index here
  rw [← same] at more
  have managed := (sound.sharedPage key live).1
  have used := (sound.sharedPage key live).2
  have other : (m.sharedPages key).physicalAddress ≠ p := by
    intro equal
    rw [equal] at used
    exact used fork.free
  -- the key is live all along, so that the undo has not lowered what `mem_map` counts
  have sound' : Sound L u (Function.update held p (held p + 1)) := fork.undone.walk.sound (fork.halted sound)
  have last := (sound'.unref_givenUp p).live key (by rw [restored.shared]; exact live)
  have undone := fork.undone.given.live key last.1
  have page : (u.sharedPages key).physicalAddress = (m.sharedPages key).physicalAddress := by
    rw [undone.2.1, fork.shared]
  have counted : h.memMap (mapNr (m.sharedPages key).physicalAddress) =
      m.memMap (mapNr (m.sharedPages key).physicalAddress) := by
    rw [← restored.memMap, ← page, last.2.2, page, ← fork.shared]
    exact undone.2.2.symm
  have before := sound.balanced _ managed
  have after := (fork.halted sound).balanced _ managed
  have table := fork.plain_halted sound plain key (by rw [fork.shared]; exact live)
  rw [Function.update_of_ne other] at after
  rw [fork.shared] at table
  rw [Memory.booked, fork.shared, counted, table] at after
  rw [Memory.booked, plain key live] at before
  omega

theorem undoable (plain : m.SharedPlain) (restored : Restored m s nr (u.unref p)) :
    Undoable m s nr n := by
  have final (j : Fin 16) : u.words (dirOf nr j) = m.words (dirOf nr j) := by
    rw [← restored.dirs j, unref_words]
  constructor
  case empty =>
    intro j below
    rcases fork.child_dir sound below with ⟨reached, -⟩ | ⟨-, freed⟩
    · have none := fork.failed.absent j ((fork.reached_iff sound j).mp reached).1
      rw [fork.dir sound] at none
      exact none
    · rw [final] at freed
      split at freed
      · rename_i there
        rw [freed, present_zero] at there
        cases there
      · rename_i absent
        exact Bool.eq_false_of_not_eq_true absent
  case fresh =>
    intro j below reached
    rcases fork.child_dir sound below with ⟨-, freed⟩ | ⟨other, -⟩
    · rw [final] at freed
      exact freed
    · exact absurd reached other
  case unshared =>
    intro j i _ reached index here key live
    exact fork.unshared sound plain restored reached index here live

end FailedFork

section Fork

variable {files : Nat → File} {kernel kernel' : Kernel} {t : Task}

structure Traceless (k k' : Kernel) (s nr : Fin 64) : Prop extends Restored k.memory s nr k'.memory where
  task : k'.task nr = none

theorem Kept.fork_fails (kept : Kept L kernel) (here : kernel.task s = some t) (order : Call.fork.InOrder kernel s)
    (slot : kernel.findEmptyProcess = some nr)
    (failed : kernel.copyProcess nr s t = .ok (kernel', .returned (-EAGAIN))) :
    s ≠ nr ∧ kernel'.task nr = none ∧ ∃ held, Sound L kernel.memory held ∧
      (kernel.memory.freePages = 0 ∧ kernel'.memory = kernel.memory ∨ ∃ p k h u,
        FailedFork L held kernel.memory s nr (Memory.dirs t.dataLimit) p k h u ∧ kernel'.memory = u.unref p) := by
  rcases kept.books with ⟨held, sound, -⟩
  rcases findEmptyProcess_empty slot with ⟨empty, other⟩
  have apart : s ≠ nr := by
    rintro rfl
    rw [here] at empty
    cases empty
  rcases (sound.copyProcess_fails apart other order.1 (kept.tasks.fits s t here)).ok _ failed with
    ⟨answer, -⟩ | ⟨-, task, fails⟩
  · have value := Outcome.returned.inj answer
    rw [EAGAIN] at value
    omega
  · refine ⟨apart, ?_, held, sound, fails⟩
    have task : kernel'.task = kernel.task := task
    rw [task]
    exact empty

/-- A fork that finds no memory leaves no trace just when it did not get to a shared page, nor to an entry of the
    page directory that was not 0. -/
theorem fork_traceless_iff (reached : (bookkept files L).Reaches kernel) (here : kernel.task s = some t)
    (order : Call.fork.InOrder kernel s) (slot : kernel.findEmptyProcess = some nr)
    (failed : kernel.copyProcess nr s t = .ok (kernel', .returned (-EAGAIN))) :
    Traceless kernel kernel' s nr ↔
      kernel.memory.freePages = 0 ∨ Undoable kernel.memory s nr (Memory.dirs t.dataLimit) := by
  have kept := kept_of_reaches reached
  rcases kept.fork_fails here order slot failed with ⟨apart, vacant, held, sound, ⟨nothing, same⟩ | ⟨p, k, h, u, fork, same⟩⟩
  · refine iff_of_true ⟨?_, vacant⟩ (.inl nothing)
    rw [same]
    exact ⟨rfl, rfl, fun _ => rfl, fun _ => .inl rfl⟩
  · have some : kernel.memory.freePages ≠ 0 := by
      have counted := fork.counted
      omega
    rw [or_iff_right some]
    constructor
    · intro traceless
      exact fork.undoable sound kept.plain (same ▸ traceless.toRestored)
    · intro undoable
      refine ⟨?_, vacant⟩
      rw [same]
      exact fork.restored sound apart undoable kept.plain

end Fork

section Example

theorem Kept.light {kernel : Kernel} (kept : Kept L kernel)
    (few : ∀ page, L.Managed page → kernel.memory.booked page ≤ 127) (s : Fin 64) :
    kernel.memory.Room s ∧ kernel.memory.Spare := by
  rcases kept.books with ⟨held, sound, -⟩
  have counted (page : Nat) (above : lowMem ≤ page) (mapped : 0 < kernel.memory.mappings page) :
      (kernel.memory.memMap (mapNr page)).toNat ≤ 127 ∧ kernel.memory.mappings page ≤ 127 := by
    have managed := (sound.dataPage page mapped).resolve_left (by omega)
    have bound := few page managed
    have balanced := sound.balanced page managed
    have part : (kernel.memory.memMap (mapNr page)).toNat ≤ kernel.memory.booked page := Nat.le_add_right _ _
    omega
  constructor
  · intro page above use
    have less := uses_le_mappings kernel.memory s page
    have bounds := counted page above (by omega)
    omega
  · intro page above mapped full
    have bounds := counted page above mapped
    rw [full] at bounds
    exact absurd bounds.1 (by decide)

theorem Kept.unattached {kernel : Kernel} (kept : Kept L kernel) (got : kernel.memory.getFreePage = some (p, m))
    (key : Fin 64) (count : BitVec 32) : Kernel.Unattached ⟨m.setShared key ⟨count, p⟩, kernel.task⟩ p := by
  rcases kept.books with ⟨held, sound, cover⟩
  rcases sound.getFreePage got with ⟨rfl, managed, free⟩
  rcases sound.free managed free with ⟨untabled, unmapped, unheld, -⟩
  have views := take_views (Sound.positive managed) untabled
  have tables : ((kernel.memory.take p).setShared key ⟨count, p⟩).tables p = 0 := (tables_eq views.1).trans untabled
  have mappings : ((kernel.memory.take p).setShared key ⟨count, p⟩).mappings p = 0 :=
    (mappings_eq views.2).trans unmapped
  have tasks : Kernel.taskPages ⟨(kernel.memory.take p).setShared key ⟨count, p⟩, kernel.task⟩ p = 0 :=
    Nat.le_zero.mp (unheld ▸ cover p)
  have taken : ((kernel.memory.take p).setShared key ⟨count, p⟩).memMap (mapNr p) = 1 := setMap_same
  unfold Kernel.Unattached Memory.booked
  dsimp only
  rw [tables, mappings, tasks, taken]
  exact Nat.lt_of_lt_of_le Nat.one_pos (Nat.le_add_right _ _)

def scarce : Layout := ⟨4089, 4096, by decide, sixteenMegabytes.inPaging⟩

def scarceKernel : Kernel where
  memory := { (⟨smallWords, fun _ => 0, 0, fun _ => ⟨0, 0⟩⟩ : Memory).memInit 4089 4096 with
    sharedPages := fun _ => ⟨0, 0⟩ }
  task := smallKernel.task

theorem scarceKernel_booted : Booted scarce scarceKernel where
  memory := ⟨_, rfl⟩
  others := smallKernel_booted.others
  tables := smallKernel_booted.tables
  apart := smallKernel_booted.apart
  low := smallKernel_booted.low
  first := smallKernel_booted.first
  alone := smallKernel_booted.alone

def scarceChild : Kernel := (scarceKernel.next zeroImage ⟨0, .fork, .returned 1⟩).getD scarceKernel

def scarceTask : Task := Kernel.image zeroImage childTask 7 0x1000 0x1000 0x4000000

def scarceImage : Kernel := ⟨scarceChild.memory.vacant, Function.update scarceChild.task 1 (some scarceTask)⟩

/-- It reads a byte of its stack, and gets and attaches a page. -/
def scarceRead : Kernel := (scarceImage.next zeroImage ⟨1, .read 0x3fff000 2, .loaded 0⟩).getD scarceImage

def scarceGot : Kernel := (scarceRead.sysShmget 0 4096).1

def scarceAttached : Kernel := (scarceGot.sysShmat 1 scarceTask 0).1

theorem scarce_few {kernel : Kernel} (few : ∀ i : Fin 7, kernel.memory.booked (4089 + i) ≤ 127) :
    ∀ page, scarce.Managed page → kernel.memory.booked page ≤ 127 := by
  rintro page ⟨above, below⟩
  have above : 4089 ≤ page := above
  have below : page < 4096 := below
  have bound := few ⟨page - 4089, by omega⟩
  rw [show 4089 + (page - 4089) = page by omega] at bound
  exact bound

theorem scarceImage_step : (kernel zeroImage scarce).step scarceChild ⟨1, .exec 7 0x1000 0x1000 0x4000000, .done⟩
    scarceImage := by
  have task : scarceChild.task 1 = some childTask := by decide +kernel
  have round : scarceChild.memory.freeTable 16 = .ok scarceChild.memory.vacant := by
    apply freeTable_low
    case low =>
      have all : ∀ i : Fin 1024, present (scarceChild.memory.words (tableWord 4094 i)) = true →
          frame (scarceChild.memory.words (tableWord 4094 i)) < lowMem := by decide +kernel
      exact fun i index => all ⟨i, index⟩
    all_goals decide +kernel
  have gone : present (scarceChild.memory.vacant.words 16) = false := by decide +kernel
  have replaced : scarceChild.doExecve zeroImage 1 childTask 7 0x1000 0x1000 0x4000000 = .ok scarceImage :=
    doExecve_one (by decide) rfl rfl round gone
  refine ⟨_, task, ⟨rfl, by decide⟩, ?_⟩
  unfold Call.perform
  dsimp only
  rw [replaced]
  rfl

theorem scarceRead_reached : (bookkept zeroImage scarce).Reaches scarceRead := by
  have start := scarceKernel_booted.kept.light (scarce_few (by decide +kernel)) 0
  have fork : (bookkept zeroImage scarce).step scarceKernel ⟨0, .fork, .returned 1⟩ scarceChild :=
    ⟨⟨start.1, trivial⟩, next_getD (by decide +kernel)⟩
  have exec : (bookkept zeroImage scarce).step scarceChild ⟨1, .exec 7 0x1000 0x1000 0x4000000, .done⟩ scarceImage :=
    ⟨⟨trivial, trivial⟩, scarceImage_step⟩
  have run := (Machine.Run.one fork).snoc exec
  have image : (bookkept zeroImage scarce).Reaches scarceImage := ⟨_, _, scarceKernel_booted, run⟩
  have spare := ((kept_of_reaches image).light (scarce_few (by decide +kernel)) 1).2
  have read : (bookkept zeroImage scarce).step scarceImage ⟨1, .read 0x3fff000 2, .loaded 0⟩ scarceRead :=
    ⟨⟨spare, trivial⟩, next_getD (by decide +kernel)⟩
  exact ⟨_, _, scarceKernel_booted, run.snoc read⟩

theorem scarceAttached_reached : (bookkept zeroImage scarce).Reaches scarceAttached := by
  have free : Memory.scan scarceRead.memory.memMap pagingPages = some 3836 := by decide +kernel
  have got : scarceRead.memory.getFreePage = some (4092, scarceRead.memory.take 4092) := by
    unfold Memory.getFreePage
    rw [free]
    rfl
  have task : scarceRead.task 1 = some scarceTask := by decide +kernel
  have unused : (scarceRead.memory.sharedPages 0).count = 0 := by decide +kernel
  have same : scarceGot = ⟨(scarceRead.memory.take 4092).setShared 0 ⟨1, 4092⟩, scarceRead.task⟩ := by
    have fresh : ((scarceRead.memory.take 4092).sharedPages 0).count = 0 := unused
    unfold scarceGot Kernel.sysShmget Memory.sysShmget
    simp only [show Memory.keyOf 0 = some 0 from rfl, unused, got, fresh]
    rw [if_neg (by decide), if_neg fun inUse => inUse.2 rfl]
    rfl
  have get : (bookkept zeroImage scarce).step scarceRead
      ⟨1, .shmget 0 4096, (scarceRead.sysShmget 0 4096).2⟩ scarceGot := by
    refine ⟨⟨trivial, ?_⟩, scarceTask, task, ⟨rfl, trivial⟩, rfl⟩
    intro i key
    rw [show i = 0 from (Option.some.inj key).symm, unused]
    decide
  have attach : (bookkept zeroImage scarce).step scarceGot
      ⟨1, .shmat 0, (scarceGot.sysShmat 1 scarceTask 0).2⟩ scarceAttached := by
    refine ⟨⟨trivial, ?_⟩, scarceTask, by rw [same]; exact task, ⟨rfl, trivial⟩, rfl⟩
    intro i key _
    have first : i = 0 := (Option.some.inj key).symm
    have page : (scarceGot.memory.sharedPages 0).physicalAddress = 4092 := by rw [same]; rfl
    rw [first, page, same]
    exact (kept_of_reaches scarceRead_reached).unattached got 0 1
  rcases scarceRead_reached with ⟨k, es, booted, run⟩
  exact ⟨k, _, booted, (run.snoc get).snoc attach⟩

def attachedTask : Task := { scarceTask with brk := 0x2000 }

theorem scarce_fork : scarceAttached.task 1 = some attachedTask ∧ Call.fork.InOrder scarceAttached 1 ∧
    scarceAttached.findEmptyProcess = some 2 ∧ scarceAttached.memory.freePages = 2 ∧
    ∃ k', scarceAttached.copyProcess 2 1 attachedTask = .ok (k', .returned (-EAGAIN)) := by
  have kept := kept_of_reaches scarceAttached_reached
  have room := (kept.light (scarce_few (by decide +kernel)) 1).1
  have here : scarceAttached.task 1 = some attachedTask := by decide +kernel
  have two : scarceAttached.memory.freePages = 2 := by
    rw [Memory.freePages]
    decide +kernel
  rcases kept.books with ⟨held, sound, -⟩
  refine ⟨here, ⟨room, trivial⟩, by decide +kernel, two, ?_⟩
  apply sound.copyProcess_short (by decide) (by decide) room (kept.tasks.fits 1 _ here)
  · decide +kernel
  · rw [two]
    decide +kernel

/-- The copy of the shared page is undone with a lower count of its key. -/
theorem fork_leaves_trace : ∃ k k' t, (bookkept zeroImage scarce).Reaches k ∧ k.task 1 = some t ∧
    Call.fork.InOrder k 1 ∧ k.findEmptyProcess = some 2 ∧ k.copyProcess 2 1 t = .ok (k', .returned (-EAGAIN)) ∧
    ¬ Traceless k k' 1 2 := by
  rcases scarce_fork with ⟨here, order, slot, two, k', failed⟩
  refine ⟨scarceAttached, k', attachedTask, scarceAttached_reached, here, order, slot, failed, ?_⟩
  intro traceless
  have kept := kept_of_reaches scarceAttached_reached
  rcases kept.fork_fails here order slot failed with ⟨-, -, held, sound, ⟨nothing, -⟩ | ⟨p, k, h, u, fork, same⟩⟩
  · rw [two] at nothing
    cases nothing
  · have undoable := fork.undoable sound kept.plain (same ▸ traceless.toRestored)
    have reached : scarceAttached.memory.Reached 1 0 := ⟨by decide +kernel, by rw [two]; decide⟩
    exact undoable.unshared 0 1 (by decide) reached (by decide) (by decide +kernel) 0 (by decide +kernel)
      (by decide +kernel)

theorem scarce_traceless : ∃ k', scarceAttached.copyProcess 2 1 attachedTask = .ok (k', .returned (-EAGAIN)) ∧
    (Traceless scarceAttached k' 1 2 ↔ scarceAttached.memory.freePages = 0 ∨
      Undoable scarceAttached.memory 1 2 (Memory.dirs attachedTask.dataLimit)) := by
  rcases scarce_fork with ⟨here, order, slot, -, k', failed⟩
  exact ⟨k', failed, fork_traceless_iff scarceAttached_reached here order slot failed⟩

end Example

end Linux011.Mm

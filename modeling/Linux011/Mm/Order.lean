import Linux011.Mm.PageWalks

namespace Linux011.Mm

open Linux011.Library

variable {L : Layout} {m m' : Memory} {held : Nat → Nat} {b b' : Books}

/-- What a move makes of the page-table entries. -/
def Move.remap (m : Memory) : Move → Fin 1024 × Fin 1024 → BitVec 32
  | map d i p | copy d i p => Function.update m.ptes (d, i) (entry p)
  | mapLow d i e => Function.update m.ptes (d, i) e
  | share d i d' =>
    Function.update (Function.update m.ptes (d', i) (protect (m.pte d i))) (d, i) (protect (m.pte d i))
  | grant d i => Function.update m.ptes (d, i) (m.pte d i ||| 2)
  | unmap d i => Function.update m.ptes (d, i) 0
  | store d i _ _ => Function.update m.ptes (d, i) (touched (m.pte d i))
  | take _ | drop _ | fill _ _ | newTable _ _ | dropTable _ | claim _ _ | get _ => m.ptes

section Views

variable {d d' i : Fin 1024} {p : Nat}

theorem Sound.positive (managed : L.Managed p) : 0 < p := Nat.lt_of_lt_of_le (by decide) managed.physical.1

theorem Sound.drop_views (sound : Sound L m held) (managed : L.Managed p) (holding : 0 < held p) :
    (m.freed p).pdes = m.pdes ∧ (m.freed p).ptes = m.ptes :=
  (sound.released managed (sound.mapped_used managed (by omega))).views

theorem Sound.dropTable_views (sound : Sound L m held) (here : present (m.words d) = true)
    (empty : ∀ i < 1024, m.words (m.entryAt d i) = 0) :
    ((m.unref (frame (m.words d))).set d 0).ptes = m.ptes := by
  have use := tables_pos d here
  have released := sound.unref ((sound.tablePage _ use).symm.imp_left And.right) (by omega)
  have after := (sound.laid.of_pdes released.views.1).remove_views (d := d) fun i index => by
    rw [entryAt_of (congrFun released.words d), released.words]
    exact empty i index
  exact after.2.trans released.views.2

theorem Sound.unmap_views (sound : Sound L m held) (here : present (m.words d) = true) :
    (Move.unmapped m (m.entryAt d i)).ptes = Function.update m.ptes (d, i) 0 := by
  rw [← sound.laid.set_ptes here i 0]
  have words : (Move.unmapped m (m.entryAt d i)).words = (m.set (m.entryAt d i) 0).words :=
    unmapped_words m _
  exact (views_kept (fun w _ => congrFun words w) fun _ _ _ => congrFun words _).2

theorem Sound.copy_views (sound : Sound L m held) (mapped : present (m.pte d i) = true)
    (managed : L.Managed p) (free : m.memMap (mapNr p) = 0) :
    (Move.copied m (m.entryAt d i) p).ptes = Function.update m.ptes (d, i) (entry p) := by
  have here := table_of_pte mapped
  obtain ⟨unused, -, -, -⟩ := sound.free managed free
  have positive := Sound.positive managed
  have views := take_views positive unused
  have dir : (m.take p).words d = m.words d := congrFun views.1 d
  have laid := (sound.take managed free).laid
  have pdes := laid.set_pdes (d := d) (dir ▸ here) i (entry p)
  have ptes := laid.set_ptes (d := d) (dir ▸ here) i (entry p)
  rw [entryAt_of dir] at pdes ptes
  have plain : ((m.take p).set (m.entryAt d i) (entry p)).tables p = 0 := by
    rw [tables_eq pdes, tables_eq views.1, unused]
  have filled := (fill_views positive plain fun j =>
    ((m.take p).set (m.entryAt d i) (entry p)).words (tableWord (frame (m.words (m.entryAt d i))) j)).2
  rw [ptes, views.2] at filled
  rw [← filled]
  unfold Move.copied
  dsimp only
  split <;> rfl

theorem Sound.store_views (sound : Sound L m held) (mapped : present (m.pte d i) = true)
    (above : lowMem ≤ frame (m.pte d i)) {j : Nat} (inPage : j < 1024) (value : BitVec 32) :
    ((m.set (tableWord (frame (m.pte d i)) j) value).set (m.entryAt d i) (touched (m.pte d i))).ptes =
      Function.update m.ptes (d, i) (touched (m.pte d i)) := by
  have views := sound.data_views mapped above inPage value
  have stored : Sound L (m.set (tableWord (frame (m.pte d i)) j) value) held :=
    sound.same_views rfl rfl rfl views
  have dir : (m.set (tableWord (frame (m.pte d i)) j) value).words d = m.words d := congrFun views.1 d
  have ptes := stored.laid.set_ptes (d := d) (dir ▸ table_of_pte mapped) i (touched (m.pte d i))
  rwa [entryAt_of dir, views.2] at ptes

theorem Laid.share_views (laid : Laid m) (mapped : present (m.pte d i) = true)
    (here' : present (m.words d') = true) :
    (Move.shared m (m.entryAt d i) (m.entryAt d' i)).pdes = m.pdes ∧
      (Move.shared m (m.entryAt d i) (m.entryAt d' i)).ptes =
        Function.update (Function.update m.ptes (d', i) (protect (m.pte d i))) (d, i) (protect (m.pte d i)) := by
  have here := table_of_pte mapped
  have dirs := laid.set_pdes here' i (protect (m.pte d i))
  have dir : (m.set (m.entryAt d' i) (protect (m.pte d i))).words d = m.words d := congrFun dirs d
  have laid' := laid.of_pdes dirs
  have dirs' := laid'.set_pdes (d := d) (dir ▸ here) i (protect (m.pte d i))
  have ptes' := laid'.set_ptes (d := d) (dir ▸ here) i (protect (m.pte d i))
  rw [entryAt_of dir] at dirs' ptes'
  unfold Move.shared
  rw [word_of_pte here]
  exact ⟨dirs'.trans dirs, by rw [← laid.set_ptes here' i]; exact ptes'⟩

end Views

theorem Move.Legal.ptes {move : Move} (legal : move.Legal L b) (sound : Sound L b.memory b.held) :
    (move.apply b).memory.ptes = move.remap b.memory := by
  cases move with
  | take p => exact (take_views (Sound.positive legal.1) (sound.free legal.1 legal.2).1).2
  | drop p => exact (sound.drop_views legal.1 legal.2).2
  | fill p content => exact (fill_views (Sound.positive legal.1) legal.2.1 content).2
  | newTable d t => exact (sound.newTable_tabled legal.1 legal.2.1 legal.2.2).ptes
  | map d i p => exact sound.laid.set_ptes legal.1 i _
  | mapLow d i e => exact sound.laid.set_ptes legal.1 i _
  | share d i d' => exact (sound.laid.share_views legal.1 legal.2.2.1).2
  | grant d i => exact sound.laid.set_ptes (table_of_pte legal.1) i _
  | copy d i p => exact sound.copy_views legal.1 legal.2.1 legal.2.2.1
  | unmap d i => exact sound.unmap_views legal
  | dropTable d => exact sound.dropTable_views legal.1 legal.2
  | store d i j value => exact sound.store_views legal.1 legal.2.2.1 legal.2.2.2 value
  | claim k p => rfl
  | get k => rfl

/-- No two entries map a page at different places of two tasks. -/
def Aligned (ptes : Fin 1024 × Fin 1024 → BitVec 32) : Prop :=
  ∀ x y, present (ptes x) = true → present (ptes y) = true → lowMem ≤ frame (ptes x) →
    frame (ptes x) = frame (ptes y) → x.1.val % 16 = y.1.val % 16 ∧ x.2 = y.2

/-- A page that one entry may write to is mapped by no other entry. -/
def Private (ptes : Fin 1024 × Fin 1024 → BitVec 32) : Prop :=
  ∀ x y, present (ptes x) = true → writable (ptes x) = true → lowMem ≤ frame (ptes x) →
    present (ptes y) = true → frame (ptes y) = frame (ptes x) → y = x

section Updates

variable {ptes : Fin 1024 × Fin 1024 → BitVec 32} {x : Fin 1024 × Fin 1024} {e : BitVec 32}

theorem Aligned.update (aligned : Aligned ptes)
    (fits : present e = true → lowMem ≤ frame e → ∀ y, y ≠ x → present (ptes y) = true → frame (ptes y) = frame e →
      y.1.val % 16 = x.1.val % 16 ∧ y.2 = x.2) : Aligned (Function.update ptes x e) := by
  intro y z here here' above same
  by_cases first : y = x
  · by_cases second : z = x
    · rw [first, second]
      exact ⟨rfl, rfl⟩
    · subst first
      rw [Function.update_self] at here above same
      rw [Function.update_of_ne second] at here' same
      have place := fits here above z second here' same.symm
      exact ⟨place.1.symm, place.2.symm⟩
  · by_cases second : z = x
    · subst second
      rw [Function.update_self] at here' same
      rw [Function.update_of_ne first] at here above same
      exact fits here' (same ▸ above) y first here same
    · rw [Function.update_of_ne first] at here above same
      rw [Function.update_of_ne second] at here' same
      exact aligned y z here here' above same

theorem Private.update (sole : Private ptes)
    (fits : present e = true → lowMem ≤ frame e → ∀ y, y ≠ x → present (ptes y) = true → frame (ptes y) = frame e →
      writable e = false ∧ writable (ptes y) = false) : Private (Function.update ptes x e) := by
  intro y z here write above here' same
  by_cases first : y = x
  · by_cases second : z = x
    · rw [first, second]
    · subst first
      rw [Function.update_self] at here write above same
      rw [Function.update_of_ne second] at here' same
      rw [(fits here above z second here' same).1] at write
      cases write
  · by_cases second : z = x
    · subst second
      rw [Function.update_self] at here' same
      rw [Function.update_of_ne first] at here write above same
      rw [(fits here' (same ▸ above) y first here same.symm).2] at write
      cases write
    · rw [Function.update_of_ne first] at here write above same
      rw [Function.update_of_ne second] at here' same
      exact sole y z here write above here' same

end Updates

/-- What holds while nobody uses shared pages. -/
structure Orderly (L : Layout) (b : Books) : Prop where
  sound : Sound L b.memory b.held
  quiet : ∀ k, (b.memory.sharedPages k).count = 0
  aligned : Aligned b.memory.ptes
  sole : Private b.memory.ptes

section Mapped

variable {p : Nat} {x y : Fin 1024 × Fin 1024}

theorem unmapped_frame (unmapped : m.mappings p = 0) (here : present (m.ptes x) = true) :
    frame (m.ptes x) ≠ p := by
  intro same
  have none := (total_eq_zero_iff (pointsTo p) m.ptes).mp unmapped x
  rw [← same, pointsTo_self here] at none
  cases none

theorem only_mapping (few : m.mappings (frame (m.ptes x)) ≤ 1) (here : present (m.ptes x) = true)
    (here' : present (m.ptes y) = true) (same : frame (m.ptes y) = frame (m.ptes x)) : y = x := by
  by_contra apart
  have two := two_le_total (pointsTo (frame (m.ptes x))) m.ptes apart
  have first : pointsTo (frame (m.ptes x)) (m.ptes y) = 1 := by
    rw [← same]
    exact pointsTo_self here'
  have second := pointsTo_self here
  unfold Memory.mappings at few
  omega

end Mapped

namespace Orderly

variable (orderly : Orderly L b)

include orderly

theorem counted {page : Nat} (managed : L.Managed page) : (b.memory.memMap (mapNr page)).toNat =
    b.memory.tables page + b.memory.mappings page + b.held page := by
  have none : total (sharers page) b.memory.sharedPages = 0 := by
    rw [total_eq_zero_iff]
    exact fun k => sharers_dead (orderly.quiet k) page
  have balanced := orderly.sound.balanced page managed
  unfold Memory.booked at balanced
  omega

theorem freed_shared (p : Nat) : (b.memory.freed p).sharedPages = b.memory.sharedPages := by
  have given := freed_given b.memory p
  generalize b.memory.freed p = after at given
  cases given with
  | own => rfl
  | shared k _ live _ | last k _ live _ => exact absurd (orderly.quiet k) live

theorem unref_shared (p : Nat) : (b.memory.unref p).sharedPages = b.memory.sharedPages := by
  unfold Memory.unref
  split
  · rfl
  · exact orderly.freed_shared p

theorem still_quiet {move : Move} (plain : ∀ k, (∀ p, move ≠ .claim k p) ∧ move ≠ .get k) :
    (move.apply b).memory.sharedPages = b.memory.sharedPages := by
  cases move with
  | drop p => exact orderly.freed_shared p
  | dropTable d => exact orderly.unref_shared _
  | unmap d i =>
    show (Move.unmapped b.memory _).sharedPages = _
    unfold Move.unmapped
    split
    · exact orderly.unref_shared _
    · rfl
  | copy d i p =>
    show (Move.copied b.memory _ p).sharedPages = _
    unfold Move.copied
    dsimp only
    split <;> rfl
  | claim k p => exact absurd rfl ((plain k).1 p)
  | get k => exact absurd rfl (plain k).2
  | _ => rfl

end Orderly

section Keeps

variable {entries : Set (Fin 1024 × Fin 1024)} {move : Move}

theorem Move.own.plain (own : move.own entries b) (k : Fin 64) : (∀ p, move ≠ .claim k p) ∧ move ≠ .get k := by
  constructor
  · rintro p rfl
    exact own
  · rintro rfl
    exact own

theorem Orderly.fresh (orderly : Orderly L b) {p : Nat} (managed : L.Managed p)
    (free : b.memory.memMap (mapNr p) = 0) (x : Fin 1024 × Fin 1024) (here : present (b.memory.ptes x) = true) :
    frame (b.memory.ptes x) ≠ p := unmapped_frame (orderly.sound.free managed free).2.1 here

theorem share_order {ptes : Fin 1024 × Fin 1024 → BitVec 32} {d d' i : Fin 1024} (mapped : present (b.memory.pte d i) = true)
    (absent : present (b.memory.pte d' i) = false) (e : BitVec 32) :
    Function.update (Function.update ptes (d', i) e) (d, i) e = Function.update (Function.update ptes (d, i) e) (d', i) e := by
  apply Function.update_comm
  rintro ⟨⟩
  rw [mapped] at absent
  cases absent

theorem Orderly.aligned_own (orderly : Orderly L b) (own : move.own entries b) (legal : move.Legal L b) :
    Aligned (move.remap b.memory) := by
  have aligned := orderly.aligned
  cases move with
  | take | drop | fill | newTable | dropTable => exact aligned
  | map d i p =>
    apply aligned.update
    intro _ _ y _ here same
    rw [frame_entry legal.2.1.physical.2] at same
    exact absurd same (unmapped_frame own.2.2 here)
  | mapLow d i e =>
    apply aligned.update
    intro _ above
    have low := legal.2.2.2.1
    omega
  | share d i d' =>
    obtain ⟨mapped, above, _, absent, _⟩ := legal
    have place (y : Fin 1024 × Fin 1024) (here : present (b.memory.ptes y) = true)
        (same : frame (b.memory.ptes y) = frame (protect (b.memory.pte d i))) : y.1.val % 16 = d.val % 16 ∧ y.2 = i := by
      rw [frame_protect] at same
      exact aligned y (d, i) here mapped (same ▸ above) same
    rw [Move.remap, share_order mapped absent]
    have marked := aligned.update (x := (d, i)) (e := protect (b.memory.pte d i))
      fun _ _ y _ here same => place y here same
    apply marked.update
    intro _ _ y _ here same
    by_cases source : y = (d, i)
    · rw [source]
      exact ⟨own.2, rfl⟩
    · rw [Function.update_of_ne source] at here same
      have at_source := place y here same
      exact ⟨at_source.1.trans own.2, at_source.2⟩
  | grant d i =>
    apply aligned.update
    intro _ above y _ here same
    rw [frame_grant] at same above
    exact aligned y (d, i) here legal.1 (same ▸ above) same
  | copy d i p =>
    apply aligned.update
    intro _ _ y _ here same
    rw [frame_entry legal.2.1.physical.2] at same
    exact absurd same (orderly.fresh legal.2.1 legal.2.2.1 y here)
  | unmap d i =>
    apply aligned.update
    intro here
    rw [present_zero] at here
    cases here
  | store | claim | get => exact own.elim

theorem Orderly.read_only (orderly : Orderly L b) {x y : Fin 1024 × Fin 1024} (here : present (b.memory.ptes x) = true)
    (above : lowMem ≤ frame (b.memory.ptes x)) (here' : present (b.memory.ptes y) = true) (apart : y ≠ x)
    (same : frame (b.memory.ptes y) = frame (b.memory.ptes x)) : writable (b.memory.ptes y) = false := by
  by_contra write
  exact apart (orderly.sole y x here' (by simpa using write) (same ▸ above) here same.symm).symm

theorem Orderly.private_own (orderly : Orderly L b) (own : move.own entries b) (legal : move.Legal L b) :
    Private (move.remap b.memory) := by
  have sole := orderly.sole
  cases move with
  | take | drop | fill | newTable | dropTable => exact sole
  | map d i p =>
    apply sole.update
    intro _ _ y _ here same
    rw [frame_entry legal.2.1.physical.2] at same
    exact absurd same (unmapped_frame own.2.2 here)
  | mapLow d i e =>
    apply sole.update
    intro _ above
    have low := legal.2.2.2.1
    omega
  | share d i d' =>
    obtain ⟨mapped, above, _, absent, _⟩ := legal
    have others (y : Fin 1024 × Fin 1024) (apart : y ≠ (d, i)) (here : present (b.memory.ptes y) = true)
        (same : frame (b.memory.ptes y) = frame (protect (b.memory.pte d i))) : writable (b.memory.ptes y) = false := by
      rw [frame_protect] at same
      exact orderly.read_only (x := (d, i)) mapped above here apart same
    rw [Move.remap, share_order mapped absent]
    have marked := sole.update (x := (d, i)) (e := protect (b.memory.pte d i))
      fun _ _ y apart here same => ⟨writable_protect _, others y apart here same⟩
    apply marked.update
    intro _ _ y _ here same
    refine ⟨writable_protect _, ?_⟩
    by_cases source : y = (d, i)
    · rw [source, Function.update_self]
      exact writable_protect _
    · rw [Function.update_of_ne source] at here same ⊢
      exact others y source here same
  | grant d i =>
    obtain ⟨mapped, above, one⟩ := legal
    apply sole.update
    intro _ _ y apart here same
    rw [frame_grant] at same
    have managed := orderly.sound.mapped_managed mapped above
    have counted := orderly.counted managed
    rw [one, show (1 : BitVec 8).toNat = 1 from rfl] at counted
    have few : b.memory.mappings (frame (b.memory.pte d i)) ≤ 1 := by omega
    exact absurd (only_mapping (x := (d, i)) few mapped here same) apart
  | copy d i p =>
    apply sole.update
    intro _ _ y _ here same
    rw [frame_entry legal.2.1.physical.2] at same
    exact absurd same (orderly.fresh legal.2.1 legal.2.2.1 y here)
  | unmap d i =>
    apply sole.update
    intro here
    rw [present_zero] at here
    cases here
  | store | claim | get => exact own.elim

theorem Orderly.own (orderly : Orderly L b) (own : move.own entries b) (legal : move.Legal L b) :
    Orderly L (move.apply b) where
  sound := legal.sound orderly.sound
  quiet := by
    rw [orderly.still_quiet own.plain]
    exact orderly.quiet
  aligned := by
    rw [legal.ptes orderly.sound]
    exact orderly.aligned_own own legal
  sole := by
    rw [legal.ptes orderly.sound]
    exact orderly.private_own own legal

theorem Orderly.store (orderly : Orderly L b) {d i : Fin 1024} {j : Nat} {value : BitVec 32}
    (legal : (Move.store d i j value).Legal L b) : Orderly L ((Move.store d i j value).apply b) where
  sound := legal.sound orderly.sound
  quiet := orderly.quiet
  aligned := by
    rw [legal.ptes orderly.sound]
    apply orderly.aligned.update
    intro _ above y _ here same
    rw [frame_touched] at same above
    exact orderly.aligned y (d, i) here legal.1 (same ▸ above) same
  sole := by
    rw [legal.ptes orderly.sound]
    apply orderly.sole.update
    intro _ _ y apart here same
    rw [frame_touched] at same
    exact absurd (orderly.sole (d, i) y legal.1 legal.2.1 legal.2.2.1 here same) apart

theorem Walk.orderly (walk : Walk L (Move.own entries) b b') (orderly : Orderly L b) : Orderly L b' :=
  walk.invariant orderly fun _ _ own legal orderly => orderly.own own legal

end Keeps

end Linux011.Mm

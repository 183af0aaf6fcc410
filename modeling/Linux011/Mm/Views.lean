import Linux011.Mm.Ledger

namespace Linux011.Mm

open Linux011.Library

variable {L : Layout} {m m' : Memory}

theorem tableWord_div {table i : Nat} (index : i < 1024) : tableWord table i / 1024 = table := by
  unfold tableWord
  omega

theorem tableWord_mod {table i : Nat} (index : i < 1024) : tableWord table i % 1024 = i := by
  unfold tableWord
  omega

theorem tableWord_inj {table table' i i' : Nat} (index : i < 1024) (index' : i' < 1024)
    (same : tableWord table i = tableWord table' i') : table = table' ∧ i = i' := by
  unfold tableWord at same
  omega

section Writes

variable {w w' : Nat} {e : BitVec 32}

@[simp] theorem set_self : (m.set w e).words w = e := Function.update_self _ _ _

theorem set_other (apart : w' ≠ w) : (m.set w e).words w' = m.words w' := Function.update_of_ne apart _ _

theorem set_directory (m : Memory) (d : Fin 1024) (e : BitVec 32) :
    (m.set d e).pdes = Function.update m.pdes d e := by
  funext d'
  by_cases same : d' = d
  · subst same
    rw [Function.update_self]
    exact set_self
  · rw [Function.update_of_ne same]
    exact set_other fun equal => same (Fin.ext equal)

theorem fill_other {p : Nat} {content : Nat → BitVec 32} (apart : w / 1024 ≠ p) :
    (m.fill p content).words w = m.words w := if_neg apart

theorem fill_word {p i : Nat} (content : Nat → BitVec 32) (index : i < 1024) :
    (m.fill p content).words (tableWord p i) = content i := by
  simp only [Memory.fill]
  rw [tableWord_div index, tableWord_mod index, if_pos rfl]

end Writes

section PointsTo

variable {page : Nat} {e e' : BitVec 32}

theorem pointsTo_pos : 0 < pointsTo page e ↔ present e = true ∧ frame e = page := by
  unfold pointsTo
  split <;> simp_all

theorem pointsTo_self (here : present e = true) : pointsTo (frame e) e = 1 := by
  simp [pointsTo, here]

theorem pointsTo_absent (absent : present e = false) : pointsTo page e = 0 := by
  simp [pointsTo, absent]

theorem pointsTo_congr (flag : present e = present e') (page' : frame e = frame e') :
    pointsTo page e = pointsTo page e' := by
  simp [pointsTo, flag, page']

theorem pointsTo_le (page : Nat) (e : BitVec 32) : pointsTo page e ≤ 1 := by
  unfold pointsTo
  split <;> decide

theorem pointsTo_entry {page p : Nat} (physical : p < 2 ^ 20) :
    pointsTo page (entry p) = if p = page then 1 else 0 := by
  simp [pointsTo, frame_entry physical]

end PointsTo

theorem Layout.Managed.physical {page : Nat} (managed : L.Managed page) : lowMem ≤ page ∧ page < 2 ^ 20 := by
  have low := L.aboveLow
  have high := L.inPaging
  obtain ⟨above, below⟩ := managed
  simp only [lowMem, pagingPages] at *
  omega

section Present

theorem tables_pos (d : Fin 1024) (here : present (m.words d) = true) : 0 < m.tables (frame (m.words d)) := by
  apply (total_pos_iff _ _).mpr
  exact ⟨d, pointsTo_pos.mpr ⟨here, rfl⟩⟩

theorem mappings_pos (d i : Fin 1024) (here : present (m.pte d i) = true) :
    0 < m.mappings (frame (m.pte d i)) := by
  apply (total_pos_iff _ _).mpr
  exact ⟨(d, i), pointsTo_pos.mpr ⟨here, rfl⟩⟩

theorem pte_of_table {d i : Nat} (here : present (m.words d) = true) :
    m.pte d i = m.words (m.entryAt d i) := if_pos here

theorem table_of_pte {d i : Nat} (here : present (m.pte d i) = true) : present (m.words d) = true := by
  unfold Memory.pte at here
  split at here
  · assumption
  · cases here

theorem ptes_apply (m : Memory) (d i : Fin 1024) :
    m.ptes (d, i) = if present (m.words d) then m.words (m.entryAt d i) else 0 := rfl

theorem entryAt_of {d i : Nat} (dir : m'.words d = m.words d) : m'.entryAt d i = m.entryAt d i := by
  rw [Memory.entryAt, dir, ← Memory.entryAt]

end Present

theorem views_kept (directory : ∀ w < 1024, m'.words w = m.words w)
    (inTables : ∀ d i : Fin 1024, present (m.words d) = true →
      m'.words (m.entryAt d i) = m.words (m.entryAt d i)) :
    m'.pdes = m.pdes ∧ m'.ptes = m.ptes := by
  constructor
  · funext d
    exact directory d d.isLt
  · funext ⟨d, i⟩
    rw [ptes_apply, ptes_apply, entryAt_of (directory d d.isLt), directory d d.isLt]
    split
    · rename_i here
      exact inTables d i here
    · rfl

theorem fill_views {p : Nat} (positive : 0 < p) (unused : m.tables p = 0) (content : Nat → BitVec 32) :
    (m.fill p content).pdes = m.pdes ∧ (m.fill p content).ptes = m.ptes := by
  apply views_kept
  · intro w low
    exact fill_other (by omega)
  · intro d i here
    apply fill_other
    rw [Memory.entryAt, tableWord_div i.isLt]
    intro same
    have use := tables_pos d here
    rw [same, unused] at use
    cases use

/-- What the state of the page tables must be for a write to one entry to be seen in one place. -/
structure Laid (m : Memory) : Prop where
  single : ∀ page, m.tables page ≤ 1
  tablePage : ∀ page, 0 < m.tables page → 0 < page

theorem Sound.laid {held : Nat → Nat} (sound : Sound L m held) : Laid m where
  single := sound.single
  tablePage := by
    intro page use
    rcases sound.tablePage page use with managed | low
    · have above := managed.physical.1
      simp only [lowMem] at above
      omega
    · exact low.1

namespace Laid

variable (laid : Laid m)

include laid

theorem own_table {d d' : Fin 1024} (here : present (m.words d) = true) (here' : present (m.words d') = true)
    (same : frame (m.words d) = frame (m.words d')) : d = d' := by
  by_contra apart
  have two := two_le_total (pointsTo (frame (m.words d'))) m.pdes apart
  have first : pointsTo (frame (m.words d')) (m.pdes d) = 1 := by
    rw [← same]
    exact pointsTo_self here
  have second : pointsTo (frame (m.words d')) (m.pdes d') = 1 := pointsTo_self here'
  have single := laid.single (frame (m.words d'))
  rw [Memory.tables] at single
  omega

theorem table_word {d : Fin 1024} (here : present (m.words d) = true) (i : Nat) :
    1024 ≤ m.entryAt d i := by
  have positive := laid.tablePage _ (tables_pos d here)
  unfold Memory.entryAt tableWord
  omega

theorem set_pdes {d : Fin 1024} (here : present (m.words d) = true) (i : Nat) (e : BitVec 32) :
    (m.set (m.entryAt d i) e).pdes = m.pdes := by
  funext d'
  have high := laid.table_word here i
  have low := d'.isLt
  exact set_other (by omega)

theorem set_ptes {d : Fin 1024} (here : present (m.words d) = true) (i : Fin 1024) (e : BitVec 32) :
    (m.set (m.entryAt d i) e).ptes = Function.update m.ptes (d, i) e := by
  have dirs := laid.set_pdes here i e
  funext ⟨d', i'⟩
  have dir : (m.set (m.entryAt d i) e).words d' = m.words d' := congrFun dirs d'
  rw [ptes_apply, entryAt_of dir, dir]
  by_cases same : (d', i') = (d, i)
  · obtain ⟨rfl, rfl⟩ := Prod.mk.inj same
    rw [Function.update_self, if_pos here, set_self]
  · rw [Function.update_of_ne same, ptes_apply]
    split
    · rename_i here'
      apply set_other
      intro word
      obtain ⟨table, index⟩ := tableWord_inj i'.isLt i.isLt word
      apply same
      rw [laid.own_table here' here table, Fin.ext index]
    · rfl

theorem install_views {d : Fin 1024} (absent : present (m.words d) = false) {t : Nat} (positive : 0 < t)
    (physical : t < 2 ^ 20) (cleared : ∀ i < 1024, m.words (tableWord t i) = 0) :
    (m.set d (entry t)).pdes = Function.update m.pdes d (entry t) ∧ (m.set d (entry t)).ptes = m.ptes := by
  have high (d' i : Nat) (here : 0 < d') : tableWord d' i ≠ d := by
    have low := d.isLt
    unfold tableWord
    omega
  constructor
  · exact set_directory m d _
  · funext ⟨d', i⟩
    rw [ptes_apply, ptes_apply]
    by_cases same : d' = d
    · subst same
      rw [Memory.entryAt, set_self, present_entry, frame_entry physical, absent, set_other (high _ _ positive),
        cleared i i.isLt]
      rfl
    · have dir : (m.set d (entry t)).words d' = m.words d' :=
        set_other fun equal => same (Fin.ext equal)
      rw [entryAt_of dir, dir]
      split
      · rename_i here
        exact set_other (high _ _ (laid.tablePage _ (tables_pos d' here)))
      · rfl

theorem remove_views {d : Fin 1024} (empty : ∀ i < 1024, m.words (m.entryAt d i) = 0) :
    (m.set d 0).pdes = Function.update m.pdes d 0 ∧ (m.set d 0).ptes = m.ptes := by
  constructor
  · exact set_directory m d _
  · funext ⟨d', i⟩
    rw [ptes_apply, ptes_apply]
    by_cases same : d' = d
    · subst same
      rw [set_self, present_zero, empty i i.isLt, ite_self]
      rfl
    · have dir : (m.set d 0).words d' = m.words d' :=
        set_other fun equal => same (Fin.ext equal)
      rw [entryAt_of dir, dir]
      split
      · rename_i here
        have high := laid.table_word here i
        have low := d.isLt
        exact set_other (by omega)
      · rfl

end Laid

end Linux011.Mm

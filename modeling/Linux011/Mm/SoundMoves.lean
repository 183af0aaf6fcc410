import Linux011.Mm.Counts

namespace Linux011.Mm

open Linux011.Library

variable {L : Layout} {m m' : Memory} {held : Nat → Nat}

theorem Laid.of_pdes (laid : Laid m) (same : m'.pdes = m.pdes) : Laid m' where
  single page := (tables_eq same).trans_le (laid.single page)
  tablePage page use := laid.tablePage page ((tables_eq same) ▸ use)

theorem entryAt_congr (words : m'.pdes = m.pdes) (d i : Fin 1024) : m'.entryAt d i = m.entryAt d i :=
  entryAt_of (congrFun words d)

theorem pte_congr (views : m'.ptes = m.ptes) (d i : Fin 1024) : m'.pte d i = m.pte d i :=
  congrFun views (d, i)

theorem word_of_pte {d : Fin 1024} (here : present (m.words d) = true) (i : Fin 1024) :
    m.words (m.entryAt d i) = m.pte d i := (pte_of_table here).symm

theorem take_views {p : Nat} (positive : 0 < p) (unused : m.tables p = 0) :
    (m.take p).pdes = m.pdes ∧ (m.take p).ptes = m.ptes :=
  fill_views (m := m.setMap p 1) positive unused _

/-- Moves that leave the books alone need only keep the references together with the held ones. -/
theorem Sound.relaid (sound : Sound L m held) {held' : Nat → Nat} (map : m'.memMap = m.memMap)
    (shared : m'.sharedPages = m.sharedPages) (high : m'.highMemory = m.highMemory)
    (tables : ∀ page, m'.tables page = m.tables page)
    (apart : ∀ page, lowMem ≤ page → 0 < m.tables page → m'.mappings page = 0)
    (dataPage : ∀ page, 0 < m'.mappings page → page < lowMem ∨ L.Managed page)
    (even : ∀ page, L.Managed page → m'.mappings page + held' page = m.mappings page + held page) :
    Sound L m' held' where
  high := high.trans sound.high
  reserved := map ▸ sound.reserved
  single page := (tables page).trans_le (sound.single page)
  tablePage page use := sound.tablePage page ((tables page) ▸ use)
  apart page above use := apart page above ((tables page) ▸ use)
  dataPage := dataPage
  sharedPage := by
    rw [map, shared]
    exact sound.sharedPage
  distinct := by
    rw [shared]
    exact sound.distinct
  balanced := by
    intro page managed
    have before := sound.balanced page managed
    have same := even page managed
    have books : m'.booked page = m.booked page := by
      rw [Memory.booked, map, shared]
      rfl
    rw [books, tables]
    omega

theorem Sound.same_views (sound : Sound L m held) (map : m'.memMap = m.memMap)
    (shared : m'.sharedPages = m.sharedPages) (high : m'.highMemory = m.highMemory)
    (views : m'.pdes = m.pdes ∧ m'.ptes = m.ptes) : Sound L m' held := by
  apply sound.relaid map shared high
  · exact fun page => tables_eq views.1
  · exact fun page above use => (mappings_eq views.2).trans (sound.apart page above use)
  · exact fun page use => sound.dataPage page ((mappings_eq views.2) ▸ use)
  · exact fun page _ => by rw [mappings_eq views.2]

theorem Sound.set_alike (sound : Sound L m held) {d i : Fin 1024} {e : BitVec 32}
    (here : present (m.words d) = true)
    (alike : ∀ page, lowMem ≤ page → pointsTo page e = pointsTo page (m.pte d i)) :
    Sound L (m.set (m.entryAt d i) e) held := by
  have pdes := sound.laid.set_pdes here i e
  have ptes := sound.laid.set_ptes here i e
  have counts (page : Nat) (above : lowMem ≤ page) :
      (m.set (m.entryAt d i) e).mappings page = m.mappings page := by
    have moved := mappings_update page ptes
    rw [alike page above] at moved
    exact Nat.add_right_cancel moved
  apply sound.relaid
  case map | shared | high => rfl
  · exact fun page => tables_eq pdes
  · exact fun page above use => (counts page above).trans (sound.apart page above use)
  · intro page use
    rcases Nat.lt_or_ge page lowMem with low | above
    · exact .inl low
    · exact sound.dataPage page ((counts page above) ▸ use)
  · exact fun page managed => by rw [counts page managed.physical.1]

section Taken

variable {p : Nat}

theorem Sound.recount (sound : Sound L m held) (managed : L.Managed p) {n : BitVec 8} (inUse : n ≠ 0)
    {held' : Nat → Nat} (even : ∀ page, held' page + (if page = p then (m.memMap (mapNr p)).toNat else 0) =
      held page + if page = p then n.toNat else 0) : Sound L (m.setMap p n) held' where
  high := sound.high
  reserved := by
    intro i below outside
    by_cases same : i = mapNr p
    · rw [same, setMap_same]
      exact inUse
    · rw [setMap_elsewhere same]
      exact sound.reserved i below outside
  single := sound.single
  tablePage := sound.tablePage
  apart := sound.apart
  dataPage := sound.dataPage
  sharedPage := by
    intro k live
    have before := sound.sharedPage k live
    refine ⟨before.1, ?_⟩
    rw [setMap_shared]
    by_cases same : (m.sharedPages k).physicalAddress = p
    · rw [same, setMap_same]
      exact inUse
    · rw [setMap_other managed.physical.1 before.1.physical.1 same]
      exact before.2
  distinct := sound.distinct
  balanced := by
    intro page inside
    have before := sound.balanced page inside
    have moved := booked_setMap (m := m) (n := n) managed.physical.1 inside.physical.1
    have difference := even page
    show (m.setMap p n).booked page = m.tables page + m.mappings page + held' page
    omega

theorem Sound.fill (sound : Sound L m held) (managed : L.Managed p) (unused : m.tables p = 0)
    (content : Nat → BitVec 32) : Sound L (m.fill p content) held :=
  sound.same_views rfl rfl rfl
    (fill_views (Nat.lt_of_lt_of_le (by decide) managed.physical.1) unused content)

theorem Sound.take (sound : Sound L m held) (managed : L.Managed p) (free : m.memMap (mapNr p) = 0) :
    Sound L (m.take p) (Function.update held p (held p + 1)) := by
  obtain ⟨unused, -, -, -⟩ := sound.free managed free
  have counted : Sound L (m.setMap p 1) (Function.update held p (held p + 1)) := by
    apply sound.recount managed (by decide)
    intro page
    by_cases same : page = p
    · subst same
      rw [Function.update_self, if_pos rfl, if_pos rfl, free]
      rfl
    · rw [Function.update_of_ne same, if_neg same, if_neg same]
  exact counted.fill managed unused _

end Taken

section Freed

variable {p : Nat}

/-- What `free_page` leaves in order, apart from the reference that goes. -/
structure Released (L : Layout) (m m' : Memory) (p : Nat) : Prop where
  words : m'.words = m.words
  high : m'.highMemory = m.highMemory
  reserved : ∀ i < pagingPages, ¬ L.Managed (i + lowMem) → m'.memMap i ≠ 0
  sharedPage : ∀ k, (m'.sharedPages k).count ≠ 0 →
    L.Managed (m'.sharedPages k).physicalAddress ∧ m'.memMap (mapNr (m'.sharedPages k).physicalAddress) ≠ 0
  distinct : ∀ j k, (m'.sharedPages j).count ≠ 0 → (m'.sharedPages k).count ≠ 0 →
    (m'.sharedPages j).physicalAddress = (m'.sharedPages k).physicalAddress → j = k
  booked : ∀ page, lowMem ≤ page → m'.booked page + (if page = p then 1 else 0) = m.booked page

theorem Released.views (released : Released L m m' p) : m'.pdes = m.pdes ∧ m'.ptes = m.ptes :=
  views_kept (fun w _ => congrFun released.words w) (fun _ _ _ => congrFun released.words _)

theorem less_live {k i : Fin 64} (live : ((m.setShared k (m.sharedPages k).less).sharedPages i).count ≠ 0)
    (before : (m.sharedPages k).count ≠ 0) :
    (m.sharedPages i).count ≠ 0 ∧ ((m.setShared k (m.sharedPages k).less).sharedPages i).physicalAddress =
      (m.sharedPages i).physicalAddress := by
  by_cases same : i = k
  · subst same
    exact ⟨before, by rw [show (m.setShared i (m.sharedPages i).less).sharedPages i = (m.sharedPages i).less
      from Function.update_self _ _ _]; rfl⟩
  · have kept : (m.setShared k (m.sharedPages k).less).sharedPages i = m.sharedPages i :=
      Function.update_of_ne same _ _
    rw [kept] at live ⊢
    exact ⟨live, rfl⟩

theorem Sound.released (sound : Sound L m held) (managed : L.Managed p) (inUse : m.memMap (mapNr p) ≠ 0) :
    Released L m (m.freed p) p := by
  have above := managed.physical.1
  have given := freed_given m p
  have unmanaged (i : Nat) (below : i < pagingPages) (outside : ¬ L.Managed (i + lowMem)) : i ≠ mapNr p := by
    intro same
    have page : i + lowMem = p := by
      unfold mapNr at same
      omega
    exact outside (page ▸ managed)
  refine ⟨given.words, given.high, ?_, ?_, ?_, fun page above' => given.booked above inUse above'⟩
  · intro i below outside
    have kept := sound.reserved i below outside
    have elsewhere := unmanaged i below outside
    generalize m.freed p = after at given
    cases given with
    | own | last =>
      rw [setMap_elsewhere elsewhere]
      exact kept
    | shared => exact kept
  · generalize m.freed p = after at given
    cases given with
    | own unshared =>
      intro k live
      have before := sound.sharedPage k live
      refine ⟨before.1, ?_⟩
      rw [show (m.setMap p (m.memMap (mapNr p) - 1)).sharedPages = m.sharedPages from rfl,
        setMap_other above before.1.physical.1 (unshared k live)]
      exact before.2
    | shared k here live others =>
      intro i alive
      obtain ⟨before, page⟩ := less_live alive live
      rw [page]
      exact sound.sharedPage i before
    | last k here live only =>
      intro i alive
      have shared : ((m.setShared k (m.sharedPages k).less).setMap p (m.memMap (mapNr p) - 1)).sharedPages =
        (m.setShared k (m.sharedPages k).less).sharedPages := rfl
      rw [shared] at alive ⊢
      obtain ⟨before, page⟩ := less_live alive live
      have kept := sound.sharedPage i before
      have elsewhere : (m.sharedPages i).physicalAddress ≠ p := by
        intro same
        have equal := sound.distinct i k before live (same.trans here.symm)
        subst equal
        apply alive
        rw [show (m.setShared i (m.sharedPages i).less).sharedPages i = (m.sharedPages i).less from
          Function.update_self _ _ _]
        exact only
      rw [page]
      refine ⟨kept.1, ?_⟩
      rw [setMap_other above kept.1.physical.1 elsewhere]
      exact kept.2
  · generalize m.freed p = after at given
    cases given with
    | own => exact sound.distinct
    | shared k here live others | last k here live only =>
      intro i j alive alive' same
      obtain ⟨before, page⟩ := less_live alive live
      obtain ⟨before', page'⟩ := less_live alive' live
      apply sound.distinct i j before before'
      exact page.symm.trans (same.trans page')

theorem Sound.unref (sound : Sound L m held) (known : p < lowMem ∨ L.Managed p)
    (used : 0 < m.tables p + m.mappings p) : Released L m (m.unref p) p := by
  rcases Nat.lt_or_ge p lowMem with low | above
  · rw [Memory.unref, if_pos low]
    refine ⟨rfl, rfl, sound.reserved, sound.sharedPage, sound.distinct, ?_⟩
    intro page above
    rw [if_neg (by omega), Nat.add_zero]
  · have managed := known.resolve_left (by omega)
    rw [Memory.unref, if_neg (by omega)]
    exact sound.released managed (sound.mapped_used managed (by omega))

theorem Sound.drop (sound : Sound L m held) (managed : L.Managed p) (holding : 0 < held p) :
    Sound L (m.freed p) (Function.update held p (held p - 1)) := by
  have inUse := sound.mapped_used managed (by omega)
  have released := sound.released managed inUse
  have views := released.views
  constructor
  case high => exact released.high.trans sound.high
  case reserved => exact released.reserved
  case single => exact fun page => (tables_eq views.1).trans_le (sound.single page)
  case tablePage => exact fun page use => sound.tablePage page ((tables_eq views.1) ▸ use)
  case apart =>
    intro page above use
    exact (mappings_eq views.2).trans (sound.apart page above ((tables_eq views.1) ▸ use))
  case dataPage => exact fun page use => sound.dataPage page ((mappings_eq views.2) ▸ use)
  case sharedPage => exact released.sharedPage
  case distinct => exact released.distinct
  case balanced =>
    intro page inside
    have before := sound.balanced page inside
    have books := released.booked page inside.physical.1
    rw [tables_eq views.1, mappings_eq views.2]
    by_cases same : page = p
    · rw [if_pos same] at books
      rw [same] at before books ⊢
      rw [Function.update_self]
      omega
    · rw [if_neg same] at books
      rw [Function.update_of_ne same]
      omega

end Freed

section Tables

variable {d : Fin 1024} {t : Nat}

theorem take_zero (m : Memory) {p i : Nat} (index : i < 1024) : (m.take p).words (tableWord p i) = 0 :=
  fill_word (m := m.setMap p 1) _ index

theorem pointsTo_zero (page : Nat) : pointsTo page 0 = 0 := pointsTo_absent present_zero

theorem Sound.newTable (sound : Sound L m held) (absent : present (m.words d) = false) (managed : L.Managed t)
    (free : m.memMap (mapNr t) = 0) : Sound L ((m.take t).set d (entry t)) held := by
  obtain ⟨unused, unmapped, -, -⟩ := sound.free managed free
  have positive : 0 < t := Nat.lt_of_lt_of_le (by decide) managed.physical.1
  have taken := sound.take managed free
  have before := take_views positive unused
  have dir : (m.take t).words d = m.words d := congrFun before.1 d
  have views := taken.laid.install_views (dir ▸ absent) positive managed.physical.2 fun i => take_zero m
  have tables (page : Nat) : ((m.take t).set d (entry t)).tables page =
      m.tables page + if t = page then 1 else 0 := by
    have moved := tables_update page views.1
    rw [dir, pointsTo_absent absent, pointsTo_entry managed.physical.2, tables_eq before.1] at moved
    omega
  have mappings (page : Nat) : ((m.take t).set d (entry t)).mappings page = m.mappings page := by
    rw [mappings_eq views.2, mappings_eq before.2]
  have other {page : Nat} (apart : t ≠ page) : ((m.take t).set d (entry t)).tables page = m.tables page := by
    rw [tables, if_neg apart, Nat.add_zero]
  constructor
  case high => exact taken.high
  case reserved => exact taken.reserved
  case single =>
    intro page
    have single := sound.single page
    rw [tables]
    by_cases same : t = page
    · subst same
      rw [if_pos rfl]
      omega
    · rw [if_neg same]
      omega
  case tablePage =>
    intro page use
    by_cases same : t = page
    · exact .inl (same ▸ managed)
    · rw [other same] at use
      exact sound.tablePage page use
  case apart =>
    intro page above use
    rw [mappings]
    by_cases same : t = page
    · exact same ▸ unmapped
    · rw [other same] at use
      exact sound.apart page above use
  case dataPage => exact fun page use => sound.dataPage page ((mappings page) ▸ use)
  case sharedPage => exact taken.sharedPage
  case distinct => exact taken.distinct
  case balanced =>
    intro page inside
    have balanced := taken.balanced page inside
    rw [tables_eq before.1, mappings_eq before.2] at balanced
    rw [tables, mappings]
    rw [booked_set, balanced]
    by_cases same : page = t
    · subst same
      rw [Function.update_self, if_pos rfl]
      omega
    · rw [Function.update_of_ne same, if_neg fun equal => same equal.symm]
      omega

theorem Sound.dropTable (sound : Sound L m held) (here : present (m.words d) = true)
    (empty : ∀ i < 1024, m.words (m.entryAt d i) = 0) :
    Sound L ((m.unref (frame (m.words d))).set d 0) held := by
  have use := tables_pos d here
  have known := (sound.tablePage _ use).symm.imp_left And.right
  have released := sound.unref known (by omega)
  have laid := sound.laid.of_pdes released.views.1
  have after := laid.remove_views (d := d) fun i index => by
    rw [entryAt_of (congrFun released.words d), released.words]
    exact empty i index
  have tables (page : Nat) : ((m.unref (frame (m.words d))).set d 0).tables page +
      pointsTo page (m.words d) = m.tables page := by
    have moved := tables_update page after.1
    rw [released.words, pointsTo_zero, tables_eq released.views.1] at moved
    omega
  have mappings (page : Nat) : ((m.unref (frame (m.words d))).set d 0).mappings page = m.mappings page := by
    rw [mappings_eq after.2, mappings_eq released.views.2]
  have fewer (page : Nat) : ((m.unref (frame (m.words d))).set d 0).tables page ≤ m.tables page := by
    have moved := tables page
    omega
  constructor
  case high => exact released.high.trans sound.high
  case reserved => exact released.reserved
  case single => exact fun page => (fewer page).trans (sound.single page)
  case tablePage => exact fun page use => sound.tablePage page (use.trans_le (fewer page))
  case apart => exact fun page above use => (mappings page).trans (sound.apart page above (use.trans_le (fewer page)))
  case dataPage => exact fun page use => sound.dataPage page ((mappings page) ▸ use)
  case sharedPage => exact released.sharedPage
  case distinct => exact released.distinct
  case balanced =>
    intro page inside
    have before := sound.balanced page inside
    have books := released.booked page inside.physical.1
    have count := tables page
    have points : pointsTo page (m.words d) = if page = frame (m.words d) then 1 else 0 := by
      simp [pointsTo, here, eq_comm]
    rw [points] at count
    rw [booked_set, mappings]
    omega

end Tables

section Entries

variable {d i : Fin 1024}

theorem Laid.set_counts (laid : Laid m) (here : present (m.words d) = true) (i : Fin 1024) (e : BitVec 32)
    (page : Nat) : (m.set (m.entryAt d i) e).tables page = m.tables page ∧
      (m.set (m.entryAt d i) e).mappings page + pointsTo page (m.pte d i) =
        m.mappings page + pointsTo page e :=
  ⟨tables_eq (laid.set_pdes here i e), mappings_update page (laid.set_ptes here i e)⟩

theorem Sound.install (sound : Sound L m held) (here : present (m.words d) = true) {p : Nat} {e : BitVec 32}
    (points : ∀ page, pointsTo page e = if page = p then 1 else 0) (managed : L.Managed p)
    (plain : m.tables p = 0) (holding : 0 < held p) :
    Sound L (m.set (m.entryAt d i) e) (fun page => held page + pointsTo page (m.pte d i) - pointsTo page e) := by
  have counts := sound.laid.set_counts here i e
  apply sound.relaid
  case map | shared | high => rfl
  case tables => exact fun page => (counts page).1
  case apart =>
    intro page above use
    have moved := (counts page).2
    have none := sound.apart page above use
    rw [points, if_neg (by rintro rfl; omega)] at moved
    omega
  case dataPage =>
    intro page use
    have moved := (counts page).2
    by_cases same : page = p
    · exact .inr (same ▸ managed)
    · rw [points, if_neg same] at moved
      exact sound.dataPage page (by omega)
  case even =>
    intro page _
    have moved := (counts page).2
    by_cases same : page = p
    · subst same
      rw [points, if_pos rfl] at moved ⊢
      omega
    · rw [points, if_neg same] at moved ⊢
      omega

theorem Sound.mapLow (sound : Sound L m held) (here : present (m.words d) = true) {e : BitVec 32}
    (absent : present (m.pte d i) = false) (low : frame e < lowMem) :
    Sound L (m.set (m.entryAt d i) e) held := by
  apply sound.set_alike here
  intro page above
  rw [pointsTo_absent absent, pointsTo, if_neg fun both => by omega]

theorem Sound.unmap (sound : Sound L m held) (here : present (m.words d) = true) :
    Sound L (Move.unmapped m (m.entryAt d i)) held := by
  unfold Move.unmapped
  rw [word_of_pte here]
  by_cases mapped : present (m.pte d i) = true
  · rw [if_pos mapped]
    have use := mappings_pos d i mapped
    have released := sound.unref (sound.dataPage _ use) (by omega)
    generalize m.unref (frame (m.pte d i)) = freed at released
    have views := released.views
    have dir : freed.words d = m.words d := congrFun released.words d
    have counts := (sound.laid.of_pdes views.1).set_counts (d := d) (dir ▸ here) i 0
    rw [entryAt_congr views.1, pte_congr views.2] at counts
    have tables (page : Nat) := (counts page).1.trans (tables_eq views.1)
    have mappings (page : Nat) : (freed.set (m.entryAt d i) 0).mappings page +
        pointsTo page (m.pte d i) = m.mappings page := by
      have moved := (counts page).2
      have none := pointsTo_zero page
      have same : freed.mappings page = m.mappings page := mappings_eq views.2
      omega
    constructor
    case high => exact released.high.trans sound.high
    case reserved => exact released.reserved
    case single => exact fun page => (tables page).trans_le (sound.single page)
    case tablePage => exact fun page use => sound.tablePage page ((tables page) ▸ use)
    case apart =>
      intro page above use
      have none := sound.apart page above ((tables page) ▸ use)
      have moved := mappings page
      omega
    case dataPage =>
      intro page use
      have moved := mappings page
      exact sound.dataPage page (by omega)
    case sharedPage => exact released.sharedPage
    case distinct => exact released.distinct
    case balanced =>
      intro page inside
      have before := sound.balanced page inside
      have books := released.booked page inside.physical.1
      have moved := mappings page
      have points : pointsTo page (m.pte d i) = if page = frame (m.pte d i) then 1 else 0 := by
        simp [pointsTo, mapped, eq_comm]
      rw [points] at moved
      rw [booked_set, tables]
      omega
  · rw [if_neg mapped]
    apply sound.set_alike here
    intro page _
    rw [pointsTo_zero, pointsTo_absent (by simpa using mapped)]

theorem succ_toNat {w : Nat} {n : BitVec w} (room : n ≠ BitVec.allOnes w) : (n + 1).toNat = n.toNat + 1 := by
  have bound := n.isLt
  have below : n.toNat ≠ 2 ^ w - 1 := by
    intro full
    apply room
    apply BitVec.eq_of_toNat_eq
    rw [full, BitVec.toNat_allOnes]
  have one : (1 : BitVec w).toNat = 1 := by
    simp only [BitVec.ofNat_eq_ofNat, BitVec.toNat_ofNat]
    exact Nat.mod_eq_of_lt (by omega)
  rw [BitVec.toNat_add, one, Nat.mod_eq_of_lt (by omega)]

theorem pointsTo_present {e : BitVec 32} (here : present e = true) (page : Nat) :
    pointsTo page e = if page = frame e then 1 else 0 := by
  simp [pointsTo, here, eq_comm]

section SetMap

variable {p : Nat} {n : BitVec 8}

theorem setMap_words : (m.setMap p n).words = m.words := rfl

theorem setMap_entryAt : (m.setMap p n).entryAt d i = m.entryAt d i := rfl

theorem setMap_pte : (m.setMap p n).pte d i = m.pte d i := rfl

theorem setMap_set {w : Nat} {e : BitVec 32} : (m.setMap p n).set w e = (m.set w e).setMap p n := rfl

end SetMap

theorem Sound.count (sound : Sound L m held) {p : Nat} (managed : L.Managed p)
    (room : m.memMap (mapNr p) ≠ BitVec.allOnes 8) :
    Sound L (m.setMap p (m.memMap (mapNr p) + 1)) (Function.update held p (held p + 1)) := by
  have grown := succ_toNat room
  apply sound.recount managed
  · intro zero
    rw [zero] at grown
    cases grown
  · intro page
    by_cases same : page = p
    · rw [same, Function.update_self, if_pos rfl, if_pos rfl, grown]
      omega
    · rw [Function.update_of_ne same, if_neg same, if_neg same]

theorem Sound.share (sound : Sound L m held) {d' : Fin 1024} (mapped : present (m.pte d i) = true)
    (above : lowMem ≤ frame (m.pte d i)) (here' : present (m.words d') = true)
    (absent : present (m.pte d' i) = false) (room : m.memMap (mapNr (frame (m.pte d i))) ≠ 255) :
    Sound L (Move.shared m (m.entryAt d i) (m.entryAt d' i)) held := by
  have here := table_of_pte mapped
  have managed := sound.mapped_managed mapped above
  have plain := sound.mapped_plain mapped above
  have apart : d ≠ d' := by
    rintro rfl
    rw [mapped] at absent
    cases absent
  have points (page : Nat) : pointsTo page (protect (m.pte d i)) = pointsTo page (m.pte d i) :=
    pointsTo_congr (present_protect _) (frame_protect _)
  have counted := sound.count managed room
  have installed := counted.install (d := d') (i := i) here'
    (fun page => (points page).trans (pointsTo_present mapped page)) managed plain
    (by rw [Function.update_self]; omega)
  have even : (fun page => Function.update held (frame (m.pte d i)) (held (frame (m.pte d i)) + 1) page +
      pointsTo page (m.pte d' i) - pointsTo page (protect (m.pte d i))) = held := by
    funext page
    rw [points, pointsTo_absent absent, pointsTo_present mapped]
    by_cases same : page = frame (m.pte d i)
    · rw [same, Function.update_self, if_pos rfl]
      omega
    · rw [Function.update_of_ne same, if_neg same]
      omega
  rw [setMap_pte, setMap_entryAt, even] at installed
  have dirs := sound.laid.set_pdes here' i (protect (m.pte d i))
  have kept : (m.set (m.entryAt d' i) (protect (m.pte d i))).pte d i = m.pte d i := by
    have views := congrFun (sound.laid.set_ptes here' i (protect (m.pte d i))) (d, i)
    rwa [Function.update_of_ne fun same => apart (Prod.mk.inj same).1] at views
  have dir : (m.set (m.entryAt d' i) (protect (m.pte d i))).words d = m.words d := congrFun dirs d
  have marked := installed.set_alike (d := d) (i := i) (e := protect (m.pte d i))
    (by rw [setMap_set, setMap_words, dir]; exact here)
    (fun page _ => by rw [setMap_set, setMap_pte, kept, points])
  rw [setMap_set, setMap_entryAt, entryAt_of dir, setMap_set] at marked
  unfold Move.shared
  rw [word_of_pte here]
  simp only [frame_protect]
  exact marked

theorem Sound.data_views (sound : Sound L m held) (mapped : present (m.pte d i) = true)
    (above : lowMem ≤ frame (m.pte d i)) {j : Nat} (inPage : j < 1024) (value : BitVec 32) :
    (m.set (tableWord (frame (m.pte d i)) j) value).pdes = m.pdes ∧
      (m.set (tableWord (frame (m.pte d i)) j) value).ptes = m.ptes := by
  have plain := sound.mapped_plain mapped above
  apply views_kept
  · intro w low
    apply set_other
    have page : tableWord (frame (m.pte d i)) j / 1024 = frame (m.pte d i) := tableWord_div inPage
    simp only [lowMem] at above
    omega
  · intro d' i' here'
    apply set_other
    intro same
    have use := tables_pos d' here'
    rw [(tableWord_inj i'.isLt inPage same).1, plain] at use
    cases use

theorem Sound.store (sound : Sound L m held) (mapped : present (m.pte d i) = true)
    (above : lowMem ≤ frame (m.pte d i)) {j : Nat} (inPage : j < 1024) (value : BitVec 32) :
    Sound L ((m.set (tableWord (frame (m.pte d i)) j) value).set (m.entryAt d i) (touched (m.pte d i)))
      held := by
  have views := sound.data_views mapped above inPage value
  have stored : Sound L (m.set (tableWord (frame (m.pte d i)) j) value) held :=
    sound.same_views rfl rfl rfl views
  have dir : (m.set (tableWord (frame (m.pte d i)) j) value).words d = m.words d := congrFun views.1 d
  rw [← entryAt_congr views.1]
  apply stored.set_alike (dir ▸ table_of_pte mapped)
  intro page _
  rw [pte_congr views.2]
  exact pointsTo_congr (present_touched _) (frame_touched _)

theorem Sound.grant (sound : Sound L m held) (mapped : present (m.pte d i) = true) :
    Sound L (m.set (m.entryAt d i) (m.pte d i ||| 2)) held := by
  apply sound.set_alike (table_of_pte mapped)
  intro page _
  exact pointsTo_congr (present_grant _) (frame_grant _)

theorem Sound.rebook (sound : Sound L m held) {held' : Nat → Nat}
    (even : ∀ page, L.Managed page → held' page = held page) : Sound L m held' :=
  sound.relaid rfl rfl rfl (fun _ => rfl) sound.apart sound.dataPage fun page managed => by rw [even page managed]

theorem Sound.lower (sound : Sound L m held) {p : Nat} (managed : L.Managed p) (holding : 0 < held p)
    (more : m.memMap (mapNr p) ≠ 1) :
    Sound L (m.setMap p (m.memMap (mapNr p) - 1)) (Function.update held p (held p - 1)) := by
  have inUse := sound.mapped_used managed (by omega)
  have pred := pred_toNat inUse
  apply sound.recount managed
  · intro zero
    rw [zero] at pred
    exact more (BitVec.eq_of_toNat_eq pred.symm)
  · intro page
    by_cases same : page = p
    · rw [same, Function.update_self, if_pos rfl, if_pos rfl]
      omega
    · rw [Function.update_of_ne same, if_neg same, if_neg same]

theorem Sound.copy (sound : Sound L m held) (mapped : present (m.pte d i) = true) {p : Nat}
    (managed : L.Managed p) (free : m.memMap (mapNr p) = 0)
    (more : lowMem ≤ frame (m.pte d i) → m.memMap (mapNr (frame (m.pte d i))) ≠ 1) :
    Sound L (Move.copied m (m.entryAt d i) p) held := by
  have here := table_of_pte mapped
  obtain ⟨unused, unmapped, -, -⟩ := sound.free managed free
  have above := managed.physical.1
  have views := take_views (Nat.lt_of_lt_of_le (by decide) above) unused
  have points (page : Nat) : pointsTo page (entry p) = if page = p then 1 else 0 := by
    rw [pointsTo_present (present_entry p), frame_entry managed.physical.2]
  have other : frame (m.pte d i) ≠ p := by
    intro same
    have use := mappings_pos d i mapped
    rw [same, unmapped] at use
    cases use
  have dir : (m.take p).words d = m.words d := congrFun views.1 d
  have installed := (sound.take managed free).install (d := d) (i := i) (dir ▸ here) points managed
    ((tables_eq views.1).trans unused) (by rw [Function.update_self]; omega)
  rw [entryAt_of dir, pte_congr views.2] at installed
  have booked : Sound L ((m.take p).set (m.entryAt d i) (entry p))
      (fun page => held page + pointsTo page (m.pte d i)) := by
    apply installed.rebook
    intro page _
    rw [points, pointsTo_present mapped]
    by_cases same : page = p
    · rw [same, Function.update_self, if_pos rfl, if_neg other.symm]
      omega
    · rw [Function.update_of_ne same, if_neg same, Nat.sub_zero]
  have plain : ((m.take p).set (m.entryAt d i) (entry p)).tables p = 0 := by
    have dirs := (sound.take managed free).laid.set_pdes (d := d) (dir ▸ here) i (entry p)
    rw [entryAt_of dir] at dirs
    rw [tables_eq dirs, tables_eq views.1, unused]
  unfold Move.copied Memory.copyPage
  rw [word_of_pte here]
  apply Sound.fill _ managed
  · split <;> exact plain
  split
  · rename_i high
    have inside := sound.mapped_managed mapped high
    have map : (m.take p).memMap (mapNr (frame (m.pte d i))) = m.memMap (mapNr (frame (m.pte d i))) :=
      setMap_other above high other
    have lowered := booked.lower inside (by rw [pointsTo_self mapped]; omega) (map ▸ more high)
    apply lowered.rebook
    intro page _
    by_cases same : page = frame (m.pte d i)
    · subst same
      rw [Function.update_self, pointsTo_self mapped]
      omega
    · rw [Function.update_of_ne same, pointsTo_present mapped, if_neg same]
      omega
  · rename_i low
    apply booked.rebook
    intro page inside
    have high := inside.physical.1
    rw [pointsTo_present mapped, if_neg (by omega)]
    omega

end Entries

section Keys

variable {k : Fin 64}

theorem setShared_other {j : Fin 64} {s : SharedPage} (apart : j ≠ k) :
    (m.setShared k s).sharedPages j = m.sharedPages j := Function.update_of_ne apart _ _

@[simp] theorem setShared_self {s : SharedPage} : (m.setShared k s).sharedPages k = s := Function.update_self _ _ _

theorem Sound.rekey (sound : Sound L m held) {s : SharedPage} {held' : Nat → Nat}
    (managed : L.Managed s.physicalAddress) (inUse : m.memMap (mapNr s.physicalAddress) ≠ 0)
    (own : ∀ j, j ≠ k → (m.sharedPages j).count ≠ 0 → (m.sharedPages j).physicalAddress ≠ s.physicalAddress)
    (even : ∀ page, held' page + sharers page (m.sharedPages k) = held page + sharers page s) :
    Sound L (m.setShared k s) held' where
  high := sound.high
  reserved := sound.reserved
  single := sound.single
  tablePage := sound.tablePage
  apart := sound.apart
  dataPage := sound.dataPage
  sharedPage := by
    intro j alive
    by_cases same : j = k
    · subst same
      rw [setShared_self]
      exact ⟨managed, inUse⟩
    · rw [setShared_other same] at alive ⊢
      exact sound.sharedPage j alive
  distinct := by
    intro i j alive alive' equal
    by_cases first : i = k
    · by_cases second : j = k
      · rw [first, second]
      · rw [first, setShared_self, setShared_other second] at equal
        rw [setShared_other second] at alive'
        exact absurd equal.symm (own j second alive')
    · by_cases second : j = k
      · rw [second, setShared_self, setShared_other first] at equal
        rw [setShared_other first] at alive
        exact absurd equal (own i first alive)
      · rw [setShared_other first] at alive equal
        rw [setShared_other second] at alive' equal
        exact sound.distinct i j alive alive' equal
  balanced := by
    intro page inside
    have before := sound.balanced page inside
    have moved := booked_setShared (m := m) (k := k) (s := s) page
    have difference := even page
    show (m.setShared k s).booked page = m.tables page + m.mappings page + held' page
    omega

theorem Sound.claim (sound : Sound L m held) {p : Nat} (dead : (m.sharedPages k).count = 0)
    (managed : L.Managed p) (inUse : m.memMap (mapNr p) ≠ 0)
    (own : ∀ j, (m.sharedPages j).count ≠ 0 → (m.sharedPages j).physicalAddress ≠ p) :
    Sound L (m.setShared k ⟨1, p⟩) held := by
  apply sound.rekey managed inUse fun j _ => own j
  intro page
  have alone : sharers page ⟨1, p⟩ = 0 := by
    unfold sharers
    split <;> rfl
  rw [sharers_dead dead, alone]

theorem Sound.get (sound : Sound L m held) (live : (m.sharedPages k).count ≠ 0)
    (room : (m.sharedPages k).count ≠ BitVec.allOnes 32) :
    Sound L (m.setShared k (m.sharedPages k).more) (Function.update held (m.sharedPages k).physicalAddress
      (held (m.sharedPages k).physicalAddress + 1)) := by
  obtain ⟨managed, inUse⟩ := sound.sharedPage k live
  have grown : (m.sharedPages k).more.count.toNat = (m.sharedPages k).count.toNat + 1 := succ_toNat room
  have positive : (m.sharedPages k).count.toNat ≠ 0 := fun zero => live (BitVec.eq_of_toNat_eq zero)
  have more : (m.sharedPages k).more.count ≠ 0 := by
    intro zero
    rw [zero] at grown
    cases grown
  apply sound.rekey (s := (m.sharedPages k).more) managed inUse
  · exact fun j other alive same => other (sound.distinct j k alive live same)
  · intro page
    have page_of : (m.sharedPages k).more.physicalAddress = (m.sharedPages k).physicalAddress := rfl
    rw [sharers_live live, sharers_live more, page_of]
    by_cases same : page = (m.sharedPages k).physicalAddress
    · subst same
      rw [Function.update_self, if_pos rfl, if_pos rfl]
      omega
    · rw [Function.update_of_ne same, if_neg same, if_neg same]

end Keys

theorem Move.Legal.sound {move : Move} {b : Books} (legal : move.Legal L b) (sound : Sound L b.memory b.held) :
    Sound L (move.apply b).memory (move.apply b).held := by
  cases move with
  | take p => exact sound.take legal.1 legal.2
  | drop p => exact sound.drop legal.1 legal.2
  | fill p content => exact sound.fill legal.1 legal.2.1 content
  | newTable d t => exact sound.newTable legal.1 legal.2.1 legal.2.2
  | map d i p =>
    obtain ⟨here, managed, plain, holding⟩ := legal
    have points (page : Nat) : pointsTo page (entry p) = if page = p then 1 else 0 := by
      rw [pointsTo_present (present_entry p), frame_entry managed.physical.2]
    exact sound.install here points managed plain holding
  | mapLow d i e => exact sound.mapLow legal.1 legal.2.1 legal.2.2.2.1
  | share d i d' => exact sound.share legal.1 legal.2.1 legal.2.2.1 legal.2.2.2.1 legal.2.2.2.2
  | grant d i => exact sound.grant legal.1
  | copy d i p => exact sound.copy legal.1 legal.2.1 legal.2.2.1 legal.2.2.2
  | unmap d i => exact sound.unmap legal
  | dropTable d => exact sound.dropTable legal.1 legal.2
  | store d i j value => exact sound.store legal.1 legal.2.2.1 legal.2.2.2 value
  | claim k p => exact sound.claim legal.1 legal.2.1 legal.2.2.1 legal.2.2.2
  | get k => exact sound.get legal.1 legal.2

end Linux011.Mm

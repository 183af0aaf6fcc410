import Linux011.Semaphore.Registry
import Mathlib.Data.List.Nodup

namespace Linux011.Semaphore

/-- From `p` on the list runs through the blocks `as` and ends, each pointing back to the one before. -/
def Linked (h : Heap) : Loc → List Nat → Prop
  | p, [] => (h.node p).mNext = none
  | p, a :: as =>
    (h.node p).mNext = some (.block a) ∧ (h.node (.block a)).mPrev = some p ∧ Linked h (.block a) as

/-- The node a walk over `as` from `p` ends at. -/
def lastLoc : Loc → List Nat → Loc
  | p, [] => p
  | _, a :: as => lastLoc (.block a) as

def locs (p : Loc) (as : List Nat) : List Loc := p :: as.map .block

theorem lastLoc_mem (p : Loc) (as : List Nat) : lastLoc p as ∈ locs p as := by
  induction as generalizing p with
  | nil => simp [lastLoc, locs]
  | cons a as ih => exact List.mem_cons_of_mem _ (ih (.block a))

/-- The list depends on `m_next` of its nodes and on `m_prev` of all but the first. -/
theorem Linked.congr {h h' : Heap} {p : Loc} {as : List Nat} (linked : Linked h p as)
    (next : ∀ l ∈ locs p as, (h'.node l).mNext = (h.node l).mNext)
    (prev : ∀ a ∈ as, (h'.node (.block a)).mPrev = (h.node (.block a)).mPrev) : Linked h' p as := by
  induction as generalizing p with
  | nil =>
    rw [Linked, next p (by simp [locs])]
    exact linked
  | cons a as ih =>
    refine ⟨?_, ?_, ?_⟩
    · rw [next p (by simp [locs])]; exact linked.1
    · rw [prev a (by simp)]; exact linked.2.1
    · apply ih linked.2.2
      · intro l member
        exact next l (List.mem_cons_of_mem _ member)
      · intro b member
        exact prev b (by simp [member])

theorem Linked.append {h h' : Heap} {p : Loc} {as : List Nat} {a : Nat} (linked : Linked h p as)
    (next : ∀ l ∈ locs p as, l ≠ lastLoc p as → (h'.node l).mNext = (h.node l).mNext)
    (prev : ∀ b ∈ as, (h'.node (.block b)).mPrev = (h.node (.block b)).mPrev)
    (nodup : (locs p as).Nodup) (tail : (h'.node (lastLoc p as)).mNext = some (.block a))
    (back : (h'.node (.block a)).mPrev = some (lastLoc p as)) (ends : (h'.node (.block a)).mNext = none) :
    Linked h' p (as ++ [a]) := by
  induction as generalizing p with
  | nil => exact ⟨tail, back, ends⟩
  | cons b as ih =>
    simp only [lastLoc] at next tail back
    have notLast : p ≠ lastLoc (.block b) as := by
      intro same
      have member := lastLoc_mem (.block b) as
      rw [← same] at member
      exact (List.nodup_cons.mp nodup).1 member
    refine ⟨?_, ?_, ?_⟩
    · rw [next p (by simp [locs]) notLast]; exact linked.1
    · rw [prev b (by simp)]; exact linked.2.1
    · apply ih linked.2.2 _ _ (List.nodup_cons.mp nodup).2 tail back
      · intro l member other
        exact next l (List.mem_cons_of_mem _ member) other
      · intro c member
        exact prev c (by simp [member])

theorem Linked.before {h : Heap} {p : Loc} {l r : List Nat} {a : Nat} (linked : Linked h p (l ++ a :: r)) :
    (h.node (.block a)).mPrev = some (lastLoc p l) ∧ (h.node (lastLoc p l)).mNext = some (.block a) ∧
      Linked h (.block a) r := by
  induction l generalizing p with
  | nil => exact ⟨linked.2.1, linked.1, linked.2.2⟩
  | cons b l ih => exact ih linked.2.2

theorem Linked.remove {h h' : Heap} {p : Loc} {l r : List Nat} {a : Nat}
    (linked : Linked h p (l ++ a :: r)) (nodup : (locs p (l ++ a :: r)).Nodup)
    (skip : (h'.node (lastLoc p l)).mNext = (h.node (.block a)).mNext)
    (back : ∀ b r', r = b :: r' → (h'.node (.block b)).mPrev = some (lastLoc p l))
    (next : ∀ x ∈ locs p (l ++ r), x ≠ lastLoc p l → (h'.node x).mNext = (h.node x).mNext)
    (prev : ∀ b ∈ l ++ r, r.head? ≠ some b → (h'.node (.block b)).mPrev = (h.node (.block b)).mPrev) :
    Linked h' p (l ++ r) := by
  induction l generalizing p with
  | nil =>
    obtain ⟨_, _, rest⟩ := linked
    cases r with
    | nil => exact skip.trans rest
    | cons b r =>
      have distinct : p ∉ List.map Loc.block (b :: r) ∧ (b :: r).Nodup := by
        have all := List.nodup_cons.mp nodup
        simp only [List.nil_append, List.map_cons, List.mem_cons, not_or, List.nodup_cons] at all
        refine ⟨by simpa using ⟨all.1.2.1, by simpa using all.1.2.2⟩, ?_⟩
        have tail := all.2.2
        rw [← List.nodup_cons, ← List.map_cons (f := Loc.block)] at tail
        exact List.Nodup.of_map _ tail
      refine ⟨skip.trans rest.1, back b r rfl, ?_⟩
      apply Linked.congr rest.2.2
      · intro x member
        have member' : x ∈ locs p ([] ++ b :: r) := List.mem_cons_of_mem _ (by simpa [locs] using member)
        apply next x member'
        intro same
        apply distinct.1
        rw [← show x = p from same]
        simpa [locs] using member
      · intro c member
        apply prev c (by simp [member])
        intro is
        simp only [List.head?_cons, Option.some.injEq] at is
        exact (List.nodup_cons.mp distinct.2).1 (is ▸ member)
  | cons c l ih =>
    have notLast : p ≠ lastLoc (.block c) l := by
      intro same
      have member := lastLoc_mem (.block c) l
      rw [← same] at member
      apply (List.nodup_cons.mp nodup).1
      have weaker : ∀ x, x ∈ locs (.block c) l → x ∈ List.map Loc.block (c :: l ++ a :: r) := by
        intro x h
        simp only [locs, List.mem_cons, List.mem_map, List.cons_append, List.map_cons, List.map_append,
          List.mem_append] at h ⊢
        rcases h with same | found
        · exact .inl same
        · exact .inr (.inl found)
      exact weaker p member
    have notHead : r.head? ≠ some c := by
      intro is
      have member : c ∈ r := List.mem_of_mem_head? is
      have inner := (List.nodup_cons.mp nodup).2
      simp only [List.cons_append, List.map_cons, List.nodup_cons] at inner
      apply inner.1
      simp [member]
    refine ⟨?_, ?_, ?_⟩
    · rw [next p (by simp [locs]) notLast]; exact linked.1
    · rw [prev c (by simp) notHead]; exact linked.2.1
    · apply ih linked.2.2 (List.nodup_cons.mp nodup).2 skip back
      · intro x member other
        exact next x (List.mem_cons_of_mem _ member) other
      · intro b member
        exact prev b (by simp only [List.cons_append, List.mem_cons]; exact .inr member)

theorem findLoop_linked {h : Heap} {name : List UInt8} (terminated : 0 ∈ name) {p : Loc} {as : List Nat}
    (linked : Linked h p as) (names : ∀ l ∈ locs p as, 0 ∈ (h.node l).mName) {fuel : Nat}
    (enough : as.length < fuel) :
    ∃ q ∈ locs p as, findLoop h name fuel p = some q ∧
      (cString (h.node q).mName = cString name ∨
        q = lastLoc p as ∧ ∀ l ∈ locs p as, cString (h.node l).mName ≠ cString name) := by
  induction as generalizing p fuel with
  | nil =>
    obtain ⟨fuel, rfl⟩ : ∃ f, fuel = f + 1 := ⟨fuel - 1, by simp at enough; omega⟩
    refine ⟨p, by simp [locs], ?_, ?_⟩
    · simp only [findLoop, show (h.node p).mNext = none from linked]
    · by_cases same : cString (h.node p).mName = cString name
      · exact .inl same
      · exact .inr ⟨rfl, by simpa [locs] using same⟩
  | cons a as ih =>
    obtain ⟨fuel, rfl⟩ : ∃ f, fuel = f + 1 := ⟨fuel - 1, by simp at enough; omega⟩
    obtain ⟨d, compared, zero⟩ := strCmp_terminated (names p (by simp [locs])) terminated
    have unfolded : findLoop h name (fuel + 1) p =
        if d = 0 then some p else findLoop h name fuel (.block a) := by
      simp [findLoop, linked.1, compared]
    by_cases same : cString (h.node p).mName = cString name
    · exact ⟨p, by simp [locs], by rw [unfolded, if_pos (zero.mpr same)], .inl same⟩
    · have deeper : ∀ l ∈ locs (.block a) as, 0 ∈ (h.node l).mName := fun l member =>
        names l (List.mem_cons_of_mem _ member)
      obtain ⟨q, member, found, answer⟩ := ih linked.2.2 deeper (by simpa using enough)
      refine ⟨q, List.mem_cons_of_mem _ member, ?_, ?_⟩
      · rw [unfolded, if_neg (fun h => same (zero.mp h)), found]
      · rcases answer with named | ⟨last, none⟩
        · exact .inl named
        · refine .inr ⟨last, ?_⟩
          intro l member
          rcases List.mem_cons.mp member with rfl | member
          · exact same
          · exact none l member

end Linux011.Semaphore

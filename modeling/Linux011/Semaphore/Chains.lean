import Linux011.Semaphore.Links

namespace Linux011.Semaphore

section LinkNode

variable (h : Heap) {last : Loc} {a : Nat} (sem : SemT)

theorem linkNode_new (other : last ≠ .block a) : (linkNode h last a sem).node (.block a) = sem := by
  simp [linkNode, Heap.write, Ne.symm other]

theorem linkNode_old {x : Loc} (notNew : x ≠ .block a) (other : last ≠ .block a) :
    ((linkNode h last a sem).node x).mName = (h.node x).mName ∧
    ((linkNode h last a sem).node x).mValue = (h.node x).mValue ∧
    ((linkNode h last a sem).node x).mPrev = (h.node x).mPrev ∧
    ((linkNode h last a sem).node x).mNext = (if x = last then some (.block a) else (h.node x).mNext) := by
  by_cases same : x = last
  · subst same; simp [linkNode, Heap.write, other]
  · simp [linkNode, Heap.write, same, notNew]

end LinkNode

section UnlinkNode

variable {h : Heap} {prev : Loc} {a : Nat}

theorem unlinkNode_blocks : (unlinkNode h prev a).blocks = h.blocks.erase a := by
  simp only [unlinkNode]
  split <;> rfl

theorem unlinkNode_node (x : Loc) (other : prev ≠ .block a) :
    ((unlinkNode h prev a).node x).mName = (h.node x).mName ∧
    ((unlinkNode h prev a).node x).mValue = (h.node x).mValue ∧
    ((unlinkNode h prev a).node x).mNext =
      (if x = prev then (h.node (.block a)).mNext else (h.node x).mNext) ∧
    ((unlinkNode h prev a).node x).mPrev =
      (if (h.node (.block a)).mNext = some x then (h.node (.block a)).mPrev else (h.node x).mPrev) := by
  have unchanged : (h.write prev { h.node prev with mNext := (h.node (.block a)).mNext }).node (.block a) =
      h.node (.block a) := by
    simp [Heap.write, Ne.symm other]
  simp only [unlinkNode, unchanged]
  cases next : (h.node (.block a)).mNext with
  | none =>
    by_cases same : x = prev
    · subst same; simp [Heap.write]
    · simp [Heap.write, same]
  | some y =>
    by_cases same : x = y
    · subst same
      by_cases first : x = prev
      · subst first; simp [Heap.write]
      · simp [Heap.write, first]
    · by_cases first : x = prev
      · subst first; simp [Heap.write, same, Ne.symm same]
      · simp [Heap.write, first, same, Ne.symm same]

end UnlinkNode

/-- The heap holds exactly the list of the blocks `as`, in this order. -/
structure Chain (h : Heap) (as : List Nat) : Prop where
  linked : Linked h .semHead as
  addresses : as.Nodup
  blocks : h.blocks = as.toFinset

theorem locs_nodup {as : List Nat} (addresses : as.Nodup) : (locs .semHead as).Nodup := by
  refine List.nodup_cons.mpr ⟨by simp, ?_⟩
  exact addresses.map fun a b same => by cases same; rfl

namespace Chain

variable {h : Heap} {as : List Nat}

theorem fresh_loc (chain : Chain h as) {a : Nat} (fresh : a ∉ h.blocks) : Loc.block a ∉ locs .semHead as := by
  rw [chain.blocks] at fresh
  intro member
  rcases List.mem_cons.mp member with same | block
  · cases same
  · obtain ⟨b, inList, same⟩ := List.mem_map.mp block
    cases same
    exact fresh (List.mem_toFinset.mpr inList)

theorem create (chain : Chain h as) {a : Nat} {sem : SemT} (fresh : a ∉ h.blocks)
    (back : sem.mPrev = some (lastLoc .semHead as)) (ends : sem.mNext = none) :
    Chain (linkNode h (lastLoc .semHead as) a sem) (as ++ [a]) := by
  have freshLoc := chain.fresh_loc fresh
  have apart : lastLoc .semHead as ≠ .block a := fun same => freshLoc (same ▸ lastLoc_mem _ _)
  have old := fun x (member : x ∈ locs .semHead as) =>
    linkNode_old h sem (fun same : x = .block a => freshLoc (same ▸ member)) apart
  have inLocs (b : Nat) (member : b ∈ as) : Loc.block b ∈ locs .semHead as :=
    List.mem_cons_of_mem _ (List.mem_map.mpr ⟨b, member, rfl⟩)
  constructor
  · apply chain.linked.append
    · intro x member other
      rw [(old x member).2.2.2, if_neg other]
    · intro b member
      exact (old _ (inLocs b member)).2.2.1
    · exact locs_nodup chain.addresses
    · rw [(old _ (lastLoc_mem _ _)).2.2.2, if_pos rfl]
    · rw [linkNode_new h sem apart]; exact back
    · rw [linkNode_new h sem apart]; exact ends
  · refine List.nodup_append'.mpr ⟨chain.addresses, by simp, ?_⟩
    intro b member single
    exact freshLoc (List.mem_singleton.mp single ▸ inLocs b member)
  · simp only [linkNode, Heap.write, List.toFinset_append, chain.blocks]
    ext x
    simp

theorem before {l r : List Nat} {a : Nat} (chain : Chain h (l ++ a :: r)) :
    (h.node (.block a)).mPrev = some (lastLoc .semHead l) := chain.linked.before.1

theorem apart {l r : List Nat} {a : Nat} (chain : Chain h (l ++ a :: r)) : lastLoc .semHead l ≠ .block a := by
  intro same
  have member := lastLoc_mem .semHead l
  rw [same] at member
  simp only [locs, List.mem_cons, reduceCtorEq, false_or, List.mem_map, Loc.block.injEq, exists_eq_right] at member
  exact (List.nodup_append'.mp chain.addresses).2.2 member (by simp)

theorem delete {l r : List Nat} {a : Nat} (chain : Chain h (l ++ a :: r)) :
    Chain (unlinkNode h (lastLoc .semHead l) a) (l ++ r) := by
  obtain ⟨_, _, rest⟩ := chain.linked.before
  have next : ∀ b, (h.node (.block a)).mNext = some (.block b) ↔ r.head? = some b := by
    intro b
    cases r with
    | nil => simp [show (h.node (.block a)).mNext = none from rest]
    | cons c cs => simp [rest.1]
  have node := fun x => unlinkNode_node (h := h) x chain.apart
  constructor
  · apply chain.linked.remove (locs_nodup chain.addresses)
    · rw [(node _).2.2.1, if_pos rfl]
    · intro b r' tail
      rw [(node _).2.2.2, if_pos ((next b).mpr (by rw [tail]; rfl))]
      exact chain.before
    · intro x _ other
      rw [(node x).2.2.1, if_neg other]
    · intro b _ notHead
      rw [(node _).2.2.2, if_neg (fun is => notHead ((next b).mp is))]
  · exact chain.addresses.sublist (List.Sublist.append_left (List.sublist_cons_self _ _) _)
  · have gone : a ∉ l ++ r := by
      have moved := List.perm_middle.nodup_iff.mp chain.addresses
      exact (List.nodup_cons.mp moved).1
    rw [unlinkNode_blocks, chain.blocks]
    ext x
    simp only [Finset.mem_erase, List.mem_toFinset, List.mem_append, List.mem_cons] at gone ⊢
    constructor
    · rintro ⟨other, left | same | right⟩
      · exact .inl left
      · exact absurd same other
      · exact .inr right
    · rintro (left | right)
      · exact ⟨fun same => gone (same ▸ .inl left), .inl left⟩
      · exact ⟨fun same => gone (same ▸ .inr right), .inr (.inr right)⟩

end Chain

end Linux011.Semaphore

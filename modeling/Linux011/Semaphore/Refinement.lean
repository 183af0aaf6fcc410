import Linux011.Library.Machine
import Linux011.Semaphore.Chains

namespace Linux011.Semaphore

open Linux011.Library

/-- What the registry is for: a map from names to a semaphore and the value it was created with. -/
abbrev Registry := List UInt8 → Option (Nat × BitVec 32)

def Registry.opened (m : Registry) (name : Nat → UInt8) (value : BitVec 32)
    (malloc : Option (Nat × List UInt8)) : Registry × Except Errno Loc :=
  match userString name with
  | none => (m, .error .EINVAL)
  | some n =>
    if n = semHeadName then (m, .error .EINVAL)
    else match m n, malloc with
      | some (a, _), _ => (m, .ok (.block a))
      | none, some (a, _) => (Function.update m n (some (a, value)), .ok (.block a))
      | none, none => (m, .error .ENOSPC)

def Registry.unlinked (m : Registry) (name : Nat → UInt8) : Registry × Except Errno Unit :=
  match userString name with
  | none => (m, .error .EINVAL)
  | some n =>
    if n = semHeadName then (m, .error .EINVAL)
    else match m n with
      | some _ => (Function.update m n none, .ok ())
      | none => (m, .error .EINVAL)

/-- The heap holds exactly the list of the named blocks `sems`, in this order. -/
structure Listed (h : Heap) (sems : List (List UInt8 × Nat)) : Prop where
  linked : Linked h .semHead (sems.map Prod.snd)
  addresses : (sems.map Prod.snd).Nodup
  blocks : h.blocks = (sems.map Prod.snd).toFinset
  names : (sems.map Prod.fst).Nodup
  headName : 0 ∈ (h.node .semHead).mName ∧ cString (h.node .semHead).mName = semHeadName
  named : ∀ s ∈ sems, 0 ∈ (h.node (.block s.2)).mName ∧
    cString (h.node (.block s.2)).mName = s.1 ∧ s.1 ≠ semHeadName

def Represents (h : Heap) (m : Registry) : Prop :=
  ∃ sems, Listed h sems ∧
    ∀ n a v, m n = some (a, v) ↔ (n, a) ∈ sems ∧ v = (h.node (.block a)).mValue

theorem initial_represents : Represents initialHeap fun _ => none := by
  refine ⟨[], ⟨rfl, .nil, rfl, .nil, ⟨by decide, by decide⟩, by simp⟩, by simp⟩

theorem Listed.chain {h : Heap} {sems : List (List UInt8 × Nat)} (listed : Listed h sems) :
    Chain h (sems.map Prod.snd) := ⟨listed.linked, listed.addresses, listed.blocks⟩

theorem Listed.name_mem {h : Heap} {sems : List (List UInt8 × Nat)} (listed : Listed h sems) :
    ∀ l ∈ locs .semHead (sems.map Prod.snd), 0 ∈ (h.node l).mName := by
  intro l member
  rcases List.mem_cons.mp member with rfl | block
  · exact listed.headName.1
  · simp only [List.map_map, List.mem_map, Function.comp_apply] at block
    obtain ⟨s, inList, rfl⟩ := block
    exact (listed.named s inList).1

theorem find_listed {h : Heap} {sems : List (List UInt8 × Nat)} (listed : Listed h sems)
    {n : List UInt8} (pad : List UInt8) (free : 0 ∉ n) (notHead : n ≠ semHeadName) :
    ∃ q d, findSem h (n ++ 0 :: pad) = some q ∧ strCmp (h.node q).mName (n ++ 0 :: pad) = some d ∧
      ((d = 0 ∧ ∃ a, q = .block a ∧ (n, a) ∈ sems) ∨
        (d ≠ 0 ∧ q = lastLoc .semHead (sems.map Prod.snd) ∧ ∀ a, (n, a) ∉ sems)) := by
  have terminated : (0 : UInt8) ∈ n ++ 0 :: pad := by simp
  have enough : (sems.map Prod.snd).length < h.blocks.card + 1 := by
    rw [listed.blocks, List.toFinset_card_of_nodup listed.addresses]
    omega
  obtain ⟨q, member, found, answer⟩ := findLoop_linked terminated listed.linked listed.name_mem enough
  obtain ⟨d, compared, zero⟩ := strCmp_terminated (listed.name_mem q member) terminated
  refine ⟨q, d, found, compared, ?_⟩
  rw [cString_terminated pad free] at zero answer
  rcases answer with same | ⟨last, none⟩
  · refine .inl ⟨zero.mpr same, ?_⟩
    rcases List.mem_cons.mp member with rfl | block
    · exact absurd (same.symm.trans listed.headName.2) notHead
    · simp only [List.map_map, List.mem_map, Function.comp_apply] at block
      obtain ⟨s, inList, rfl⟩ := block
      refine ⟨s.2, rfl, ?_⟩
      rw [← same, (listed.named s inList).2.1]
      exact inList
  · refine .inr ⟨fun h => none q member (zero.mp h), last, ?_⟩
    intro a member
    apply none (.block a)
    · exact List.mem_cons_of_mem _ (List.mem_map.mpr ⟨a, List.mem_map.mpr ⟨(n, a), member, rfl⟩, rfl⟩)
    · exact (listed.named (n, a) member).2.1

theorem head_compared {n : List UInt8} (pad : List UInt8) (free : 0 ∉ n) :
    ∃ d, strCmp (semHeadName ++ [0]) (n ++ 0 :: pad) = some d ∧ (d = 0 ↔ n = semHeadName) := by
  have left : (0 : UInt8) ∈ semHeadName ++ [0] := by simp
  have right : (0 : UInt8) ∈ n ++ 0 :: pad := by simp
  obtain ⟨d, compared, zero⟩ := strCmp_terminated left right
  refine ⟨d, compared, ?_⟩
  rw [zero, cString_terminated pad free, cString_terminated [] (by decide)]
  exact eq_comm

theorem represents_none {h : Heap} {m : Registry} {sems : List (List UInt8 × Nat)} {n : List UInt8}
    (registered : ∀ n a v, m n = some (a, v) ↔ (n, a) ∈ sems ∧ v = (h.node (.block a)).mValue)
    (absent : ∀ a, (n, a) ∉ sems) : m n = none := by
  cases found : m n with
  | none => rfl
  | some entry => exact absurd ((registered n entry.1 entry.2).mp found).1 (absent _)

theorem Represents.write_value {h : Heap} {m : Registry} (represents : Represents h m) {n : List UInt8}
    {a : Nat} {v : BitVec 32} (entry : m n = some (a, v)) (value : BitVec 32) :
    Represents (h.write (.block a) { h.node (.block a) with mValue := value })
      (Function.update m n (some (a, value))) := by
  obtain ⟨sems, listed, registered⟩ := represents
  have member := ((registered n a v).mp entry).1
  have node (l : Loc) : ((h.write (.block a) { h.node (.block a) with mValue := value }).node l).mNext = (h.node l).mNext ∧
      ((h.write (.block a) { h.node (.block a) with mValue := value }).node l).mPrev = (h.node l).mPrev ∧
      ((h.write (.block a) { h.node (.block a) with mValue := value }).node l).mName = (h.node l).mName := by
    by_cases here : l = .block a
    · subst here
      simp [Heap.write]
    · simp [Heap.write, here]
  refine ⟨sems, ⟨?_, listed.addresses, listed.blocks, listed.names, ?_, ?_⟩, ?_⟩
  · exact listed.linked.congr (fun l _ => (node l).1) fun b _ => (node (.block b)).2.1
  · rw [(node _).2.2]
    exact listed.headName
  · intro s inList
    rw [(node _).2.2]
    exact listed.named s inList
  · intro n' b w
    by_cases same : n' = n
    · subst same
      rw [Function.update_self]
      constructor
      · intro is
        cases is
        exact ⟨member, by simp [Heap.write]⟩
      · rintro ⟨other, is⟩
        have one : b = a := by
          have first := List.inj_on_of_nodup_map listed.names other member rfl
          exact (Prod.mk.inj first).2
        subst one
        simp only [Heap.write, Function.update_self] at is
        rw [is]
    · rw [Function.update_of_ne same, registered]
      have apart : (n', b) ∈ sems → Loc.block b ≠ .block a := by
        intro other is
        cases is
        have first := List.inj_on_of_nodup_map listed.addresses other member rfl
        exact same (Prod.mk.inj first).1
      constructor <;> rintro ⟨other, is⟩ <;> refine ⟨other, is.trans ?_⟩ <;> simp [Heap.write, apart other]

theorem Listed.create {h : Heap} {sems : List (List UInt8 × Nat)} (listed : Listed h sems)
    {n : List UInt8} {a : Nat} {sem : SemT} (fresh : a ∉ h.blocks) (absent : ∀ b, (n, b) ∉ sems)
    (notHead : n ≠ semHeadName) (terminated : 0 ∈ sem.mName) (name : cString sem.mName = n)
    (back : sem.mPrev = some (lastLoc .semHead (sems.map Prod.snd))) (ends : sem.mNext = none) :
    Listed (linkNode h (lastLoc .semHead (sems.map Prod.snd)) a sem) (sems ++ [(n, a)]) := by
  have freshLoc := listed.chain.fresh_loc fresh
  have apart : lastLoc .semHead (sems.map Prod.snd) ≠ .block a :=
    fun same => freshLoc (same ▸ lastLoc_mem _ _)
  have old := fun x (member : x ∈ locs .semHead (sems.map Prod.snd)) =>
    linkNode_old h sem (fun same : x = .block a => freshLoc (same ▸ member)) apart
  have inLocs (b : Nat) (member : b ∈ sems.map Prod.snd) : Loc.block b ∈ locs .semHead (sems.map Prod.snd) :=
    List.mem_cons_of_mem _ (List.mem_map.mpr ⟨b, member, rfl⟩)
  have chain : Chain (linkNode h (lastLoc .semHead (sems.map Prod.snd)) a sem) ((sems ++ [(n, a)]).map Prod.snd) := by
    rw [List.map_append]
    exact listed.chain.create fresh back ends
  refine ⟨chain.linked, chain.addresses, chain.blocks, ?_, ?_, ?_⟩
  · rw [List.map_append]
    refine List.nodup_append'.mpr ⟨listed.names, by simp, ?_⟩
    intro b member single
    simp only [List.map_cons, List.map_nil, List.mem_singleton] at single
    obtain ⟨s, inList, same⟩ := List.mem_map.mp member
    have named : (n, s.2) ∈ sems := by rw [← single, ← same]; exact inList
    exact absent s.2 named
  · rw [(old .semHead (by simp [locs])).1]
    exact listed.headName
  · intro s member
    rcases List.mem_append.mp member with member | member
    · rw [(old _ (inLocs s.2 (List.mem_map.mpr ⟨s, member, rfl⟩))).1]
      exact listed.named s member
    · simp only [List.mem_singleton] at member
      subst member
      rw [linkNode_new h sem apart]
      exact ⟨terminated, name, notHead⟩

theorem registered_create {h : Heap} {m : Registry} {sems : List (List UInt8 × Nat)}
    (registered : ∀ n a v, m n = some (a, v) ↔ (n, a) ∈ sems ∧ v = (h.node (.block a)).mValue)
    (listed : Listed h sems) {n : List UInt8} {a : Nat} (sem : SemT) (fresh : a ∉ h.blocks)
    (absent : ∀ b, (n, b) ∉ sems) (n' : List UInt8) (b : Nat) (v : BitVec 32) :
    Function.update m n (some (a, sem.mValue)) n' = some (b, v) ↔ (n', b) ∈ sems ++ [(n, a)] ∧
      v = ((linkNode h (lastLoc .semHead (sems.map Prod.snd)) a sem).node (.block b)).mValue := by
  have freshLoc := listed.chain.fresh_loc fresh
  have apart : lastLoc .semHead (sems.map Prod.snd) ≠ .block a :=
    fun same => freshLoc (same ▸ lastLoc_mem _ _)
  simp only [List.mem_append, List.mem_singleton, Prod.mk.injEq]
  by_cases same : n' = n
  · subst same
    rw [Function.update_self]
    constructor
    · intro is
      cases is
      exact ⟨.inr ⟨rfl, rfl⟩, by rw [linkNode_new h sem apart]⟩
    · rintro ⟨member | ⟨_, rfl⟩, is⟩
      · exact absurd member (absent b)
      · rw [linkNode_new h sem apart] at is
        rw [is]
  · rw [Function.update_of_ne same, registered]
    simp only [same, false_and, or_false]
    constructor <;> rintro ⟨member, is⟩ <;> refine ⟨member, is.trans ?_⟩ <;>
      have other : Loc.block b ≠ .block a := fun is => freshLoc (is ▸
        List.mem_cons_of_mem _ (List.mem_map.mpr ⟨b, List.mem_map.mpr ⟨(n', b), member, rfl⟩, rfl⟩))
    · rw [(linkNode_old h sem other apart).2.1]
    · rw [(linkNode_old h sem other apart).2.1]

theorem Listed.chain_split {h : Heap} {l r : List (List UInt8 × Nat)} {n : List UInt8} {a : Nat}
    (listed : Listed h (l ++ (n, a) :: r)) : Chain h (l.map Prod.snd ++ a :: r.map Prod.snd) := by
  have chain := listed.chain
  rwa [List.map_append, List.map_cons] at chain

theorem Listed.delete {h : Heap} {l r : List (List UInt8 × Nat)} {n : List UInt8} {a : Nat}
    (listed : Listed h (l ++ (n, a) :: r)) :
    Listed (unlinkNode h (lastLoc .semHead (l.map Prod.snd)) a) (l ++ r) := by
  have chain : Chain (unlinkNode h (lastLoc .semHead (l.map Prod.snd)) a) ((l ++ r).map Prod.snd) := by
    rw [List.map_append]
    exact listed.chain_split.delete
  have node := fun x => unlinkNode_node (h := h) x listed.chain_split.apart
  refine ⟨chain.linked, chain.addresses, chain.blocks, ?_, ?_, ?_⟩
  · have names := listed.names
    rw [List.map_append, List.map_cons] at names
    rw [List.map_append]
    exact names.sublist (List.Sublist.append_left (List.sublist_cons_self _ _) _)
  · rw [(node _).1]
    exact listed.headName
  · intro s member
    rw [(node _).1]
    apply listed.named s
    rcases List.mem_append.mp member with left | right
    · exact List.mem_append_left _ left
    · exact List.mem_append_right _ (List.mem_cons_of_mem _ right)

theorem registered_delete {h : Heap} {m : Registry} {l r : List (List UInt8 × Nat)} {n : List UInt8}
    {a : Nat} (registered : ∀ n' b v, m n' = some (b, v) ↔
      (n', b) ∈ l ++ (n, a) :: r ∧ v = (h.node (.block b)).mValue)
    (listed : Listed h (l ++ (n, a) :: r)) (n' : List UInt8) (b : Nat) (v : BitVec 32) :
    Function.update m n none n' = some (b, v) ↔ (n', b) ∈ l ++ r ∧
      v = ((unlinkNode h (lastLoc .semHead (l.map Prod.snd)) a).node (.block b)).mValue := by
  rw [(unlinkNode_node _ listed.chain_split.apart).2.1]
  by_cases same : n' = n
  · subst same
    rw [Function.update_self]
    have names := listed.names
    rw [List.map_append, List.map_cons] at names
    have moved := List.perm_middle.nodup_iff.mp names
    have gone := (List.nodup_cons.mp moved).1
    constructor
    · intro is
      cases is
    · rintro ⟨member, _⟩
      apply absurd _ gone
      rw [← List.map_append]
      exact List.mem_map.mpr ⟨(n', b), member, rfl⟩
  · rw [Function.update_of_ne same, registered]
    simp [same]

/-- An acceptable name in `tmpName`: the string, a NUL, and the rest of the array. -/
theorem getName_split {name : Nat → UInt8} {n : List UInt8} (read : userString name = some n) :
    ∃ pad, getName name = (n ++ 0 :: pad, 0) ∧ 0 ∉ n := by
  obtain ⟨copied, short, free⟩ := getName_string read
  refine ⟨List.replicate (MAXSEMNAME - n.length) 0, ?_, free⟩
  rw [copied, ← List.replicate_succ]
  congr 3
  omega

theorem rejected_name {name : Nat → UInt8} (bad : userString name = none ∨ userString name = some semHeadName)
    (h : Heap) (value : BitVec 32) (malloc : Option (Nat × List UInt8)) :
    sysSemOpen h name value malloc = some (h, .error .EINVAL) ∧
      sysSemUnlink h name = some (h, .error .EINVAL) := by
  rcases bad with read | read
  · have long := getName_overlong read
    simp [sysSemOpen, sysSemUnlink, long]
  · obtain ⟨pad, copied, free⟩ := getName_split read
    obtain ⟨d, compared, zero⟩ := head_compared pad free
    have same := zero.mpr rfl
    simp [sysSemOpen, sysSemUnlink, copied, compared, same]

theorem accepted_name {name : Nat → UInt8} {n pad : List UInt8} (copied : getName name = (n ++ 0 :: pad, 0))
    (free : 0 ∉ n) (notHead : n ≠ semHeadName) {h : Heap} {q : Loc} {d : Int}
    (found : findSem h (n ++ 0 :: pad) = some q)
    (compared : strCmp (h.node q).mName (n ++ 0 :: pad) = some d) :
    (∀ value malloc, sysSemOpen h name value malloc =
      if d = 0 then some (h, .ok q)
      else match malloc with
        | none => some (h, .error .ENOSPC)
        | some (a, stale) => some (linkNode h q a ⟨n ++ stale.drop n.length, value, some q, none, none⟩, .ok (.block a))) ∧
    sysSemUnlink h name =
      if d = 0 then (h.node q).mPrev.bind fun prev => unlinkFound h prev q
      else some (h, .error .EINVAL) := by
  obtain ⟨d₀, compared₀, zero₀⟩ := head_compared pad free
  have nonzero : d₀ ≠ 0 := fun zero => notHead (zero₀.mp zero)
  by_cases zero : d = 0
  · subst zero
    simp [sysSemOpen, sysSemUnlink, copied, compared₀, nonzero, found, compared]
  · constructor
    · intro value malloc
      cases malloc <;>
        simp [sysSemOpen, copied, compared₀, nonzero, found, compared, zero, strncpy_name _ n pad free]
    · simp [sysSemUnlink, copied, compared₀, found, compared, zero]

end Linux011.Semaphore

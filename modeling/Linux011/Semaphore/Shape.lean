import Linux011.Semaphore.Users

namespace Linux011.Semaphore

open Linux011.Library

/-- The list is in order, and every node on it has a whole `m_name`. -/
structure Shaped (h : Heap) (as : List Nat) : Prop extends Ordered h as where
  sized : ∀ l ∈ locs .semHead as, (h.node l).mName.length = MAXSEMNAME + 1

/-- What a call that returned did to the list: it made a node at its end, took one out, or did nothing. -/
def Moves (h h' : Heap) (as : List Nat) : RegistryEvent → Prop
  | .opened _ _ malloc (.ok l) =>
    (h' = h ∧ ∃ a ∈ as, l = .block a) ∨
      ∃ a stale, malloc = some (a, stale) ∧ l = .block a ∧ a ∉ as ∧ Chain h' (as ++ [a])
  | .unlinked _ (.ok ()) => ∃ l a r, as = l ++ a :: r ∧ Chain h' (l ++ r)
  | .opened _ _ _ (.error _) | .unlinked _ (.error _) => h' = h

section Search

variable {h h' : Heap} {as : List Nat}

/-- A comparison with a string that is shorter than the array ends inside the array. -/
theorem strCmp_returns {s n : List UInt8} (pad : List UInt8) (shorter : n.length < s.length) :
    ∃ d, strCmp s (n ++ 0 :: pad) = some d := by
  induction n generalizing s with
  | nil =>
    cases s with
    | nil => cases shorter
    | cons a s =>
      have stops : ¬ (a ≠ 0 ∧ a = 0) := fun both => both.1 both.2
      exact ⟨_, if_neg stops⟩
  | cons b n ih =>
    cases s with
    | nil => cases shorter
    | cons a s =>
      by_cases going : a ≠ 0 ∧ a = b
      · have rest : n.length < s.length := by simpa using shorter
        rcases ih rest with ⟨d, returned⟩
        exact ⟨d, (if_pos going).trans returned⟩
      · exact ⟨_, if_neg going⟩

theorem findLoop_returns {n pad : List UInt8} {p : Loc} (linked : Linked h p as)
    (compares : ∀ l ∈ locs p as, ∃ d, strCmp (h.node l).mName (n ++ 0 :: pad) = some d) {fuel : Nat}
    (enough : as.length < fuel) : ∃ q, findLoop h (n ++ 0 :: pad) fuel p = some q := by
  induction as generalizing p fuel with
  | nil =>
    obtain ⟨fuel, rfl⟩ : ∃ f, fuel = f + 1 := ⟨fuel - 1, by simp at enough; omega⟩
    exact ⟨p, by simp only [findLoop, show (h.node p).mNext = none from linked]⟩
  | cons a as ih =>
    obtain ⟨fuel, rfl⟩ : ∃ f, fuel = f + 1 := ⟨fuel - 1, by simp at enough; omega⟩
    rcases compares p (List.mem_cons_self ..) with ⟨d, compared⟩
    rcases ih linked.2.2 (fun l member => compares l (List.mem_cons_of_mem _ member)) (by simpa using enough)
      with ⟨q, found⟩
    by_cases zero : d = 0
    · exact ⟨p, by simp [findLoop, linked.1, compared, zero]⟩
    · exact ⟨q, by simp [findLoop, linked.1, compared, zero, found]⟩

theorem Shaped.searched (shaped : Shaped h as) {n : List UInt8} (pad : List UInt8) (short : n.length ≤ MAXSEMNAME) :
    ∃ q d, findSem h (n ++ 0 :: pad) = some q ∧ strCmp (h.node q).mName (n ++ 0 :: pad) = some d := by
  have compares : ∀ l ∈ locs .semHead as, ∃ d, strCmp (h.node l).mName (n ++ 0 :: pad) = some d := by
    intro l member
    apply strCmp_returns
    rw [shaped.sized l member]
    omega
  have enough : as.length < h.blocks.card + 1 := by
    rw [shaped.chain.blocks, List.toFinset_card_of_nodup shaped.chain.addresses]
    omega
  rcases findLoop_returns shaped.chain.linked compares enough with ⟨q, found⟩
  rcases compares q (findSem_mem shaped.chain found).1 with ⟨d, compared⟩
  exact ⟨q, d, found, compared⟩

end Search

section Calls

variable {h h' : Heap} {as : List Nat}

theorem Shaped.create (shaped : Shaped h as) {a : Nat} {sem : SemT} (fresh : a ∉ h.blocks)
    (back : sem.mPrev = some (lastLoc .semHead as)) (ends : sem.mNext = none)
    (size : sem.mName.length = MAXSEMNAME + 1) :
    Shaped (linkNode h (lastLoc .semHead as) a sem) (as ++ [a]) where
  toOrdered := shaped.toOrdered.create fresh back ends
  sized := by
    have freshLoc := shaped.chain.fresh_loc fresh
    have apart : lastLoc .semHead as ≠ .block a := fun same => freshLoc (same ▸ lastLoc_mem _ _)
    intro l member
    by_cases new : l = .block a
    · rw [new, linkNode_new h sem apart]
      exact size
    · rw [(linkNode_old h sem new apart).1]
      apply shaped.sized
      simpa [locs, new] using member

theorem Shaped.delete {l r : List Nat} {a : Nat} (shaped : Shaped h (l ++ a :: r)) :
    Shaped (unlinkNode h (lastLoc .semHead l) a) (l ++ r) where
  toOrdered := shaped.toOrdered.delete
  sized := by
    intro x member
    rw [(unlinkNode_node x shaped.chain.apart).1]
    apply shaped.sized
    simp only [locs, List.map_append, List.map_cons, List.mem_cons, List.mem_append] at member ⊢
    tauto

theorem Shaped.opened (shaped : Shaped h as) (name : Nat → UInt8) (value : BitVec 32)
    {malloc : Option (Nat × List UInt8)} (block : MallocOk h malloc) :
    ∃ h' result, sysSemOpen h name value malloc = some (h', result) ∧ (∃ as', Shaped h' as') ∧
      Moves h h' as (.opened name value malloc result) := by
  by_cases bad : userString name = none ∨ userString name = some semHeadName
  · exact ⟨h, _, (rejected_name bad h value malloc).1, ⟨as, shaped⟩, rfl⟩
  · obtain ⟨n, read⟩ : ∃ n, userString name = some n :=
      Option.ne_none_iff_exists'.mp fun none => bad (.inl none)
    have notHead : n ≠ semHeadName := fun same => bad (.inr (same ▸ read))
    rcases getName_split read with ⟨pad, copied, free⟩
    have short := (getName_string read).2.1
    rcases shaped.searched pad short with ⟨q, d, found, compared⟩
    have which := findSem_mem shaped.chain found
    rw [(accepted_name copied free notHead found compared).1]
    by_cases zero : d = 0
    · subst zero
      rcases shaped.named free notHead which.1 compared with ⟨a, inList, rfl⟩
      exact ⟨h, _, if_pos rfl, ⟨as, shaped⟩, .inl ⟨rfl, a, inList, rfl⟩⟩
    · rw [if_neg zero]
      cases malloc with
      | none => exact ⟨h, _, rfl, ⟨as, shaped⟩, rfl⟩
      | some got =>
        rcases got with ⟨a, stale⟩
        rcases block a stale rfl with ⟨fresh, size⟩
        have last : q = lastLoc .semHead as := by
          rcases which.2 with last | same
          · exact last
          · cases compared.symm.trans same
            exact absurd rfl zero
        subst last
        have filled : (n ++ stale.drop n.length).length = MAXSEMNAME + 1 := by
          rw [List.length_append, List.length_drop, size]
          omega
        have made : Shaped (linkNode h (lastLoc .semHead as) a
            ⟨n ++ stale.drop n.length, value, some (lastLoc .semHead as), none, none⟩) (as ++ [a]) :=
          shaped.create fresh rfl rfl filled
        have absent : a ∉ as := by
          rw [shaped.chain.blocks] at fresh
          exact fun member => fresh (List.mem_toFinset.mpr member)
        exact ⟨_, _, rfl, ⟨_, made⟩, .inr ⟨a, stale, rfl, rfl, absent, made.chain⟩⟩

theorem Shaped.unlinked (shaped : Shaped h as) (name : Nat → UInt8) :
    ∃ h' result, sysSemUnlink h name = some (h', result) ∧ (∃ as', Shaped h' as') ∧
      Moves h h' as (.unlinked name result) := by
  by_cases bad : userString name = none ∨ userString name = some semHeadName
  · exact ⟨h, _, (rejected_name bad h 0 none).2, ⟨as, shaped⟩, rfl⟩
  · obtain ⟨n, read⟩ : ∃ n, userString name = some n :=
      Option.ne_none_iff_exists'.mp fun none => bad (.inl none)
    have notHead : n ≠ semHeadName := fun same => bad (.inr (same ▸ read))
    rcases getName_split read with ⟨pad, copied, free⟩
    have short := (getName_string read).2.1
    rcases shaped.searched pad short with ⟨q, d, found, compared⟩
    have member := (findSem_mem shaped.chain found).1
    rw [(accepted_name copied free notHead found compared).2]
    by_cases zero : d = 0
    · subst zero
      rcases shaped.named free notHead member compared with ⟨a, inList, rfl⟩
      rcases List.append_of_mem inList with ⟨l, r, rfl⟩
      rw [if_pos rfl, shaped.chain.before]
      exact ⟨_, _, rfl, ⟨_, shaped.delete⟩, l, a, r, rfl, shaped.delete.chain⟩
    · exact ⟨h, _, if_neg zero, ⟨as, shaped⟩, rfl⟩

end Calls

section Runs

variable {h h' : Heap}

theorem initial_shaped : Shaped initialHeap [] where
  chain := ⟨rfl, List.nodup_nil, rfl⟩
  headName := by decide
  sized := by
    intro l member
    rcases List.mem_singleton.mp member with rfl
    rfl

theorem Shaped.step {as : List Nat} {e : RegistryEvent} (shaped : Shaped h as) (step : RegistryStep h e h') :
    (∃ as', Shaped h' as') ∧ Moves h h' as e := by
  cases step with
  | @opened _ name value malloc result block call =>
    rcases shaped.opened name value block with ⟨h'', r, returned, after⟩
    rw [call] at returned
    cases returned
    exact after
  | @unlinked _ name result call =>
    rcases shaped.unlinked name with ⟨h'', r, returned, after⟩
    rw [call] at returned
    cases returned
    exact after

theorem shaped_of_reaches (reached : semRegistry.Reaches h) : ∃ as, Shaped h as := by
  apply reached.invariant
  · rintro h rfl
    exact ⟨[], initial_shaped⟩
  · rintro h e h' ⟨as, shaped⟩ step
    exact (shaped.step step).1

/-- After any calls `m_next` runs through the allocated semaphores once and ends, `m_prev` runs back to `_semHead`,
    and every further call returns, with a node more at the end, a node less, or the list as it was. -/
theorem list_keeps_shape (reached : semRegistry.Reaches h) : ∃ as, Chain h as ∧
    (∀ e h', RegistryStep h e h' → Moves h h' as e) ∧
    (∀ name value malloc, MallocOk h malloc → ∃ h' result, RegistryStep h (.opened name value malloc result) h') ∧
    ∀ name, ∃ h' result, RegistryStep h (.unlinked name result) h' := by
  rcases shaped_of_reaches reached with ⟨as, shaped⟩
  refine ⟨as, shaped.chain, fun e h' step => (shaped.step step).2, ?_, ?_⟩
  · intro name value malloc block
    rcases shaped.opened name value block with ⟨h', result, call, -⟩
    exact ⟨h', result, .opened block call⟩
  · intro name
    rcases shaped.unlinked name with ⟨h', result, call, -⟩
    exact ⟨h', result, .unlinked call⟩

/-- Two semaphores of one name in blocks full of `'a'`. -/
theorem two_stay_linked : ∃ h as, semRegistry.Reaches h ∧ h.blocks = {1, 2} ∧ Chain h as ∧
    ∀ e h', RegistryStep h e h' → Moves h h' as e := by
  have reached : semRegistry.Reaches twoOpens := ⟨initialHeap, _, rfl, twoOpens_run⟩
  rcases list_keeps_shape reached with ⟨as, chain, moves, -⟩
  exact ⟨_, as, reached, by decide +kernel, chain, moves⟩

end Runs

end Linux011.Semaphore

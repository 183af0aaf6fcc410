import Linux011.SharedBuffer.Program
import Linux011.Semaphore.RegistryRuns

namespace Linux011.SharedBuffer

open Linux011.Semaphore

namespace SemName

theorem userString_literal (n : SemName) : userString n.literal = some n.bytes := by
  cases n <;> decide +kernel

theorem bytes_notHead (n : SemName) : n.bytes ≠ semHeadName := by
  cases n <;> decide

theorem bytes_injective {n n' : SemName} (same : n.bytes = n'.bytes) : n = n' := by
  cases n <;> cases n' <;> first | rfl | exact absurd same (by decide)

end SemName

section Registry

variable {h : Heap} {m : Registry} {n : SemName}

theorem represents_value (represents : Represents h m) {name : List UInt8} {a : Nat} {v : BitVec 32}
    (entry : m name = some (a, v)) : (h.node (.block a)).mValue = v ∧ a ∈ h.blocks := by
  obtain ⟨sems, listed, registered⟩ := represents
  obtain ⟨member, is⟩ := (registered name a v).mp entry
  refine ⟨is.symm, ?_⟩
  rw [listed.blocks, List.mem_toFinset]
  exact List.mem_map.mpr ⟨_, member, rfl⟩

theorem semWait_represents (represents : Represents h m) {name : List UInt8} {a : Nat} {v : BitVec 32}
    (entry : m name = some (a, v)) {h' : Heap} (took : semWait h (.block a) = some h') :
    v ≠ 0 ∧ Represents h' (Function.update m name (some (a, v - 1))) := by
  have value := (represents_value represents entry).1
  rw [semWait, value] at took
  split at took
  · cases took
  · rename_i token
    cases took
    exact ⟨token, represents.write_value entry _⟩

theorem semPost_represents (represents : Represents h m) {name : List UInt8} {a : Nat} {v : BitVec 32}
    (entry : m name = some (a, v)) :
    Represents (semPost h (.block a)) (Function.update m name (some (a, v + 1))) := by
  have value := (represents_value represents entry).1
  rw [semPost, value]
  exact represents.write_value entry _

theorem semOpen_found (represents : Represents h m) {a : Nat} {v : BitVec 32} (entry : m n.bytes = some (a, v))
    (value : BitVec 32) {malloc : Malloc} (block : MallocOk h malloc) (clean : CleanBlock h n.literal malloc) :
    ∃ h', sysSemOpen h n.literal value malloc = some (h', .ok (.block a)) ∧ Represents h' m := by
  have result := sysSemOpen_refines represents n.literal value block clean
  simpa only [Registry.opened, n.userString_literal, n.bytes_notHead, if_false, entry] using result

theorem semOpen_made (represents : Represents h m) (entry : m n.bytes = none) (value : BitVec 32) {a : Nat}
    {stale : List UInt8} (block : MallocOk h (some (a, stale)))
    (clean : CleanBlock h n.literal (some (a, stale))) :
    ∃ h', sysSemOpen h n.literal value (some (a, stale)) = some (h', .ok (.block a)) ∧
      Represents h' (Function.update m n.bytes (some (a, value))) := by
  have result := sysSemOpen_refines represents n.literal value block clean
  simpa only [Registry.opened, n.userString_literal, n.bytes_notHead, if_false, entry] using result

theorem semUnlink_gone (represents : Represents h m) {a : Nat} {v : BitVec 32} (entry : m n.bytes = some (a, v)) :
    ∃ h', sysSemUnlink h n.literal = some (h', .ok ()) ∧
      Represents h' (Function.update m n.bytes none) := by
  have result := sysSemUnlink_refines represents n.literal
  simpa only [Registry.unlinked, n.userString_literal, n.bytes_notHead, if_false, entry] using result

end Registry

/-- One of the semaphores, as the registry has it and as the two processes hold it: nobody knows of it,
    or all agree on one block, which is registered with a balanced value until it is unlinked. -/
structure SemOk (entry : Option (Nat × BitVec 32)) (mine yours : Option Loc) (gone : Bool)
    (balanced : Nat → Prop) : Prop where
  absent : mine = none → yours = none → entry = none
  held : mine ≠ none ∨ yours ≠ none → ∃ a, (∀ l ∈ mine, l = .block a) ∧ (∀ l ∈ yours, l = .block a) ∧
    (gone = true → entry = none) ∧ (gone = false → ∃ v, entry = some (a, v) ∧ balanced v.toNat)

namespace SemOk

variable {entry : Option (Nat × BitVec 32)} {mine yours : Option Loc} {gone : Bool} {balanced : Nat → Prop}

theorem swap (ok : SemOk entry mine yours gone balanced) : SemOk entry yours mine gone balanced where
  absent none none' := ok.absent none' none
  held some := by
    obtain ⟨a, first, second, rest⟩ := ok.held some.symm
    exact ⟨a, second, first, rest⟩

theorem mono {balanced' : Nat → Prop} (ok : SemOk entry mine yours gone balanced)
    (weaker : ∀ v, balanced v → balanced' v) : SemOk entry mine yours gone balanced' where
  absent := ok.absent
  held some := by
    obtain ⟨a, first, second, off, on⟩ := ok.held some
    refine ⟨a, first, second, off, fun here => ?_⟩
    obtain ⟨v, is, value⟩ := on here
    exact ⟨v, is, weaker _ value⟩

theorem mine_entry {l : Loc} (ok : SemOk entry (some l) yours false balanced) :
    ∃ a v, l = .block a ∧ entry = some (a, v) ∧ balanced v.toNat := by
  obtain ⟨a, first, _, _, on⟩ := ok.held (.inl (Option.some_ne_none l))
  obtain ⟨v, is, value⟩ := on rfl
  exact ⟨a, v, first l rfl, is, value⟩

theorem changed {a : Nat} {v w : BitVec 32} {balanced' : Nat → Prop}
    (ok : SemOk (some (a, v)) mine yours false balanced) (value : balanced' w.toNat) :
    SemOk (some (a, w)) mine yours false balanced' where
  absent none none' := nomatch ok.absent none none'
  held some := by
    obtain ⟨b, first, second, _, on⟩ := ok.held some
    obtain ⟨u, is, _⟩ := on rfl
    cases is
    exact ⟨a, first, second, nofun, fun _ => ⟨w, rfl, value⟩⟩

theorem opened {a : Nat} {v : BitVec 32} {balanced' : Nat → Prop} (ok : SemOk entry none yours false balanced)
    (found : entry = none ∨ entry = some (a, v)) (kept : ∀ w, balanced w → balanced' w)
    (made : yours = none → entry = none → balanced' v.toNat) :
    SemOk (some (a, v)) (some (.block a)) yours false balanced' where
  absent none := nomatch none
  held _ := by
    cases other : yours with
    | none =>
      refine ⟨a, fun l is => (Option.some.inj is).symm, nofun, nofun, fun _ => ⟨v, rfl, ?_⟩⟩
      exact made other (ok.absent rfl other)
    | some l =>
      obtain ⟨b, _, second, _, on⟩ := ok.held (.inr (by rw [other]; exact Option.some_ne_none l))
      obtain ⟨w, there, value⟩ := on rfl
      rcases found with none | is
      · rw [none] at there
        cases there
      · rw [is] at there
        cases there
        rw [other] at second
        exact ⟨a, fun l is => (Option.some.inj is).symm, second, nofun, fun _ => ⟨v, rfl, kept _ value⟩⟩

theorem unlinked {l : Loc} (ok : SemOk entry (some l) yours false balanced)
    {balanced' : Nat → Prop} : SemOk none (some l) yours true balanced' where
  absent _ _ := rfl
  held some := by
    obtain ⟨a, first, second, _⟩ := ok.held some
    exact ⟨a, first, second, fun _ => rfl, nofun⟩

end SemOk

def SemsOk (m : Registry) (mine yours : SemName → Option Loc) (gone : SemName → Bool)
    (balanced : SemName → Nat → Prop) : Prop :=
  ∀ n : SemName, SemOk (m n.bytes) (mine n) (yours n) (gone n) (balanced n)

namespace SemsOk

variable {m : Registry} {mine yours : SemName → Option Loc} {gone : SemName → Bool}
  {balanced balanced' : SemName → Nat → Prop}

theorem mono (ok : SemsOk m mine yours gone balanced) (weaker : ∀ n v, balanced n v → balanced' n v) :
    SemsOk m mine yours gone balanced' := fun n => (ok n).mono (weaker n)

theorem swap (ok : SemsOk m mine yours gone balanced) : SemsOk m yours mine gone balanced := fun n => (ok n).swap

theorem value (ok : SemsOk m mine yours gone balanced) {n : SemName} {a : Nat} {v w : BitVec 32}
    (entry : m n.bytes = some (a, v)) (here : gone n = false) (moved : balanced n v.toNat → balanced' n w.toNat)
    (others : ∀ n', n' ≠ n → ∀ u, balanced n' u → balanced' n' u) :
    SemsOk (Function.update m n.bytes (some (a, w))) mine yours gone balanced' := by
  intro n'
  by_cases same : n' = n
  · subst same
    have one := ok n'
    rw [Function.update_self, here]
    rw [entry, here] at one
    by_cases known : mine n' ≠ none ∨ yours n' ≠ none
    · obtain ⟨b, _, _, _, on⟩ := one.held known
      obtain ⟨u, is, value⟩ := on rfl
      cases is
      exact one.changed (moved value)
    · simp only [ne_eq, not_or, not_not] at known
      exact nomatch one.absent known.1 known.2
  · rw [Function.update_of_ne fun is => same (SemName.bytes_injective is)]
    exact (ok n').mono (others n' same)

theorem opened (ok : SemsOk m mine yours gone balanced) {n : SemName} {a : Nat} {v : BitVec 32}
    {mine' : SemName → Option Loc} (closed : mine n = none) (here : gone n = false)
    (found : m n.bytes = none ∨ m n.bytes = some (a, v)) (now : mine' n = some (.block a))
    (still : ∀ n', n' ≠ n → mine' n' = mine n') (kept : ∀ n u, balanced n u → balanced' n u)
    (made : yours n = none → m n.bytes = none → balanced' n v.toNat) :
    SemsOk (Function.update m n.bytes (some (a, v))) mine' yours gone balanced' := by
  intro n'
  by_cases same : n' = n
  · subst same
    have one := ok n'
    rw [closed, here] at one
    rw [Function.update_self, now, here]
    exact one.opened found (kept n') made
  · rw [Function.update_of_ne fun is => same (SemName.bytes_injective is), still n' same]
    exact (ok n').mono (kept n')

theorem unlinked (ok : SemsOk m mine yours gone balanced) {n : SemName} {gone' : SemName → Bool}
    (open_ : mine n ≠ none) (here : gone n = false) (now : gone' n = true) (still : ∀ n', n' ≠ n → gone' n' = gone n')
    (kept : ∀ n', n' ≠ n → ∀ u, balanced n' u → balanced' n' u) :
    SemsOk (Function.update m n.bytes none) mine yours gone' balanced' := by
  intro n'
  by_cases same : n' = n
  · subst same
    obtain ⟨l, held⟩ := Option.ne_none_iff_exists'.mp open_
    have one := ok n'
    rw [held, here] at one
    rw [Function.update_self, held, now]
    exact one.unlinked
  · rw [Function.update_of_ne fun is => same (SemName.bytes_injective is), still n' same]
    exact (ok n').mono (kept n' same)

end SemsOk

end Linux011.SharedBuffer

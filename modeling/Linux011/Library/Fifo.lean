import Linux011.Library.Linked
import Mathlib.Logic.Function.Basic
import Mathlib.Data.List.Nodup

namespace Linux011.Library

variable {ι : Type*}

/-- The two ends of a queue whose nodes are linked by a field of their own. -/
structure Fifo (ι : Type*) where
  head : Option ι
  tail : Option ι

namespace Fifo

/-- The nodes of a queue, first to last. An empty queue may have any tail. -/
structure Holds (next : ι → Option ι) (q : Fifo ι) (nodes : List ι) : Prop where
  linked : Linked next q.head nodes
  last : ∀ t, nodes.getLast? = some t → q.tail = some t
  nodup : nodes.Nodup

variable {next : ι → Option ι} {q : Fifo ι} {nodes : List ι} {t : ι}

theorem Holds.head (holds : Holds next q nodes) : q.head = nodes.head? := by
  cases nodes with
  | nil => exact holds.linked
  | cons p rest => exact holds.linked.1

theorem Holds.congr {next' : ι → Option ι} (holds : Holds next q nodes) (same : ∀ p ∈ nodes, next' p = next p) :
    Holds next' q nodes := ⟨holds.linked.congr same, holds.last, holds.nodup⟩

theorem Holds.eq_nil (holds : Holds next q nodes) (empty : q.head = none) : nodes = [] := by
  have linked := holds.linked
  rw [empty] at linked
  exact linked.eq_nil

/-- The first node is taken out. -/
theorem Holds.rest {p : ι} {rest : List ι} (holds : Holds next q (p :: rest)) :
    Holds next { q with head := next p } rest := by
  refine ⟨holds.linked.2, ?_, holds.nodup.of_cons⟩
  intro t last
  apply holds.last t
  cases rest with
  | nil => cases last
  | cons r rest => exact last

variable [DecidableEq ι]

/-- A first node. -/
theorem Holds.single (next : ι → Option ι) (t : ι) : Holds (Function.update next t none) ⟨some t, some t⟩ [t] where
  linked := ⟨rfl, Function.update_self ..⟩
  last _ same := same
  nodup := List.nodup_singleton t

/-- A node linked behind the last one. -/
theorem linked_snoc {start : Option ι} {nodes : List ι} {l t : ι} (linked : Linked next start nodes)
    (last : nodes.getLast? = some l) (nodup : nodes.Nodup) (new : t ∉ nodes) :
    Linked (Function.update (Function.update next t none) l (some t)) start (nodes ++ [t]) := by
  induction nodes generalizing start with
  | nil => cases last
  | cons p rest ih =>
    refine ⟨linked.1, ?_⟩
    have other : t ≠ p := fun same => new (same ▸ List.mem_cons_self ..)
    cases rest with
    | nil =>
      have same : p = l := Option.some.inj last
      rw [← same, Function.update_self]
      refine ⟨rfl, ?_⟩
      rw [Function.update_of_ne other, Function.update_self]
      rfl
    | cons r rest =>
      have inside : l ∈ r :: rest := List.mem_of_getLast? last
      have apart : p ≠ l := fun same => (List.nodup_cons.mp nodup).1 (same ▸ inside)
      rw [Function.update_of_ne apart, Function.update_of_ne other.symm]
      exact ih linked.2 last nodup.of_cons fun member => new (List.mem_cons_of_mem _ member)

theorem Holds.snoc {l : ι} (holds : Holds next q nodes) (last : nodes.getLast? = some l) (new : t ∉ nodes) :
    Holds (Function.update (Function.update next t none) l (some t)) { q with tail := some t } (nodes ++ [t]) where
  linked := linked_snoc holds.linked last holds.nodup new
  last s same := by
    rw [List.getLast?_append, List.getLast?_singleton] at same
    exact same
  nodup := by
    rw [List.nodup_append_comm]
    exact List.nodup_cons.mpr ⟨new, holds.nodup⟩

end Fifo

end Linux011.Library

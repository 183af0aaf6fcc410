import Mathlib.Data.List.Basic

namespace Linux011.Library

variable {ι : Type*} {next next' : ι → Option ι}

/-- Following `next` runs through the nodes of a list, and ends there. -/
def Linked (next : ι → Option ι) : Option ι → List ι → Prop
  | start, [] => start = none
  | start, p :: rest => start = some p ∧ Linked next (next p) rest

namespace Linked

/-- A linked list depends on the links of its own nodes only. -/
theorem congr {start : Option ι} {nodes : List ι} (linked : Linked next start nodes)
    (same : ∀ p ∈ nodes, next' p = next p) : Linked next' start nodes := by
  induction nodes generalizing start with
  | nil => exact linked
  | cons p rest ih =>
    refine ⟨linked.1, ?_⟩
    rw [same p (List.mem_cons_self ..)]
    exact ih linked.2 fun q member => same q (List.mem_cons_of_mem _ member)

theorem eq_nil {nodes : List ι} (linked : Linked next none nodes) : nodes = [] := by
  cases nodes with
  | nil => rfl
  | cons p rest => cases linked.1

end Linked

end Linux011.Library

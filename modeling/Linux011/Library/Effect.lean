namespace Linux011.Library

variable {ε σ α β : Type}

/-- What a computation leaves behind from one state: by returning, or by stopping. -/
def Leaves (x : EStateM ε σ α) (returns : α → σ → Prop) (stops : ε → σ → Prop) (s : σ) : Prop :=
  match x s with
  | .ok a t => returns a t
  | .error e t => stops e t

namespace Leaves

variable {x : EStateM ε σ α} {f : α → EStateM ε σ β} {returns weaker : α → σ → Prop} {then_ : β → σ → Prop}
  {stops weaker' : ε → σ → Prop} {s : σ}

theorem mono (leaves : Leaves x returns stops s) (onReturn : ∀ a t, returns a t → weaker a t)
    (onStop : ∀ e t, stops e t → weaker' e t) : Leaves x weaker weaker' s := by
  rw [Leaves] at *
  cases run : x s with
  | ok a t =>
    rw [run] at leaves
    exact onReturn a t leaves
  | error e t =>
    rw [run] at leaves
    exact onStop e t leaves

theorem imp (leaves : Leaves x returns stops s) (onReturn : ∀ a t, returns a t → weaker a t) :
    Leaves x weaker stops s :=
  leaves.mono onReturn fun _ _ stopped => stopped

theorem and {returns' : α → σ → Prop} {stops' : ε → σ → Prop} (leaves : Leaves x returns stops s)
    (leaves' : Leaves x returns' stops' s) :
    Leaves x (fun a t => returns a t ∧ returns' a t) (fun e t => stops e t ∧ stops' e t) s := by
  rw [Leaves] at *
  cases run : x s with
  | ok a t =>
    rw [run] at leaves leaves'
    exact ⟨leaves, leaves'⟩
  | error e t =>
    rw [run] at leaves leaves'
    exact ⟨leaves, leaves'⟩

theorem pure_iff {a : α} : Leaves (pure a) returns stops s ↔ returns a s := Iff.rfl

theorem get_iff {returns : σ → σ → Prop} : Leaves get returns stops s ↔ returns s s := Iff.rfl

theorem modify_iff {g : σ → σ} {returns : PUnit → σ → Prop} :
    Leaves (modify g) returns stops s ↔ returns ⟨⟩ (g s) := Iff.rfl

theorem bind_iff : Leaves (x >>= f) then_ stops s ↔ Leaves x (fun a t => Leaves (f a) then_ stops t) stops s := by
  rw [Leaves, Leaves]
  change (match EStateM.bind x f s with | .ok b t => then_ b t | .error e t => stops e t) ↔ _
  rw [EStateM.bind]
  cases x s with
  | ok a t => exact Iff.rfl
  | error e t => exact Iff.rfl

theorem bind (first : Leaves x returns stops s) (second : ∀ a t, returns a t → Leaves (f a) then_ stops t) :
    Leaves (x >>= f) then_ stops s :=
  bind_iff.mpr (first.imp second)

end Leaves

end Linux011.Library

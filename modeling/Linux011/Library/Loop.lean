import Mathlib.Logic.Basic

namespace Linux011.Library

universe u

variable {σ τ : Type u} {ε : Type*}

/-- A `for` loop over the indices below a bound, left at the first error. -/
def upTo (body : σ → Nat → Except ε σ) : Nat → σ → Except ε σ
  | 0, s => .ok s
  | n + 1, s =>
    match upTo body n s with
    | .ok t => body t n
    | .error stop => .error stop

theorem ok_bind (a : σ) (f : σ → Except ε τ) : (Except.ok a >>= f) = f a := rfl

/-- What holds when a computation returns, and what when it stops. -/
structure Ends (returns : σ → Prop) (stops : ε → Prop) (x : Except ε σ) : Prop where
  ok : ∀ s, x = .ok s → returns s
  error : ∀ stop, x = .error stop → stops stop

namespace Ends

variable {returns : σ → Prop} {returns' : τ → Prop} {stops : ε → Prop} {x : Except ε σ}

theorem pure {s : σ} (here : returns s) : Ends returns stops (.ok s) where
  ok _ same := Except.ok.inj same ▸ here
  error _ same := nomatch same

theorem stop {e : ε} (here : stops e) : Ends returns stops (.error e) where
  ok _ same := nomatch same
  error _ same := Except.error.inj same ▸ here

theorem mono (ends : Ends returns stops x) {weaker : σ → Prop} {weaker' : ε → Prop}
    (onReturn : ∀ s, returns s → weaker s) (onStop : ∀ stop, stops stop → weaker' stop) :
    Ends weaker weaker' x where
  ok s same := onReturn s (ends.ok s same)
  error stop same := onStop stop (ends.error stop same)

theorem bind {f : σ → Except ε τ} (first : Ends returns stops x)
    (second : ∀ s, returns s → Ends returns' stops (f s)) : Ends returns' stops (x >>= f) := by
  cases x with
  | ok s => exact second s (first.ok s rfl)
  | error e => exact stop (first.error e rfl)

theorem map {f : σ → τ} (first : Ends returns stops x) (second : ∀ s, returns s → returns' (f s)) :
    Ends returns' stops (x.map f) := by
  cases x with
  | ok s => exact pure (second s (first.ok s rfl))
  | error e => exact stop (first.error e rfl)

/-- What holds before a loop and is kept by every round holds after it. -/
theorem upTo {body : σ → Nat → Except ε σ} {n : Nat} {s : σ} {I : Nat → σ → Prop} (start : I 0 s)
    (keeps : ∀ i s, i < n → I i s → Ends (I (i + 1)) stops (body s i)) :
    Ends (I n) stops (upTo body n s) := by
  induction n with
  | zero => exact pure start
  | succ n ih =>
    have earlier := ih fun i s below => keeps i s (by omega)
    unfold Library.upTo
    split
    · rename_i t before
      exact keeps n t (by omega) (earlier.ok t before)
    · rename_i e before
      exact stop (earlier.error e before)

end Ends

section Returned

variable {x : Except ε σ}

theorem returned_bind {f : σ → Except ε τ} {r : τ} (returned : x >>= f = .ok r) : ∃ s, x = .ok s ∧ f s = .ok r := by
  cases x with
  | ok s => exact ⟨s, rfl, returned⟩
  | error stop => cases returned

theorem returned_map {f : σ → τ} {r : τ} (returned : x.map f = .ok r) : ∃ s, x = .ok s ∧ f s = r := by
  cases x with
  | ok s => exact ⟨s, rfl, Except.ok.inj returned⟩
  | error stop => cases returned

theorem stopped_map {f : σ → τ} {stop : ε} (stopped : x.map f = .error stop) : x = .error stop := by
  cases x with
  | ok s => cases stopped
  | error e => exact congrArg _ (Except.error.inj stopped)

end Returned

/-- A computation on fixed inputs, evaluated. -/
theorem returns_of_any {x : Except ε σ} {p : σ → Bool} (evaluated : x.toOption.any p = true) :
    ∃ s, x = .ok s ∧ p s = true := by
  cases x with
  | ok s => exact ⟨s, rfl, evaluated⟩
  | error e => cases evaluated

end Linux011.Library

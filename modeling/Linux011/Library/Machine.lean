import Mathlib.Logic.Relation

namespace Linux011.Library

variable {σ ε : Type*}

/-- A labelled transition system: where it may start and what one event may do. -/
structure Machine (σ ε : Type*) where
  init : σ → Prop
  step : σ → ε → σ → Prop

/-- A run with the events it performed, oldest first. -/
inductive Machine.Run (m : Machine σ ε) : σ → List ε → σ → Prop
  | nil (s : σ) : m.Run s [] s
  | snoc {s t u : σ} {es : List ε} {e : ε} :
      m.Run s es t → m.step t e u → m.Run s (es ++ [e]) u

/-- A state some run from an initial state ends in. -/
def Machine.Reaches (m : Machine σ ε) (s : σ) : Prop :=
  ∃ s₀ es, m.init s₀ ∧ m.Run s₀ es s

/-- The same machine, allowed only the steps that meet a condition in the state before them. -/
def Machine.restrict (m : Machine σ ε) (condition : σ → ε → Prop) : Machine σ ε where
  init := m.init
  step := fun s e t => condition s e ∧ m.step s e t

/-- The same machine, carrying the events of its run along. -/
def Machine.recorded (m : Machine σ ε) : Machine (List ε × σ) ε where
  init := fun p => p.1 = [] ∧ m.init p.2
  step := fun p e q => q.1 = p.1 ++ [e] ∧ m.step p.2 e q.2

namespace Machine

variable {m : Machine σ ε}

theorem Run.one {s t : σ} {e : ε} (step : m.step s e t) : m.Run s [e] t :=
  (Run.nil s).snoc step

theorem Run.of_nil {s t : σ} (run : m.Run s [] t) : t = s := by
  generalize none : ([] : List ε) = es at run
  cases run with
  | nil => rfl
  | snoc => simp at none

/-- The last event of a run was a step from where the rest of it ended. -/
theorem Run.of_snoc {s u : σ} (es : List ε) (e : ε) (run : m.Run s (es ++ [e]) u) :
    ∃ t, m.Run s es t ∧ m.step t e u := by
  generalize all : es ++ [e] = fs at run
  cases run with
  | nil => simp at all
  | snoc before step =>
    obtain ⟨rfl, last⟩ := List.append_inj' all rfl
    cases last
    exact ⟨_, before, step⟩

theorem Run.append {s t u : σ} {es fs : List ε} (first : m.Run s es t) (second : m.Run t fs u) :
    m.Run s (es ++ fs) u := by
  induction second with
  | nil => simpa using first
  | snoc _ step ih =>
    rw [← List.append_assoc]
    exact ih.snoc step

/-- What one step keeps, a whole run keeps. -/
theorem Run.invariant {I : σ → Prop} (keeps : ∀ s e t, I s → m.step s e t → I t)
    {s t : σ} {es : List ε} (run : m.Run s es t) (start : I s) : I t := by
  induction run with
  | nil => exact start
  | snoc _ step ih => exact keeps _ _ _ ih step

/-- The same rule for a property that also reads the events so far. -/
theorem Run.trace_invariant {I : List ε → σ → Prop}
    (keeps : ∀ es s e t, I es s → m.step s e t → I (es ++ [e]) t)
    {s t : σ} {es : List ε} (run : m.Run s es t) (start : I [] s) : I es t := by
  induction run with
  | nil => exact start
  | snoc _ step ih => exact keeps _ _ _ _ ih step

/-- What every step of one machine is in another, under an invariant, every run is. -/
theorem Run.refines {τ : Type*} {m' : Machine τ ε} {I : σ → Prop} {abstract : σ → τ}
    (refines : ∀ s e t, I s → m.step s e t → I t ∧ m'.step (abstract s) e (abstract t))
    {s t : σ} {es : List ε} (run : m.Run s es t) (start : I s) : I t ∧ m'.Run (abstract s) es (abstract t) := by
  induction run with
  | nil => exact ⟨start, .nil _⟩
  | snoc _ step ih =>
    obtain ⟨before, run'⟩ := ih
    obtain ⟨after, step'⟩ := refines _ _ _ before step
    exact ⟨after, run'.snoc step'⟩

theorem Reaches.invariant {I : σ → Prop} (start : ∀ s, m.init s → I s)
    (keeps : ∀ s e t, I s → m.step s e t → I t) {s : σ} (reached : m.Reaches s) : I s := by
  obtain ⟨s₀, es, initial, run⟩ := reached
  exact run.invariant keeps (start s₀ initial)

theorem Reaches.step {s t : σ} {e : ε} (reached : m.Reaches s) (step : m.step s e t) :
    m.Reaches t := by
  obtain ⟨s₀, es, initial, run⟩ := reached
  exact ⟨s₀, es ++ [e], initial, run.snoc step⟩

/-- Events performed one after the other by a function are a run. -/
theorem run_of_foldlM {f : σ → ε → Option σ} (sound : ∀ s e t, f s e = some t → m.step s e t) {s t : σ}
    {es : List ε} (ran : es.foldlM f s = some t) : m.Run s es t := by
  induction es generalizing s with
  | nil =>
    cases ran
    exact .nil _
  | cons e es ih =>
    rw [List.foldlM_cons, Option.bind_eq_bind, Option.bind_eq_some_iff] at ran
    obtain ⟨u, first, rest⟩ := ran
    exact (Run.one (sound s e u first)).append (ih rest)

theorem Run.of_restrict {condition : σ → ε → Prop} {s t : σ} {es : List ε}
    (run : (m.restrict condition).Run s es t) : m.Run s es t := by
  induction run with
  | nil => exact .nil _
  | snoc _ step ih => exact ih.snoc step.2

end Machine

end Linux011.Library

import Linux011.ProducerConsumer.Invariant
import Mathlib.Data.List.Basic

namespace Linux011.ProducerConsumer

open Linux011.Library

/-- The `consumed` lines of a run: the data and its position. -/
def consumptions (es : List Event) : List (BitVec 32 × BitVec 32) :=
  es.filterMap fun
    | .consumed data position => some (data, position)
    | _ => none

def writes (es : List Event) : Nat := (es.map Event.writes).sum

theorem consumptions_snoc (es : List Event) (e : Event) :
    consumptions (es ++ [e]) = consumptions es ++ consumptions [e] := List.filterMap_append

theorem consumptions_one (e : Event) : (consumptions [e]).length = e.items := by
  cases e <;> rfl

theorem writes_snoc (es : List Event) (e : Event) : writes (es ++ [e]) = writes es + e.writes := by
  simp [writes]

/-- The `k`-th line reports the data `k` at the position `k`. -/
def InOrder (es : List Event) : Prop :=
  ∀ (k : Nat) (data position : BitVec 32), (consumptions es)[k]? = some (data, position) →
    data.toNat = k ∧ position.toNat = k

/-- Items come out in the order they went in, and the producer is never more than a ring ahead. -/
structure Delivered (c : Config) (es : List Event) : Prop where
  inOrder : InOrder es
  ahead : writes es ≤ (consumptions es).length + c.bufferSize.toNat

variable {c : Config}

theorem InOrder.snoc {es : List Event} {e : Event} (before : InOrder es)
    (next : ∀ data position, e = .consumed data position →
      data.toNat = (consumptions es).length ∧ position.toNat = (consumptions es).length) :
    InOrder (es ++ [e]) := by
  intro k data position found
  rw [consumptions_snoc] at found
  rcases Nat.lt_or_ge k (consumptions es).length with old | new
  · rw [List.getElem?_append_left old] at found
    exact before k data position found
  · rw [List.getElem?_append_right new] at found
    cases e with
    | silent | written | produced => simp [consumptions] at found
    | consumed data' position' =>
      have one : consumptions [.consumed data' position'] = [(data', position')] := rfl
      rw [one, List.getElem?_singleton] at found
      split at found
      · cases found
        have last : k = (consumptions es).length := by omega
        rw [last]
        exact next data position rfl
      · cases found

/-- What the events so far say about the state. -/
structure Account (c : Config) (es : List Event) (s : State c) : Prop where
  invariant : Invariant c (consumptions es).length s
  written : writes es = s.producer.stored
  inOrder : InOrder es

theorem run_account (fits : c.Fits) {s₀ s : State c} {es : List Event} (initial : (pcMachine c).init s₀)
    (run : (pcMachine c).Run s₀ es s) : Account c es s := by
  apply run.trace_invariant (I := Account c)
  · intro es s e t account step
    obtain ⟨invariant, written, fresh⟩ := step_keeps fits account.invariant step
    constructor
    · rw [consumptions_snoc, List.length_append, consumptions_one]
      exact invariant
    · rw [writes_snoc, account.written, written]
    · exact account.inOrder.snoc fresh
  · obtain ⟨old, rfl⟩ := initial
    exact ⟨.initial old, rfl, fun _ _ _ found => nomatch found⟩

theorem delivers_in_order (fits : c.Fits) {s₀ s : State c} {es : List Event}
    (initial : (pcMachine c).init s₀) (run : (pcMachine c).Run s₀ es s) : Delivered c es := by
  have account := run_account fits initial run
  have room := account.invariant.empty
  have written := account.written
  have started : s.producer.stored ≤ s.producer.started := by
    apply Nat.add_le_add_left
    cases s.producer.pc <;> decide
  have owed := account.invariant.counted
  exact ⟨account.inOrder, by omega⟩

/-- The producer puts its first item, and the third child takes it. -/
def labSchedule : List (Act labConfig) :=
  List.replicate 12 .main ++ List.replicate 9 (.child ⟨2, by decide⟩)

theorem first_item_delivered : ∃ es s, (pcMachine labConfig).Run (initialState labConfig fun _ => 7) es s ∧
    consumptions es = [(0, 0)] ∧ Delivered labConfig es := by
  have ran : (exec labConfig (initialState labConfig fun _ => 7) labSchedule).map
      (fun r => consumptions r.2) = some [(0, 0)] := by decide +kernel
  rw [Option.map_eq_some_iff] at ran
  obtain ⟨⟨s, es⟩, ends, items⟩ := ran
  exact ⟨es, s, exec_run ends, items, delivers_in_order (by decide) ⟨_, rfl⟩ (exec_run ends)⟩

/-- A ring whose size in bytes is `2^32 + 4`, so that the consumers' position lies in slot 1. -/
def wideConfig : Config where
  childNumber := 1
  bufferSize := 2 ^ 30 + 1
  maxDataNumber := 2
  someChild := one_positive
  someSlot := by decide
  someData := two_positive

/-- The producer writes both items before the only consumer takes its first. -/
def wideSchedule : List (Act wideConfig) :=
  List.replicate 16 .main ++ List.replicate 9 (.child ⟨0, by decide⟩)

theorem wide_ring_skips_first :
    ∃ es s, (pcMachine wideConfig).Run (initialState wideConfig fun _ => 0) es s ∧
      consumptions es = [(1, 1)] ∧ ¬ Delivered wideConfig es := by
  have ran : (exec wideConfig (initialState wideConfig fun _ => 0) wideSchedule).map
      (fun r => consumptions r.2) = some [(1, 1)] := by decide +kernel
  rw [Option.map_eq_some_iff] at ran
  obtain ⟨⟨s, es⟩, ends, items⟩ := ran
  refine ⟨es, s, exec_run ends, items, ?_⟩
  intro delivered
  have first := delivered.inOrder 0 1 1 (by rw [items]; rfl)
  exact absurd first.1 (by decide)

end Linux011.ProducerConsumer

import Linux011.Proc.Device
import Mathlib.Algebra.Order.BigOperators.Group.List
import Mathlib.Tactic.Ring

namespace Linux011.Proc

def psinfoText (task : Fin 64 → Option Task) : List Byte :=
  psinfoHeader ++ (List.finRange 64).tail.flatMap fun i => ((task i).map Task.line).getD []

def System.text (system : System) : Node → List Byte
  | .psinfo => psinfoText system.task
  | .hdinfo => (system.root.map SuperBlock.summary).getD []

/-- The task table prints into the buffer. -/
def System.Fits (system : System) : Prop := (psinfoText system.task).length < 1024

structure Holds (memory : Memory) (buf : BitVec 32) (text : List Byte) : Prop where
  short : text.length < 1024
  solid : Solid text
  within : ∀ i (inside : i < text.length), memory (buf + BitVec.ofNat 32 i) = text[i]
  ending : memory (buf + BitVec.ofNat 32 text.length) = 0

section Store

variable {memory : Memory} {a : BitVec 32} {text : List Byte}

theorem offset_of {i : Nat} (small : i < 2 ^ 32) : (a + BitVec.ofNat 32 i - a).toNat = i := by
  rw [BitVec.add_comm, BitVec.add_sub_cancel, BitVec.toNat_ofNat, Nat.mod_eq_of_lt small]

theorem store_at {i : Nat} (small : i < 2 ^ 32) (inside : i < text.length) :
    memory.store a text (a + BitVec.ofNat 32 i) = text[i] := by
  rw [Memory.store, offset_of small, List.getElem?_eq_getElem inside, Option.getD_some]

theorem store_other {x : BitVec 32} (outside : ∀ i < text.length, x ≠ a + BitVec.ofNat 32 i) :
    memory.store a text x = memory x := by
  have beyond : text.length ≤ (x - a).toNat := by
    by_contra inside
    apply outside _ (Nat.lt_of_not_le inside)
    rw [BitVec.ofNat_toNat, BitVec.setWidth_eq, BitVec.add_comm, BitVec.sub_add_cancel]
  rw [Memory.store, List.getElem?_eq_none beyond, Option.getD_none]

theorem store_store {rest : List Byte} (some : rest ≠ []) (small : (text ++ rest).length < 2 ^ 32) :
    (memory.store a (text ++ [0])).store (a + BitVec.ofNat 32 text.length) rest = memory.store a (text ++ rest) := by
  rw [List.length_append] at small
  have positive := List.length_pos_iff.mpr some
  have length : (BitVec.ofNat 32 text.length).toNat = text.length := by
    rw [BitVec.toNat_ofNat, Nat.mod_eq_of_lt (by omega)]
  funext x
  have bound := (x - a).isLt
  have offset : (x - (a + BitVec.ofNat 32 text.length)).toNat =
      (2 ^ 32 - text.length + (x - a).toNat) % 2 ^ 32 := by
    rw [← BitVec.sub_sub, BitVec.toNat_sub, length]
  simp only [Memory.store]
  rw [offset]
  by_cases before : (x - a).toNat < text.length
  · rw [List.getElem?_eq_none (l := rest) (by rw [Nat.mod_eq_of_lt] <;> omega), Option.getD_none,
      List.getElem?_append_left before, List.getElem?_append_left before,
      List.getElem?_eq_getElem before, Option.getD_some]
  · have behind : (2 ^ 32 - text.length + (x - a).toNat) % 2 ^ 32 = (x - a).toNat - text.length := by
      rw [show 2 ^ 32 - text.length + (x - a).toNat = (x - a).toNat - text.length + 2 ^ 32 by omega,
        Nat.add_mod_right, Nat.mod_eq_of_lt (by omega)]
    rw [behind, List.getElem?_append_right (by omega), List.getElem?_append_right (by omega)]
    by_cases inside : (x - a).toNat - text.length < rest.length
    · rw [List.getElem?_eq_getElem inside, Option.getD_some, Option.getD_some]
    · rw [List.getElem?_eq_none (l := rest) (by omega), Option.getD_none,
        List.getElem?_eq_none (by rw [List.length_singleton]; omega), Option.getD_none]

theorem holds_store (short : text.length < 1024) (solid : Solid text) :
    Holds (memory.store a (text ++ [0])) a text where
  short := short
  solid := solid
  within i inside := by
    rw [store_at (by omega) (by simp; omega), List.getElem_append_left inside]
  ending := by
    rw [store_at (by omega) (by simp)]
    simp

theorem Holds.other {b : BitVec 32} {shown : List Byte} (holds : Holds memory b shown)
    (short : text.length < 1024) (apart : ∀ i < 1024, ∀ j < 1024, b + BitVec.ofNat 32 i ≠ a + BitVec.ofNat 32 j) :
    Holds (memory.store a (text ++ [0])) b shown := by
  have kept {i : Nat} (low : i < 1024) :
      memory.store a (text ++ [0]) (b + BitVec.ofNat 32 i) = memory (b + BitVec.ofNat 32 i) := by
    apply store_other
    intro j inside
    rw [List.length_append, List.length_singleton] at inside
    exact apart i low j (by omega)
  have low := holds.short
  exact ⟨low, holds.solid, fun i inside => (kept (by omega)).trans (holds.within i inside),
    (kept low).trans holds.ending⟩

theorem Holds.printed_eq (holds : Holds memory a text) : printed a (memory, text.length) = text := by
  apply List.ext_getElem (by simp [printed])
  intro i inside inside'
  simp only [printed, List.getElem_map, List.getElem_range]
  exact holds.within i inside'

end Store

section Refresh

variable {memory : Memory} {buf : BitVec 32} {task : Fin 64 → Option Task}

theorem rows_fold (slots : List (Fin 64)) (text : List Byte)
    (small : (text ++ slots.flatMap fun i => ((task i).map Task.line).getD []).length + 1 < 2 ^ 32) :
    slots.foldl (psinfoRow buf task) (memory.store buf (text ++ [0]), text.length) =
      (memory.store buf ((text ++ slots.flatMap fun i => ((task i).map Task.line).getD []) ++ [0]),
        (text ++ slots.flatMap fun i => ((task i).map Task.line).getD []).length) := by
  induction slots generalizing text with
  | nil => simp
  | cons i slots ih =>
    rw [List.flatMap_cons, ← List.append_assoc] at small ⊢
    rw [List.foldl_cons, ← ih _ small]
    congr 1
    cases here : task i with
    | none => simp [psinfoRow, here]
    | some t =>
      have room : (text ++ (t.line ++ [0])).length < 2 ^ 32 := by
        simp only [here, Option.map_some, Option.getD_some, List.length_append] at small
        simp only [List.length_append, List.length_singleton]
        omega
      simp only [psinfoRow, here, sprintf, Option.map_some, Option.getD_some]
      rw [store_store (by simp) room, List.append_assoc, List.length_append]

theorem length_psinfoText : (psinfoText task).length =
    36 + ((List.finRange 64).tail.map fun i => ((task i).map Task.width).getD 0).sum := by
  have header : psinfoHeader.length = 36 := by decide +kernel
  have lines : ∀ i, (((task i).map Task.line).getD []).length = ((task i).map Task.width).getD 0 := by
    intro i
    cases task i with
    | none => rfl
    | some t => exact t.length_line
  rw [psinfoText, List.length_append, List.length_flatMap, header]
  simp only [lines]

theorem length_psinfoText_le : (psinfoText task).length ≤ 3816 := by
  have each : ∀ w ∈ (List.finRange 64).tail.map fun i => ((task i).map Task.width).getD 0, w ≤ 60 := by
    intro w member
    rcases List.mem_map.mp member with ⟨i, -, rfl⟩
    cases task i with
    | none => exact Nat.zero_le _
    | some t => exact t.width_le
  have all := List.sum_le_card_nsmul _ 60 each
  rw [List.length_map, List.length_tail, List.length_finRange, nsmul_eq_mul] at all
  rw [length_psinfoText]
  omega

theorem refreshPsinfo_eq :
    refreshPsinfo memory buf task = (memory.store buf (psinfoText task ++ [0]), (psinfoText task).length) := by
  have short : (psinfoText task).length ≤ 3816 := length_psinfoText_le
  have rows : (List.finRange 64).tail.foldl (psinfoRow buf task)
      (memory.store buf (psinfoHeader ++ [0]), psinfoHeader.length) =
      (memory.store buf (psinfoText task ++ [0]), (psinfoText task).length) :=
    rows_fold _ _ (by rw [← psinfoText]; omega)
  simp only [refreshPsinfo, sprintf]
  rw [rows, store_store (by simp) (by simp only [List.length_append, List.length_singleton]; omega)]

theorem refreshHdinfo_eq (root : Option SuperBlock) :
    refreshHdinfo memory buf root = (memory.store buf (((root.map SuperBlock.summary).getD []) ++ [0]),
      ((root.map SuperBlock.summary).getD []).length) := by
  cases root with
  | none => simp [refreshHdinfo]
  | some p =>
    have short := p.summary_length
    simp only [refreshHdinfo, sprintf, Option.map_some, Option.getD_some]
    rw [store_store (by simp) (by simp only [List.length_append, List.length_singleton]; omega)]

theorem refresh_eq {L : Layout} {system : System} (node : Node) :
    refresh L system memory node =
      (memory.store (L.buf node) (system.text node ++ [0]), (system.text node).length) := by
  cases node with
  | psinfo => exact refreshPsinfo_eq
  | hdinfo => exact refreshHdinfo_eq system.root

theorem System.Fits.short {system : System} (fits : system.Fits) (node : Node) :
    (system.text node).length < 1024 := by
  cases node with
  | psinfo => exact fits
  | hdinfo =>
    rw [System.text]
    cases system.root with
    | none => exact Nat.zero_lt_succ _
    | some p => exact p.summary_length

theorem System.solid (system : System) (node : Node) : Solid (system.text node) := by
  cases node with
  | psinfo =>
    apply solid_header.append
    intro b member
    obtain ⟨i, _, inLine⟩ := List.mem_flatMap.mp member
    cases here : system.task i with
    | none => simp [here] at inLine
    | some t =>
      rw [here] at inLine
      exact t.solid_line b inLine
  | hdinfo =>
    rw [System.text]
    cases system.root with
    | none => exact fun _ member => nomatch member
    | some p => exact p.solid_summary

end Refresh

end Linux011.Proc

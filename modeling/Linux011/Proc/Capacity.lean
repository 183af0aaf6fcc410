import Linux011.Proc.Refresh

namespace Linux011.Proc

/-- What `refresh_psinfo` should do with `psinfoBuf`, whatever is in memory. -/
structure Refreshes (buf : BitVec 32) (task : Fin 64 → Option Task) : Prop where
  within : ∀ (memory : Memory) x, (∀ i, i < 1024 → x ≠ buf + BitVec.ofNat 32 i) →
    (refreshPsinfo memory buf task).1 x = memory x
  text : ∀ memory : Memory, (refreshPsinfo memory buf task).2 = (psinfoText task).length ∧
    printed buf (refreshPsinfo memory buf task) = psinfoText task ∧
    (refreshPsinfo memory buf task).1 (buf + BitVec.ofNat 32 (psinfoText task).length) = 0

/-- The header, the lines and the null byte have room in the buffer. -/
def Room (task : Fin 64 → Option Task) : Prop :=
  36 + ((List.finRange 64).tail.map fun i => ((task i).map Task.width).getD 0).sum < 1024

instance (task : Fin 64 → Option Task) : Decidable (Room task) := inferInstanceAs (Decidable (_ < _))

section Capacity

variable {buf : BitVec 32} {task : Fin 64 → Option Task}

theorem room_iff : Room task ↔ (psinfoText task).length < 1024 := by
  rw [Room, length_psinfoText]

theorem refreshPsinfo_text (memory : Memory) : (refreshPsinfo memory buf task).2 = (psinfoText task).length ∧
    printed buf (refreshPsinfo memory buf task) = psinfoText task ∧
    (refreshPsinfo memory buf task).1 (buf + BitVec.ofNat 32 (psinfoText task).length) = 0 := by
  have short : (psinfoText task).length ≤ 3816 := length_psinfoText_le
  rw [refreshPsinfo_eq]
  refine ⟨rfl, ?_, ?_⟩
  · apply List.ext_getElem
    · simp [printed]
    · intro i inside inside'
      simp only [printed, List.getElem_map, List.getElem_range]
      rw [store_at (by omega) (by simp; omega), List.getElem_append_left inside']
  · have bound : (psinfoText task).length < (psinfoText task ++ [0]).length := by simp
    have last : memory.store buf (psinfoText task ++ [0]) (buf + BitVec.ofNat 32 (psinfoText task).length) =
        (psinfoText task ++ [0])[(psinfoText task).length] := store_at (by omega) bound
    dsimp only
    rw [last]
    simp

theorem behind_ne {i : Nat} (inside : i < 1024) : buf + BitVec.ofNat 32 1024 ≠ buf + BitVec.ofNat 32 i := by
  intro same
  have offsets := congrArg (fun a => (a - buf).toNat) same
  simp only [offset_of (show 1024 < 2 ^ 32 by decide), offset_of (show i < 2 ^ 32 by omega)] at offsets
  omega

theorem refreshPsinfo_behind (long : 1024 ≤ (psinfoText task).length) :
    ∃ memory : Memory, (refreshPsinfo memory buf task).1 (buf + BitVec.ofNat 32 1024) ≠ memory (buf + BitVec.ofNat 32 1024) := by
  have short : (psinfoText task).length ≤ 3816 := length_psinfoText_le
  have inside : 1024 < (psinfoText task ++ [0]).length := by
    rw [List.length_append, List.length_singleton]
    omega
  have written (memory : Memory) : (refreshPsinfo memory buf task).1 (buf + BitVec.ofNat 32 1024) = (psinfoText task ++ [0])[1024] := by
    rw [refreshPsinfo_eq]
    dsimp only
    exact store_at (i := 1024) (by decide) inside
  use fun _ => (psinfoText task ++ [0])[1024] + 1
  rw [written]
  intro same
  bv_omega

theorem refreshes_iff_room : Refreshes buf task ↔ Room task := by
  rw [room_iff]
  constructor
  · intro good
    by_contra long
    have spilled : ∃ memory : Memory, (refreshPsinfo memory buf task).1 (buf + BitVec.ofNat 32 1024) ≠
        memory (buf + BitVec.ofNat 32 1024) := refreshPsinfo_behind (Nat.le_of_not_lt long)
    rcases spilled with ⟨memory, changed⟩
    apply changed
    apply good.within
    exact fun i inside => behind_ne inside
  · intro room
    refine ⟨fun memory x outside => ?_, refreshPsinfo_text⟩
    rw [refreshPsinfo_eq]
    apply store_other
    intro i inside
    rw [List.length_append, List.length_singleton] at inside
    exact outside i (by omega)

end Capacity

section Examples

/-- Every slot is taken, and the system has been up for a quarter of an hour. -/
def crowded (i : Fin 64) : Option Task := some ⟨1000 + BitVec.ofNat 32 i, 1, 4, 15, 90000⟩

/-- 1170 bytes of text run into the other buffer. -/
theorem crowded_spills : (psinfoText crowded).length = 1170 ∧
    (∃ memory : Memory, (refreshPsinfo memory 0x10000 crowded).1 (0x10000 + BitVec.ofNat 32 1024) ≠ memory (0x10000 + BitVec.ofNat 32 1024)) ∧
    ¬ Refreshes 0x10000 crowded := by
  have length : (psinfoText crowded).length = 1170 := by
    rw [length_psinfoText]
    decide +kernel
  have spilled : ∃ memory : Memory, (refreshPsinfo memory 0x10000 crowded).1 (0x10000 + BitVec.ofNat 32 1024) ≠
      memory (0x10000 + BitVec.ofNat 32 1024) := refreshPsinfo_behind (by omega)
  refine ⟨length, spilled, fun good => ?_⟩
  rcases spilled with ⟨memory, changed⟩
  apply changed
  apply good.within
  exact fun i inside => behind_ne inside

end Examples

end Linux011.Proc

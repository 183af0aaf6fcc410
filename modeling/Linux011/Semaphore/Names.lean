import Mathlib.Data.List.TakeWhile
import Mathlib.Data.List.Basic

namespace Linux011.Semaphore

def MAXSEMNAME : Nat := 128

/-- `strCmp` of `string_fix.h` on two `char` arrays; `none` is a read past the end of one. -/
def strCmp : List UInt8 → List UInt8 → Option Int
  | a :: s1, b :: s2 => if a ≠ 0 ∧ a = b then strCmp s1 s2 else some ((a.toNat : Int) - b.toNat)
  | _, _ => none

/-- The string an array holds: its bytes before the first NUL. -/
def cString (s : List UInt8) : List UInt8 := s.takeWhile (· ≠ 0)

def strlen (s : List UInt8) : Nat := (cString s).length

def strncpy (dest src : List UInt8) (count : Nat) : List UInt8 :=
  let copied := cString (src.take count)
  copied ++ List.replicate (count - copied.length) 0 ++ dest.drop count

/-- The loop that reads a name from user space into `tmpName`, `remaining` rounds before its
    end; `name i` is `get_fs_byte(name + i)`, and the second result is the last `c`. -/
def readName (name : Nat → UInt8) : Nat → List UInt8 → UInt8 → List UInt8 × UInt8
  | 0, tmpName, c => (tmpName, c)
  | remaining + 1, tmpName, _ =>
    let i := MAXSEMNAME - remaining
    let c := name i
    if c = 0 then (tmpName, c) else readName name remaining (tmpName.set i c) c

def getName (name : Nat → UInt8) : List UInt8 × UInt8 :=
  readName name (MAXSEMNAME + 1) (List.replicate (MAXSEMNAME + 1) 0) 0

/-- The string at a user address, when it ends within `MAXSEMNAME` bytes. -/
def userString (name : Nat → UInt8) : Option (List UInt8) :=
  let s := cString ((List.range (MAXSEMNAME + 1)).map name)
  if s.length ≤ MAXSEMNAME then some s else none

theorem cString_terminated {s : List UInt8} (rest : List UInt8) (free : 0 ∉ s) :
    cString (s ++ 0 :: rest) = s := by
  induction s with
  | nil => simp [cString]
  | cons a s ih =>
    simp only [List.mem_cons, not_or] at free
    have nonzero : a ≠ 0 := fun h => free.1 h.symm
    simpa [cString, List.takeWhile_cons, nonzero] using ih free.2

theorem cString_of_free {s : List UInt8} (free : 0 ∉ s) : cString s = s := by
  rw [cString, List.takeWhile_eq_self_iff]
  intro a member
  have nonzero : a ≠ 0 := fun h => free (h ▸ member)
  simpa using nonzero

theorem zero_notMem_cString (s : List UInt8) : 0 ∉ cString s := by
  intro member
  have nonzero := List.mem_takeWhile_imp member
  simp at nonzero

theorem cString_split {s : List UInt8} (terminated : 0 ∈ s) : ∃ rest, s = cString s ++ 0 :: rest := by
  induction s with
  | nil => cases terminated
  | cons a s ih =>
    by_cases zero : a = 0
    · subst zero
      exact ⟨s, by simp [cString]⟩
    · obtain ⟨rest, split⟩ := ih (by simpa [Ne.symm zero] using terminated)
      refine ⟨rest, ?_⟩
      have head : cString (a :: s) = a :: cString s := by simp [cString, zero]
      rw [head, List.cons_append, ← split]

theorem strCmp_terminated {s1 s2 : List UInt8} (first : 0 ∈ s1) (second : 0 ∈ s2) :
    ∃ d, strCmp s1 s2 = some d ∧ (d = 0 ↔ cString s1 = cString s2) := by
  induction s1 generalizing s2 with
  | nil => cases first
  | cons a s1 ih =>
    cases s2 with
    | nil => cases second
    | cons b s2 =>
      by_cases going : a ≠ 0 ∧ a = b
      · obtain ⟨nonzero, rfl⟩ := going
        have first' : 0 ∈ s1 := by simpa [Ne.symm nonzero] using first
        have second' : 0 ∈ s2 := by simpa [Ne.symm nonzero] using second
        obtain ⟨d, returned, zero⟩ := ih first' second'
        refine ⟨d, by simp [strCmp, nonzero, returned], ?_⟩
        rw [zero]
        simp [cString, nonzero]
      · refine ⟨(a.toNat : Int) - b.toNat, by simp only [strCmp, going, ite_false], ?_⟩
        have same : (a.toNat : Int) - b.toNat = 0 ↔ a = b := by
          rw [← UInt8.toNat_inj]
          omega
        rw [same]
        by_cases zero : a = 0
        · subst zero
          by_cases zero' : b = 0
          · subst zero'; simp [cString]
          · simp [cString, zero', Ne.symm zero']
        · have different : a ≠ b := fun h => going ⟨zero, h⟩
          by_cases zero' : b = 0
          · subst zero'; simp [cString, zero]
          · simp [cString, zero, zero', different]

theorem readName_string (name : Nat → UInt8) (rest : List UInt8) :
    ∀ (got : List UInt8) (remaining : Nat) (c : UInt8),
      got.length + remaining = MAXSEMNAME + 1 → rest.length < remaining → 0 ∉ rest →
      (∀ i (h : i < rest.length), name (got.length + i) = rest[i]) →
      name (got.length + rest.length) = 0 →
      readName name remaining (got ++ List.replicate remaining 0) c =
        (got ++ rest ++ List.replicate (remaining - rest.length) 0, 0) := by
  induction rest with
  | nil =>
    intro got remaining c length room _ _ ended
    obtain ⟨left, rfl⟩ : ∃ left, remaining = left + 1 := ⟨remaining - 1, by simp at room; omega⟩
    have index : MAXSEMNAME - left = got.length := by omega
    simp only [readName, index]
    simp only [List.length_nil, Nat.add_zero] at ended
    simp [ended]
  | cons b rest ih =>
    intro got remaining c length room free bytes ended
    obtain ⟨left, rfl⟩ : ∃ left, remaining = left + 1 := ⟨remaining - 1, by simp at room; omega⟩
    have index : MAXSEMNAME - left = got.length := by omega
    have byte : name got.length = b := bytes 0 (by simp)
    simp only [List.mem_cons, not_or] at free
    have nonzero : b ≠ 0 := fun h => free.1 h.symm
    simp only [readName, index, byte, nonzero, if_false]
    have written : (got ++ List.replicate (left + 1) 0).set got.length b =
        got ++ [b] ++ List.replicate left 0 := by
      simp [List.replicate_succ]
    rw [written, ih (got ++ [b]) left b (by simp; omega) (by simpa using room) free.2]
    · simp
    · intro i h
      have byte := bytes (i + 1) (by simpa using h)
      simpa [Nat.add_assoc, Nat.add_comm 1 i] using byte
    · simpa [Nat.add_assoc, Nat.add_comm 1] using ended

theorem readName_overlong (name : Nat → UInt8) (long : ∀ i, i ≤ MAXSEMNAME → name i ≠ 0) :
    ∀ (remaining : Nat) (tmpName : List UInt8) (c : UInt8),
      c ≠ 0 → (readName name remaining tmpName c).2 ≠ 0 := by
  intro remaining
  induction remaining with
  | zero => intro tmpName c nonzero; simpa [readName] using nonzero
  | succ left ih =>
    intro tmpName c _
    have nonzero := long (MAXSEMNAME - left) (by omega)
    simp only [readName, nonzero, if_false]
    exact ih _ _ nonzero

theorem getName_string {name : Nat → UInt8} {n : List UInt8} (read : userString name = some n) :
    getName name = (n ++ List.replicate (MAXSEMNAME + 1 - n.length) 0, 0) ∧
      n.length ≤ MAXSEMNAME ∧ 0 ∉ n := by
  simp only [userString] at read
  split at read
  case isFalse => cases read
  case isTrue short =>
    simp only [Option.some.injEq] at read
    have free : 0 ∉ n := read ▸ zero_notMem_cString _
    have terminated : 0 ∈ (List.range (MAXSEMNAME + 1)).map name := by
      by_contra absent
      rw [cString_of_free absent, List.length_map, List.length_range] at short
      omega
    obtain ⟨rest, split⟩ := cString_split terminated
    rw [read] at short split
    have bytes (i : Nat) (h : i < (n ++ 0 :: rest).length) : name i = (n ++ 0 :: rest)[i] := by
      have bound : i < MAXSEMNAME + 1 := by
        have total := congrArg List.length split
        simp only [List.length_map, List.length_range] at total
        omega
      simp only [← split, List.getElem_map, List.getElem_range]
    refine ⟨?_, short, free⟩
    have result := readName_string name n [] (MAXSEMNAME + 1) 0 (by simp) (by omega) free
    simp only [List.nil_append, List.length_nil, Nat.zero_add] at result
    apply result
    · intro i h
      rw [bytes i (by simp; omega)]
      simp [h]
    · rw [bytes n.length (by simp)]
      simp

theorem getName_overlong {name : Nat → UInt8} (read : userString name = none) :
    (getName name).2 ≠ 0 := by
  simp only [userString] at read
  split at read
  case isTrue => cases read
  case isFalse long =>
    have all : ∀ i, i ≤ MAXSEMNAME → name i ≠ 0 := by
      intro i bound zero
      apply long
      have member : 0 ∈ (List.range (MAXSEMNAME + 1)).map name :=
        List.mem_map.mpr ⟨i, by simpa using Nat.lt_succ_of_le bound, zero⟩
      obtain ⟨rest, split⟩ := cString_split member
      have total := congrArg List.length split
      simp only [List.length_map, List.length_range, List.length_append, List.length_cons] at total
      omega
    have first := all (MAXSEMNAME - MAXSEMNAME) (by omega)
    simp only [getName, readName, first, if_false]
    exact readName_overlong name all _ _ _ first

/-- Copying a name without its NUL keeps whatever the block held behind it. -/
theorem strncpy_name (dest n pad : List UInt8) (free : 0 ∉ n) :
    strncpy dest (n ++ 0 :: pad) (strlen (n ++ 0 :: pad)) = n ++ dest.drop n.length := by
  have length : strlen (n ++ 0 :: pad) = n.length := by rw [strlen, cString_terminated _ free]
  rw [length]
  simp [strncpy, cString_of_free free]

end Linux011.Semaphore

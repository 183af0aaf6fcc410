import Linux011.Library.Numerals
import Mathlib.Data.BitVec
import Mathlib.Data.List.FinRange
import Mathlib.Data.Nat.Log
import Mathlib.Tactic.Common

namespace Linux011.Proc

abbrev Byte := BitVec 8

def byte (c : Char) : Byte := BitVec.ofNat 8 c.toNat

def literal (text : String) : List Byte := text.toList.map byte

/-- `%ld`, and `%d`. -/
def decimal (n : Int) : List Byte :=
  (if n < 0 then [byte '-'] else []) ++ (Nat.toDigits 10 n.natAbs).map byte

/-- What `refresh_psinfo` reads of a task. -/
structure Task where
  pid : BitVec 32
  state : BitVec 32
  father : BitVec 32
  counter : BitVec 32
  startTime : BitVec 32

/-- What `refresh_hdinfo` reads of the super block of the root device: the bits of its two maps say which
    blocks and inodes are in use. -/
structure SuperBlock where
  nzones : BitVec 16
  ninodes : BitVec 16
  zmap : Nat → Bool
  imap : Nat → Bool

structure System where
  task : Fin 64 → Option Task
  root : Option SuperBlock

def psinfoHeader : List Byte := literal "pid\tstate\tfather\tcounter\tstart_time\n"

/-- `"%ld\t%ld\t%ld\t%ld\t%ld\n"` -/
def Task.line (t : Task) : List Byte :=
  decimal t.pid.toInt ++ literal "\t" ++ decimal t.state.toInt ++ literal "\t" ++ decimal t.father.toInt ++
    literal "\t" ++ decimal t.counter.toInt ++ literal "\t" ++ decimal t.startTime.toInt ++ literal "\n"

def SuperBlock.freeBlocks (p : SuperBlock) : Nat := (List.range p.nzones.toNat).countP fun i => !p.zmap i

def SuperBlock.freeInodes (p : SuperBlock) : Nat := (List.range (p.ninodes.toNat + 1)).countP fun i => !p.imap i

/-- `"Free blocks: %d/%d\nFree inodes: %d/%d\n"` -/
def SuperBlock.summary (p : SuperBlock) : List Byte :=
  literal "Free blocks: " ++ decimal p.freeBlocks ++ literal "/" ++ decimal p.nzones.toNat ++
    literal "\nFree inodes: " ++ decimal p.freeInodes ++ literal "/" ++ decimal p.ninodes.toNat ++ literal "\n"

/-- A C string has no byte 0 before its end. -/
def Solid (text : List Byte) : Prop := ∀ b ∈ text, b ≠ 0

theorem Solid.append {text rest : List Byte} (first : Solid text) (second : Solid rest) : Solid (text ++ rest) := by
  intro b member
  rcases List.mem_append.mp member with member | member
  · exact first b member
  · exact second b member

theorem solid_digits (n : Nat) : Solid ((Nat.toDigits 10 n).map byte) := by
  intro b member
  obtain ⟨c, digit, rfl⟩ := List.mem_map.mp member
  have isDigit := Nat.isDigit_of_mem_toDigits (by decide) (by decide) digit
  have range : 48 ≤ c.toNat ∧ c.toNat ≤ 57 := by
    simp only [Char.isDigit, ge_iff_le, Bool.and_eq_true, decide_eq_true_eq] at isDigit
    exact isDigit
  intro zero
  have value : c.toNat % 256 = 0 := congrArg BitVec.toNat zero
  omega

theorem solid_decimal (n : Int) : Solid (decimal n) := by
  apply Solid.append
  · split
    · unfold Solid
      decide
    · exact fun _ member => nomatch member
  · exact solid_digits _

theorem solid_header : Solid psinfoHeader := by
  unfold Solid
  decide +kernel

theorem solid_tab : Solid (literal "\t") := by
  unfold Solid
  decide +kernel

theorem solid_newline : Solid (literal "\n") := by
  unfold Solid
  decide +kernel

theorem Task.solid_line (t : Task) : Solid t.line := by
  have field (n : Int) {text : List Byte} (before : Solid text) : Solid (text ++ literal "\t" ++ decimal n) :=
    (before.append solid_tab).append (solid_decimal n)
  exact (field _ (field _ (field _ (field _ (solid_decimal _))))).append solid_newline

theorem SuperBlock.solid_summary (p : SuperBlock) : Solid p.summary := by
  have pair (n k : Int) {text : List Byte} (before : Solid text) :
      Solid (text ++ decimal n ++ literal "/" ++ decimal k) := by
    have slash : Solid (literal "/") := by
      unfold Solid
      decide +kernel
    exact ((before.append (solid_decimal n)).append slash).append (solid_decimal k)
  have blocks : Solid (literal "Free blocks: ") := by
    unfold Solid
    decide +kernel
  have inodes : Solid (literal "\nFree inodes: ") := by
    unfold Solid
    decide +kernel
  exact (pair _ _ ((pair _ _ blocks).append inodes)).append solid_newline

theorem decimal_length {n k : Nat} (positive : 0 < k) (below : n < 10 ^ k) : (decimal n).length ≤ k := by
  have natural : ¬ ((n : Int) < 0) := by omega
  rw [decimal, if_neg natural, List.nil_append, List.length_map, Int.natAbs_natCast]
  exact (Nat.length_toDigits_le_iff (by decide) positive).mpr below

theorem SuperBlock.summary_length (p : SuperBlock) : p.summary.length < 1024 := by
  have zones := p.nzones.isLt
  have inodes := p.ninodes.isLt
  have freeBlocks : p.freeBlocks ≤ p.nzones.toNat := by
    have bound := List.countP_le_length (p := fun i => !p.zmap i) (l := List.range p.nzones.toNat)
    rwa [List.length_range] at bound
  have freeInodes : p.freeInodes ≤ p.ninodes.toNat + 1 := by
    have bound := List.countP_le_length (p := fun i => !p.imap i) (l := List.range (p.ninodes.toNat + 1))
    rwa [List.length_range] at bound
  have first := decimal_length (n := p.freeBlocks) (k := 5) (by decide) (by omega)
  have second := decimal_length (n := p.nzones.toNat) (k := 5) (by decide) (by omega)
  have third := decimal_length (n := p.freeInodes) (k := 5) (by decide) (by omega)
  have fourth := decimal_length (n := p.ninodes.toNat) (k := 5) (by decide) (by omega)
  have words : (literal "Free blocks: ").length = 13 ∧ (literal "/").length = 1 ∧
      (literal "\nFree inodes: ").length = 14 ∧ (literal "\n").length = 1 := by decide +kernel
  simp only [SuperBlock.summary, List.length_append, words.1, words.2.1, words.2.2.1, words.2.2.2]
  omega

section Widths

def numeralWidth (n : Int) : Nat := (if n < 0 then 1 else 0) + (Nat.log 10 n.natAbs + 1)

def Task.width (t : Task) : Nat :=
  numeralWidth t.pid.toInt + numeralWidth t.state.toInt + numeralWidth t.father.toInt +
    numeralWidth t.counter.toInt + numeralWidth t.startTime.toInt + 5

theorem length_toDigits (n : Nat) : (Nat.toDigits 10 n).length = Nat.log 10 n + 1 := by
  apply le_antisymm
  · exact (Nat.length_toDigits_le_iff (by decide) (Nat.succ_pos _)).mpr (Nat.lt_pow_succ_log_self (by decide) n)
  · have below := (Nat.length_toDigits_le_iff (by decide) Nat.length_toDigits_pos).mp (le_refl (Nat.toDigits 10 n).length)
    exact Nat.log_lt_of_lt_pow' Nat.length_toDigits_pos.ne' below

theorem length_decimal (n : Int) : (decimal n).length = numeralWidth n := by
  rw [decimal, numeralWidth, List.length_append, List.length_map, length_toDigits]
  split <;> rfl

theorem Task.length_line (t : Task) : t.line.length = t.width := by
  have separators : (literal "\t").length = 1 ∧ (literal "\n").length = 1 := by decide +kernel
  simp only [Task.line, Task.width, List.length_append, length_decimal, separators.1, separators.2]
  omega

theorem numeralWidth_toInt (x : BitVec 32) : numeralWidth x.toInt ≤ 11 := by
  have lower := BitVec.le_toInt x
  have upper := BitVec.toInt_lt (x := x)
  have digits : Nat.log 10 x.toInt.natAbs < 10 := by
    apply Nat.log_lt_of_lt_pow' (by decide)
    omega
  rw [numeralWidth]
  split <;> omega

theorem Task.width_le (t : Task) : t.width ≤ 60 := by
  have pid := numeralWidth_toInt t.pid
  have state := numeralWidth_toInt t.state
  have father := numeralWidth_toInt t.father
  have counter := numeralWidth_toInt t.counter
  have startTime := numeralWidth_toInt t.startTime
  rw [Task.width]
  omega

end Widths

end Linux011.Proc

import Linux011.Proc.Refresh

namespace Linux011.Proc

open Linux011.Library

variable {L : Layout}

/-- How the loop of `proc_read` ends when it starts inside a text or at its end. -/
structure Scanned (text : List Byte) (k count : Nat) (loop : Scan) : Prop where
  bytes : loop.bytes = (text.drop k).take count
  pos : loop.pos = BitVec.ofNat 32 (k + loop.bytes.length)
  ended : loop.ended = decide (text.length < k + count)
  within : (∀ i ∈ loop.indexes, i.toNat < text.length) ↔ k + count ≤ text.length
  toEnd : ∀ i ∈ loop.indexes, i.toNat ≤ text.length

theorem Holds.scanned {memory : Memory} {buf : BitVec 32} {text : List Byte} (holds : Holds memory buf text)
    (count k : Nat) (start : k ≤ text.length) :
    Scanned text k count (scan (fun pos => memory (buf + pos)) count (BitVec.ofNat 32 k)) := by
  have short := holds.short
  have index {i : Nat} (low : i ≤ text.length) : (BitVec.ofNat 32 i).toNat = i := by
    rw [BitVec.toNat_ofNat, Nat.mod_eq_of_lt (by omega)]
  induction count generalizing k with
  | zero =>
    refine ⟨by simp [scan], by simp [scan], ?_, ?_, by simp [scan]⟩
    · simp only [scan, Nat.add_zero]
      exact (decide_eq_false (by omega)).symm
    · simp [scan, start]
  | succ count ih =>
    by_cases atEnd : k = text.length
    · subst atEnd
      have stop : scan (fun pos => memory (buf + pos)) (count + 1) (BitVec.ofNat 32 text.length) =
          ⟨[], [BitVec.ofNat 32 text.length], BitVec.ofNat 32 text.length, true⟩ := if_pos holds.ending
      rw [stop]
      refine ⟨by simp, rfl, (decide_eq_true (by omega)).symm, ?_, ?_⟩
      · simp [index (Nat.le_refl _)]
      · simp [index (Nat.le_refl _)]
    · have inside : k < text.length := by omega
      have here : memory (buf + BitVec.ofNat 32 k) = text[k] := holds.within k inside
      have rest := ih (k + 1) inside
      have next : BitVec.ofNat 32 k + 1 = BitVec.ofNat 32 (k + 1) := (BitVec.ofNat_add k 1).symm
      have more : scan (fun pos => memory (buf + pos)) (count + 1) (BitVec.ofNat 32 k) =
          let loop := scan (fun pos => memory (buf + pos)) count (BitVec.ofNat 32 (k + 1))
          ⟨text[k] :: loop.bytes, BitVec.ofNat 32 k :: loop.indexes, loop.pos, loop.ended⟩ := by
        have solid : text[k] ≠ 0 := holds.solid _ (List.getElem_mem inside)
        rw [scan, here, if_neg solid, next]
      rw [more]
      refine ⟨?_, ?_, ?_, ?_, ?_⟩
      · rw [List.drop_eq_getElem_cons inside, List.take_succ_cons, ← rest.bytes]
      · rw [rest.pos, List.length_cons]
        congr 1
        omega
      · rw [rest.ended, decide_eq_decide]
        omega
      · have later := rest.within
        simp only [List.mem_cons, forall_eq_or_imp, index (Nat.le_of_lt inside)]
        rw [later]
        omega
      · simp only [List.mem_cons, forall_eq_or_imp, index (Nat.le_of_lt inside)]
        exact ⟨Nat.le_of_lt inside, rest.toEnd⟩

/-- The device between two calls: no node has an owner, and the buffers hold texts. -/
structure Keeps (L : Layout) (device : Device) (latest : Node → List Byte) : Prop where
  free : ∀ node, device.pid node = -1
  holds : ∀ node, Holds device.memory (L.buf node) (latest node)

theorem Layout.bufs_apart {node other : Node} (apart : other ≠ node) :
    ∀ i < 1024, ∀ j < 1024, L.buf other + BitVec.ofNat 32 i ≠ L.buf node + BitVec.ofNat 32 j := by
  intro i low j low'
  cases node <;> cases other
  · exact absurd rfl apart
  · exact (L.apart j low' i low).symm
  · exact L.apart i low j low'
  · exact absurd rfl apart

theorem Keeps.refreshed {device : Device} {latest : Node → List Byte} {system : System} {node : Node}
    (keeps : Keeps L device latest) (fits : system.Fits) (other : Node) :
    Holds (device.memory.store (L.buf node) (system.text node ++ [0])) (L.buf other)
      (Function.update latest node (system.text node) other) := by
  by_cases same : other = node
  · subst same
    rw [Function.update_self]
    exact holds_store (fits.short other) (system.solid other)
  · rw [Function.update_of_ne same]
    exact (keeps.holds other).other (fits.short node) (Layout.bufs_apart same)

/-- The text a read takes its bytes from: a refresh's at the start of the file, and what is there else. -/
def source (system : System) (latest : Node → List Byte) (node : Node) (pos : BitVec 32) : List Byte :=
  if pos = 0 then system.text node else latest node

structure Served (L : Layout) (system : System) (latest : Node → List Byte) (node : Node) (pos : BitVec 32)
    (count : Nat) (out : Device × BitVec 32 × Reply) : Prop where
  keeps : Keeps L out.1 (Function.update latest node (source system latest node pos))
  loop : ∃ memory, Holds memory (L.buf node) (source system latest node pos) ∧
    ∃ loop, loop = scan (fun pos => memory (L.buf node + pos)) count pos ∧ out.2.1 = loop.pos ∧
      out.2.2.bytes = loop.bytes ∧ out.2.2.indexes = loop.indexes
  result : out.2.2.result = out.2.2.bytes.length
  produced : out.2.2.produced = if pos = 0 then some (node, system.text node) else none

theorem Keeps.readNode {device : Device} {latest : Node → List Byte} {system : System}
    (keeps : Keeps L device latest) (fits : system.Fits) (pid : Int) (node : Node) (pos : BitVec 32) (count : Nat) :
    Served L system latest node pos count (readNode L device system pid node pos count) := by
  have open' : ¬ (device.pid node ≠ -1 ∧ pid ≠ device.pid node) := fun busy => busy.1 (keeps.free node)
  have none' {ended : Bool} (other : Node) :
      (if ended then Function.update device.pid node (-1) else device.pid) other = -1 := by
    cases ended with
    | false => exact keeps.free other
    | true =>
      by_cases same : other = node
      · subst same
        exact Function.update_self _ _ _
      · exact (Function.update_of_ne same _ _).trans (keeps.free other)
  by_cases start : pos = 0
  · have now : source system latest node pos = system.text node := if_pos start
    have shown : Holds (device.memory.store (L.buf node) (system.text node ++ [0])) (L.buf node) (system.text node) :=
      holds_store (fits.short node) (system.solid node)
    rw [Proc.readNode, if_neg open', if_pos start, refresh_eq]
    refine ⟨⟨none', ?_⟩, ⟨_, ?_, _, rfl, rfl, rfl, rfl⟩, rfl, ?_⟩
    · rw [now]
      exact keeps.refreshed fits
    · rw [now]
      exact shown
    · rw [if_pos start]
      exact congrArg (fun text => some (node, text)) shown.printed_eq
  · have now : source system latest node pos = latest node := if_neg start
    rw [Proc.readNode, if_neg open', if_neg start]
    refine ⟨⟨none', ?_⟩, ⟨_, ?_, _, rfl, rfl, rfl, rfl⟩, rfl, ?_⟩
    · rw [now, Function.update_eq_self]
      exact keeps.holds
    · rw [now]
      exact keeps.holds node
    · rw [if_neg start]

end Linux011.Proc

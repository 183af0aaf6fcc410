import Linux011.Library.WordBytes
import Linux011.Mm.Parts

namespace Linux011.Mm

open Linux011.Library

variable {L : Layout} {m m' : Memory} {held : Nat → Nat} {files : Nat → File} {k k' : Kernel} {s q : Fin 64} {t : Task}
  {j : Fin 16} {i : Fin 1024} {address a f : Nat} {c : BitVec 8}

namespace Memory

variable (m : Memory)

def byteAt (address : Nat) : BitVec 8 := byte (m.words (m.wordOf address)) (address % 4)

/-- A byte stored by the kernel, which the CPU does even where the entry is read-only. -/
def putByteAt (address : Nat) (c : BitVec 8) : Memory :=
  m.storeAt address (withByte (m.words (m.wordOf address)) (address % 4) c)

end Memory

namespace Kernel

variable (k : Kernel)

/-- `put_fs_byte`: a missing page is faulted in; beyond the segment the task ends in a protection fault. -/
def putFsByte (files : Nat → File) (s : Fin 64) (t : Task) (address iCount : Nat) (c : BitVec 8) :
    Except Panic (Kernel × Outcome) :=
  if t.dataLimit ≤ address then (k.doExit s t).map fun k => (k, .killed)
  else
    k.settle s t (fun _ => .done)
      ((k.touch files s t address iCount).map fun m => m.putByteAt (Memory.base s + address) c)

/-- A byte in the segments of a task that it can read. The page directory and the page tables, which task 0
    maps with the rest of the kernel, do not count. -/
def Readable (q : Fin 64) (a : Nat) : Prop :=
  ∃ u, k.task q = some u ∧ a < u.dataLimit ∧ present (k.memory.pteOf (Memory.base q + a)) = true ∧
    k.memory.InUse (frame (k.memory.pteOf (Memory.base q + a)))

end Kernel

/-- No other task than one reads anything new where it could read before. -/
def Unseen (k k' : Kernel) (s : Fin 64) : Prop :=
  ∀ q a, q ≠ s → k.Readable q a → k'.memory.byteAt (Memory.base q + a) = k.memory.byteAt (Memory.base q + a)

theorem settled {x : Except Stop Memory} {answer : Memory → Outcome} {outcome : Outcome}
    (returned : k.settle s t answer x = .ok (k', outcome)) :
    (∃ m, x = .ok m ∧ k' = ⟨m, k.task⟩ ∧ outcome = answer m) ∨
      ∃ m, x = .error (.noMemory m) ∧ outcome = .killed ∧ Kernel.doExit ⟨m, k.task⟩ s t = .ok k' := by
  match x with
  | .ok m =>
    cases returned
    exact .inl ⟨m, rfl, rfl, rfl⟩
  | .error (.panic why) => cases returned
  | .error (.noMemory m) =>
    obtain ⟨k₁, gone, same⟩ := returned_map returned
    cases same
    exact .inr ⟨m, rfl, rfl, gone⟩

section Bytes

theorem base_word (q : Fin 64) (a : Nat) : (Memory.base q + a) / 4 % 1024 = a / 4 % 1024 := by
  unfold Memory.base
  omega

theorem base_byte (q : Fin 64) (a : Nat) : (Memory.base q + a) % 4 = a % 4 := by
  unfold Memory.base
  omega

theorem At.byteAt (place : At q a j i) (m : Memory) : m.byteAt (Memory.base q + a) =
    byte (m.words (tableWord (frame (m.window q (j, i))) (a / 4 % 1024))) (a % 4) := by
  rw [Memory.byteAt, Memory.wordOf, place.pteOf, base_word, base_byte]

theorem At.putByteAt (place : At s address j i) (m : Memory) : m.putByteAt (Memory.base s + address) c =
    (m.set (tableWord (frame (m.window s (j, i))) (address / 4 % 1024))
      (withByte (m.words (tableWord (frame (m.window s (j, i))) (address / 4 % 1024))) (address % 4) c)).set
      (m.entryAt (dirOf s j) i) (touched (m.window s (j, i))) := by
  rw [Memory.putByteAt, Memory.storeAt, Memory.wordOf, place.pteOf, place.entryWord, base_word, base_byte]

theorem At.byteAt_kept (place : At q a j i) (here : present (m.window q (j, i)) = true)
    (alike : Alike (m'.window q (j, i)) (m.window q (j, i))) (untouched : Untouched (frame (m.window q (j, i))) m m') :
    m'.byteAt (Memory.base q + a) = m.byteAt (Memory.base q + a) := by
  have inPage : a / 4 % 1024 < 1024 := Nat.mod_lt _ (by decide)
  rw [place.byteAt, place.byteAt, (alike.2 (alike.1.trans here)).1, untouched.words _ inPage]

end Bytes

section Put

theorem plain_views (positive : 0 < f) (plain : m.tables f = 0) {w : Nat} (inPage : w < 1024) (value : BitVec 32) :
    (m.set (tableWord f w) value).pdes = m.pdes ∧ (m.set (tableWord f w) value).ptes = m.ptes := by
  apply views_kept
  · intro v low
    apply set_other
    unfold tableWord
    omega
  · intro d i here
    apply set_other
    intro same
    have use := tables_pos d here
    rw [(tableWord_inj i.isLt inPage same).1, plain] at use
    cases use

theorem Laid.store_elsewhere (laid : Laid m) {d i : Fin 1024} (here : present (m.pte d i) = true)
    (inUse : m.InUse (frame (m.pte d i))) {w : Nat} (inPage : w < 1024) (value : BitVec 32)
    (apart : f ≠ frame (m.pte d i)) (inUse' : m.InUse f) :
    Untouched f m ((m.set (tableWord (frame (m.pte d i)) w) value).set (m.entryAt d i) (touched (m.pte d i))) := by
  have pdes := (plain_views inUse.positive inUse.plain inPage value).1
  have dir : (m.set (tableWord (frame (m.pte d i)) w) value).words d = m.words d := congrFun pdes _
  have first := Untouched.word inUse'.plain inUse.positive inPage apart value
  have second := Untouched.entry (laid.of_pdes pdes) first.plain (d := d) (dir ▸ table_of_pte here) i
    (touched (m.pte d i))
  rw [entryAt_of dir] at second
  exact first.trans second

/-- What a store of the kernel through an entry does. -/
structure Put (m : Memory) (s : Fin 64) (j : Fin 16) (i : Fin 1024) (address : Nat) (c : BitVec 8) (m' : Memory) :
    Prop where
  pdes : m'.pdes = m.pdes
  ptes : m'.ptes = Function.update m.ptes (dirOf s j, i) (touched (m.window s (j, i)))
  map : m'.memMap = m.memMap
  high : m'.highMemory = m.highMemory
  shared : m'.sharedPages = m.sharedPages
  elsewhere : ∀ f, f ≠ frame (m.window s (j, i)) → m.InUse f → Untouched f m m'
  page : ∀ w < 1024, m'.words (tableWord (frame (m.window s (j, i))) w) =
    if w = address / 4 % 1024 then
      withByte (m.words (tableWord (frame (m.window s (j, i))) w)) (address % 4) c
    else m.words (tableWord (frame (m.window s (j, i))) w)

theorem Laid.put (laid : Laid m) (place : At s address j i) (here : present (m.window s (j, i)) = true)
    (inUse : m.InUse (frame (m.window s (j, i)))) (c : BitVec 8) :
    Put m s j i address c (m.putByteAt (Memory.base s + address) c) := by
  have inPage : address / 4 % 1024 < 1024 := Nat.mod_lt _ (by decide)
  rw [place.putByteAt]
  generalize changed : withByte (m.words (tableWord (frame (m.window s (j, i))) (address / 4 % 1024))) (address % 4) c = v
  have views := plain_views inUse.positive inUse.plain inPage v
  have table : present (m.words (dirOf s j)) = true := table_of_pte here
  have dir : (m.set (tableWord (frame (m.window s (j, i))) (address / 4 % 1024)) v).words (dirOf s j) =
      m.words (dirOf s j) := congrFun views.1 _
  have laid' := laid.of_pdes views.1
  have pdes := laid'.set_pdes (d := dirOf s j) (dir ▸ table) i (touched (m.window s (j, i)))
  have ptes := laid'.set_ptes (d := dirOf s j) (dir ▸ table) i (touched (m.window s (j, i)))
  rw [entryAt_of dir] at pdes ptes
  constructor
  case pdes => exact pdes.trans views.1
  case ptes => rw [ptes, views.2]
  case map | high | shared => rfl
  case elsewhere => exact fun f apart inUse' => laid.store_elsewhere here inUse inPage v apart inUse'
  case page =>
    intro w index
    have other : tableWord (frame (m.window s (j, i))) w ≠ m.entryAt (dirOf s j) i := by
      intro same
      have use := tables_pos (dirOf s j) table
      rw [← (tableWord_inj index i.isLt same).1, inUse.plain] at use
      cases use
    rw [set_other other]
    by_cases same : w = address / 4 % 1024
    · rw [if_pos same, same, set_self, changed]
    · rw [if_neg same, set_other fun equal => same (tableWord_inj index inPage equal).2]

theorem Put.window_other (put : Put m s j i address c m') (apart : q ≠ s) : m'.window q = m.window q := by
  rw [Memory.window, put.ptes, windowOf_other apart]
  rfl

theorem Put.window_own (put : Put m s j i address c m') :
    m'.window s = Function.update (m.window s) (j, i) (touched (m.window s (j, i))) := by
  rw [Memory.window, put.ptes, windowOf_same]
  rfl

theorem Put.byteAt (put : Put m s j i address c m') (apart : q ≠ s) {j' : Fin 16} {i' : Fin 1024} (place : At q a j' i')
    (inUse : m.InUse (frame (m.window q (j', i')))) : m'.byteAt (Memory.base q + a) =
      if frame (m.window q (j', i')) = frame (m.window s (j, i)) ∧ a % 4096 = address % 4096 then c
      else m.byteAt (Memory.base q + a) := by
  have inPage : a / 4 % 1024 < 1024 := Nat.mod_lt _ (by decide)
  have offset : a % 4096 = 4 * (a / 4 % 1024) + a % 4 := by omega
  have offset' : address % 4096 = 4 * (address / 4 % 1024) + address % 4 := by omega
  rw [place.byteAt, place.byteAt, put.window_other apart]
  by_cases same : frame (m.window q (j', i')) = frame (m.window s (j, i))
  · rw [same, put.page _ inPage]
    by_cases word : a / 4 % 1024 = address / 4 % 1024
    · rw [if_pos word]
      by_cases within : a % 4 = address % 4
      · rw [if_pos ⟨rfl, by omega⟩, within, byte_withByte (Nat.mod_lt _ (by decide))]
      · rw [if_neg (by omega), byte_withByte_other (Nat.mod_lt _ (by decide)) within]
    · rw [if_neg word, if_neg (by omega)]
  · rw [if_neg fun both => same both.1, (put.elsewhere _ same inUse).words _ inPage]

theorem Put.mappings (put : Put m s j i address c m') (page : Nat) : m'.mappings page = m.mappings page := by
  have moved := mappings_update page put.ptes
  have same : pointsTo page (touched (m.window s (j, i))) = pointsTo page (m.pte (dirOf s j) i) :=
    pointsTo_congr (present_touched _) (frame_touched _)
  omega

theorem Put.inUse (put : Put m s j i address c m') (inUse : m.InUse f) : m'.InUse f where
  positive := inUse.positive
  plain := (tables_eq put.pdes).trans inUse.plain
  mapped := by
    rw [put.mappings]
    exact inUse.mapped

theorem Put.sound (put : Put m s j i address c m') (sound : Sound L m held) : Sound L m' held := by
  have counts := put.mappings
  apply sound.relaid put.map put.shared put.high
  · exact fun page => tables_eq put.pdes
  · exact fun page above use => (counts page).trans (sound.apart page above use)
  · exact fun page use => sound.dataPage page ((counts page) ▸ use)
  · exact fun page _ => by rw [counts]

theorem Put.orderly (put : Put m s j i address c m') (here : present (m.window s (j, i)) = true)
    (orderly : Orderly L ⟨m, held⟩) : Orderly L ⟨m', held⟩ where
  sound := put.sound orderly.sound
  quiet := by
    rw [put.shared]
    exact orderly.quiet
  aligned := by
    rw [put.ptes]
    apply orderly.aligned.update
    intro _ above y _ here' same
    rw [frame_touched] at same above
    exact orderly.aligned y (dirOf s j, i) here' here (same ▸ above) same
  sole := by
    rw [put.ptes]
    apply orderly.sole.update
    intro _ above y apart here' same
    rw [frame_touched] at same above
    constructor
    · by_contra write
      rw [writable_touched, Bool.not_eq_false] at write
      exact apart (orderly.sole (dirOf s j, i) y here write above here' same)
    · by_contra write
      rw [Bool.not_eq_false] at write
      exact apart (orderly.sole y (dirOf s j, i) here' write (same ▸ above) here same.symm).symm

theorem Put.exact {k : Kernel} (put : Put k.memory s j i address c m') (here : present (k.memory.window s (j, i)) = true)
    (exact : Exact L k) : Exact L ⟨m', k.task⟩ :=
  ⟨put.orderly here exact.orderly, exact.tasks.same rfl⟩

end Put

end Linux011.Mm

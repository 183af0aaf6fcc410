import Linux011.Mm.SoundMoves

namespace Linux011.Mm

open Linux011.Library

variable {L : Layout} {m m' : Memory} {held held' : Nat → Nat} {b b' b'' : Books}

/-- The page-table entries of the task in a slot. -/
def windowAt (slot : Nat) : Set (Fin 1024 × Fin 1024) := {x | x.1.val / 16 = slot}

namespace Move

/-- The moves of the kernel that change what is mapped at some entries only, and map pages that nothing else
    maps, or that are mapped at the same place in another task. -/
def own (entries : Set (Fin 1024 × Fin 1024)) : Move → Books → Prop
  | take _, _ | drop _, _ | fill _ _, _ | newTable _ _, _ | grant _ _, _ | copy _ _ _, _ | dropTable _, _ => True
  | mapLow d i _, _ | unmap d i, _ => (d, i) ∈ entries
  | map d i p, b => (d, i) ∈ entries ∧ present (b.memory.pte d i) = false ∧ b.memory.mappings p = 0
  | share d i d', _ => (d', i) ∈ entries ∧ d.val % 16 = d'.val % 16
  | store _ _ _ _, _ | claim _ _, _ | get _, _ => False

theorem own_mono {few many : Set (Fin 1024 × Fin 1024)} (more : few ⊆ many) (move : Move) (b : Books)
    (own : move.own few b) : move.own many b := by
  cases move with
  | mapLow d i e | unmap d i => exact more own
  | map d i p | share d i d' => exact ⟨more own.1, own.2⟩
  | _ => exact own

end Move

namespace Walk

variable {allowed : Move → Books → Prop}

theorem none : Walk L allowed b b := .refl

theorem one (move : Move) (here : allowed move b) (legal : move.Legal L b) : Walk L allowed b (move.apply b) :=
  .single ⟨move, here, legal, rfl⟩

theorem next (walk : Walk L allowed b b') (move : Move) (here : allowed move b') (legal : move.Legal L b') :
    Walk L allowed b (move.apply b') := .tail walk ⟨move, here, legal, rfl⟩

theorem append (first : Walk L allowed b b') (second : Walk L allowed b' b'') : Walk L allowed b b'' :=
  Relation.ReflTransGen.trans first second

theorem mono (walk : Walk L allowed b b') {allowed' : Move → Books → Prop}
    (more : ∀ move b, allowed move b → allowed' move b) : Walk L allowed' b b' := by
  induction walk with
  | refl => exact none
  | tail _ step ih =>
    obtain ⟨move, here, legal, rfl⟩ := step
    exact ih.next move (more move _ here) legal

theorem invariant {I : Books → Prop} (walk : Walk L allowed b b') (start : I b)
    (keeps : ∀ move b, allowed move b → move.Legal L b → I b → I (move.apply b)) : I b' := by
  induction walk with
  | refl => exact start
  | tail _ step ih =>
    obtain ⟨move, here, legal, rfl⟩ := step
    exact keeps move _ here legal ih

theorem sound (walk : Walk L allowed b b') (start : Sound L b.memory b.held) : Sound L b'.memory b'.held :=
  walk.invariant (I := fun b => Sound L b.memory b.held) start fun _ _ _ legal sound => legal.sound sound

theorem invariant_sound {I : Books → Prop} (walk : Walk L allowed b b') (sound : Sound L b.memory b.held) (start : I b)
    (keeps : ∀ move b, allowed move b → move.Legal L b → Sound L b.memory b.held → I b → I (move.apply b)) : I b' := by
  have both : Sound L b'.memory b'.held ∧ I b' := by
    apply walk.invariant (I := fun b => Sound L b.memory b.held ∧ I b) ⟨sound, start⟩
    intro move b here legal both
    exact ⟨legal.sound both.1, keeps move b here legal both.1 both.2⟩
  exact both.2

end Walk

section Free

variable {p : Nat}

theorem Sound.freePage (sound : Sound L m held) (known : p < lowMem ∨ L.Managed p)
    (used : 0 < m.tables p + m.mappings p + held p) : m.freePage p = .ok (m.unref p) := by
  unfold Memory.freePage Memory.unref
  split
  · rfl
  · rename_i above
    have managed := known.resolve_left above
    have inside := managed.2
    rw [sound.high, if_neg (by omega), if_pos (sound.mapped_used managed used)]

theorem unref_words (m : Memory) (p : Nat) : (m.unref p).words = m.words := by
  unfold Memory.unref
  split
  · rfl
  · exact (freed_given m p).words

theorem unmapped_words (m : Memory) (w : Nat) :
    (Move.unmapped m w).words = Function.update m.words w 0 := by
  unfold Move.unmapped
  split
  · show Function.update (m.unref _).words w 0 = _
    rw [unref_words]
  · rfl

theorem Sound.freeEntry (sound : Sound L m held) {d : Fin 1024} (here : present (m.words d) = true)
    (i : Fin 1024) : m.freeEntry (m.entryAt d i) = .ok (Move.unmapped m (m.entryAt d i)) := by
  unfold Memory.freeEntry Move.unmapped
  rw [word_of_pte here]
  by_cases mapped : present (m.pte d i) = true
  · have use := mappings_pos d i mapped
    rw [if_pos mapped, if_pos mapped, sound.freePage (sound.dataPage _ use) (by omega)]
    rfl
  · rw [if_neg mapped, if_neg mapped]

end Free

section FreeTables

variable {d : Fin 1024}

/-- What freeing the first entries of a page table has done. -/
structure Emptied (L : Layout) (held : Nat → Nat) (m : Memory) (d : Fin 1024) (n : Nat) (m' : Memory) : Prop where
  walk : Walk L (Move.own (windowAt (d / 16))) ⟨m, held⟩ ⟨m', held⟩
  pdes : m'.pdes = m.pdes
  empty : ∀ i < n, m'.words (tableWord (frame (m.words d)) i) = 0

theorem Emptied.entry {n : Nat} (emptied : Emptied L held m d n m') (sound : Sound L m held)
    (here : present (m.words d) = true) (below : n < 1024) :
    Ends (Emptied L held m d (n + 1)) (fun _ => False) (m'.freeEntry (tableWord (frame (m.words d)) n)) := by
  have dir : m'.words d = m.words d := congrFun emptied.pdes d
  have here' : present (m'.words d) = true := by rw [dir]; exact here
  have word : tableWord (frame (m.words d)) n = m'.entryAt d n := by rw [Memory.entryAt, dir]
  have sound' : Sound L m' held := emptied.walk.sound sound
  rw [word, sound'.freeEntry here' ⟨n, below⟩]
  refine .pure ⟨emptied.walk.next (.unmap d ⟨n, below⟩) rfl here', ?_, ?_⟩
  · funext d'
    have high := sound'.laid.table_word here' n
    have low := d'.isLt
    show (Move.unmapped m' (m'.entryAt d n)).words d' = _
    rw [unmapped_words, Function.update_of_ne (by omega)]
    exact congrFun emptied.pdes d'
  · intro i upTo
    show (Move.unmapped m' (m'.entryAt d n)).words _ = 0
    rw [unmapped_words, ← word]
    by_cases same : i = n
    · rw [same, Function.update_self]
    · rw [Function.update_of_ne fun equal => same (tableWord_inj (by omega) below equal).2]
      exact emptied.empty i (by omega)

structure WithoutTable (L : Layout) (held : Nat → Nat) (m : Memory) (d : Fin 1024) (m' : Memory) : Prop where
  walk : Walk L (Move.own (windowAt (d / 16))) ⟨m, held⟩ ⟨m', held⟩
  absent : present (m'.words d) = false
  others : ∀ d' : Fin 1024, d' ≠ d → m'.words d' = m.words d'

theorem Sound.freeTable (sound : Sound L m held) (d : Fin 1024) :
    Ends (WithoutTable L held m d) (fun _ => False) (m.freeTable d) := by
  unfold Memory.freeTable
  split
  · rename_i here
    have emptied : Ends (Emptied L held m d 1024) (fun _ => False)
        (upTo (fun m' nr => m'.freeEntry (tableWord (frame (m.words d)) nr)) 1024 m) := by
      apply Ends.upTo
      · exact ⟨.none, rfl, fun _ none => nomatch none⟩
      · intro n m' below emptied
        exact emptied.entry sound here below
    refine emptied.bind fun m' emptied => ?_
    have sound' : Sound L m' held := emptied.walk.sound sound
    have dir : m'.words d = m.words d := congrFun emptied.pdes d
    have here' : present (m'.words d) = true := by rw [dir]; exact here
    have use := tables_pos d here'
    rw [sound'.freePage ((sound'.tablePage _ use).symm.imp_left And.right) (by omega)]
    have empty : ∀ i < 1024, m'.words (m'.entryAt d i) = 0 := by
      intro i below
      rw [Memory.entryAt, dir]
      exact emptied.empty i below
    refine .pure ⟨emptied.walk.next (.dropTable d) trivial ⟨here', empty⟩, ?_, ?_⟩
    · show present (((m'.unref (frame (m'.words d))).set d 0).words d) = false
      rw [set_self, present_zero]
    · intro d' other
      show ((m'.unref (frame (m'.words d))).set d 0).words d' = m.words d'
      rw [set_other fun same => other (Fin.ext same), unref_words]
      exact congrFun emptied.pdes d'
  · rename_i absent
    exact .pure ⟨.none, by simpa using absent, fun _ _ => rfl⟩

theorem base_dir (slot : Nat) : Memory.base slot / 0x400000 = 16 * slot := by
  unfold Memory.base
  omega

theorem base_aligned (slot : Nat) : Memory.base slot % 0x400000 = 0 := by
  unfold Memory.base
  omega

structure Cleared (L : Layout) (held : Nat → Nat) (m : Memory) (slot n : Nat) (m' : Memory) : Prop where
  walk : Walk L (Move.own (windowAt slot)) ⟨m, held⟩ ⟨m', held⟩
  absent : ∀ k < n, present (m'.words (16 * slot + k)) = false

theorem Cleared.table {slot k : Nat} (cleared : Cleared L held m slot k m') (sound : Sound L m held) (inside : slot < 64)
    (below : k < 16) : Ends (Cleared L held m slot (k + 1)) (fun _ => False) (m'.freeTable (16 * slot + k)) := by
  have dir : 16 * slot + k < 1024 := by omega
  have window : (16 * slot + k) / 16 = slot := by omega
  apply ((cleared.walk.sound sound).freeTable ⟨16 * slot + k, dir⟩).mono
  · intro m'' freed
    refine ⟨cleared.walk.append (window ▸ freed.walk), ?_⟩
    intro j upTo
    by_cases same : j = k
    · rw [same]
      exact freed.absent
    · have other := freed.others ⟨16 * slot + j, by omega⟩ fun equal => same (by simpa using equal)
      rw [other]
      exact cleared.absent j (by omega)
  · exact fun _ none => none

theorem Sound.freePageTables (sound : Sound L m held) {slot size : Nat} (positive : 0 < slot)
    (inside : slot < 64) (fits : Memory.dirs size ≤ 16) :
    Ends (Cleared L held m slot (Memory.dirs size)) (fun _ => False)
      (m.freePageTables (Memory.base slot) size) := by
  have nonzero : Memory.base slot ≠ 0 := by
    unfold Memory.base
    omega
  unfold Memory.freePageTables
  rw [if_neg (by rw [base_aligned]; decide), if_neg nonzero, base_dir]
  apply Ends.upTo
  · exact ⟨.none, fun _ none => nomatch none⟩
  · exact fun k m' below cleared => cleared.table sound inside (by omega)

end FreeTables

end Linux011.Mm

import Linux011.Fs.Lookup

namespace Linux011.Fs

open Linux011.Library

variable {σ : Type} {k : Kernel σ} {fs fs' fs₁ : FileSystem σ} {d : Ino} {name : Name} {i n size : Nat} {block : Block}

section Rooms

theorem roomIn_none (full : roomIn n size block = none) (aligned : dirEntrySize ∣ size) :
    (n + 1) * dirEntriesPerBlock * dirEntrySize ≤ size := by
  have last : (63 : Nat) < dirEntriesPerBlock := by decide
  have passed := List.find?_eq_none.mp full ⟨63, last⟩ (List.mem_finRange _)
  rw [Bool.or_eq_true, not_or, decide_eq_true_iff, Nat.not_le] at passed
  have below := passed.1
  rcases aligned with ⟨c, rfl⟩
  unfold dirEntrySize dirEntriesPerBlock at *
  dsimp only at below
  omega

theorem roomIn_some {index : Fin dirEntriesPerBlock} (room : roomIn n size block = some index) :
    (size ≤ (n * dirEntriesPerBlock + index.val) * dirEntrySize ∨ (block index).inode = 0) ∧
      ∀ j : Fin dirEntriesPerBlock, j < index → (n * dirEntriesPerBlock + j.val) * dirEntrySize < size := by
  rcases List.find?_eq_some_iff_getElem.mp room with ⟨here, c, inside, same, before⟩
  rw [Bool.or_eq_true, decide_eq_true_iff, decide_eq_true_iff] at here
  refine ⟨here, fun j less => ?_⟩
  have position : c = index.val := by
    rw [List.getElem_finRange] at same
    rw [← same]
    rfl
  have passed := before j.val (position ▸ less)
  rw [List.getElem_finRange, Bool.not_eq_true', Bool.or_eq_false_iff, decide_eq_false_iff_not] at passed
  exact Nat.not_le.mp passed.1

end Rooms

section Taking

/-- The directory may have grown, but it lists what it listed. -/
structure Prepared (d : Ino) (fs fs' : FileSystem σ) : Prop where
  sound : fs'.Sound
  others : ∀ y, y ≠ d → fs'.inode y = fs.inode y
  own : fs'.inode d = { fs.inode d with
    size := (fs'.inode d).size, zone := (fs'.inode d).zone, indirect := (fs'.inode d).indirect }
  inodeMap : fs'.inodeMap = fs.inodeMap
  live : fs'.live = fs.live
  bare : (fs'.inode d).zone 0 = 0 ↔ (fs.inode d).zone 0 = 0

theorem Prepared.refl (sound : fs.Sound) : Prepared d fs fs := ⟨sound, fun _ _ => rfl, rfl, rfl, rfl, Iff.rfl⟩

theorem Prepared.trans (first : Prepared d fs fs₁) (second : Prepared d fs₁ fs') : Prepared d fs fs' where
  sound := second.sound
  others y other := (second.others y other).trans (first.others y other)
  own := by rw [second.own, first.own]
  inodeMap := second.inodeMap.trans first.inodeMap
  live := second.live.trans first.live
  bare := second.bare.trans first.bare

theorem Prepared.isDir (prepared : Prepared d fs fs') (y : Ino) : fs'.IsDir y ↔ fs.IsDir y := by
  unfold FileSystem.IsDir
  rw [prepared.inodeMap]
  by_cases own : y = d
  · rw [own, prepared.own]
  · rw [prepared.others y own]

theorem Prepared.links (prepared : Prepared d fs fs') (y : Ino) :
    (fs'.inode y).nlinks = (fs.inode y).nlinks ∧ (fs'.inode y).count = (fs.inode y).count := by
  by_cases own : y = d
  · rw [own, prepared.own]
    exact ⟨rfl, rfl⟩
  · rw [prepared.others y own]
    exact ⟨rfl, rfl⟩

theorem Prepared.zone (prepared : Prepared d fs fs') (y : Ino) : (fs'.inode y).zone 0 = 0 ↔ (fs.inode y).zone 0 = 0 := by
  by_cases own : y = d
  · rw [own]
    exact prepared.bare
  · rw [prepared.others y own]

theorem Prepared.tree (prepared : Prepared d fs fs') : fs'.tree = fs.tree := by
  refine Tree.ext ?_ (Set.ext prepared.isDir) prepared.live ?_
  · show {x | fs'.inodeMap x = true} = {x | fs.inodeMap x = true}
    rw [prepared.inodeMap]
  · funext y
    show (if fs'.inodeMap y then (fs'.inode y).nlinks.toNat else 0) = if fs.inodeMap y then (fs.inode y).nlinks.toNat else 0
    rw [prepared.inodeMap]
    by_cases own : y = d
    · rw [own, prepared.own]
    · rw [prepared.others y own]

theorem Prepared.consistent (prepared : Prepared d fs fs') (consistent : Consistent fs) : Consistent fs' where
  sound := prepared.sound
  sane := prepared.tree ▸ consistent.sane
  filled y dir mapped := by
    rw [prepared.live]
    exact consistent.filled y ((prepared.isDir y).mp dir) fun none => mapped ((prepared.zone y).mpr none)

theorem Same.prepared (sound : fs.Sound) (same : Same fs fs') : Prepared d fs fs' where
  sound := (same.near sound).sound sound
  others y _ := by rw [same.inode]
  own := by rw [same.inode]
  inodeMap := same.inodeMap
  live := (same.near sound).live
  bare := by rw [same.inode]

theorem Grown.prepared {b : Nat} (grown : Grown d n b fs fs') (sound : fs.Sound) (isDir : fs.IsDir d) (absent : (fs.inode d).zone n = 0)
    (bare : (fs.inode d).zone 0 ≠ 0) : Prepared d fs fs' where
  sound := grown.sound isDir absent sound bare
  others y other := grown.other other
  own := by rw [grown.self]
  inodeMap := grown.inodeMap
  live := grown.live isDir absent sound
  bare := by
    rw [grown.self]
    dsimp only
    rw [Function.update_of_ne]
    rintro rfl
    exact bare absent

theorem write_prepared (sound : fs.Sound) (isDir : fs.IsDir d) (mapped : (fs.inode d).zone (i / dirEntriesPerBlock) ≠ 0)
    (dead : fs.live d i = none) (de : DirEntry) (unused : i < fs.entries d → de.inode = 0) :
    Prepared d fs (fs.setEntry (fs.slotAt d i) de) where
  sound := sound.congr rfl (fun _ => ⟨rfl, rfl, rfl⟩) sound.aligned rfl sound.held
  others _ _ := rfl
  own := rfl
  inodeMap := rfl
  live := by
    rw [live_setEntry sound isDir mapped, if_neg fun both => both.2 (unused both.1)]
    funext y j
    unfold Tree.setLive
    split
    next here =>
      rw [here.1, here.2]
      exact dead.symm
    next => rfl
  bare := Iff.rfl

theorem grow_prepared (sound : fs.Sound) (isDir : fs.IsDir d) (size : (fs.inode d).size = i * dirEntrySize)
    (unused : (fs.entry (fs.slotAt d i)).inode = 0) :
    Prepared d fs (fs.modifyInode d fun inode => { inode with size := (i + 1) * dirEntrySize }) := by
  have self := modifyInode_self fs d fun inode => { inode with size := (i + 1) * dirEntrySize }
  have other {y : Ino} (apart : y ≠ d) :
      (fs.modifyInode d fun inode => { inode with size := (i + 1) * dirEntrySize }).inode y = fs.inode y :=
    modifyInode_other _ apart
  have zone (y : Ino) : ((fs.modifyInode d fun inode => { inode with size := (i + 1) * dirEntrySize }).inode y).zone = (fs.inode y).zone := by
    by_cases own : y = d
    · rw [own, self]
    · rw [other own]
  have isDir' (y : Ino) : (fs.modifyInode d fun inode => { inode with size := (i + 1) * dirEntrySize }).IsDir y ↔ fs.IsDir y := by
    unfold FileSystem.IsDir
    by_cases own : y = d
    · rw [own, self]
      rfl
    · rw [other own]
      rfl
  refine ⟨sound.congr rfl (fun y => ?_) (fun y dir => ?_) rfl (fun y some' => ?_), fun y apart => other apart, ?_, rfl, ?_, ?_⟩
  · by_cases own : y = d
    · rw [own, self]
      exact ⟨rfl, rfl, rfl⟩
    · rw [other own]
      exact ⟨rfl, rfl, rfl⟩
  · by_cases own : y = d
    · rw [own, self]
      exact Nat.dvd_mul_left ..
    · rw [other own]
      exact sound.aligned y dir
  · by_cases own : y = d
    · rw [own]
      exact isDir.1
    · rw [other own] at some'
      exact sound.held y some'
  · rw [self]
  · funext y
    by_cases own : y = d
    · subst own
      funext j
      apply Option.ext
      intro e
      rw [live_eq_some, live_eq_some, isDir', zone]
      have slot : (fs.modifyInode y fun inode => { inode with size := (i + 1) * dirEntrySize }).slotAt y j = fs.slotAt y j := by
        unfold FileSystem.slotAt
        rw [zone]
      have entry : (fs.modifyInode y fun inode => { inode with size := (i + 1) * dirEntrySize }).entry (fs.slotAt y j) =
          fs.entry (fs.slotAt y j) := rfl
      have before : fs.entries y = i := by
        unfold FileSystem.entries
        rw [size]
        exact Nat.mul_div_cancel _ (by decide)
      have after : (fs.modifyInode y fun inode => { inode with size := (i + 1) * dirEntrySize }).entries y = i + 1 := by
        unfold FileSystem.entries
        rw [self]
        exact Nat.mul_div_cancel _ (by decide)
      rw [slot, entry, before, after]
      constructor
      · rintro ⟨dir, inside, present, some', same⟩
        refine ⟨dir, ?_, present, some', same⟩
        rcases Nat.lt_succ_iff_lt_or_eq.mp inside with less | rfl
        · exact less
        · rw [← same] at some'
          exact absurd unused some'
      · rintro ⟨dir, inside, rest⟩
        exact ⟨dir, Nat.lt_succ_of_lt inside, rest⟩
    · refine live_congr (isDir' y) (fun _ => ?_) (fun _ => zone y) fun _ _ _ => rfl
      rw [other own]
  · rw [zone]

/-- A place has been found for a name, and it is written there. -/
structure Added (d : Ino) (name : Name) (slot : Slot) (fs fs' : FileSystem σ) : Prop extends Prepared d fs fs' where
  place : ∃ i, slot = fs'.slotAt d i ∧ i < fs'.entries d ∧ (fs'.inode d).zone (i / dirEntriesPerBlock) ≠ 0 ∧
    (fs'.entry slot).name = padded name ∧ fs'.live d i = none

theorem Added.after {slot : Slot} (prepared : Prepared d fs fs₁) (added : Added d name slot fs₁ fs') : Added d name slot fs fs' :=
  ⟨prepared.trans added.toPrepared, added.place⟩

theorem write_added (sound : fs.Sound) (isDir : fs.IsDir d) (mapped : (fs.inode d).zone (i / dirEntriesPerBlock) ≠ 0)
    (inside : i < fs.entries d) (unused : (fs.entry (fs.slotAt d i)).inode = 0) (name : Name) :
    Added d name (fs.slotAt d i) fs
      (fs.setEntry (fs.slotAt d i) { fs.entry (fs.slotAt d i) with name := padded name }) := by
  have dead : fs.live d i = none := by
    apply Option.eq_none_iff_forall_ne_some.mpr
    intro e there
    rcases live_eq_some.mp there with ⟨-, -, -, some', same⟩
    rw [same] at unused
    exact some' unused
  have prepared := write_prepared sound isDir mapped dead { fs.entry (fs.slotAt d i) with name := padded name } fun _ => unused
  refine ⟨prepared, i, rfl, inside, mapped, ?_, ?_⟩
  · rw [entry_setEntry, if_pos rfl]
  · rw [prepared.live]
    exact dead

theorem takeEntry_added (sound : fs.Sound) (isDir : fs.IsDir d) {index : Fin dirEntriesPerBlock} (mapped : (fs.inode d).zone n ≠ 0)
    (within : (n * dirEntriesPerBlock + index.val) * dirEntrySize ≤ (fs.inode d).size)
    (room : (fs.inode d).size ≤ (n * dirEntriesPerBlock + index.val) * dirEntrySize ∨
      (fs.block d.dev ((fs.inode d).zone n) index).inode = 0) (name : Name) :
    Gives (takeEntry d name n ⟨d.dev, (fs.inode d).zone n, index⟩)
      (fun _ fs' => Added d name ⟨d.dev, (fs.inode d).zone n, index⟩ fs fs') fs := by
  rw [takeEntry, gives_inodeOf]
  dsimp only
  have slot := slotAt_place fs d n index
  have mapped' : (fs.inode d).zone ((n * dirEntriesPerBlock + index.val) / dirEntriesPerBlock) ≠ 0 := by
    rw [place_div]
    exact mapped
  have unused (inside : ¬ (fs.inode d).size ≤ (n * dirEntriesPerBlock + index.val) * dirEntrySize) :
      (fs.entry (fs.slotAt d (n * dirEntriesPerBlock + index.val))).inode = 0 := by
    rw [slot]
    exact room.resolve_left inside
  split
  next ends =>
    rw [← slot]
    generalize n * dirEntriesPerBlock + index.val = i at *
    have size : (fs.inode d).size = i * dirEntrySize := Nat.le_antisymm ends within
    have dead : fs.live d i = none := by
      apply Option.eq_none_iff_forall_ne_some.mpr
      intro e there
      have inside := (live_eq_some.mp there).2.1
      unfold FileSystem.entries at inside
      rw [size, Nat.mul_div_cancel _ (by decide)] at inside
      exact absurd inside (Nat.lt_irrefl i)
    have cleared := write_prepared sound isDir mapped' dead { fs.entry (fs.slotAt d i) with inode := 0 } fun _ => rfl
    have entry₁ := entry_setEntry fs (fs.slotAt d i) (fs.slotAt d i) { fs.entry (fs.slotAt d i) with inode := 0 }
    rw [if_pos rfl] at entry₁
    have isDir₁ := (cleared.isDir d).mpr isDir
    have slot₁ : (fs.setEntry (fs.slotAt d i) { fs.entry (fs.slotAt d i) with inode := 0 }).slotAt d i = fs.slotAt d i := rfl
    have inode₁ : (fs.setEntry (fs.slotAt d i) { fs.entry (fs.slotAt d i) with inode := 0 }).inode = fs.inode := rfl
    rw [gives_changeEntry]
    generalize fs.setEntry (fs.slotAt d i) { fs.entry (fs.slotAt d i) with inode := 0 } = fs₁ at *
    have grown := grow_prepared cleared.sound isDir₁ (inode₁ ▸ size) (by rw [slot₁, entry₁])
    rw [gives_changeInode]
    have inode₂ := modifyInode_self fs₁ d fun inode => { inode with size := (i + 1) * dirEntrySize }
    have entry₂ : (fs₁.modifyInode d fun inode => { inode with size := (i + 1) * dirEntrySize }).entry = fs₁.entry := rfl
    generalize fs₁.modifyInode d (fun inode => { inode with size := (i + 1) * dirEntrySize }) = fs₂ at *
    have slot₂ : fs₂.slotAt d i = fs.slotAt d i := by
      unfold FileSystem.slotAt
      rw [inode₂, inode₁]
    have inside : i < fs₂.entries d := by
      unfold FileSystem.entries
      rw [inode₂]
      dsimp only
      rw [Nat.mul_div_cancel _ (by decide)]
      exact Nat.lt_succ_self i
    have mapped₂ : (fs₂.inode d).zone (i / dirEntriesPerBlock) ≠ 0 := by
      rw [inode₂, inode₁]
      exact mapped'
    have added := write_added grown.sound ((grown.isDir d).mpr isDir₁) mapped₂ inside (by rw [slot₂, entry₂, entry₁]) name
    rw [slot₂] at added
    rw [gives_lastEntry]
    exact .after (cleared.trans grown) added
  next inside =>
    rw [← slot]
    generalize n * dirEntriesPerBlock + index.val = i at *
    rw [gives_lastEntry]
    refine write_added sound isDir mapped' ?_ (unused inside) name
    unfold FileSystem.entries
    rcases sound.aligned d isDir with ⟨c, size⟩
    rw [size] at inside ⊢
    rw [Nat.mul_div_cancel_left _ (by decide)]
    unfold dirEntrySize at inside
    omega

end Taking

section Adding

/-- What `add_entry` returns, and what it has done to the directory. -/
def Adds (d : Ino) (name : Name) (fs fs' : FileSystem σ) : Option Slot → Prop
  | none => Prepared d fs fs'
  | some slot => Added d name slot fs fs'

theorem Adds.after {out : Option Slot} (prepared : Prepared d fs fs₁) (adds : Adds d name fs₁ fs' out) : Adds d name fs fs' out := by
  cases out with
  | none => exact prepared.trans adds
  | some slot => exact Added.after prepared adds

theorem within_of_room {index : Fin dirEntriesPerBlock} (aligned : dirEntrySize ∣ size)
    (full : n * dirEntriesPerBlock * dirEntrySize ≤ size)
    (before : ∀ j : Fin dirEntriesPerBlock, j < index → (n * dirEntriesPerBlock + j.val) * dirEntrySize < size) :
    (n * dirEntriesPerBlock + index.val) * dirEntrySize ≤ size := by
  rcases index with ⟨i, small⟩
  rcases aligned with ⟨c, rfl⟩
  cases i with
  | zero => exact full
  | succ j =>
    have last := before ⟨j, (Nat.lt_succ_self j).trans small⟩ (Nat.lt_succ_self j)
    unfold dirEntrySize dirEntriesPerBlock at *
    dsimp only at *
    omega

theorem createBlock_prepared (serves : k.Serves) (sound : fs.Sound) (isDir : fs.IsDir d) (bare : (fs.inode d).zone 0 ≠ 0) (n : Nat) :
    Gives (k.createBlock d n) (fun b fs' => Prepared d fs fs' ∧ (fs'.inode d).size = (fs.inode d).size ∧
      b = (fs'.inode d).zone n) fs := by
  apply (serves.createBlock d n fs).imp
  intro b fs₁ made
  split at made
  next absent =>
    have zone : (fs₁.inode d).zone n = b := by
      rw [made.self]
      exact Function.update_self n b (fs.inode d).zone
    refine ⟨made.prepared sound isDir absent bare, ?_, zone.symm⟩
    rw [made.self]
  next =>
    refine ⟨made.2.prepared sound, ?_, ?_⟩
    · rw [made.2.inode]
    · rw [made.2.inode]
      exact made.1

theorem inBlock_adds (sound : fs.Sound) (isDir : fs.IsDir d) (mapped : (fs.inode d).zone n ≠ 0)
    (full : n * dirEntriesPerBlock * dirEntrySize ≤ (fs.inode d).size) (name : Name) (later : FsM σ (Option Slot))
    (onwards : (n + 1) * dirEntriesPerBlock * dirEntrySize ≤ (fs.inode d).size → Gives later (fun out fs' => Adds d name fs fs' out) fs) :
    Gives (match roomIn n (fs.inode d).size (fs.block d.dev ((fs.inode d).zone n)) with
      | some i => do
        takeEntry d name n ⟨d.dev, (fs.inode d).zone n, i⟩
        return some ⟨d.dev, (fs.inode d).zone n, i⟩
      | none => later) (fun out fs' => Adds d name fs fs' out) fs := by
  have aligned := sound.aligned d isDir
  split
  next i found =>
    have room := roomIn_some found
    apply (takeEntry_added sound isDir mapped (within_of_room aligned full room.2) room.1 name).bind
    exact fun _ fs₁ added => added
  next none => exact onwards (roomIn_none none aligned)

theorem addFrom_adds (serves : k.Serves) (sound : fs.Sound) (isDir : fs.IsDir d) (bare : (fs.inode d).zone 0 ≠ 0) (name : Name) (left n : Nat)
    (full : n * dirEntriesPerBlock * dirEntrySize ≤ (fs.inode d).size) :
    Gives (addFrom k d name left n) (fun out fs' => Adds d name fs fs' out) fs := by
  induction left generalizing n fs with
  | zero => exact gives_throw
  | succ left ih =>
    rw [addFrom]
    apply (createBlock_prepared serves sound isDir bare n).bind
    rintro b fs₁ ⟨prepared, size, rfl⟩
    split
    next => exact prepared
    next mapped =>
      apply (serves.bread d.dev _ fs₁).bind
      rintro read fs₂ ⟨rfl, same⟩
      have prepared₂ := prepared.trans (same.prepared prepared.sound)
      have isDir₂ := (prepared₂.isDir d).mpr isDir
      rw [← same.inode] at mapped size ⊢
      rw [Bool.not_true, if_neg (by decide), gives_inodeOf, gives_get]
      have found := inBlock_adds prepared₂.sound isDir₂ mapped (size ▸ full) name (addFrom k d name left (n + 1)) fun full' =>
        ih prepared₂.sound isDir₂ (fun none => bare (prepared₂.bare.mp none)) (n + 1) full'
      exact found.imp fun out fs₃ adds => adds.after prepared₂

theorem addEntry_adds (serves : k.Serves) (sound : fs.Sound) (isDir : fs.IsDir d) (name : Name) :
    Gives (addEntry k d name) (fun out fs' => Adds d (name.take nameLen) fs fs' out ∧
      (out ≠ none → (fs.inode d).zone 0 ≠ 0)) fs := by
  rw [addEntry, gives_inodeOf]
  dsimp only
  split
  next => exact ⟨Prepared.refl sound, absurd rfl⟩
  next =>
    split
    next => exact ⟨Prepared.refl sound, absurd rfl⟩
    next mapped =>
      apply (serves.bread d.dev _ fs).bind
      rintro read fs₁ ⟨rfl, same⟩
      have prepared : Prepared d fs fs₁ := same.prepared sound
      have first := mapped
      rw [← same.inode] at mapped ⊢
      rw [Bool.not_true, if_neg (by decide), gives_inodeOf, gives_get]
      have isDir₁ := (prepared.isDir d).mpr isDir
      have found := inBlock_adds prepared.sound isDir₁ mapped (by simp) (name.take nameLen)
        (addFrom k d (name.take nameLen) (maxBlocks - 1) 1) fun full =>
          addFrom_adds serves prepared.sound isDir₁ mapped _ _ 1 full
      exact found.imp fun out fs₂ adds => ⟨adds.after prepared, fun _ => same.inode ▸ first⟩

end Adding

end Linux011.Fs

import Linux011.Mm.Faults

namespace Linux011.Mm

open Linux011.Library

variable {L : Layout} {m m' : Memory} {held : Nat → Nat} {files : Nat → File} {k : Kernel} {s nr : Fin 64} {t : Task}

section Branch

/-- What `fork` has done to the memory: the child maps pages of the parent, in the first `n` page tables. -/
structure Branched (m : Memory) (s nr : Fin 64) (n : Nat) (m' : Memory) : Prop where
  others : ∀ r, r ≠ s → r ≠ nr → m'.window r = m.window r
  source : ∀ x, Alike (m'.window s x) (m.window s x)
  child : ∀ x : Fin 16 × Fin 1024, present (m'.window nr x) = true → x.1.val < n
  alike : ∀ x : Fin 16 × Fin 1024, x.1.val < n → x.2.val < copiedEntries s → Alike (m'.window nr x) (m'.window s x)
  spares : Spares m m'

theorem window_words (same : m'.words = m.words) (r : Fin 64) : m'.window r = m.window r :=
  window_eq (views_kept (fun w _ => congrFun same w) fun _ _ _ => congrFun same _).2 r

theorem Branched.before {p : Nat} (sound : Sound L m held) (managed : L.Managed p) (free : m.memMap (mapNr p) = 0)
    {n : Nat} (branched : Branched (m.take p) s nr n m') : Branched m s nr n m' := by
  have views := take_views (Sound.positive managed) (sound.free managed free).1
  refine ⟨?_, ?_, branched.child, branched.alike, ?_⟩
  · intro r parent child
    rw [branched.others r parent child, window_eq views.2]
  · intro x
    rw [← window_eq views.2]
    exact branched.source x
  · exact (sound.take_spares managed free).trans_ptes branched.spares views.2

theorem Branched.after {m'' : Memory} {n : Nat} (branched : Branched m s nr n m') (same : m''.words = m'.words) :
    Branched m s nr n m'' := by
  refine ⟨?_, ?_, ?_, ?_, fun f inUse => ?_⟩
  · intro r parent child
    rw [window_words same, branched.others r parent child]
  · intro x
    rw [window_words same]
    exact branched.source x
  · intro x here
    rw [window_words same] at here
    exact branched.child x here
  · intro x below inside
    rw [window_words same, window_words same]
    exact branched.alike x below inside
  · have untouched := branched.spares f inUse
    exact untouched.trans (.of_words untouched.plain same)

theorem Sound.copyMem_branched (sound : Sound L m held) (apart : s ≠ nr) (other : nr ≠ 0) (room : m.Room s)
    (fits : t.Fits) (blank : ∀ x, present (m.window nr x) = false) :
    Ends (fun r => ∃ n, Branched m s nr n r.1 ∧ (r.2 = 0 → n = Memory.dirs t.dataLimit) ∧ (r.2 ≠ 0 → n = 0))
      (fun _ => True) (m.copyMem s nr t) := by
  have copied := sound.copyPageTables_beside apart room (dirs_fit fits.2) blank
  have limits := fits.1
  unfold Memory.copyMem
  rw [if_neg (by omega)]
  generalize m.copyPageTables (Memory.base s) (Memory.base nr) t.dataLimit = x at copied
  match x with
  | .ok m' =>
    obtain ⟨copying, beside⟩ := copied.ok m' rfl
    refine .pure ⟨Memory.dirs t.dataLimit, ⟨beside.others, copying.source, ?_, ?_, beside.spares⟩, fun _ => rfl, by tauto⟩
    · intro x here
      by_contra beyond
      rw [beside.beyond x (by omega), blank] at here
      cases here
    · exact fun x below inside => copying.alike x (.inl below) inside
  | .error (.panic why) => exact .stop trivial
  | .error (.noMemory m') =>
    rcases copied.error _ rfl with same | ⟨_, n, same, few, copying, beside⟩
    · cases same
    · cases same
      have vacated := (copying.walk.sound sound).vacate other (dirs_fit fits.2)
      apply (vacated.mono (fun _ vacated => vacated) fun _ none => none.elim).map
      intro m'' vacated
      refine ⟨0, ⟨?_, ?_, ?_, nofun, ?_⟩, nofun, fun _ => rfl⟩
      · intro r parent child
        rw [vacated.others r child, beside.others r parent child]
      · intro x
        rw [vacated.others s apart]
        exact copying.source x
      · intro x here
        by_cases below : x.1.val < Memory.dirs t.dataLimit
        · rw [vacated.gone x below] at here
          cases here
        · rw [vacated.rest x (by omega), beside.beyond x (by omega), blank] at here
          cases here
      · intro f inUse
        have untouched := beside.spares f inUse
        exact untouched.trans (vacated.untouched f inUse.positive untouched.plain)

/-- What `fork` comes to, a new task or none. -/
inductive Forks (k : Kernel) (s : Fin 64) (t : Task) : Kernel → Prop
  | idle : Forks k s t k
  | failed {nr : Fin 64} {m' : Memory} (empty : k.task nr = none) (branched : Branched k.memory s nr 0 m') :
    Forks k s t ⟨m', k.task⟩
  | forked {nr : Fin 64} {p : Nat} {m' : Memory} (empty : k.task nr = none) (other : nr ≠ 0)
    (branched : Branched k.memory s nr (Memory.dirs t.dataLimit) m') :
    Forks k s t ⟨m', Function.update k.task nr (some { t with page := p })⟩

theorem Sound.forks (sound : Sound L k.memory held) (here : k.task s = some t) (room : k.memory.Room s) (fits : t.Fits)
    (blank : ∀ nr, nr ≠ 0 → k.task nr = none → ∀ x, present (k.memory.window nr x) = false) :
    Ends (fun r => Forks k s t r.1) (fun _ => True) (k.sysFork s t) := by
  unfold Kernel.sysFork
  split
  · exact .pure .idle
  · rename_i nr found
    obtain ⟨empty, other⟩ := findEmptyProcess_empty found
    have apart : s ≠ nr := by
      rintro rfl
      rw [here] at empty
      cases empty
    unfold Kernel.copyProcess
    split
    · exact .pure .idle
    · rename_i p m got
      obtain ⟨rfl, managed, free⟩ := sound.getFreePage got
      have views := take_views (Sound.positive managed) (sound.free managed free).1
      have sound₁ : Sound L (k.memory.take p) (Function.update held p (held p + 1)) := sound.take managed free
      have blank' : ∀ x, present ((k.memory.take p).window nr x) = false := by
        intro x
        rw [window_eq views.2]
        exact blank nr other empty x
      have copied := sound₁.copyMem_branched apart other (sound.room_taken room managed free) fits blank'
      refine copied.bind fun r result => ?_
      obtain ⟨m', failed⟩ := r
      obtain ⟨n, branched, whole, none⟩ := result
      have branched := Branched.before sound managed free branched
      dsimp only at whole none ⊢
      split
      · rename_i failed
        rw [none failed] at branched
        apply (freePage_words m' p).bind
        intro m'' same
        exact .pure (.failed empty (branched.after same))
      · rename_i copied
        rw [whole (by simpa using copied)] at branched
        exact .pure (.forked empty other branched)

theorem Forks.spares {k' : Kernel} (forks : Forks k s t k') : Spares k.memory k'.memory := by
  cases forks with
  | idle => exact .refl _
  | failed _ branched => exact branched.spares
  | forked _ _ branched => exact branched.spares

theorem Booted.blank (booted : Booted L k) (other : nr ≠ 0) (x : Fin 16 × Fin 1024) :
    present (k.memory.window nr x) = false := by
  have positive : 0 < nr.val := Nat.pos_of_ne_zero fun same => other (Fin.ext same)
  by_contra here
  have low : (dirOf nr x.1).val < 16 := booted.table_dir (table_of_pte (Bool.eq_true_of_not_eq_false here))
  have dir := dirOf_div nr x.1
  omega

end Branch

section Vacate

theorem Sound.vacateSegments (sound : Sound L m held) (fits : t.Fits) :
    Ends (fun m' => s ≠ 0 ∧ Vacated m s (Memory.dirs t.dataLimit) m') Harmless (do
      let m ← m.freePageTables (Memory.base s) t.codeLimit
      m.freePageTables (Memory.base s) t.dataLimit) := by
  by_cases first : s = 0
  · subst first
    have zero : Memory.base (0 : Fin 64) = 0 := rfl
    unfold Memory.freePageTables
    rw [zero, if_neg (by decide), if_pos rfl]
    exact .stop ⟨by decide, by decide⟩
  · have positive : 0 < s.val := Nat.pos_of_ne_zero fun same => first (Fin.ext same)
    have few := dirs_fit (fits.1.trans fits.2)
    have more : Memory.dirs t.codeLimit ≤ Memory.dirs t.dataLimit := by
      have limits := fits.1
      unfold Memory.dirs
      omega
    have cleared := sound.freePageTables positive s.isLt few
    have code := sound.vacate first few
    have both : Ends (fun m' => Sound L m' held ∧ Vacated m s (Memory.dirs t.codeLimit) m') Harmless
        (m.freePageTables (Memory.base s) t.codeLimit) := by
      constructor
      · exact fun m' returned => ⟨(cleared.ok m' returned).walk.sound sound, code.ok m' returned⟩
      · exact fun stop stopped => (code.error stop stopped).elim
    apply both.bind
    rintro m₁ ⟨sound₁, vacated⟩
    apply (sound₁.vacate first (dirs_fit fits.2)).mono
    · exact fun m₂ vacated' => ⟨first, vacated.trans vacated' more⟩
    · exact fun _ none => none.elim

/-- A task that has ended, or has another image, with its memory gone. -/
structure Left (k : Kernel) (s : Fin 64) (t u : Task) (k' : Kernel) : Prop where
  other : s ≠ 0
  vacated : Vacated k.memory s (Memory.dirs t.dataLimit) k'.memory
  task : k'.task = Function.update k.task s (some u)

theorem Sound.doExit_left (sound : Sound L k.memory held) (fits : t.Fits) :
    Ends (Left k s t { t with zombie := true, executable := none }) Harmless (k.doExit s t) := by
  have freed := sound.vacateSegments (s := s) fits
  unfold Kernel.doExit
  rw [← bind_assoc]
  exact freed.bind fun m ⟨other, vacated⟩ => .pure ⟨other, vacated, rfl⟩

theorem Sound.doExecve_left (sound : Sound L k.memory held) (fits : t.Fits) (inode : Nat) (brk : BitVec 32)
    (codeLimit dataLimit : Nat) : Ends (Left k s t (Kernel.image files t inode brk codeLimit dataLimit)) Harmless
      (k.doExecve files s t inode brk codeLimit dataLimit) := by
  have freed := sound.vacateSegments (s := s) fits
  unfold Kernel.doExecve
  rw [← bind_assoc]
  exact freed.bind fun m ⟨other, vacated⟩ => .pure ⟨other, vacated, rfl⟩

end Vacate

end Linux011.Mm

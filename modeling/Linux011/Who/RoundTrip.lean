import Linux011.Library.Machine
import Linux011.Who.Name

namespace Linux011.Who

open Linux011.Library Linux011.Mm

/-- `nameInKernel` and the memory of each process, as it sees it. -/
structure World where
  stored : NameInKernel
  user : Nat → BitVec 32 → BitVec 8

/-- A call with what it returns, or a store of a program to its own memory. -/
inductive Event
  | iam (p : Nat) (name : BitVec 32) (returned : Int)
  | whoami (p : Nat) (name size : BitVec 32) (returned : Int)
  | store (p : Nat) (a : BitVec 32) (c : BitVec 8)

namespace World

variable (w : World)

def putFsByte (p : Nat) (c : BitVec 8) (a : BitVec 32) : World :=
  { w with user := Function.update w.user p (Function.update (w.user p) a c) }

def iam (p : Nat) (name : BitVec 32) : World × Int :=
  let (stored, returned) := sysIam w.stored fun i => w.user p (name + BitVec.ofNat 32 i)
  ({ w with stored := stored }, returned)

/-- The loop of `sys_whoami`, over the bytes that are left. -/
def putBytes (p : Nat) : World → BitVec 32 → List (BitVec 8) → World
  | w, _, [] => w
  | w, a, c :: cs => putBytes p (w.putFsByte p c a) (a + 1) cs

def whoami (p : Nat) (name size : BitVec 32) : World × Int :=
  if size < BitVec.ofNat 32 w.stored.needLength then (w, -EINVAL)
  else (putBytes p w name w.stored.stores, w.stored.needLength - 1)

end World

def StringAt (memory : BitVec 32 → BitVec 8) (a : BitVec 32) (s : List (BitVec 8)) : Prop :=
  0 ∉ s ∧ (∀ i, i < s.length → s[i]? = some (memory (a + BitVec.ofNat 32 i))) ∧
    memory (a + BitVec.ofNat 32 s.length) = 0

/-- Calls of any processes, with strings that end. -/
def calls : Machine World Event where
  init _ := True
  step w e w' :=
    match e with
    | .iam p name returned => (∃ s, StringAt (w.user p) name s) ∧ w.iam p name = (w', returned)
    | .whoami p name size returned => w.whoami p name size = (w', returned)
    | .store p a c => w' = w.putFsByte p c a

/-- A name, and the memory of each process. -/
structure Named where
  name : List (BitVec 8)
  user : Nat → BitVec 32 → BitVec 8

/-- Memory with some bytes written from an address on. -/
def writtenAt (memory : BitVec 32 → BitVec 8) (a : BitVec 32) (bytes : List (BitVec 8)) : BitVec 32 → BitVec 8 :=
  fun b => (bytes[(b - a).toNat]?).getD (memory b)

def names : Machine Named Event where
  init _ := True
  step n e n' :=
    match e with
    | .iam p a returned => ∃ s, StringAt (n.user p) a s ∧ n'.user = n.user ∧
      if s.length ≤ 23 then returned = s.length ∧ n'.name = s else returned = -EINVAL ∧ n'.name = n.name
    | .whoami p a size returned => n'.name = n.name ∧
      if n.name.length < size.toNat then
        returned = n.name.length ∧ n'.user = Function.update n.user p (writtenAt (n.user p) a (n.name ++ [0]))
      else returned = -EINVAL ∧ n'.user = n.user
    | .store p a c => n'.name = n.name ∧ n'.user = Function.update n.user p (writtenAt (n.user p) a [c])

def NameInKernel.name (stored : NameInKernel) : List (BitVec 8) := (List.ofFn stored.bytes).takeWhile (· ≠ 0)

def World.view (w : World) : Named := ⟨w.stored.name, w.user⟩

section Reading

theorem readName_of_string {name : Nat → BitVec 8} {l : Nat} (before : ∀ i, i < l → name i ≠ 0) (last : name l = 0)
    {n i : Nat} (reached : i ≤ l) (tmp : Fin 24 → BitVec 8) :
    readName name n i tmp =
      (min l (i + n), fun j : Fin 24 => if i ≤ j.val ∧ j.val < min l (i + n) then name j else tmp j) := by
  induction n generalizing i tmp with
  | zero =>
    rw [readName, Nat.add_zero, min_eq_right reached]
    congr 1
    funext j
    rw [if_neg (by omega)]
  | succ n ih =>
    rw [readName]
    split
    · next zero =>
      have finish : i = l := by
        by_contra inside
        exact before i (by omega) zero
      rw [finish, min_eq_left (by omega)]
      congr 1
      funext j
      rw [if_neg (by omega)]
    · next more =>
      have inside : i < l := by
        apply lt_of_le_of_ne reached
        intro finish
        exact more (finish ▸ last)
      have bound : i + 1 + n = i + (n + 1) := by omega
      rw [ih inside, bound]
      congr 1
      funext j
      by_cases here : j.val = i
      · rw [if_neg (by omega), if_pos here, if_pos (by omega), here]
      · rw [if_neg here]
        have same : (i + 1 ≤ j.val ∧ j.val < min l (i + (n + 1))) ↔ (i ≤ j.val ∧ j.val < min l (i + (n + 1))) := by omega
        simp only [same]

theorem takeWhile_of_ended {bytes : List (BitVec 8)} (ended : 0 ∈ bytes) :
    bytes.take ((bytes.takeWhile (· ≠ 0)).length + 1) = bytes.takeWhile (· ≠ 0) ++ [0] := by
  induction bytes with
  | nil => cases ended
  | cons c cs ih =>
    by_cases zero : c = 0
    · simp [zero]
    · have later : 0 ∈ cs := (List.mem_cons.mp ended).resolve_left (Ne.symm zero)
      simp only [List.takeWhile_cons, zero, ne_eq, not_false_eq_true, decide_true, if_true, List.length_cons,
        List.take_succ_cons, List.cons_append] at *
      rw [ih later]

theorem NameInKernel.stores_eq (stored : NameInKernel) : stored.stores = stored.name ++ [0] :=
  takeWhile_of_ended (List.mem_ofFn.mpr ⟨23, stored.ended⟩)

theorem takeWhile_padded {s : List (BitVec 8)} (plain : 0 ∉ s) (short : s.length ≤ 23) {bytes : Fin 24 → BitVec 8}
    (same : ∀ j : Fin 24, bytes j = s.getD j 0) : (List.ofFn bytes).takeWhile (· ≠ 0) = s := by
  have whole : List.ofFn bytes = s ++ List.replicate (24 - s.length) 0 := by
    apply List.ext_getElem
    · simp
      omega
    · intro i bound _
      rw [List.length_ofFn] at bound
      rw [List.getElem_ofFn, same, List.getElem_append, List.getD_eq_getElem?_getD]
      split
      · next inside => simp [inside]
      · next outside => simp [outside]
  have rest : List.replicate (24 - s.length) (0 : BitVec 8) = 0 :: List.replicate (23 - s.length) 0 := by
    rw [← List.replicate_succ]
    congr 1
    omega
  rw [whole, List.takeWhile_append_of_pos, rest]
  · simp
  · intro c member
    exact decide_eq_true fun zero : c = 0 => plain (zero ▸ member)

theorem sysIam_of_string (stored : NameInKernel) {name : Nat → BitVec 8} {s : List (BitVec 8)} (plain : 0 ∉ s)
    (bytes : ∀ i, i < s.length → s[i]? = some (name i)) (last : name s.length = 0) :
    if s.length ≤ 23 then (sysIam stored name).1.name = s ∧ (sysIam stored name).2 = s.length
    else sysIam stored name = (stored, -EINVAL) := by
  have before : ∀ i, i < s.length → name i ≠ 0 := by
    intro i inside zero
    have there := bytes i inside
    rw [zero] at there
    exact plain (List.mem_of_getElem? there)
  have read := readName_of_string before last (n := 24) (Nat.zero_le _) fun _ => 0
  rw [Nat.zero_add] at read
  have same : ∀ j : Fin 24, (if 0 ≤ j.val ∧ j.val < min s.length 24 then name j else 0) = s.getD j 0 := by
    intro j
    rw [List.getD_eq_getElem?_getD]
    by_cases inside : j.val < s.length
    · rw [if_pos (by omega), bytes j inside, Option.getD_some]
    · rw [if_neg (by omega), List.getElem?_eq_none (by omega), Option.getD_none]
  rw [sysIam, read]
  dsimp only
  split
  · next short =>
    have ended : (if 0 ≤ (23 : Fin 24).val ∧ (23 : Fin 24).val < min s.length 24 then name (23 : Fin 24) else 0) = 0 := by
      rw [if_neg]
      change ¬ (0 ≤ 23 ∧ 23 < min s.length 24)
      omega
    rw [dif_pos ended]
    have whole : min s.length 24 = s.length := min_eq_left (by omega)
    exact ⟨takeWhile_padded plain short same, congrArg Nat.cast whole⟩
  · next long =>
    have open_ : ¬ (if 0 ≤ (23 : Fin 24).val ∧ (23 : Fin 24).val < min s.length 24 then name (23 : Fin 24) else 0) = 0 := by
      rw [if_pos]
      · exact before 23 (by omega)
      · change 0 ≤ 23 ∧ 23 < min s.length 24
        omega
    rw [dif_neg open_]

end Reading

section Writing

theorem World.putFsByte_user (w : World) (p : Nat) (c : BitVec 8) (a : BitVec 32) :
    (w.putFsByte p c a).user = Function.update w.user p (writtenAt (w.user p) a [c]) := by
  rw [World.putFsByte]
  dsimp only
  congr 1
  ext b
  rw [writtenAt, Function.update_apply]
  by_cases here : b = a
  · rw [if_pos here, here, BitVec.sub_self]
    rfl
  · have far : 0 < (b - a).toNat := by bv_omega
    rw [if_neg here, List.getElem?_eq_none (by rw [List.length_singleton]; omega)]
    rfl

theorem writtenAt_cons (memory : BitVec 32 → BitVec 8) (a : BitVec 32) (c : BitVec 8) {cs : List (BitVec 8)}
    (room : cs.length < 2 ^ 32) :
    writtenAt (writtenAt memory a [c]) (a + 1) cs = writtenAt memory a (c :: cs) := by
  ext b
  have limit := (b - a).isLt
  rw [writtenAt, writtenAt, writtenAt]
  by_cases here : b = a
  · have last : (b - (a + 1)).toNat = 2 ^ 32 - 1 := by bv_omega
    have first : (b - a).toNat = 0 := by bv_omega
    rw [last, first, List.getElem?_eq_none (by omega)]
    rfl
  · have next : (b - a).toNat = (b - (a + 1)).toNat + 1 := by bv_omega
    rw [next, List.getElem?_cons_succ, List.getElem?_cons_succ, List.getElem?_nil]
    rfl

theorem World.putBytes_stored (p : Nat) (w : World) (a : BitVec 32) (cs : List (BitVec 8)) :
    (World.putBytes p w a cs).stored = w.stored := by
  induction cs generalizing w a with
  | nil => rfl
  | cons c cs ih => exact ih _ _

theorem World.putBytes_user (p : Nat) (w : World) (a : BitVec 32) {cs : List (BitVec 8)} (room : cs.length < 2 ^ 32) :
    (World.putBytes p w a cs).user = Function.update w.user p (writtenAt (w.user p) a cs) := by
  induction cs generalizing w a with
  | nil =>
    rw [World.putBytes]
    have same : writtenAt (w.user p) a [] = w.user p := by
      funext b
      rfl
    rw [same, Function.update_eq_self]
  | cons c cs ih =>
    rw [List.length_cons] at room
    rw [World.putBytes, ih _ _ (by omega), World.putFsByte_user, Function.update_self, Function.update_idem,
      writtenAt_cons _ _ _ (by omega)]

end Writing

section Refinement

theorem step_names {w w' : World} {e : Event} (step : calls.step w e w') : names.step w.view e w'.view := by
  cases e with
  | iam p a returned =>
    rcases step with ⟨⟨s, string⟩, call⟩
    have result := sysIam_of_string w.stored string.1 string.2.1 string.2.2
    rw [World.iam] at call
    generalize sysIam w.stored (fun i => w.user p (a + BitVec.ofNat 32 i)) = out at result call
    rcases out with ⟨stored, number⟩
    cases call
    refine ⟨s, string, rfl, ?_⟩
    split
    · next short =>
      rw [if_pos short] at result
      exact ⟨result.2, result.1⟩
    · next long =>
      rw [if_neg long] at result
      cases result
      exact ⟨rfl, rfl⟩
  | whoami p a size returned =>
    have call : w.whoami p a size = (w', returned) := step
    have small := w.stored.strlen_lt
    have need : (BitVec.ofNat 32 w.stored.needLength).toNat = w.stored.name.length + 1 :=
      Nat.mod_eq_of_lt (by rw [NameInKernel.needLength]; omega)
    rw [World.whoami] at call
    split at call
    · next short =>
      cases call
      rw [BitVec.lt_def, need] at short
      exact ⟨rfl, by rw [if_neg (by change ¬ w.stored.name.length < _; omega)]; exact ⟨rfl, rfl⟩⟩
    · next enough =>
      cases call
      rw [BitVec.lt_def, need] at enough
      have room : w.stored.stores.length < 2 ^ 32 := by
        rw [w.stored.length_stores, NameInKernel.needLength]
        omega
      refine ⟨congrArg NameInKernel.name (World.putBytes_stored ..), ?_⟩
      rw [if_pos (by change w.stored.name.length < _; omega)]
      refine ⟨?_, ?_⟩
      · rw [NameInKernel.needLength]
        push_cast
        exact add_sub_cancel_right _ _
      · have all : w.view.name ++ [0] = w.stored.stores := w.stored.stores_eq.symm
        rw [all]
        exact World.putBytes_user p w a room
  | store p a c =>
    cases step
    exact ⟨rfl, World.putFsByte_user w p c a⟩

/-- The calls store and return names as they should, in every run. -/
theorem refines_names {w w' : World} {es : List Event} (run : calls.Run w es w') : names.Run w.view es w'.view := by
  induction run with
  | nil => exact .nil _
  | snoc _ step ih => exact ih.snoc (step_names step)

/-- A process names the machine by the string at address 0 and reads the name back. -/
theorem refines_names_read_back :
    let memory : BitVec 32 → BitVec 8 := fun a => if a = 0 then 65 else 0
    let w : World := ⟨unnamed, fun _ => memory⟩
    let w' : World := ((w.iam 0 0).1.whoami 0 8 2).1
    calls.Run w [.iam 0 0 1, .whoami 0 8 2 1] w' ∧ names.Run w.view [.iam 0 0 1, .whoami 0 8 2 1] w'.view := by
  intro memory w w'
  have string : StringAt (w.user 0) 0 [65] := by
    have first : ∀ i, i < 1 → [(65 : BitVec 8)][i]? = some (memory (0 + BitVec.ofNat 32 i)) := by
      intro i inside
      have zero : i = 0 := by omega
      rw [zero]
      rfl
    exact ⟨by decide, first, rfl⟩
  have named : calls.step w (.iam 0 0 1) (w.iam 0 0).1 := ⟨⟨_, string⟩, rfl⟩
  have read : calls.step (w.iam 0 0).1 (.whoami 0 8 2 1) w' := by
    change (w.iam 0 0).1.whoami 0 8 2 = (w', 1)
    rfl
  have run : calls.Run w [.iam 0 0 1, .whoami 0 8 2 1] w' := (Machine.Run.one named).snoc read
  exact ⟨run, refines_names run⟩

end Refinement

end Linux011.Who

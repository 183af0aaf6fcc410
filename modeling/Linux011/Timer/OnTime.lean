import Linux011.Timer.TimerList
import Mathlib.Data.Fintype.Card

namespace Linux011.Timer

open Linux011.Library

variable {Fn : Type} {t t' : Timers Fn} {p q : Fin 64} {ns : List (Fin 64)}

abbrev Cell (Fn : Type) := BitVec 32 × Option Fn

namespace Timers

def cell (t : Timers Fn) (p : Fin 64) : Cell Fn := ((t.timerList p).jiffies, (t.timerList p).fn)

def link (t : Timers Fn) (p : Fin 64) : Option (Fin 64) := (t.timerList p).next

section Put

variable {x : TimerList Fn}

@[simp] theorem put_self : (t.put p x).timerList p = x := Function.update_self _ _ _

theorem put_again (y : TimerList Fn) : (t.put p x).put p y = t.put p y := by
  unfold put
  rw [Function.update_idem]

theorem put_other (apart : q ≠ p) : (t.put p x).timerList q = t.timerList q := Function.update_of_ne apart _ _

theorem put_cell (apart : q ≠ p) : (t.put p x).cell q = t.cell q := by
  rw [cell, put_other apart]
  rfl

theorem put_link (apart : q ≠ p) : (t.put p x).link q = t.link q := by
  rw [link, put_other apart]
  rfl

theorem put_same_link (same : x.next = t.link p) : (t.put p x).link = t.link := by
  funext q
  by_cases here : q = p
  · rw [here, link, put_self, same]
  · exact put_link here

theorem put_cells (outside : p ∉ ns) : ns.map (t.put p x).cell = ns.map t.cell := by
  apply List.map_congr_left
  intro q member
  exact put_cell fun same => outside (same ▸ member)

end Put

section Exchange

theorem exchange_first (apart : p ≠ q) : (t.exchange p q).cell p = t.cell q := by
  rw [exchange, put_cell apart]
  simp only [cell, put_self]

theorem exchange_second :
    (t.exchange p q).cell q = ((t.cell p).1 - (t.cell q).1, (t.cell p).2) := by
  simp only [exchange, cell, put_self]

theorem exchange_link (apart : p ≠ q) : (t.exchange p q).link = t.link := by
  funext r
  by_cases first : r = q
  · subst first
    simp only [exchange, link, put_self]
  · rw [exchange, put_link first]
    by_cases second : r = p
    · subst second
      simp only [link, put_self]
    · exact put_link second

theorem exchange_cells (outside : p ∉ ns) (outside' : q ∉ ns) :
    ns.map (t.exchange p q).cell = ns.map t.cell := by
  rw [exchange, put_cells outside', put_cells outside]

end Exchange

end Timers

/-- Where `add_timer` puts a timer among the contents of the list. -/
def insert (c : Cell Fn) : List (Cell Fn) → List (Cell Fn)
  | [] => [c]
  | d :: ds => if d.1.slt c.1 then d :: insert (c.1 - d.1, c.2) ds else c :: d :: ds

/-- What the loop of `add_timer` leaves alone, and what it makes of the list from `p` on. -/
structure Bubbled (t : Timers Fn) (p : Fin 64) (rest : List (Fin 64)) (t' : Timers Fn) : Prop where
  link : t'.link = t.link
  head : t'.nextTimer = t.nextTimer
  others : ∀ q, q ∉ p :: rest → t'.cell q = t.cell q
  cells : (p :: rest).map t'.cell = insert (t.cell p) (rest.map t.cell)

theorem bubble_inserts {n : Nat} {rest : List (Fin 64)} (linked : Linked t.link (t.link p) rest)
    (apart : (p :: rest).Nodup) (enough : rest.length < n) :
    ∃ t', t.bubble n p = some t' ∧ Bubbled t p rest t' := by
  induction rest generalizing n t p with
  | nil =>
    cases n with
    | zero => cases enough
    | succ n =>
      have last : (t.timerList p).next = none := linked
      refine ⟨t, ?_, rfl, rfl, fun _ _ => rfl, rfl⟩
      rw [Timers.bubble, last]
  | cons q rest ih =>
    cases n with
    | zero => cases enough
    | succ n =>
      obtain ⟨outside, apart'⟩ := List.nodup_cons.mp apart
      have other : p ≠ q := fun same => outside (same ▸ List.mem_cons_self ..)
      have next : (t.timerList p).next = some q := linked.1
      by_cases later : (t.timerList q).jiffies.slt (t.timerList p).jiffies = true
      · have link : (t.exchange p q).link = t.link := Timers.exchange_link other
        have linked' : Linked (t.exchange p q).link ((t.exchange p q).link q) rest := by
          rw [link]
          exact linked.2
        obtain ⟨t', ran, bubbled⟩ := ih linked' apart' (by simpa using enough)
        refine ⟨t', ?_, bubbled.link.trans link, bubbled.head, ?_, ?_⟩
        · rw [Timers.bubble, next]
          dsimp only
          rw [if_pos later, ran]
        · intro r notIn
          rw [List.mem_cons, not_or] at notIn
          rw [bubbled.others r notIn.2, Timers.exchange, Timers.put_cell, Timers.put_cell notIn.1]
          exact fun same => notIn.2 (same ▸ List.mem_cons_self ..)
        · have first : t'.cell p = t.cell q := by
            rw [bubbled.others p outside, Timers.exchange_first other]
          have kept := Timers.exchange_cells (t := t) (fun member => outside (List.mem_cons_of_mem _ member))
            (List.nodup_cons.mp apart').1
          have rests := bubbled.cells
          rw [Timers.exchange_second, kept] at rests
          rw [List.map_cons, first, rests, List.map_cons, insert]
          exact (if_pos later).symm
      · refine ⟨t, ?_, rfl, rfl, fun _ _ => rfl, ?_⟩
        · rw [Timers.bubble, next]
          dsimp only
          rw [if_neg later]
        · rw [List.map_cons, List.map_cons, insert]
          exact (if_neg later).symm

def sums : Int → List (Cell Fn) → List (Int × Option Fn)
  | _, [] => []
  | before, c :: cs => (before + c.1.toInt, c.2) :: sums (before + c.1.toInt) cs

theorem along_sums {n : Nat} {start : Option (Fin 64)} {before : Int} (linked : Linked t.link start ns)
    (enough : ns.length ≤ n) : t.along n start before = sums before (ns.map t.cell) := by
  induction ns generalizing n start before with
  | nil =>
    cases linked
    cases n <;> rfl
  | cons p rest ih =>
    cases linked.1
    cases n with
    | zero => cases enough
    | succ n =>
      rw [Timers.along, List.map_cons, sums]
      have fewer : rest.length ≤ n := by simpa using enough
      have rests : t.along n (t.timerList p).next (before + (t.timerList p).jiffies.toInt) = _ := ih linked.2 fewer
      exact congrArg _ rests

theorem sums_fns (before : Int) (cs : List (Cell Fn)) : (sums before cs).map Prod.snd = cs.map Prod.snd := by
  induction cs generalizing before with
  | nil => rfl
  | cons c cs ih => rw [sums, List.map_cons, List.map_cons, ih]

theorem sums_shift (before more : Int) (cs : List (Cell Fn)) :
    sums (before + more) cs = (sums before cs).map fun x => (x.1 + more, x.2) := by
  induction cs generalizing before with
  | nil => rfl
  | cons c cs ih =>
    have same : before + more + c.1.toInt = before + c.1.toInt + more := by omega
    rw [sums, sums, List.map_cons, same, ih]

theorem toInt_sub {a b : BitVec 32} (positive : 0 ≤ b.toInt) (less : b.toInt ≤ a.toInt) :
    (a - b).toInt = a.toInt - b.toInt := by
  have bound := a.toInt_lt
  rw [BitVec.toInt_sub]
  apply Int.bmod_eq_of_le <;> omega

theorem insert_sums {c : Cell Fn} {cs : List (Cell Fn)} {before : Int} (positive : ∀ d ∈ cs, 0 ≤ d.1.toInt)
    (last : ∀ x ∈ sums before cs, x.1 < before + c.1.toInt) :
    sums before (insert c cs) = sums before cs ++ [(before + c.1.toInt, c.2)] := by
  induction cs generalizing c before with
  | nil => rfl
  | cons d ds ih =>
    have first : before + d.1.toInt < before + c.1.toInt := last _ (List.mem_cons_self ..)
    have later : d.1.slt c.1 = true := by
      rw [BitVec.slt_iff_toInt_lt]
      omega
    have less : (c.1 - d.1).toInt = c.1.toInt - d.1.toInt :=
      toInt_sub (positive d (List.mem_cons_self ..)) (by omega)
    have same : before + d.1.toInt + (c.1 - d.1).toInt = before + c.1.toInt := by omega
    rw [insert, if_pos later, sums, sums, ih, same]
    · rfl
    · exact fun e member => positive e (List.mem_cons_of_mem _ member)
    · intro x member
      rw [same]
      exact last x (List.mem_cons_of_mem _ member)

/-- Times that grow from one timer to the next. -/
def Rising (before : Nat) (agenda : List (Nat × Fn)) : Prop := (before :: agenda.map Prod.fst).Pairwise (· < ·)

/-- The timers along `next_timer` go off as an agenda says, one after the other. -/
structure Keeps (t : Timers Fn) (ns : List (Fin 64)) (agenda : List (Nat × Fn)) : Prop where
  linked : Linked t.link t.nextTimer ns
  apart : ns.Nodup
  used : ∀ p, (t.timerList p).fn.isSome ↔ p ∈ ns
  agrees : sums 0 (ns.map t.cell) = times agenda
  rising : Rising 0 agenda

theorem Rising.tail {before : Nat} {x : Nat × Fn} {agenda : List (Nat × Fn)} (rising : Rising before (x :: agenda)) :
    before < x.1 ∧ Rising x.1 agenda := by
  obtain ⟨first, rest⟩ := List.pairwise_cons.mp rising
  exact ⟨first x.1 (List.mem_cons_self ..), rest⟩

theorem gaps_positive {cs : List (Cell Fn)} {before : Nat} {agenda : List (Nat × Fn)}
    (same : sums before cs = times agenda) (rising : Rising before agenda) :
    ∀ c ∈ cs, 0 < c.1.toInt := by
  induction cs generalizing before agenda with
  | nil => exact fun c member => nomatch member
  | cons c cs ih =>
    cases agenda with
    | nil => cases same
    | cons x agenda =>
      obtain ⟨head, tail⟩ := List.cons.inj same
      obtain ⟨first, rest⟩ := rising.tail
      have time : (before : Int) + c.1.toInt = x.1 := congrArg Prod.fst head
      rw [time] at tail
      intro d member
      rcases List.mem_cons.mp member with rfl | member
      · omega
      · exact ih tail rest d member

namespace Keeps

variable {agenda : List (Nat × Fn)}

theorem length_le (keeps : Keeps t ns agenda) : ns.length ≤ 64 := by
  have bound := List.Nodup.length_le_card keeps.apart
  simpa using bound

theorem length_eq (keeps : Keeps t ns agenda) : ns.length = agenda.length := by
  have same := congrArg List.length (congrArg (List.map Prod.snd) keeps.agrees)
  rw [sums_fns] at same
  simpa [times] using same

theorem remaining (keeps : Keeps t ns agenda) : t.remaining = times agenda := by
  rw [Timers.remaining, along_sums keeps.linked keeps.length_le, keeps.agrees]

theorem taken (keeps : Keeps t ns agenda) : t.taken = agenda.length := by
  have slots : ((List.finRange 64).filter fun p => (t.timerList p).fn.isSome).Perm ns := by
    apply (List.perm_ext_iff_of_nodup ((List.nodup_finRange 64).filter _) keeps.apart).mpr
    intro p
    rw [List.mem_filter, keeps.used p]
    simp
  rw [Timers.taken, List.countP_eq_length_filter, slots.length_eq, keeps.length_eq]

theorem fn_of_cell {cs : List (Cell Fn)} (same : sums 0 cs = times agenda) :
    ∀ c ∈ cs, c.2.isSome := by
  intro c member
  have fns := congrArg (List.map Prod.snd) same
  rw [sums_fns, times, List.map_map] at fns
  have here : c.2 ∈ cs.map Prod.snd := List.mem_map_of_mem member
  rw [fns] at here
  obtain ⟨x, -, is⟩ := List.mem_map.mp here
  rw [← is]
  rfl

theorem outside (keeps : Keeps t ns agenda) (free : (t.timerList p).fn = none) : p ∉ ns := by
  intro member
  have full := (keeps.used p).mpr member
  rw [free] at full
  cases full

theorem add (keeps : Keeps t ns agenda) {j : BitVec 32} (positive : 0 < j.toInt) (fn : Fn)
    (last : ∀ x ∈ agenda, (x.1 : Int) < j.toInt) (free : (t.timerList p).fn = none) :
    ∃ t', ({ t.put p ⟨j, some fn, t.nextTimer⟩ with nextTimer := some p } : Timers Fn).bubble 64 p = some t' ∧
      Keeps t' (p :: ns) (agenda ++ [(j.toInt.toNat, fn)]) := by
  have outside := keeps.outside free
  have apart : (p :: ns).Nodup := List.nodup_cons.mpr ⟨outside, keeps.apart⟩
  have short : ns.length < 64 := by
    have bound := List.Nodup.length_le_card apart
    simp only [List.length_cons, Fintype.card_fin] at bound
    omega
  have linked : Linked (t.put p ⟨j, some fn, t.nextTimer⟩).link ((t.put p ⟨j, some fn, t.nextTimer⟩).link p) ns := by
    have start : (t.put p ⟨j, some fn, t.nextTimer⟩).link p = t.nextTimer := by
      simp only [Timers.link, Timers.put_self]
    rw [start]
    exact keeps.linked.congr fun q member => Timers.put_link fun same => outside (same ▸ member)
  obtain ⟨t', ran, bubbled⟩ := bubble_inserts
    (t := { t.put p ⟨j, some fn, t.nextTimer⟩ with nextTimer := some p }) linked apart short
  have old : ns.map (t.put p ⟨j, some fn, t.nextTimer⟩).cell = ns.map t.cell := Timers.put_cells outside
  have new : (t.put p ⟨j, some fn, t.nextTimer⟩).cell p = (j, some fn) := by
    simp only [Timers.cell, Timers.put_self]
  have cells : (p :: ns).map t'.cell = insert (j, some fn) (ns.map t.cell) := by
    rw [← old, ← new]
    exact bubbled.cells
  have agrees : sums 0 ((p :: ns).map t'.cell) =
      times (agenda ++ [(j.toInt.toNat, fn)]) := by
    have time : (0 : Int) + j.toInt = (j.toInt.toNat : Int) := by omega
    rw [cells, insert_sums, keeps.agrees, times, times, List.map_append, time]
    · rfl
    · exact fun d member => (gaps_positive keeps.agrees keeps.rising d member).le
    · rw [keeps.agrees]
      intro x member
      obtain ⟨y, there, rfl⟩ := List.mem_map.mp member
      have less := last y there
      dsimp only
      omega
  refine ⟨t', ran, ?_, apart, ?_, agrees, ?_⟩
  · rw [bubbled.link, bubbled.head]
    exact ⟨rfl, linked⟩
  · intro q
    by_cases member : q ∈ p :: ns
    · have full := fn_of_cell agrees (t'.cell q) (List.mem_map_of_mem member)
      exact ⟨fun _ => member, fun _ => full⟩
    · have other : q ≠ p := fun same => member (same ▸ List.mem_cons_self ..)
      have kept : t'.cell q = t.cell q := (bubbled.others q member).trans (Timers.put_cell other)
      have fn : (t'.timerList q).fn = (t.timerList q).fn := congrArg Prod.snd kept
      rw [fn, keeps.used q]
      exact ⟨fun there => List.mem_cons_of_mem _ there, fun there => absurd there member⟩
  · unfold Rising
    rw [List.map_append, ← List.cons_append, List.pairwise_append]
    refine ⟨keeps.rising, List.pairwise_singleton _ _, ?_⟩
    intro before there after here
    rw [List.map_singleton, List.mem_singleton] at here
    rcases List.mem_cons.mp there with rfl | there
    · omega
    · obtain ⟨x, member, rfl⟩ := List.mem_map.mp there
      have less := last x member
      omega

theorem fire_stops (keeps : Keeps t ns agenda) (n : Nat) : t.fire (n + 1) = some (t, []) := by
  unfold Timers.fire
  cases ns with
  | nil =>
    have none : t.nextTimer = none := keeps.linked
    rw [none]
  | cons p rest =>
    have first : t.nextTimer = some p := keeps.linked.1
    have positive := gaps_positive keeps.agrees keeps.rising (t.cell p) (List.mem_cons_self ..)
    have left : (t.timerList p).jiffies.sle 0 = false := by
      rw [Bool.eq_false_iff, ne_eq, BitVec.sle_iff_toInt_le]
      exact not_le.mpr positive
    rw [first]
    dsimp only
    rw [if_neg (by rw [left]; decide)]

end Keeps

section Tick

def later (agenda : List (Nat × Fn)) : List (Nat × Fn) :=
  agenda.filterMap fun x => if 1 < x.1 then some (x.1 - 1, x.2) else none

variable {agenda : List (Nat × Fn)} {before : Nat}

theorem later_cons (x : Nat × Fn) (agenda : List (Nat × Fn)) :
    later (x :: agenda) = if 1 < x.1 then (x.1 - 1, x.2) :: later agenda else later agenda := by
  unfold later
  rw [List.filterMap_cons]
  by_cases more : 1 < x.1
  · rw [if_pos more, if_pos more]
  · rw [if_neg more, if_neg more]

theorem Rising.above (rising : Rising before agenda) : ∀ x ∈ agenda, before < x.1 :=
  fun _ member => (List.pairwise_cons.mp rising).1 _ (List.mem_map_of_mem member)

theorem later_eq (above : ∀ x ∈ agenda, 1 < x.1) : later agenda = agenda.map fun x => (x.1 - 1, x.2) := by
  induction agenda with
  | nil => rfl
  | cons x agenda ih =>
    have first := above x (List.mem_cons_self ..)
    rw [later_cons, if_pos first, List.map_cons, ih fun y member => above y (List.mem_cons_of_mem _ member)]

theorem none_due (above : ∀ x ∈ agenda, 1 < x.1) : (agenda.filter fun x => x.1 = 1) = [] := by
  rw [List.filter_eq_nil_iff]
  intro x member
  have later := above x member
  simp only [decide_eq_true_eq]
  omega

theorem Rising.nearer (rising : Rising before agenda) (positive : 1 ≤ before) :
    Rising (before - 1) (agenda.map fun x => (x.1 - 1, x.2)) := by
  have earlier : ((before - 1) :: (agenda.map fun x => (x.1 - 1, x.2)).map Prod.fst) =
      (before :: agenda.map Prod.fst).map fun r => r - 1 := by
    rw [List.map_cons, List.map_map, List.map_map]
    rfl
  have above := rising.above
  unfold Rising at *
  rw [earlier, List.pairwise_map]
  apply rising.imp_of_mem
  intro a b first second less
  have bound : 1 ≤ a := by
    rcases List.mem_cons.mp first with rfl | member
    · exact positive
    · obtain ⟨x, there, rfl⟩ := List.mem_map.mp member
      have more := above x there
      omega
  omega

variable {rest : List (Fin 64)} {x : Nat × Fn} {y : TimerList Fn}

theorem Keeps.split (keeps : Keeps t (p :: rest) (x :: agenda)) :
    (t.cell p).1.toInt = x.1 ∧ (t.cell p).2 = some x.2 ∧ sums x.1 (rest.map t.cell) = times agenda := by
  obtain ⟨head, tail⟩ := List.cons.inj keeps.agrees
  have time : (0 : Int) + (t.cell p).1.toInt = x.1 := congrArg Prod.fst head
  rw [time] at tail
  exact ⟨by omega, congrArg Prod.snd head, tail⟩

theorem Keeps.counted (keeps : Keeps t (p :: rest) (x :: agenda)) :
    ((t.timerList p).jiffies - 1).toInt = (x.1 : Int) - 1 := by
  have time : (t.timerList p).jiffies.toInt = x.1 := keeps.split.1
  have positive := keeps.rising.tail.1
  have one : (1 : BitVec 32).toInt = 1 := by decide
  rw [toInt_sub (by decide) (by rw [one, time]; omega), time, one]

theorem Keeps.nearer (keeps : Keeps t (p :: rest) (x :: agenda)) :
    sums ((x.1 : Int) + -1) (rest.map t.cell) = times (agenda.map fun x => (x.1 - 1, x.2)) ∧
      ∀ y ∈ agenda, 1 < y.1 := by
  obtain ⟨positive, rising⟩ := keeps.rising.tail
  have above : ∀ y ∈ agenda, 1 < y.1 := by
    intro y member
    have more := rising.above y member
    omega
  refine ⟨?_, above⟩
  rw [sums_shift, keeps.split.2.2]
  unfold times
  rw [List.map_map, List.map_map]
  apply List.map_congr_left
  intro y member
  have more := above y member
  simp only [Function.comp_apply, Prod.mk.injEq, and_true]
  omega

theorem Keeps.wait (keeps : Keeps t (p :: rest) (x :: agenda)) (more : 1 < x.1) (next : y.next = t.link p)
    (fn : y.fn = (t.timerList p).fn) (time : y.jiffies = (t.timerList p).jiffies - 1) :
    Keeps (t.put p y) (p :: rest) (later (x :: agenda)) := by
  have call := keeps.split.2.1
  obtain ⟨nearer, above⟩ := keeps.nearer
  have outside := (List.nodup_cons.mp keeps.apart).1
  have all : later (x :: agenda) = (x.1 - 1, x.2) :: agenda.map fun x => (x.1 - 1, x.2) := by
    rw [later_eq, List.map_cons]
    intro y member
    rcases List.mem_cons.mp member with rfl | member
    · exact more
    · exact above y member
  constructor
  case linked =>
    rw [Timers.put_same_link next]
    exact keeps.linked
  case apart => exact keeps.apart
  case used =>
    intro q
    rw [← keeps.used q]
    by_cases here : q = p
    · rw [here, Timers.put_self, fn]
    · rw [Timers.put_other here]
  case agrees =>
    have head : (t.put p y).cell p = ((t.timerList p).jiffies - 1, some x.2) := by
      simp only [Timers.cell, Timers.put_self, fn, time]
      rw [← call]
      rfl
    have sum : (0 : Int) + ((x.1 : Int) - 1) = (x.1 : Int) + -1 := by omega
    rw [List.map_cons, head, Timers.put_cells outside, sums, keeps.counted, sum, nearer, all]
    have natural : (x.1 : Int) + -1 = ((x.1 - 1 : Nat) : Int) := by omega
    rw [natural]
    rfl
  case rising =>
    rw [all]
    have nearer := keeps.rising.tail.2.nearer (by omega)
    apply List.pairwise_cons.mpr
    refine ⟨?_, nearer⟩
    intro r member
    rcases List.mem_cons.mp member with rfl | member
    · dsimp only
      omega
    · have above := (List.pairwise_cons.mp nearer).1 r member
      omega

theorem Keeps.call (keeps : Keeps t (p :: rest) (x :: agenda)) (last : x.1 = 1) (next : y.next = t.link p)
    (fn : y.fn = none) :
    Keeps { t.put p y with nextTimer := t.link p } rest (later (x :: agenda)) := by
  obtain ⟨nearer, above⟩ := keeps.nearer
  obtain ⟨outside, apart⟩ := List.nodup_cons.mp keeps.apart
  have gone : later (x :: agenda) = agenda.map fun x => (x.1 - 1, x.2) := by
    rw [later_cons, if_neg (by omega), later_eq above]
  constructor
  case linked => exact (Timers.put_same_link next).symm ▸ keeps.linked.2
  case apart => exact apart
  case used =>
    intro q
    show ((t.put p y).timerList q).fn.isSome ↔ _
    by_cases here : q = p
    · rw [here, Timers.put_self, fn]
      exact ⟨nofun, fun member => absurd member outside⟩
    · rw [Timers.put_other here, keeps.used q, List.mem_cons]
      exact or_iff_right here
  case agrees =>
    have kept : rest.map (Timers.cell { t.put p y with nextTimer := t.link p }) = rest.map t.cell :=
      Timers.put_cells outside
    have zero : (x.1 : Int) + -1 = 0 := by omega
    rw [kept, gone, ← nearer, zero]
  case rising =>
    rw [gone]
    have nearer := keeps.rising.tail.2.nearer (by omega)
    rwa [last] at nearer

theorem fire_due {n : Nat} {fn : Fn} (head : t.nextTimer = some p) (elapsed : (t.timerList p).jiffies.sle 0 = true)
    (is : (t.timerList p).fn = some fn) :
    t.fire (n + 1) = (Timers.fire n { t.put p ⟨(t.timerList p).jiffies, none, t.link p⟩ with nextTimer := t.link p }).map
      fun r => (r.1, fn :: r.2) := by
  rw [Timers.fire, head]
  dsimp only
  rw [if_pos elapsed, is]
  rfl

theorem Keeps.tick (keeps : Keeps t ns agenda) : ∃ t' ns', Keeps t' ns' (later agenda) ∧
    t.doTimer = some (t', (agenda.filter fun x => x.1 = 1).map Prod.snd) := by
  unfold Timers.doTimer
  cases ns with
  | nil =>
    have none : t.nextTimer = none := keeps.linked
    have empty : agenda = [] := List.length_eq_zero_iff.mp keeps.length_eq.symm
    subst empty
    rw [none]
    exact ⟨t, [], keeps, rfl⟩
  | cons p rest =>
    cases agenda with
    | nil => exact absurd keeps.length_eq (by simp)
    | cons x agenda =>
      have first : t.nextTimer = some p := keeps.linked.1
      have positive := keeps.rising.tail.1
      have nothing := none_due keeps.nearer.2
      rw [first]
      dsimp only
      by_cases last : x.1 = 1
      · have elapsed : ((t.timerList p).jiffies - 1).sle 0 = true := by
          rw [BitVec.sle_iff_toInt_le, keeps.counted]
          exact (show (x.1 : Int) - 1 ≤ 0 by omega)
        have keeps' := keeps.call last (y := ⟨(t.timerList p).jiffies - 1, none, t.link p⟩) rfl rfl
        have fired := fire_due (n := 64) (t := t.put p ⟨(t.timerList p).jiffies - 1, (t.timerList p).fn, t.link p⟩) first
          (by rw [Timers.put_self]; exact elapsed) (by rw [Timers.put_self]; exact keeps.split.2.1)
        have link : (t.put p ⟨(t.timerList p).jiffies - 1, (t.timerList p).fn, t.link p⟩).link p = t.link p := by
          rw [Timers.link, Timers.put_self]
        rw [link, Timers.put_self, Timers.put_again] at fired
        refine ⟨_, rest, keeps', ?_⟩
        rw [List.filter_cons_of_pos (by simpa using last), nothing]
        exact fired.trans (congrArg _ (keeps'.fire_stops 63))
      · have keeps' := keeps.wait (by omega) (y := ⟨(t.timerList p).jiffies - 1, (t.timerList p).fn, t.link p⟩) rfl rfl rfl
        refine ⟨_, p :: rest, keeps', ?_⟩
        rw [List.filter_cons_of_neg (by simpa using last), nothing]
        exact keeps'.fire_stops 64

end Tick

section Runs

variable {es : List (Event Fn)} {e : Event Fn}

theorem ticks_snoc (es : List (Event Fn)) (e : Event Fn) : ticks (es ++ [e]) = ticks es + ticks [e] :=
  List.countP_append

theorem pending_add (es : List (Event Fn)) (j : BitVec 32) (fn : Fn) : pending (es ++ [.addTimer j fn]) =
    pending es ++ if 0 < j.toInt.toNat then [(j.toInt.toNat, fn)] else [] := by
  induction es with
  | nil => rfl
  | cons e es ih =>
    cases e with
    | addTimer i f =>
      have same : ticks (es ++ [.addTimer j fn]) = ticks es := ticks_snoc es _
      rw [List.cons_append, pending, pending, ih, same]
      split <;> rfl
    | doTimer called => exact ih

theorem pending_tick (es : List (Event Fn)) (called : List Fn) :
    pending (es ++ [.doTimer called]) = later (pending es) := by
  induction es with
  | nil => rfl
  | cons e es ih =>
    cases e with
    | addTimer i f =>
      have more : ticks (es ++ [.doTimer called]) = ticks es + 1 := ticks_snoc es _
      rw [List.cons_append, pending, pending, ih, more]
      by_cases first : ticks es < i.toInt.toNat
      · rw [if_pos first, later_cons]
        by_cases second : ticks es + 1 < i.toInt.toNat
        · rw [if_pos second, if_pos (by dsimp only; omega), Nat.sub_add_eq]
        · rw [if_neg second, if_neg (by dsimp only; omega)]
      · rw [if_neg first, if_neg (by omega)]
    | doTimer c => exact ih

theorem keeps_idle : Keeps (idle : Timers Fn) [] [] where
  linked := rfl
  apart := List.nodup_nil
  used _ := ⟨nofun, nofun⟩
  agrees := rfl
  rising := List.pairwise_singleton _ _

theorem Keeps.last {agenda : List (Nat × Fn)} {j : BitVec 32} {fn : Fn} (keeps : Keeps t ns agenda)
    (last : Last t (.addTimer j fn)) : ∀ x ∈ agenda, (x.1 : Int) < j.toInt := by
  intro x member
  apply last ((x.1 : Int), some x.2)
  rw [keeps.remaining]
  exact List.mem_map_of_mem member

theorem addTimer_ahead {j : BitVec 32} {fn : Fn} (positive : 0 < j.toInt) : t.addTimer j (some fn) =
    match (List.finRange 64).find? fun p => (t.timerList p).fn.isNone with
    | none => none
    | some p => (Timers.bubble 64 { t.put p ⟨j, some fn, t.nextTimer⟩ with nextTimer := some p } p).map
        fun t => (t, []) := by
  have ahead : ¬ j.sle 0 = true := by
    rw [BitVec.sle_iff_toInt_le]
    exact not_le.mpr positive
  unfold Timers.addTimer
  dsimp only
  exact if_neg ahead

theorem Keeps.addTimer {agenda : List (Nat × Fn)} {j : BitVec 32} {fn : Fn} (keeps : Keeps t ns agenda)
    (positive : 0 < j.toInt) (last : Last t (.addTimer j fn)) (room : agenda.length < 64) :
    ∃ t' ns', t.addTimer j (some fn) = some (t', []) ∧ Keeps t' ns' (agenda ++ [(j.toInt.toNat, fn)]) := by
  rw [addTimer_ahead positive]
  split
  · rename_i none
    have all := List.find?_eq_none.mp none
    have full : t.taken = 64 := by
      unfold Timers.taken
      rw [List.countP_eq_length.mpr, List.length_finRange]
      intro p member
      rw [Option.isSome_iff_ne_none]
      simpa using all p member
    rw [keeps.taken] at full
    omega
  · rename_i p found
    have free : (t.timerList p).fn = none := by simpa using List.find?_some found
    obtain ⟨t', ran, keeps'⟩ := keeps.add positive fn (keeps.last last) free
    refine ⟨t', p :: ns, ?_, keeps'⟩
    rw [ran]
    rfl

theorem Keeps.room {agenda : List (Nat × Fn)} {j : BitVec 32} {fn : Fn} {r : Timers Fn × List Fn}
    (keeps : Keeps t ns agenda) (positive : 0 < j.toInt) (returned : t.addTimer j (some fn) = some r) :
    agenda.length < 64 := by
  rw [addTimer_ahead positive] at returned
  split at returned
  · cases returned
  · rename_i p found
    have free : (t.timerList p).fn = none := by simpa using List.find?_some found
    have outside := keeps.outside free
    have bound := List.Nodup.length_le_card (List.nodup_cons.mpr ⟨outside, keeps.apart⟩)
    rw [keeps.length_eq.symm]
    simp only [List.length_cons, Fintype.card_fin] at bound
    omega

theorem Keeps.step (keeps : Keeps t ns (pending es)) (last : Last t e) (step : (timers Fn).step t e t') :
    ∃ ns', Keeps t' ns' (pending (es ++ [e])) := by
  cases e with
  | addTimer j fn =>
    obtain ⟨called, returned⟩ := step
    rw [pending_add]
    by_cases positive : 0 < j.toInt
    · obtain ⟨t₁, ns', same, keeps'⟩ := keeps.addTimer positive last (keeps.room positive returned)
      rw [same] at returned
      obtain ⟨rfl, -⟩ := Prod.mk.inj (Option.some.inj returned)
      rw [if_pos (by omega)]
      exact ⟨ns', keeps'⟩
    · have elapsed : j.sle 0 = true := by
        rw [BitVec.sle_iff_toInt_le]
        exact not_lt.mp positive
      unfold Timers.addTimer at returned
      dsimp only at returned
      rw [if_pos elapsed] at returned
      obtain ⟨rfl, -⟩ := Prod.mk.inj (Option.some.inj returned)
      rw [if_neg (by omega), List.append_nil]
      exact ⟨ns, keeps⟩
  | doTimer called =>
    obtain ⟨t₁, ns', keeps', same⟩ := keeps.tick
    have returned : t.doTimer = some (t', called) := step
    rw [same] at returned
    obtain ⟨rfl, -⟩ := Prod.mk.inj (Option.some.inj returned)
    rw [pending_tick]
    exact ⟨ns', keeps'⟩

theorem keeps_of_run (run : ((timers Fn).restrict Last).Run idle es t) : ∃ ns, Keeps t ns (pending es) := by
  apply run.trace_invariant (I := fun es t => ∃ ns, Keeps t ns (pending es))
  · intro es t e t' kept step
    obtain ⟨ns, keeps⟩ := kept
    exact keeps.step step.1 step.2
  · exact ⟨[], keeps_idle⟩

/-- As long as each timer is added to go off after all others, the timers along `next_timer` are those with a
    tick to come, in the order of their ticks, a tick calls what is due, and a slot is taken until then. -/
theorem timers_on_time (run : ((timers Fn).restrict Last).Run idle es t) :
    t.remaining = times (pending es) ∧ (pending es).Pairwise (fun x y => x.1 ≤ y.1) ∧
    t.taken = (pending es).length ∧ (∃ t', t.doTimer = some (t', due es)) ∧
    ∀ (j : BitVec 32) (fn : Fn), 0 < j.toInt → Last t (.addTimer j fn) → (pending es).length < 64 →
      ∃ t', t.addTimer j (some fn) = some (t', []) := by
  obtain ⟨ns, keeps⟩ := keeps_of_run run
  obtain ⟨t', ns', -, ticked⟩ := keeps.tick
  refine ⟨keeps.remaining, ?_, keeps.taken, ⟨t', ticked⟩, ?_⟩
  · have rising := (List.pairwise_cons.mp keeps.rising).2
    rw [List.pairwise_map] at rising
    exact rising.imp fun less => less.le
  · intro j fn positive last room
    obtain ⟨t', ns', returned, -⟩ := keeps.addTimer positive last room
    exact ⟨t', returned⟩

end Runs

section Examples

def Timers.next (t : Timers Nat) : Event Nat → Option (Timers Nat)
  | .addTimer jiffies fn => (t.addTimer jiffies (some fn)).map Prod.fst
  | .doTimer called => t.doTimer.bind fun r => if r.2 = called then some r.1 else none

theorem Timers.next_sound (t : Timers Nat) (e : Event Nat) (t' : Timers Nat) (next : t.next e = some t') :
    (timers Nat).step t e t' := by
  cases e with
  | addTimer jiffies fn =>
    obtain ⟨r, returned, rfl⟩ := Option.map_eq_some_iff.mp next
    exact ⟨r.2, returned⟩
  | doTimer called =>
    obtain ⟨r, returned, next⟩ := Option.bind_eq_some_iff.mp next
    split at next
    · rename_i same
      cases next
      rw [← same]
      exact returned
    · cases next

theorem two_in_order : ∃ t, (timers Nat).Run idle [.addTimer 1 10, .addTimer 3 20] t ∧
    t.remaining = [(1, some 10), (3, some 20)] ∧ ∃ t', t.doTimer = some (t', [10]) := by
  have ran : (((idle : Timers Nat).next (.addTimer 1 10)).bind fun t => t.next (.addTimer 3 20)).isSome = true := by
    decide +kernel
  obtain ⟨t, ends⟩ := Option.isSome_iff_exists.mp ran
  obtain ⟨t₁, first, second⟩ := Option.bind_eq_some_iff.mp ends
  have last : Last t₁ (.addTimer 3 20) := by
    have check : ((idle : Timers Nat).next (.addTimer 1 10)).all (fun t => t.remaining.all fun x => x.1 < 3) = true := by
      decide +kernel
    rw [first] at check
    intro x member
    simpa using List.all_eq_true.mp check x member
  have one : ((timers Nat).restrict Last).step idle (.addTimer 1 10) t₁ :=
    ⟨fun _ none => (List.not_mem_nil none).elim, Timers.next_sound _ _ _ first⟩
  have two : ((timers Nat).restrict Last).step t₁ (.addTimer 3 20) t := ⟨last, Timers.next_sound _ _ _ second⟩
  have run := (Machine.Run.one one).snoc two
  obtain ⟨remaining, -, -, ticked, -⟩ := timers_on_time run
  exact ⟨t, run.of_restrict, remaining, ticked⟩

/-- A timer added before another is not subtracted from it: the second tick should call the first timer. -/
theorem earlier_delays_later : ∃ t, (timers Nat).Run idle [.addTimer 2 10, .addTimer 1 20, .doTimer [20]] t ∧
    due [.addTimer 2 10, .addTimer 1 20, .doTimer [20]] = [10] ∧ (∃ t', t.doTimer = some (t', [])) ∧
    t.remaining = [(2, some 10)] ∧ times (pending [.addTimer 2 10, .addTimer 1 20, .doTimer [20]]) = [(1, some 10)] := by
  have ran : (([.addTimer 2 10, .addTimer 1 20, .doTimer [20]] : List (Event Nat)).foldlM Timers.next idle).any (fun t =>
      t.doTimer.any (fun r => r.2 = []) ∧ t.remaining = [(2, some 10)]) = true := by decide +kernel
  obtain ⟨t, ends, found⟩ := (Option.any_eq_true _ _).mp ran
  obtain ⟨quiet, remaining⟩ := of_decide_eq_true found
  obtain ⟨r, ticked, none⟩ := (Option.any_eq_true _ _).mp quiet
  exact ⟨t, Machine.run_of_foldlM Timers.next_sound ends, by decide, ⟨r.1, by rw [ticked, ← of_decide_eq_true none]⟩,
    remaining, by decide⟩

end Examples

end Linux011.Timer

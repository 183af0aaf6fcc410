import Linux011.Threads.Manager

namespace Linux011.Threads

open Linux011.Library

/-- What the manager is for: the running thread, the queue of those that are ready (`none`) and of those that wait for
    each semaphore, first to last, and the other blocks of memory in use. -/
structure Pool (S : Type) where
  current : Option Ptr
  queue : Option S → List Ptr
  count : S → Int
  saved : Ptr → Thread
  block : Ptr → Bool
  control : Control

variable {S : Type} [DecidableEq S]

namespace Pool

variable (P : Pool S)

/-- The threads there are. -/
def Live (p : Ptr) : Prop := P.current = some p ∨ ∃ i, p ∈ P.queue i

def enqueue (i : Option S) (t : Ptr) : Pool S := { P with queue := Function.update P.queue i (P.queue i ++ [t]) }

def leave (at_ : Resume) : Pool S :=
  match P.current with
  | none => P
  | some c => { P with saved := Function.update P.saved c { P.saved c with state := at_ } }

def surrender (p : Option Ptr) : Pool S :=
  match p with
  | none => P
  | some q => { P with block := Function.update P.block q false }

def stop : Pool S := { P with current := none }

def goOn (p : Ptr) : Pool S :=
  let t := P.saved p
  { P with current := some p, control := if t.state = .launch then .call t.proc t.param else .thread t.state }

/-- The next ready thread runs, if there is one. -/
def switch (otherwise : Control) : Pool S :=
  match P.queue none with
  | [] => { P with control := otherwise }
  | p :: rest => { P with queue := Function.update P.queue none rest }.goOn p

def perform : Call S → Pool S
  | .launch block proc param =>
    match block with
    | none => P
    | some p => { P with saved := Function.update P.saved p ⟨proc, param, .launch⟩ }.enqueue none p
  | .start => P.switch .exit
  | .relinquish =>
    match P.current with
    | none => P
    | some c => ((P.leave .relinquish).stop.enqueue none c).switch .exit
  | .exit => P.stop.switch (.dead "ready list empty")
  | .malloc p => { P with block := Function.update P.block p true }
  | .free p =>
    match P.current with
    | none => P
    | some c => ((P.surrender p).leave .free).goOn c
  | .check below above => if below || above then { P with control := .dead "thread stack overflow" } else P
  | .init s v => { P with count := Function.update P.count s v, queue := Function.update P.queue (some s) [] }
  | .wait s =>
    if 0 < P.count s then { P with count := Function.update P.count s (P.count s - 1) }
    else
      match P.current with
      | none => P
      | some c => ((P.leave .wait).stop.enqueue (some s) c).switch (.dead "possible deadlock")
  | .signal s =>
    match P.queue (some s) with
    | [] => { P with count := Function.update P.count s (P.count s + 1) }
    | t :: rest => { P with queue := Function.update P.queue (some s) rest }.enqueue none t

end Pool

/-- `malloc` succeeds, and returns a block that is not in use; a thread frees what it has got from `malloc` only; no
    semaphore is made anew under those who wait for it, and no count is raised past the largest `int`. -/
def Call.Proper (P : Pool S) : Call S → Prop
  | .launch block _ _ => ∃ p, block = some p ∧ ¬ P.Live p ∧ P.block p = false
  | .malloc p => ¬ P.Live p ∧ P.block p = false
  | .free p => ∀ q, p = some q → P.block q = true
  | .init s _ => P.queue (some s) = []
  | .signal s => P.queue (some s) = [] → P.count s < 2 ^ 31 - 1
  | _ => True

def Manager.fifo (m : Manager S) : Option S → Fifo Ptr
  | none => m.readylist
  | some s => (m.semaphore s).queue

def Manager.setFifo (m : Manager S) (q : Fifo Ptr) : Option S → Manager S
  | none => { m with readylist := q }
  | some s => m.setQueue s q

section Queues

variable {m m' : Manager S} {queue : Option S → List Ptr} {i j : Option S} {t : Ptr} {q : Fifo Ptr}

theorem fifo_setFifo_same (m : Manager S) (q : Fifo Ptr) (i : Option S) : (m.setFifo q i).fifo i = q := by
  cases i with
  | none => rfl
  | some s =>
    show (Function.update m.semaphore s _ s).queue = q
    rw [Function.update_self]

theorem fifo_setFifo_other (other : j ≠ i) : (m.setFifo q i).fifo j = m.fifo j := by
  cases i with
  | none =>
    cases j with
    | none => exact absurd rfl other
    | some s => rfl
  | some s =>
    cases j with
    | none => rfl
    | some r =>
      have apart : r ≠ s := fun same => other (congrArg some same)
      show (Function.update m.semaphore s _ r).queue = (m.semaphore r).queue
      rw [Function.update_of_ne apart]

/-- The queues of the manager hold these threads, and no thread is in two. -/
structure Queued (m : Manager S) (queue : Option S → List Ptr) : Prop where
  holds : ∀ i, Fifo.Holds m.next (m.fifo i) (queue i)
  apart : ∀ i j p, p ∈ queue i → p ∈ queue j → i = j
  allocated : ∀ i p, p ∈ queue i → m.allocated p = true

omit [DecidableEq S] in
theorem Queued.congr (queued : Queued m queue) (fifo : ∀ i, m'.fifo i = m.fifo i)
    (next : ∀ i, ∀ p ∈ queue i, m'.next p = m.next p) (allocated : ∀ i, ∀ p ∈ queue i, m'.allocated p = true) :
    Queued m' queue where
  holds i := by
    rw [fifo i]
    exact (queued.holds i).congr (next i)
  apart := queued.apart
  allocated := allocated

omit [DecidableEq S] in
theorem deref_allocated {p : Ptr} (there : m.allocated p = true) : m.deref (some p) = .ok p := if_pos there

theorem mem_enqueued {p : Ptr} : p ∈ Function.update queue i (queue i ++ [t]) j ↔ p ∈ queue j ∨ j = i ∧ p = t := by
  by_cases same : j = i
  · rw [same, Function.update_self, List.mem_append, List.mem_singleton]
    simp
  · rw [Function.update_of_ne same]
    simp [same]

theorem enqueued_somewhere {p : Ptr} :
    (∃ j, p ∈ Function.update queue i (queue i ++ [t]) j) ↔ (∃ j, p ∈ queue j) ∨ p = t := by
  constructor
  · rintro ⟨j, here⟩
    rcases mem_enqueued.mp here with old | ⟨-, new⟩
    · exact .inl ⟨j, old⟩
    · exact .inr new
  · rintro (⟨j, old⟩ | new)
    · exact ⟨j, mem_enqueued.mpr (.inl old)⟩
    · exact ⟨i, mem_enqueued.mpr (.inr ⟨rfl, new⟩)⟩

theorem Queued.enqueue (queued : Queued m queue) (i : Option S) (there : m.allocated t = true) (new : ∀ j, t ∉ queue j) :
    ∃ next q, m.threadEnqueue (some t) (m.fifo i) = .ok ({ m with next := next }, q) ∧
      Queued ({ m with next := next }.setFifo q i) (Function.update queue i (queue i ++ [t])) := by
  have apart : ∀ j k p, p ∈ Function.update queue i (queue i ++ [t]) j →
      p ∈ Function.update queue i (queue i ++ [t]) k → j = k := by
    intro j k p here there
    rw [mem_enqueued] at here there
    rcases here with old | ⟨rfl, rfl⟩
    · rcases there with old' | ⟨rfl, rfl⟩
      · exact queued.apart j k p old old'
      · exact absurd old (new j)
    · rcases there with old' | ⟨same, -⟩
      · exact absurd old' (new k)
      · exact same.symm
  have allocated {m' : Manager S} (same : m'.allocated = m.allocated) : ∀ j p,
      p ∈ Function.update queue i (queue i ++ [t]) j → m'.allocated p = true := by
    intro j p here
    rw [same]
    rcases mem_enqueued.mp here with old | ⟨-, rfl⟩
    · exact queued.allocated j p old
    · exact there
  -- the links of the threads in the other queues stay
  have others (next : Ptr → Option Ptr) (q : Fifo Ptr)
      (kept : ∀ j, j ≠ i → ∀ p ∈ queue j, next p = m.next p)
      (here : Fifo.Holds next q (queue i ++ [t])) :
      Queued ({ m with next := next }.setFifo q i) (Function.update queue i (queue i ++ [t])) := by
    have next' : ({ m with next := next }.setFifo q i).next = next := by cases i <;> rfl
    have same : ({ m with next := next }.setFifo q i).allocated = m.allocated := by cases i <;> rfl
    refine ⟨?_, apart, allocated same⟩
    intro j
    rw [next']
    by_cases own : j = i
    · rw [own, fifo_setFifo_same, Function.update_self]
      exact here
    · rw [fifo_setFifo_other own, Function.update_of_ne own]
      exact (queued.holds j).congr (kept j own)
  have holds := queued.holds i
  unfold Manager.threadEnqueue
  rw [deref_allocated there, ok_bind]
  dsimp only
  cases head : (m.fifo i).head with
  | none =>
    have empty := holds.eq_nil head
    refine ⟨_, _, rfl, others _ _ ?_ ?_⟩
    · intro j _ p member
      exact Function.update_of_ne (fun same : p = t => new j (same ▸ member)) _ _
    · rw [empty]
      exact .single _ t
  | some h =>
    have some : queue i ≠ [] := by
      intro empty
      rw [holds.head, empty] at head
      cases head
    rcases List.getLast?_isSome.mpr some |> Option.isSome_iff_exists.mp with ⟨l, last⟩
    have member : l ∈ queue i := List.mem_of_getLast? last
    have valid : (m.setNext t none).allocated l = true := queued.allocated i l member
    dsimp only
    rw [holds.last l last, deref_allocated valid, ok_bind]
    have linked := holds.snoc last (new i)
    rw [head] at linked
    refine ⟨_, _, rfl, others _ _ ?_ linked⟩
    intro j other p here
    have apart : p ≠ l := fun same => other (queued.apart j i p here (same ▸ member))
    have apart' : p ≠ t := fun same => new j (same ▸ here)
    exact (Function.update_of_ne apart _ _).trans (Function.update_of_ne apart' _ _)

omit [DecidableEq S] in
theorem Queued.dequeue_nil (queued : Queued m queue) (empty : queue i = []) :
    m.threadDequeue (m.fifo i) = .ok (none, m.fifo i) := by
  have head := (queued.holds i).head
  rw [empty] at head
  unfold Manager.threadDequeue
  rw [head]
  rfl

theorem Queued.dequeue_cons {rest : List Ptr} (queued : Queued m queue) (some' : queue i = t :: rest) :
    ∃ q, m.threadDequeue (m.fifo i) = .ok (some t, q) ∧ m.allocated t = true ∧
      Queued (m.setFifo q i) (Function.update queue i rest) ∧ ∀ j, t ∉ Function.update queue i rest j := by
  have holds := queued.holds i
  rw [some'] at holds
  have member : t ∈ queue i := by
    rw [some']
    exact List.mem_cons_self ..
  have there := queued.allocated i t member
  have less (j : Option S) (p : Ptr) (here : p ∈ Function.update queue i rest j) : p ∈ queue j := by
    by_cases own : j = i
    · rw [own, Function.update_self] at here
      rw [own, some']
      exact List.mem_cons_of_mem _ here
    · rw [Function.update_of_ne own] at here
      exact here
  have next : ∀ q, (m.setFifo q i).next = m.next := fun q => by cases i <;> rfl
  have allocated : ∀ q, (m.setFifo q i).allocated = m.allocated := fun q => by cases i <;> rfl
  refine ⟨{ m.fifo i with head := m.next t }, ?_, there, ⟨?_, ?_, ?_⟩, ?_⟩
  · unfold Manager.threadDequeue
    rw [holds.head]
    dsimp only [List.head?]
    rw [deref_allocated there, ok_bind]
    rfl
  · intro j
    rw [next]
    by_cases own : j = i
    · rw [own, fifo_setFifo_same, Function.update_self]
      exact holds.rest
    · rw [fifo_setFifo_other own, Function.update_of_ne own]
      exact queued.holds j
  · exact fun j k p here there => queued.apart j k p (less j p here) (less k p there)
  · intro j p here
    rw [allocated]
    exact queued.allocated j p (less j p here)
  · intro j here
    have own := queued.apart j i t (less j t here) member
    rw [own, Function.update_self] at here
    exact (List.nodup_cons.mp holds.nodup).1 here

end Queues

end Linux011.Threads

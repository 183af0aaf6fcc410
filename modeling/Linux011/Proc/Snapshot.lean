import Linux011.Proc.Seeks

namespace Linux011.Proc

open Linux011.Library

variable {L : Layout}

def Event.reads (e : Event) (fd : Nat) : Bool :=
  match e.call with
  | .read file _ => file == fd
  | _ => false

/-- A read that returned no error and fewer bytes than asked for: its reader is at the end of the file. -/
def Event.ends (e : Event) (fd : Nat) : Bool :=
  match e.call with
  | .read file count => file == fd && decide (0 ≤ e.reply.result ∧ e.reply.result < count)
  | _ => false

/-- What a reader obtained by reads that returned no error. -/
def chunks (fd : Nat) (es : List Event) : List Byte :=
  es.flatMap fun e => if e.reads fd ∧ 0 ≤ e.reply.result then e.reply.bytes else []

def Finished (fd : Nat) (es : List Event) : Prop := ∃ e ∈ es, e.ends fd = true

/-- What the readers and the rest of the system do: nobody seeks, and a reader reads on up to the end. -/
def Reading (p : List Event × State) (e : Event) : Prop :=
  match e.call with
  | .read fd count => 0 < count ∧ ¬ Finished fd p.1
  | .lseek _ _ _ => False
  | .change _ => True

/-- A read that refreshes a node leaves what others on their way through the file have read of it. -/
def Undisturbed (p : List Event × State) (e : Event) : Prop :=
  ∀ fd count, e.call = .read fd count → ∀ file node, p.2.files fd = some file → nodeOf file.dev = some node →
    file.pos = 0 → ∀ other file', p.2.files other = some file' → nodeOf file'.dev = some node →
      ¬ Finished other p.1 →
        (p.2.system.text node).take file'.pos.toNat = (latest p.1 node).take file'.pos.toNat

/-- How far a reader on its way has come. -/
structure Progress (es : List Event) (fd : Nat) (file : File) (node : Node) : Prop where
  inside : file.pos.toNat ≤ (latest es node).length
  obtained : chunks fd es = (latest es node).take file.pos.toNat
  produced : file.pos ≠ 0 → latest es node ∈ texts node es

structure Shot (L : Layout) (p : List Event × State) : Prop where
  keeps : Keeps L p.2.device (latest p.1)
  progress : ∀ fd file node, p.2.files fd = some file → nodeOf file.dev = some node → ¬ Finished fd p.1 →
    Progress p.1 fd file node
  done : ∀ fd file node, p.2.files fd = some file → nodeOf file.dev = some node → Finished fd p.1 →
    chunks fd p.1 ∈ texts node p.1

section History

variable {es : List Event} {e : Event} {fd : Nat} {node : Node}

theorem finished_snoc : Finished fd (es ++ [e]) ↔ Finished fd es ∨ e.ends fd = true := by
  simp [Finished, or_and_right, exists_or]

theorem chunks_other (other : e.reads fd = false) : chunks fd (es ++ [e]) = chunks fd es := by
  simp [chunks, other]

theorem chunks_read (reads : e.reads fd = true) (served : 0 ≤ e.reply.result) :
    chunks fd (es ++ [e]) = chunks fd es ++ e.reply.bytes := by
  simp [chunks, reads, served]

theorem ends_other (other : e.reads fd = false) : e.ends fd = false := by
  unfold Event.reads at other
  unfold Event.ends
  split
  · rename_i file count called
    rw [called] at other
    have apart : (file == fd) = false := other
    rw [apart, Bool.false_and]
  · rfl

theorem texts_mono {text : List Byte} (member : text ∈ texts node es) : text ∈ texts node (es ++ [e]) := by
  rw [texts, List.filterMap_append]
  exact List.mem_append_left _ member

end History

theorem Progress.other {es : List Event} {e : Event} {fd : Nat} {file : File} {node : Node}
    (progress : Progress es fd file node) (other : e.reads fd = false)
    (same : (latest (es ++ [e]) node).take file.pos.toNat = (latest es node).take file.pos.toNat)
    (made : latest (es ++ [e]) node ∈ texts node (es ++ [e]) ∨ latest (es ++ [e]) node = latest es node) :
    Progress (es ++ [e]) fd file node where
  inside := by
    have inside := progress.inside
    have length := congrArg List.length same
    rw [List.length_take, List.length_take] at length
    omega
  obtained := by rw [chunks_other other, progress.obtained, same]
  produced := by
    intro started
    rcases made with made | kept
    · exact made
    · rw [kept]
      exact texts_mono (progress.produced started)

theorem Shot.quiet {p : List Event × State} {e : Event} {t : State} (shot : Shot L p)
    (device : t.device = p.2.device) (files : t.files = p.2.files) (produced : e.reply.produced = none)
    (other : ∀ fd file node, p.2.files fd = some file → nodeOf file.dev = some node → e.reads fd = false) :
    Shot L (p.1 ++ [e], t) where
  keeps := by
    rw [latest_none produced]
    exact device ▸ shot.keeps
  progress := by
    intro fd file node here proc unfinished
    have elsewhere := other fd file node (files ▸ here) proc
    rw [finished_snoc, ends_other elsewhere] at unfinished
    have before := shot.progress fd file node (files ▸ here) proc fun finished => unfinished (.inl finished)
    exact before.other elsewhere (by rw [latest_none produced]) (.inr (by rw [latest_none produced]))
  done := by
    intro fd file node here proc finished
    have elsewhere := other fd file node (files ▸ here) proc
    rw [finished_snoc, ends_other elsewhere] at finished
    rw [chunks_other elsewhere]
    exact texts_mono (shot.done fd file node (files ▸ here) proc (finished.resolve_right Bool.false_ne_true))

section Read

variable {es : List Event} {s : State} {e : Event} {fd : Nat} {file : File} {node : Node} {count : Nat}

theorem Served.texts {system : System} {before : Node → List Byte} {pos : BitVec 32}
    {out : Device × BitVec 32 × Reply} (served : Served L system before node pos count out)
    (reply : e.reply = out.2.2) (start : pos = 0) : source system before node pos ∈ texts node (es ++ [e]) := by
  have produced := served.produced
  rw [if_pos start, ← reply] at produced
  rw [texts_some produced, if_pos rfl, source, if_pos start]
  exact List.mem_append_right _ (List.mem_singleton_self _)

theorem Progress.read (progress : Progress es fd file node)
    {out : Device × BitVec 32 × Reply} (served : Served L s.system (latest es) node file.pos count out)
    (called : e.call = .read fd count) (reply : e.reply = out.2.2) :
    (e.ends fd = true → chunks fd (es ++ [e]) ∈ Proc.texts node (es ++ [e])) ∧
      (e.ends fd = false → Progress (es ++ [e]) fd { file with pos := out.2.1 } node) := by
  have start : file.pos.toNat ≤ (source s.system (latest es) node file.pos).length := by
    unfold source
    split
    · rename_i zero
      rw [zero]
      exact Nat.zero_le _
    · exact progress.inside
  have sofar : chunks fd es = (source s.system (latest es) node file.pos).take file.pos.toNat := by
    rw [progress.obtained]
    unfold source
    split
    · rename_i zero
      rw [zero]
      rfl
    · rfl
  have member : source s.system (latest es) node file.pos ∈ Proc.texts node (es ++ [e]) := by
    by_cases zero : file.pos = 0
    · exact served.texts reply zero
    · rw [source, if_neg zero]
      exact texts_mono (progress.produced zero)
  have now : latest (es ++ [e]) node = source s.system (latest es) node file.pos := by
    rw [served.latest reply, Function.update_self]
  have short := served.short
  obtain ⟨loop, scanned, pos, bytes, _⟩ := served.scanned start
  have result : e.reply.result = e.reply.bytes.length := by
    rw [reply]
    exact served.result
  have obtained : e.reply.bytes = ((source s.system (latest es) node file.pos).drop file.pos.toNat).take count := by
    rw [reply, bytes, scanned.bytes]
  have reads : e.reads fd = true := by simp [Event.reads, called]
  have whole : chunks fd (es ++ [e]) =
      (source s.system (latest es) node file.pos).take (file.pos.toNat + count) := by
    rw [chunks_read reads (by omega), sofar, obtained, List.take_add]
  have length : e.reply.bytes.length =
      min count ((source s.system (latest es) node file.pos).length - file.pos.toNat) := by
    rw [obtained, List.length_take, List.length_drop]
  have ends : e.ends fd = decide (e.reply.bytes.length < count) := by
    simp [Event.ends, called, result]
  rw [ends, decide_eq_true_eq, decide_eq_false_iff_not]
  refine ⟨fun fewer => ?_, fun all => ?_⟩
  · rw [whole, List.take_of_length_le (by omega)]
    exact member
  · have position : out.2.1.toNat = file.pos.toNat + count := by
      rw [pos, scanned.pos, ← bytes, ← reply, BitVec.toNat_ofNat, Nat.mod_eq_of_lt (by omega)]
      omega
    refine ⟨?_, ?_, ?_⟩
    · rw [now]
      change out.2.1.toNat ≤ _
      omega
    · rw [whole, now, ← position]
    · intro _
      rw [now]
      exact member

theorem Shot.read {t : State} (shot : Shot L (es, s)) (fits : s.system.Fits) (here : s.files fd = some file)
    (proc : nodeOf file.dev = some node) (called : e.call = .read fd count) (positive : 0 < count)
    (unfinished : ¬ Finished fd es) (undisturbed : Undisturbed (es, s) e)
    (step : s.sysRead L e.pid fd count = (t, e.reply)) : Shot L (es ++ [e], t) := by
  rw [sysRead_node here proc positive, Prod.mk.injEq] at step
  have served := shot.keeps.readNode fits e.pid node file.pos count
  have reply := step.2.symm
  have after := served.latest reply
  have own := (shot.progress fd file node here proc unfinished).read served called reply
  have reads (other : Nat) (apart : other ≠ fd) : e.reads other = false := by
    simp [Event.reads, called, apart.symm]
  have files (other : Nat) (apart : other ≠ fd) : t.files other = s.files other := by
    rw [← step.1]
    exact Function.update_of_ne apart _ _
  have mine : t.files fd = some { file with pos := (readNode L s.device s.system e.pid node file.pos count).2.1 } := by
    rw [← step.1]
    exact Function.update_self _ _ _
  constructor
  · rw [after, ← step.1]
    exact served.keeps
  · intro other file' node' here' proc' unfinished'
    by_cases apart : other = fd
    · subst apart
      rw [finished_snoc, not_or] at unfinished'
      obtain rfl := Option.some.inj (mine.symm.trans here')
      obtain rfl := Option.some.inj (proc.symm.trans proc')
      exact own.2 (Bool.eq_false_of_not_eq_true unfinished'.2)
    · have before : s.files other = some file' := (files other apart).symm.trans here'
      rw [finished_snoc, ends_other (reads other apart)] at unfinished'
      have waiting : ¬ Finished other es := fun finished => unfinished' (.inl finished)
      have progress := shot.progress other file' node' before proc' waiting
      by_cases same : node' = node
      · subst same
        by_cases zero : file.pos = 0
        · have calm := undisturbed fd count called file node' here proc zero other file' before proc' waiting
          apply progress.other (reads other apart)
          · rw [after, Function.update_self, source, if_pos zero]
            exact calm
          · left
            rw [after, Function.update_self]
            exact served.texts reply zero
        · have kept : latest (es ++ [e]) node' = latest es node' := by
            rw [after, Function.update_self, source, if_neg zero]
          exact progress.other (reads other apart) (by rw [kept]) (.inr kept)
      · have kept : latest (es ++ [e]) node' = latest es node' := by
          rw [after, Function.update_of_ne same]
        exact progress.other (reads other apart) (by rw [kept]) (.inr kept)
  · intro other file' node' here' proc' finished'
    by_cases apart : other = fd
    · subst apart
      obtain rfl := Option.some.inj (mine.symm.trans here')
      obtain rfl := Option.some.inj (proc.symm.trans proc')
      exact own.1 ((finished_snoc.mp finished').resolve_left unfinished)
    · have before : s.files other = some file' := (files other apart).symm.trans here'
      rw [finished_snoc, ends_other (reads other apart)] at finished'
      rw [chunks_other (reads other apart)]
      exact texts_mono (shot.done other file' node' before proc' (finished'.resolve_right Bool.false_ne_true))

end Read

theorem Shot.step {p q : List Event × State} {e : Event} (shot : Shot L p) (fits : p.2.system.Fits)
    (reading : Reading p e) (undisturbed : Undisturbed p e) (step : (procfs L).recorded.step p e q) : Shot L q := by
  obtain ⟨es, s⟩ := p
  obtain ⟨es', t⟩ := q
  obtain ⟨rfl, performed⟩ := step
  replace performed : s.perform L e.pid e.call = (t, e.reply) := performed
  cases called : e.call with
  | lseek fd offset origin => simp only [Reading, called] at reading
  | change system =>
    rw [called, State.perform, Prod.mk.injEq] at performed
    apply shot.quiet
    · rw [← performed.1]
    · rw [← performed.1]
    · rw [← performed.2]
      rfl
    · intro fd _ _ _ _
      simp [Event.reads, called]
  | read fd n =>
    simp only [Reading, called] at reading
    rw [called, State.perform] at performed
    by_cases serves : ∃ file node, s.files fd = some file ∧ nodeOf file.dev = some node
    · obtain ⟨file, node, here, proc⟩ := serves
      obtain ⟨count, rfl⟩ := Int.eq_ofNat_of_zero_le (Int.le_of_lt reading.1)
      exact shot.read fits here proc called (Int.natCast_pos.mp reading.1) reading.2 undisturbed performed
    · have idle : (s.sysRead L e.pid fd n).1 = s ∧ (s.sysRead L e.pid fd n).2.produced = none :=
        sysRead_other fun file node here proc => absurd ⟨file, node, here, proc⟩ serves
      rw [performed] at idle
      have same : t = s := idle.1
      subst same
      apply shot.quiet rfl rfl idle.2
      intro other file node here proc
      have apart : fd ≠ other := fun same => serves ⟨file, node, same ▸ here, proc⟩
      simp [Event.reads, called, apart]

theorem Booted.shot {s : State} (booted : Booted L s) : Shot L ([], s) where
  keeps := booted.keeps
  progress := by
    intro fd file node here _ _
    have zero := booted.start fd file here
    refine ⟨?_, ?_, ?_⟩
    · rw [zero]
      exact Nat.zero_le _
    · rw [zero]
      rfl
    · exact fun started => absurd zero started
  done := by
    intro _ _ _ _ _ finished
    obtain ⟨_, member, _⟩ := finished
    cases member

/-- What a step may do for the readers to get consistent texts. -/
def Calm (p : List Event × State) (e : Event) : Prop := Reading p e ∧ Fitting p.2 e ∧ Undisturbed p e

/-- A reader that has come to the end of the file has the text of one refresh. -/
theorem one_refresh_read {es : List Event} {s : State}
    (reached : ((procfs L).recorded.restrict Calm).Reaches (es, s)) {fd : Nat} {file : File} {node : Node}
    (here : s.files fd = some file) (proc : nodeOf file.dev = some node) (finished : Finished fd es) :
    chunks fd es ∈ texts node es := by
  have shot : Shot L (es, s) := by
    apply reached.invariant (I := Shot L)
    · rintro ⟨es, s⟩ ⟨rfl, booted⟩
      exact booted.shot
    · intro p e q shot step
      exact shot.step step.1.2.1 step.1.1 step.1.2.2 step.2
  exact shot.done fd file node here proc finished

theorem Keeps.sysRead {s : State} {before : Node → List Byte} (keeps : Keeps L s.device before)
    (fits : s.system.Fits) {fd : Nat} {file : File} {node : Node} (here : s.files fd = some file)
    (proc : nodeOf file.dev = some node) (pid : Int) {count : Nat} (positive : 0 < count)
    (start : file.pos.toNat ≤ (source s.system before node file.pos).length) :
    ∃ t reply, s.sysRead L pid fd count = (t, reply) ∧
      Keeps L t.device (Function.update before node (source s.system before node file.pos)) ∧
      t.system = s.system ∧
      t.files = Function.update s.files fd
        (some { file with pos := BitVec.ofNat 32 (file.pos.toNat + reply.bytes.length) }) ∧
      reply.bytes = ((source s.system before node file.pos).drop file.pos.toNat).take count ∧
      reply.result = reply.bytes.length ∧
      reply.produced = if file.pos = 0 then some (node, s.system.text node) else none := by
  have served := keeps.readNode fits pid node file.pos count
  obtain ⟨loop, scanned, pos, bytes, _⟩ := served.scanned start
  refine ⟨_, _, sysRead_node here proc positive, served.keeps, rfl, ?_, bytes.trans scanned.bytes, served.result,
    served.produced⟩
  simp only [pos, scanned.pos, ← bytes]

section Linked

theorem started_waits (e : Event) : Undisturbed ([], started) e := by
  intro _ _ _ _ _ _ _ _ other file' here' _ _
  rw [started_booted.start other file' here']
  rfl

theorem whole_psinfo_read : ∃ es s, ((procfs linked).recorded.restrict Calm).Reaches (es, s) ∧
    Finished 0 es ∧ chunks 0 es ∈ texts .psinfo es := by
  obtain ⟨t, reply, read, _, _, files, bytes, result, _⟩ :=
    started_booted.keeps.sysRead system_fits (rfl : started.files 0 = _) (rfl : nodeOf 0 = some .psinfo) 1
      (show 0 < 1024 by decide) (Nat.zero_le _)
  have step : ((procfs linked).recorded.restrict Calm).step ([], started) ⟨1, .read 0 (1024 : Nat), reply⟩
      ([⟨1, .read 0 (1024 : Nat), reply⟩], t) := by
    refine ⟨⟨⟨by decide, ?_⟩, system_fits, started_waits _⟩, rfl, read⟩
    intro finished
    obtain ⟨_, member, _⟩ := finished
    cases member
  have reached : ((procfs linked).recorded.restrict Calm).Reaches ([⟨1, .read 0 (1024 : Nat), reply⟩], t) :=
    ⟨([], started), _, ⟨rfl, started_booted⟩, Machine.Run.one step⟩
  have short : reply.bytes.length < 1024 := by
    have bound : (started.system.text .psinfo).length < 1024 := system_fits
    rw [bytes]
    simp only [source, if_true, List.length_take, List.length_drop]
    omega
  have finished : Finished 0 [⟨1, .read 0 (1024 : Nat), reply⟩] := by
    refine ⟨_, List.mem_singleton_self _, ?_⟩
    simp [Event.ends, result, short]
  refine ⟨_, t, reached, finished, ?_⟩
  have here : t.files 0 = some ⟨0, 0, BitVec.ofNat 32 (0 + reply.bytes.length)⟩ := by
    rw [files]
    exact Function.update_self _ _ _
  exact one_refresh_read reached here rfl finished

/-- The first task's slice has nearly run out. -/
def later : System where
  task i := if i = 1 then some ⟨1, 0, 0, 5, 40⟩ else none
  root := none

theorem later_fits : later.Fits := by
  unfold System.Fits
  decide +kernel

/-- A reader between whose two reads another one starts gets the halves of two texts. -/
theorem halves_of_two_texts : ∃ es s,
    ((procfs linked).recorded.restrict fun p e => Reading p e ∧ Fitting p.2 e).Reaches (es, s) ∧
      (s.files 0).map File.dev = some 0 ∧ Finished 0 es ∧ chunks 0 es ∉ texts .psinfo es := by
  obtain ⟨s₁, r₁, read₁, keeps₁, system₁, files₁, bytes₁, result₁, produced₁⟩ :=
    started_booted.keeps.sysRead system_fits (rfl : started.files 0 = _) (rfl : nodeOf 0 = some .psinfo) 1
      (show 0 < 43 by decide) (Nat.zero_le _)
  have long : 43 ≤ (system.text .psinfo).length ∧ 43 ≤ (later.text .psinfo).length := by decide +kernel
  have first : r₁.bytes = (system.text .psinfo).take 43 := bytes₁
  have length : r₁.bytes.length = 43 := by rw [first, List.length_take, Nat.min_eq_left long.1]
  have waiting : s₁.files 1 = some ⟨0, 0, 0⟩ := by
    rw [files₁]
    rfl
  obtain ⟨s₃, r₃, read₃, keeps₃, system₃, files₃, bytes₃, result₃, produced₃⟩ :=
    Keeps.sysRead (s := { s₁ with system := later }) keeps₁ later_fits waiting (rfl : nodeOf 0 = some .psinfo) 2
      (show 0 < 1 by decide) (Nat.zero_le _)
  have halfway : s₃.files 0 = some ⟨0, 0, 43⟩ := by
    rw [files₃, Function.update_of_ne (by decide)]
    change s₁.files 0 = _
    rw [files₁, Function.update_self, length]
    rfl
  have now : source s₃.system (Function.update (Function.update (latest []) .psinfo
      (source started.system (latest []) .psinfo 0)) .psinfo (source later (Function.update (latest []) .psinfo
      (source started.system (latest []) .psinfo 0)) .psinfo 0)) .psinfo 43 = later.text .psinfo := by
    rw [source, if_neg (by decide), Function.update_self]
    rfl
  obtain ⟨s₄, r₄, read₄, _, _, files₄, bytes₄, result₄, produced₄⟩ :=
    keeps₃.sysRead (system₃ ▸ later_fits) halfway (rfl : nodeOf 0 = some .psinfo) 1
      (show 0 < 1024 by decide) (by rw [now]; exact long.2)
  have last : r₄.bytes = ((later.text .psinfo).drop 43).take 1024 := by
    rw [bytes₄, now]
    rfl
  have reading : r₁.result = 43 := by rw [result₁, length]; rfl
  have started₁ : r₁.produced = some (.psinfo, system.text .psinfo) := produced₁
  have started₃ : r₃.produced = some (.psinfo, later.text .psinfo) := produced₃
  have going : r₄.produced = none := produced₄
  let e₁ : Event := ⟨1, .read 0 (43 : Nat), r₁⟩
  let e₂ : Event := ⟨0, .change later, .plain 0⟩
  let e₃ : Event := ⟨2, .read 1 (1 : Nat), r₃⟩
  let e₄ : Event := ⟨1, .read 0 (1024 : Nat), r₄⟩
  let readers := (procfs linked).recorded.restrict fun p e => Reading p e ∧ Fitting p.2 e
  have one : readers.step ([], started) e₁ ([e₁], s₁) :=
    ⟨⟨⟨by decide, by simp [Finished]⟩, system_fits⟩, rfl, read₁⟩
  have two : readers.step ([e₁], s₁) e₂ ([e₁, e₂], { s₁ with system := later }) :=
    ⟨⟨trivial, (system₁ ▸ system_fits : s₁.system.Fits)⟩, rfl, rfl⟩
  have three : readers.step ([e₁, e₂], { s₁ with system := later }) e₃ ([e₁, e₂, e₃], s₃) :=
    ⟨⟨⟨by decide, by simp [Finished, Event.ends, e₁, e₂]⟩, later_fits⟩, rfl, read₃⟩
  have four : readers.step ([e₁, e₂, e₃], s₃) e₄ ([e₁, e₂, e₃, e₄], s₄) :=
    ⟨⟨⟨by decide, by simp [Finished, Event.ends, reading, e₁, e₂, e₃]⟩, (system₃ ▸ later_fits : s₃.system.Fits)⟩,
      rfl, read₄⟩
  have run := (((Machine.Run.one one).snoc two).snoc three).snoc four
  refine ⟨[e₁, e₂, e₃, e₄], s₄, ⟨([], started), _, ⟨rfl, started_booted⟩, run⟩, ?_, ?_, ?_⟩
  · rw [files₄, Function.update_self]
    rfl
  · have short : r₄.bytes.length < 1024 := by
      have bound : (later.text .psinfo).length < 1024 := later_fits
      rw [last, List.length_take, List.length_drop]
      omega
    simp [Finished, Event.ends, result₄, short, e₁, e₂, e₃, e₄]
  · have obtained : chunks 0 [e₁, e₂, e₃, e₄] =
        (system.text .psinfo).take 43 ++ ((later.text .psinfo).drop 43).take 1024 := by
      simp [chunks, Event.reads, reading, result₄, first, last, e₁, e₂, e₃, e₄]
    have produced : texts .psinfo [e₁, e₂, e₃, e₄] = [system.text .psinfo, later.text .psinfo] := by
      simp [texts, started₁, started₃, going, Reply.plain, e₁, e₂, e₃, e₄]
    have torn : (system.text .psinfo).take 43 ++ ((later.text .psinfo).drop 43).take 1024 ∉
        [system.text .psinfo, later.text .psinfo] := by decide +kernel
    exact fun member => torn (obtained ▸ produced ▸ member)

end Linked

end Linux011.Proc

import SingleTape.General.Lists
import SingleTape.Proofs.Execution.Soundness
import SingleTape.Session.Basic

/-!
What can be done to a session, and whole histories of it. A compile starts the run that a machine
of its own would make of the program, or has no effect.
-/

namespace SingleTape

theorem readSeed_ne_nil {seed : String} {cells : List Symbol} (h : readSeed seed = .ok cells) :
    cells ≠ [] := by
  rw [readSeed] at h
  split at h
  · cases h
  · next words hw =>
    cases h
    simpa using hw

theorem Tape.ofSeed_ok {seed : String} {cells : List Symbol} (h : readSeed seed = .ok cells)
    (blank : Symbol) : Tape.ofSeed seed blank = .ok ⟨cells, blank, readSeed_ne_nil h⟩ := by
  rw [Tape.ofSeed, h]
  exact dif_neg (readSeed_ne_nil h)

theorem Tape.ofSeed_error {seed : String} {e : Error} (h : readSeed seed = .error e)
    (blank : Symbol) : Tape.ofSeed seed blank = .error e := by
  rw [Tape.ofSeed, h]
  rfl

/-- The run of a new machine with this blank symbol that was loaded with a block of instructions
and launched on the tape of a seed. -/
def Machine.freshRun (blank : Symbol) (instructions tape : String) : Except Error Execution := do
  let (_, machine) ← (withBlank blank).load instructions
  machine.launchSeed tape

theorem Machine.freshRun_ok {instructions tape : String} {is : List Instruction}
    {cells : List Symbol} (hi : readInstructions instructions = .ok is)
    (ht : readSeed tape = .ok cells) (blank : Symbol) :
    freshRun blank instructions tape =
      .ok (.start (Table.empty.setAll is).2 ⟨cells, blank, readSeed_ne_nil ht⟩) := by
  simp [freshRun, withBlank, load, Table.load_ok hi, launchSeed, launch, Tape.ofSeed_ok ht, bind,
    Except.bind]

theorem Machine.freshRun_bad_tape {instructions tape : String} {is : List Instruction} {e : Error}
    (hi : readInstructions instructions = .ok is) (ht : readSeed tape = .error e)
    (blank : Symbol) : freshRun blank instructions tape = .error e := by
  simp [freshRun, withBlank, load, Table.load_ok hi, launchSeed, Tape.ofSeed_error ht, bind,
    Except.bind]

namespace Session

inductive Operation where
  | compile (instructions tape : String)
  | decompile
  | next
  | skip (limit : Nat)
  | handle (event : Event)
  | setAuto (auto : Bool)
  deriving DecidableEq, Repr

inductive Answer where
  | compiled (result : Except Error (List Request))
  | pulled (result : Except Error (Option Record))
  | skipped (result : Except Error (List Record))
  | silent

def Answer.records : Answer → List Record
  | pulled (.ok record) => record.toList
  | skipped (.ok records) => records
  | _ => []

def Answer.fault? : Answer → Option Error
  | pulled (.error fault) => some fault
  | skipped (.error fault) => some fault
  | _ => none

/-- Performs an operation; a compile that is refused has no effect. -/
def perform (s : Session) : Operation → Answer × Session
  | .compile instructions tape =>
    match s.compile instructions tape with
    | .ok (repeated, s) => (.compiled (.ok repeated), s)
    | .error refusal => (.compiled (.error refusal), s)
  | .decompile => (.silent, s.decompile)
  | .next => (.pulled s.next.1, s.next.2)
  | .skip limit => (.skipped (s.skip limit).1, (s.skip limit).2)
  | .handle event => (.pulled (s.handle event).1, (s.handle event).2)
  | .setAuto auto => (.silent, s.setAuto auto)

def history (s : Session) (ops : List Operation) : List Answer × Session := serve perform s ops

def pulled (s : Session) (ops : List Operation) : List Record :=
  (s.history ops).1.flatMap Answer.records

def afterAll (s : Session) (ops : List Operation) : Session := (s.history ops).2

variable {s : Session} {instructions tape : String}

@[simp] theorem afterAll_nil (s : Session) : s.afterAll [] = s := rfl

@[simp] theorem afterAll_cons (s : Session) (op : Operation) (ops : List Operation) :
    s.afterAll (op :: ops) = (s.perform op).2.afterAll ops := rfl

@[simp] theorem pulled_nil (s : Session) : s.pulled [] = [] := rfl

@[simp] theorem pulled_cons (s : Session) (op : Operation) (ops : List Operation) :
    s.pulled (op :: ops) = (s.perform op).1.records ++ (s.perform op).2.pulled ops := rfl

theorem compile_ok {is : List Instruction} {cells : List Symbol}
    (hi : readInstructions instructions = .ok is) (ht : readSeed tape = .ok cells) (s : Session) :
    s.compile instructions tape =
      .ok ((Table.empty.setAll is).1,
        { s with
          machine := ⟨s.machine.blank, (Table.empty.setAll is).2⟩
          execution := some
            (.start (Table.empty.setAll is).2 ⟨cells, s.machine.blank, readSeed_ne_nil ht⟩)
          last := none
          finished := false }) := by
  simp [compile, Machine.withBlank, Machine.load, Table.load_ok hi, Machine.launchSeed,
    Machine.launch, Tape.ofSeed_ok ht, bind, Except.bind]

/-- The instructions are blamed first, then the tape. -/
theorem compile_error_iff {e : Error} :
    s.compile instructions tape = .error e ↔
      readInstructions instructions = .error e ∨
        (∃ is, readInstructions instructions = .ok is) ∧ readSeed tape = .error e := by
  cases hi : readInstructions instructions with
  | error e' => simp [compile, Machine.load, Table.load_error hi, bind, Except.bind]
  | ok is =>
    cases ht : readSeed tape with
    | error e' =>
      simp [compile, Machine.load, Table.load_ok hi, Machine.launchSeed, Tape.ofSeed_error ht,
        bind, Except.bind]
    | ok cells => simp [compile_ok hi ht]

theorem perform_refused {e : Error} (h : s.compile instructions tape = .error e) :
    s.perform (.compile instructions tape) = (.compiled (.error e), s) := by
  rw [perform, h]

theorem exists_of_compile_ok {result : List Request × Session}
    (h : s.compile instructions tape = .ok result) :
    (∃ is, readInstructions instructions = .ok is) ∧ ∃ cells, readSeed tape = .ok cells := by
  cases hi : readInstructions instructions with
  | error e =>
    have he : s.compile instructions tape = .error e := compile_error_iff.mpr (Or.inl hi)
    cases h.symm.trans he
  | ok is =>
    cases ht : readSeed tape with
    | error e =>
      have he : s.compile instructions tape = .error e :=
        compile_error_iff.mpr (Or.inr ⟨⟨is, hi⟩, ht⟩)
      cases h.symm.trans he
    | ok cells => exact ⟨⟨is, rfl⟩, cells, rfl⟩

theorem compile_starts {repeated : List Request} {t : Session}
    (h : s.compile instructions tape = .ok (repeated, t)) :
    ∃ start : Execution, Machine.freshRun s.machine.blank instructions tape = .ok start ∧
      start.Sound ∧ t.execution = some start ∧ t.machine.blank = s.machine.blank ∧
        t.auto = s.auto := by
  obtain ⟨⟨is, hi⟩, cells, ht⟩ := exists_of_compile_ok h
  cases (compile_ok hi ht s).symm.trans h
  exact ⟨_, Machine.freshRun_ok hi ht s.machine.blank,
    Execution.start_sound (Table.Sound.empty.setAll is) _, rfl, rfl, rfl⟩

theorem next_keeps (s : Session) : s.next.2.machine = s.machine ∧ s.next.2.auto = s.auto := by
  rw [next]
  split
  · exact ⟨rfl, rfl⟩
  · split <;> exact ⟨rfl, rfl⟩

theorem skipOnto_keeps (taken : List Record) (limit : Nat) (s : Session) :
    (skipOnto taken limit s).2.machine = s.machine ∧
      (skipOnto taken limit s).2.auto = s.auto := by
  induction limit generalizing taken s with
  | zero => exact ⟨rfl, rfl⟩
  | succ limit ih =>
    have hn := s.next_keeps
    rw [skipOnto]
    split
    · next hs => rwa [hs] at hn
    · next hs => rwa [hs] at hn
    · next record t hs =>
      rw [hs] at hn
      obtain ⟨hm, ha⟩ := ih (record :: taken) t
      exact ⟨hm.trans hn.1, ha.trans hn.2⟩

theorem handle_keeps (s : Session) (event : Event) :
    (s.handle event).2.machine = s.machine ∧ (s.handle event).2.auto = s.auto := by
  rw [handle]
  split
  · exact s.next_keeps
  · exact ⟨rfl, rfl⟩

/-- Whether records are pulled automatically after an operation. -/
def Operation.mode (auto : Bool) : Operation → Bool
  | setAuto auto => auto
  | _ => auto

theorem perform_keeps (s : Session) (op : Operation) :
    (s.perform op).2.machine.blank = s.machine.blank ∧
      (s.perform op).2.auto = op.mode s.auto := by
  cases op with
  | compile instructions tape =>
    cases hc : s.compile instructions tape with
    | error e =>
      rw [perform_refused hc]
      exact ⟨rfl, rfl⟩
    | ok result =>
      obtain ⟨start, -, -, -, hb, ha⟩ := compile_starts hc
      simp only [perform, hc]
      exact ⟨hb, ha⟩
  | decompile => exact ⟨rfl, rfl⟩
  | next => exact ⟨congrArg _ s.next_keeps.1, s.next_keeps.2⟩
  | skip limit => exact ⟨congrArg _ (skipOnto_keeps [] limit s).1, (skipOnto_keeps [] limit s).2⟩
  | handle event => exact ⟨congrArg _ (s.handle_keeps event).1, (s.handle_keeps event).2⟩
  | setAuto auto => exact ⟨rfl, rfl⟩

theorem blank_afterAll (s : Session) (ops : List Operation) :
    (s.afterAll ops).machine.blank = s.machine.blank := by
  induction ops generalizing s with
  | nil => rfl
  | cons op ops ih => rw [afterAll_cons, ih, (s.perform_keeps op).1]

theorem auto_afterAll (s : Session) (ops : List Operation) :
    (s.afterAll ops).auto = ops.foldl Operation.mode s.auto := by
  induction ops generalizing s with
  | nil => rfl
  | cons op ops ih => rw [afterAll_cons, ih, (s.perform_keeps op).2, List.foldl_cons]

end Session

end SingleTape

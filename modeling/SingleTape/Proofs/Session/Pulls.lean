import SingleTape.Proofs.Execution.Runs
import SingleTape.Proofs.Session.History

/-!
Records pulled from a session. One by one, in bulk, on events, in any mixture and with compiles in
between that are refused, they are the records of the run that the last accepted compile started.
-/

namespace SingleTape.Session

variable {s : Session} {e start : Execution} {instructions tape : String}

def HasHalted (s : Session) : Prop := ∃ e, s.execution = some e ∧ e.isHalted = true

theorem hasHalted_iff (he : s.execution = some e) : s.HasHalted ↔ e.state < 0 := by
  simp [HasHalted, he, Execution.isHalted]

theorem next_cases (he : s.execution = some e) (h : e.Sound) :
    (e.state < 0 ∧ s.next = (.ok none, { s with execution := some e, finished := true })) ∨
      (¬ e.state < 0 ∧ s.next = (.ok (some e.record),
        { s with
          execution := some e.successor
          last := some e.record
          finished := e.successor.isHalted || s.finished })) := by
  rcases h.advance_cases with ⟨hs, ha⟩ | ⟨hs, ha⟩
  · exact Or.inl ⟨hs, by simp [next, he, ha]⟩
  · refine Or.inr ⟨hs, ?_⟩
    cases hh : e.successor.isHalted <;> simp [next, he, ha, Execution.outcome, hh]

theorem execution_next (he : s.execution = some e) (h : e.Sound) :
    s.next.1 = .ok (e.records 1).head? ∧ s.next.2.execution = some (e.after 1) := by
  rcases next_cases he h with ⟨hs, hn⟩ | ⟨hs, hn⟩
  · rw [hn, Execution.records_of_halted hs, h.after_of_halted hs]
    exact ⟨rfl, rfl⟩
  · rw [hn, Execution.records_of_not_halted hs, h.after_of_not_halted hs]
    exact ⟨rfl, rfl⟩

theorem execution_skipOnto (he : s.execution = some e) (h : e.Sound) (taken : List Record)
    (limit : Nat) :
    (skipOnto taken limit s).1 = .ok (taken.reverse ++ e.records limit) ∧
      (skipOnto taken limit s).2.execution = some (e.after limit) := by
  induction limit generalizing s e taken with
  | zero => simpa [skipOnto] using he
  | succ limit ih =>
    rcases next_cases he h with ⟨hs, hn⟩ | ⟨hs, hn⟩
    · simp [skipOnto, hn, Execution.records_of_halted hs, h.after_of_halted hs]
    · simp only [skipOnto, hn, Execution.records_of_not_halted hs, h.after_of_not_halted hs]
      simpa using ih rfl h.successor (e.record :: taken)

theorem execution_skip (he : s.execution = some e) (h : e.Sound) (limit : Nat) :
    (s.skip limit).1 = .ok (e.records limit) ∧
      (s.skip limit).2.execution = some (e.after limit) :=
  execution_skipOnto he h [] limit

theorem next_none_iff (he : s.execution = some e) (h : e.Sound) :
    s.next.1 = .ok none ↔ s.HasHalted := by
  rw [hasHalted_iff he]
  rcases next_cases he h with ⟨hs, hn⟩ | ⟨hs, hn⟩ <;> simp [hn, hs]

theorem handle_quiet {event : Event} (h : event ≠ .render ∨ s.auto = false) :
    s.handle event = (.ok none, s) := by
  rw [handle, if_neg]
  rintro ⟨hr, ha⟩
  rcases h with h | h
  · exact h hr
  · simp [h] at ha

theorem handle_render (ha : s.auto = true) : s.handle .render = s.next := by
  rw [handle, if_pos ⟨rfl, ha⟩]

def Refused (instructions tape : String) : Prop :=
  (∃ e, readInstructions instructions = .error e) ∨ ∃ e, readSeed tape = .error e

theorem Refused.exists_error (h : Refused instructions tape) (s : Session) :
    ∃ e, s.compile instructions tape = .error e := by
  cases hi : readInstructions instructions with
  | error e => exact ⟨e, compile_error_iff.mpr (Or.inl hi)⟩
  | ok is =>
    rcases h with ⟨e, h⟩ | ⟨e, h⟩
    · cases hi.symm.trans h
    · exact ⟨e, compile_error_iff.mpr (Or.inr ⟨⟨is, hi⟩, h⟩)⟩

/-- What leaves the session its program: pulls of any kind, setting the mode, and compiles that are
refused. -/
inductive Operation.Keeps : Operation → Prop where
  | next : Keeps .next
  | skip (limit : Nat) : Keeps (.skip limit)
  | handle (event : Event) : Keeps (.handle event)
  | setAuto (auto : Bool) : Keeps (.setAuto auto)
  | refused (instructions tape : String) : Refused instructions tape →
      Keeps (.compile instructions tape)

/-- An operation that keeps the program takes some steps of the run and answers with what they
bring. -/
theorem Operation.Keeps.pulls {op : Operation} (hk : op.Keeps) (he : s.execution = some e)
    (h : e.Sound) :
    ∃ n, (s.perform op).1.fault? = none ∧ (s.perform op).1.records = e.records n ∧
      (s.perform op).2.execution = some (e.after n) := by
  have one : (Answer.pulled s.next.1).fault? = none ∧
      (Answer.pulled s.next.1).records = e.records 1 := by
    rw [(execution_next he h).1]
    refine ⟨rfl, ?_⟩
    by_cases hs : e.state < 0
    · simp [Answer.records, Execution.records_of_halted hs]
    · simp [Answer.records, Execution.records_of_not_halted hs]
  cases hk with
  | next => exact ⟨1, one.1, one.2, (execution_next he h).2⟩
  | skip limit =>
    obtain ⟨hr, hx⟩ := execution_skip he h limit
    rw [perform, hr]
    exact ⟨limit, rfl, rfl, hx⟩
  | handle event =>
    by_cases hq : event ≠ .render ∨ s.auto = false
    · rw [perform, handle_quiet hq]
      exact ⟨0, rfl, rfl, he⟩
    · obtain ⟨rfl, ha⟩ : event = .render ∧ s.auto = true := by simpa using hq
      rw [perform, handle_render ha]
      exact ⟨1, one.1, one.2, (execution_next he h).2⟩
  | setAuto auto => exact ⟨0, rfl, rfl, he⟩
  | refused instructions tape hr =>
    obtain ⟨refusal, hc⟩ := hr.exists_error s
    rw [perform_refused hc]
    exact ⟨0, rfl, rfl, he⟩

/-- If a session has pulled the first records of a run, then so it has after more operations that
keep the program. -/
theorem history_brings (h : start.Sound) (ops : List Operation) (hops : ∀ op ∈ ops, op.Keeps)
    {rs : List Record} (he : s.execution = some e) (hb : start.Brings rs e) :
    (∀ answer ∈ (s.history ops).1, answer.fault? = none) ∧
      ∃ e', (s.afterAll ops).execution = some e' ∧ start.Brings (rs ++ s.pulled ops) e' := by
  -- What is pulled so far grows from operation to operation; the run itself stays the same.
  induction ops generalizing s e rs with
  | nil => exact ⟨by simp [history], e, he, by simpa using hb⟩
  | cons op ops ih =>
    obtain ⟨hop, hops⟩ := List.forall_mem_cons.mp hops
    obtain ⟨n, hf, hr, hx⟩ := hop.pulls he (hb.sound h)
    obtain ⟨hfs, e', he', hb'⟩ := ih hops hx (hb.more h n)
    refine ⟨List.forall_mem_cons.mpr ⟨hf, hfs⟩, e', he', ?_⟩
    rwa [pulled_cons, hr, ← List.append_assoc]

/-- When a compile fails and with what error. The session stays as it is. -/
structure CompileLaws (s : Session) (instructions tape : String) : Prop where
  fails : ∀ e, s.compile instructions tape = .error e ↔
    readInstructions instructions = .error e ∨
      (∃ is, readInstructions instructions = .ok is) ∧ readSeed tape = .error e
  no_effect : ∀ e, s.compile instructions tape = .error e →
    s.perform (.compile instructions tape) = (.compiled (.error e), s)

/-- What the answers of a session to some operations have to do with a run, and what the session
answers next. -/
structure PullLaws (start : Execution) (s : Session) (ops : List Operation) : Prop where
  healthy : ∀ answer ∈ (s.history ops).1, answer.fault? = none
  run : ∃ e, (s.afterAll ops).execution = some e ∧
    start.run (s.pulled ops).length = (.ok (s.pulled ops), e)
  next : (s.afterAll ops).next.1 = .ok none ↔ (s.afterAll ops).HasHalted
  skip : ∀ limit, ∃ rs, ((s.afterAll ops).skip limit).1 = .ok rs ∧ rs.length ≤ limit ∧
    (rs.length < limit → ((s.afterAll ops).skip limit).2.HasHalted)
  mode : (s.afterAll ops).auto = ops.foldl Operation.mode s.auto
  render : (∃ r, ((s.afterAll ops).handle .render).1 = .ok (some r)) ↔
    (s.afterAll ops).auto = true ∧ ¬ (s.afterAll ops).HasHalted
  quiet : ∀ event, event ≠ .render ∨ (s.afterAll ops).auto = false →
    (s.afterAll ops).handle event = (.ok none, s.afterAll ops)

theorem pullLaws (h : start.Sound) (he : s.execution = some start) (ops : List Operation)
    (hops : ∀ op ∈ ops, op.Keeps) : PullLaws start s ops := by
  obtain ⟨hf, e, hx, hb⟩ := history_brings h ops hops he h.brings_nil
  have hs : e.Sound := hb.sound h
  constructor
  · exact hf
  · exact ⟨e, hx, hb⟩
  · exact next_none_iff hx hs
  · intro limit
    obtain ⟨hr, hx'⟩ := execution_skip hx hs limit
    refine ⟨_, hr, e.length_records_le limit, fun hl => ?_⟩
    exact (hasHalted_iff hx').mpr (hs.halted_of_length_records_lt hl)
  · exact s.auto_afterAll ops
  · rw [hasHalted_iff hx]
    cases ha : (s.afterAll ops).auto with
    | false => simp [handle_quiet (Or.inr ha)]
    | true =>
      rw [handle_render ha]
      rcases next_cases hx hs with ⟨hh, hn⟩ | ⟨hh, hn⟩ <;> simp [hn, hh]
  · exact fun event => handle_quiet

/-- Whatever a session went through before: a compile fails exactly for a bad input, and what is
pulled after an accepted one, in whatever way, is the run of a fresh machine. -/
theorem session_yields_fresh_run (s : Session) (earlier : List Operation)
    (instructions tape : String) :
    CompileLaws (s.afterAll earlier) instructions tape ∧
      ∀ repeated t, (s.afterAll earlier).compile instructions tape = .ok (repeated, t) →
        ∃ start, Machine.freshRun s.machine.blank instructions tape = .ok start ∧
          ∀ ops, (∀ op ∈ ops, Operation.Keeps op) → PullLaws start t ops := by
  refine ⟨⟨fun e => compile_error_iff, fun e => perform_refused⟩, fun repeated t hc => ?_⟩
  obtain ⟨start, hrun, hs, he, -, -⟩ := compile_starts hc
  rw [blank_afterAll] at hrun
  exact ⟨start, hrun, fun ops hops => pullLaws hs he ops hops⟩

/-- A run of one step, pulled on an event and in bulk, with a refused compile in between. -/
theorem one_step_run_pulled :
    ∃ repeated t start, (new "0").compile "0(1) => -1(0) R" "1" = .ok (repeated, t) ∧
      Machine.freshRun "0" "0(1) => -1(0) R" "1" = .ok start ∧
      PullLaws start t [.setAuto true, .handle .render, .compile "0" "1", .skip 3] := by
  have hi : readInstructions "0(1) => -1(0) R" = .ok [⟨⟨0, "1"⟩, ⟨-1, "0", .right⟩⟩] := rfl
  have ht : readSeed "1" = .ok ["1"] := rfl
  have hc := compile_ok hi ht (new "0")
  obtain ⟨-, h⟩ := session_yields_fresh_run (new "0") [] "0(1) => -1(0) R" "1"
  obtain ⟨start, hrun, hp⟩ := h _ _ hc
  refine ⟨_, _, start, hc, hrun, hp _ ?_⟩
  simp only [List.forall_mem_cons]
  exact ⟨.setAuto true, .handle .render, .refused "0" "1" (Or.inl ⟨_, rfl⟩), .skip 3, by simp⟩

end SingleTape.Session

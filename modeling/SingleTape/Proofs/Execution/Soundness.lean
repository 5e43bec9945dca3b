import SingleTape.Execution
import SingleTape.Proofs.Table.Invariant
import SingleTape.Proofs.Tape.Coordinates

/-!
A run of a sound table meets no error: its head stays on the tape and the table always answers, so a
step either finds the run halted or applies one response.
-/

namespace SingleTape.Execution

structure Sound (e : Execution) : Prop where
  table : e.table.Sound
  inside : e.cursor < e.tape.length
  healthy : e.fault = none

def request (e : Execution) : Request := ⟨e.state, e.tape.look e.cursor⟩

def response (e : Execution) : Response := (e.table.stored? e.request).getD e.request.unanswered

def record (e : Execution) : Record := ⟨e.request, e.cursor, e.tape.cells⟩

def successor (e : Execution) : Execution :=
  let written := e.tape.put e.cursor e.response.symbol
  let moved := written.reach (target e.cursor e.response.move)
  { e with
    tape := moved.2
    cursor := moved.1
    state := e.response.state
    stepCount := e.stepCount + 1 }

def outcome (e : Execution) : Step :=
  if e.successor.isHalted then .final e.record else .moved e.record

variable {e : Execution}

theorem Sound.transition (h : e.Sound) : e.transition = .ok (e.outcome, e.successor) := by
  have hr : e.table.respond ⟨e.state, e.tape.look e.cursor⟩ = .ok e.response :=
    h.table.respond e.request
  simp only [Execution.transition, Tape.read_inside h.inside, hr, Tape.write_inside h.inside,
    bind, Except.bind]
  cases hm : e.response.move with
  | left => simp only [outcome, Execution.successor, hm, record, request]
  | right => simp only [outcome, Execution.successor, hm, record, request]
  | stay =>
    -- The head reaches for the cell it is on.
    have hs := Tape.reach_of_inside (t := e.tape.put e.cursor e.response.symbol)
      (by simpa using h.inside)
    simp only [outcome, Execution.successor, hm, record, request, target, hs]

/-- A step changes nothing once the run has halted, and is one transition before. -/
theorem Sound.advance_cases (h : e.Sound) :
    (e.state < 0 ∧ e.advance = (.ok .halted, e)) ∨
      (¬ e.state < 0 ∧ e.advance = (.ok e.outcome, e.successor)) := by
  by_cases hs : e.state < 0
  · exact Or.inl ⟨hs, by simp [Execution.advance, h.healthy, isHalted, hs]⟩
  · exact Or.inr ⟨hs, by simp [Execution.advance, h.healthy, isHalted, hs, h.transition]⟩

theorem tape_successor (e : Execution) : e.successor.tape =
    ((e.tape.put e.cursor e.response.symbol).reach (target e.cursor e.response.move)).2 := rfl

theorem Sound.successor (h : e.Sound) : e.successor.Sound :=
  ⟨h.table, Tape.reach_inside _ _, h.healthy⟩

theorem Sound.advance (h : e.Sound) : e.advance.2.Sound := by
  rcases h.advance_cases with ⟨-, ha⟩ | ⟨-, ha⟩
  · rw [ha]
    exact h
  · rw [ha]
    exact h.successor

theorem start_sound {table : Table} (h : table.Sound) (tape : Tape) : (start table tape).Sound :=
  ⟨h, tape.length_pos, rfl⟩

def after (e : Execution) : Nat → Execution
  | 0 => e
  | n + 1 => (e.after n).advance.2

theorem Sound.after (h : e.Sound) (n : Nat) : (e.after n).Sound := by
  induction n with
  | zero => exact h
  | succ n ih => exact ih.advance

/-- What holds of a sound run and is kept by each of its transitions holds after any steps. -/
theorem Sound.after_induction {p : Execution → Prop} (h : e.Sound) (hp : p e)
    (hstep : ∀ x : Execution, x.Sound → ¬ x.state < 0 → p x → p x.successor) (n : Nat) :
    p (e.after n) := by
  induction n with
  | zero => exact hp
  | succ n ih =>
    rcases (h.after n).advance_cases with ⟨-, ha⟩ | ⟨hn, ha⟩
    · rw [Execution.after, ha]
      exact ih
    · rw [Execution.after, ha]
      exact hstep _ (h.after n) hn ih

theorem Sound.table_after (h : e.Sound) (n : Nat) : (e.after n).table = e.table := by
  refine h.after_induction (p := fun x => x.table = e.table) rfl ?_ n
  intro x _ _ hx
  exact hx

theorem blank_successor (e : Execution) : e.successor.tape.blank = e.tape.blank := by
  simp [Execution.successor]

theorem Sound.blank_after (h : e.Sound) (n : Nat) : (e.after n).tape.blank = e.tape.blank := by
  refine h.after_induction (p := fun x => x.tape.blank = e.tape.blank) rfl ?_ n
  intro x _ _ hx
  rw [blank_successor, hx]

end SingleTape.Execution

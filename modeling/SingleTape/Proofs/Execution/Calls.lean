import SingleTape.General.Lists
import SingleTape.General.Results
import SingleTape.Proofs.Execution.Refinement
import SingleTape.Proofs.Execution.Runs

/-!
What can be asked of an execution, and whole histories of it. Whatever is asked, a sound run takes
some of its next steps and answers with what they bring. Its tape and its head stay within one cell
for each step taken.
-/

namespace SingleTape.Execution

inductive Operation where
  | advance
  | next
  | run (limit : Nat)
  deriving DecidableEq, Repr

inductive Answer where
  | stepped (result : Except Error Step)
  | pulled (result : Option (Except Error Record))
  | ran (result : Except Error (List Record))

def Answer.records : Answer → List Record
  | stepped (.ok step) => step.record?.toList
  | pulled (some (.ok record)) => [record]
  | ran (.ok records) => records
  | _ => []

def Answer.fault? : Answer → Option Error
  | stepped (.error fault) => some fault
  | pulled (some (.error fault)) => some fault
  | ran (.error fault) => some fault
  | _ => none

def perform (e : Execution) : Operation → Answer × Execution
  | .advance => (.stepped e.advance.1, e.advance.2)
  | .next => (.pulled e.next.1, e.next.2)
  | .run limit => (.ran (e.run limit).1, (e.run limit).2)

def history (e : Execution) (ops : List Operation) : List Answer × Execution := serve perform e ops

def pulled (e : Execution) (ops : List Operation) : List Record :=
  (e.history ops).1.flatMap Answer.records

def afterAll (e : Execution) (ops : List Operation) : Execution := (e.history ops).2

variable {e : Execution} {rs : List Record} {table : Table}

@[simp] theorem pulled_cons (e : Execution) (op : Operation) (ops : List Operation) :
    e.pulled (op :: ops) = (e.perform op).1.records ++ (e.perform op).2.pulled ops := rfl

theorem table_transition {next : Execution} {step : Step} (h : e.transition = .ok (step, next)) :
    next.table = e.table := by
  obtain ⟨symbol, -, h⟩ := exists_of_bind_eq_ok h
  obtain ⟨response, -, h⟩ := exists_of_bind_eq_ok h
  obtain ⟨written, -, h⟩ := exists_of_bind_eq_ok h
  cases h
  rfl

theorem table_advance (e : Execution) : e.advance.2.table = e.table := by
  unfold advance
  split
  · rfl
  · split
    · rfl
    · split
      · next h => exact table_transition h
      · rfl

theorem table_next (e : Execution) : e.next.2.table = e.table := by
  have ha := table_advance e
  unfold next
  split
  · rfl
  · split
    · next h => rwa [h] at ha
    · next h => rwa [h] at ha

theorem table_runOnto (taken : List Record) (limit : Nat) (e : Execution) :
    (runOnto taken limit e).2.table = e.table := by
  induction limit generalizing taken e with
  | zero => rfl
  | succ limit ih =>
    have hn := table_next e
    unfold runOnto
    split
    · next h => rwa [h] at hn
    · next h => rwa [h] at hn
    · next h =>
      rw [h] at hn
      rw [ih, hn]

theorem table_perform (e : Execution) (op : Operation) : (e.perform op).2.table = e.table := by
  cases op with
  | advance => exact table_advance e
  | next => exact table_next e
  | run limit => exact table_runOnto [] limit e

theorem Sound.perform (h : e.Sound) (op : Operation) :
    ∃ n, (e.perform op).1.fault? = none ∧ (e.perform op).1.records = e.records n ∧
      (e.perform op).2 = e.after n := by
  cases op with
  | advance =>
    refine ⟨1, ?_⟩
    rcases h.advance_cases with ⟨hs, ha⟩ | ⟨hs, ha⟩
    · simp [Execution.perform, ha, Answer.fault?, Answer.records, Step.record?,
        records_of_halted hs, h.after_of_halted hs]
    · simp [Execution.perform, ha, Answer.fault?, Answer.records, outcome_record?,
        records_of_not_halted hs, h.after_of_not_halted hs]
  | next =>
    refine ⟨1, ?_⟩
    rcases h.next_cases with ⟨hs, hn⟩ | ⟨hs, hn⟩
    · simp [Execution.perform, hn, Answer.fault?, Answer.records, records_of_halted hs,
        h.after_of_halted hs]
    · simp [Execution.perform, hn, Answer.fault?, Answer.records, records_of_not_halted hs,
        h.after_of_not_halted hs]
  | run limit =>
    refine ⟨limit, ?_⟩
    have hr := h.run limit
    simp [Execution.perform, hr, Answer.fault?, Answer.records]

/-- If the run from `start` has brought some records, then so it has after more operations. -/
theorem history_brings {start : Execution} (h : start.Sound) (ops : List Operation)
    (hb : start.Brings rs e) :
    (∀ answer ∈ (e.history ops).1, answer.fault? = none) ∧
      start.Brings (rs ++ e.pulled ops) (e.afterAll ops) := by
  induction ops generalizing e rs with
  | nil => exact ⟨by simp [history], by simpa [pulled, afterAll, history] using hb⟩
  | cons op ops ih =>
    obtain ⟨n, hf, hr, hx⟩ := (hb.sound h).perform op
    have hm : start.Brings (rs ++ (e.perform op).1.records) (e.perform op).2 := by
      rw [hr, hx]
      exact hb.more h n
    obtain ⟨hfs, hb'⟩ := ih hm
    refine ⟨List.forall_mem_cons.mpr ⟨hf, hfs⟩, ?_⟩
    rw [pulled_cons, ← List.append_assoc]
    exact hb'

theorem Sound.stepCount_after (h : e.Sound) (n : Nat) :
    (e.after n).stepCount = e.stepCount + (e.records n).length := by
  induction n generalizing e with
  | zero => rfl
  | succ n ih =>
    by_cases hs : e.state < 0
    · rw [h.after_of_halted hs, records_of_halted hs]
      rfl
    · have hc : e.successor.stepCount = e.stepCount + 1 := rfl
      rw [h.after_of_not_halted hs, records_of_not_halted hs, ih h.successor, hc, List.length_cons]
      omega

theorem Sound.growth (h : e.Sound) :
    e.successor.tape.length ≤ e.tape.length + 1 ∧ e.successor.cursor ≤ e.cursor + 1 := by
  have hl := length_successor e
  have hc := cursor_successor e
  have hi := h.inside
  have ht := target_eq e.cursor e.response.move
  rw [nextShift, Tape.shift, ht] at hl hc
  cases hm : e.response.move <;> simp only [hm, Move.offset] at hl hc <;> omega

/-- A run that has met no error and may go on: after so many steps, the head is on the tape, and
neither has gone further than one cell for each step from a tape of so many cells. -/
structure Intact (given steps : Nat) (e : Execution) : Prop where
  inside : e.cursor < e.tape.length
  healthy : e.fault = none
  count : e.stepCount = steps
  length : e.tape.length ≤ given + steps
  cursor : e.cursor + 1 ≤ given + steps
  targets : given + steps < 2 ^ 63 →
    ∀ move, -2 ^ 63 ≤ target e.cursor move ∧ target e.cursor move < 2 ^ 63

theorem start_intact (ht : table.Sound) (tape : Tape) (n : Nat) :
    Intact tape.length ((start table tape).records n).length ((start table tape).after n) := by
  have hs := start_sound ht tape
  have hcount : ((start table tape).after n).stepCount = ((start table tape).records n).length := by
    rw [hs.stepCount_after]
    exact Nat.zero_add _
  have hlen : ((start table tape).after n).tape.length ≤
      tape.length + ((start table tape).after n).stepCount := by
    refine hs.after_induction (p := fun x => x.tape.length ≤ tape.length + x.stepCount)
      (Nat.le_refl _) ?_ n
    intro x hx _ hl
    have hg := hx.growth.1
    have hc : x.successor.stepCount = x.stepCount + 1 := rfl
    omega
  have hi := (hs.after n).inside
  rw [hcount] at hlen
  refine ⟨hi, (hs.after n).healthy, hcount, hlen, by omega, ?_⟩
  intro hbound move
  rw [target_eq]
  cases move <;> simp only [Move.offset] <;> omega

theorem Brings.intact (ht : table.Sound) (tape : Tape) (hb : (start table tape).Brings rs e) :
    Intact tape.length rs.length e := by
  obtain ⟨hr, rfl⟩ := (start_sound ht tape).brings_iff.mp hb
  have hi := start_intact ht tape rs.length
  rwa [hr] at hi

end SingleTape.Execution

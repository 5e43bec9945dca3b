import SingleTape.Proofs.Execution.Refinement
import SingleTape.Proofs.Execution.Runs
import SingleTape.Proofs.Instruction.Edits
import SingleTape.Proofs.Session.History

/-!
A run depends on its instructions only through what they answer for states that are not negative.
With another table that answers alike it goes the same way, step for step, whatever places the
requests have in the two tables. So a block may be edited without an effect on any run.
-/

namespace SingleTape

namespace Execution

def withTable (e : Execution) (table : Table) : Execution := { e with table }

variable {e : Execution} {t u : Table} {log log' : List Instruction}

@[simp] theorem withTable_state (e : Execution) (t : Table) : (e.withTable t).state = e.state :=
  rfl

theorem record_withTable (e : Execution) (t : Table) : (e.withTable t).record = e.record := rfl

theorem successor_withTable (hr : (e.withTable t).response = e.response) :
    (e.withTable t).successor = e.successor.withTable t := by
  simp only [successor, hr]
  rfl

theorem outcome_withTable (hr : (e.withTable t).response = e.response) :
    (e.withTable t).outcome = e.outcome := by
  rw [outcome, outcome, successor_withTable hr, record_withTable]
  rfl

theorem Sound.withTable (h : e.Sound) (ht : t.Sound) : (e.withTable t).Sound :=
  ⟨ht, h.inside, h.healthy⟩

/-- A step is the same with a table that has the same response to the one request the step makes.
A halted run makes none. -/
theorem Sound.advance_withTable (h : e.Sound) (ht : t.Sound)
    (hr : ¬ e.state < 0 → (e.withTable t).response = e.response) :
    (e.withTable t).advance = (e.advance.1, e.advance.2.withTable t) := by
  rcases h.advance_cases with ⟨hs, ha⟩ | ⟨hs, ha⟩
  · rcases (h.withTable ht).advance_cases with ⟨-, ha'⟩ | ⟨hs', -⟩
    · rw [ha, ha']
    · exact absurd hs hs'
  · rcases (h.withTable ht).advance_cases with ⟨hs', -⟩ | ⟨-, ha'⟩
    · exact absurd hs' hs
    · rw [ha, ha', outcome_withTable (hr hs), successor_withTable (hr hs)]

theorem response_withTable (hu : u.Holds log') (e : Execution) :
    (e.withTable u).response = Table.answer log' e.request := by
  rw [response, Table.answer, ← hu.stored]
  rfl

/-- The tables hold instructions that answer alike for all states that are not negative. -/
structure AnswerAlike (t u : Table) (log log' : List Instruction) : Prop where
  first : t.Holds log
  second : u.Holds log'
  answers : ∀ q : Request, 0 ≤ q.state → Table.answer log q = Table.answer log' q

theorem AnswerAlike.advance (h : AnswerAlike t u log log') (tape : Tape) (n : Nat) :
    (((start t tape).after n).withTable u).advance =
      (((start t tape).after n).advance.1, ((start t tape).after n).advance.2.withTable u) := by
  have hsound : ((start t tape).after n).Sound := (start_sound h.first.sound tape).after n
  refine hsound.advance_withTable h.second.sound ?_
  intro hs
  have hq : 0 ≤ ((start t tape).after n).request.state := Int64.not_lt.mp hs
  rw [response_withTable h.second, ← answer_request h.first, h.answers _ hq]

theorem AnswerAlike.after (h : AnswerAlike t u log log') (tape : Tape) (n : Nat) :
    (start u tape).after n = ((start t tape).after n).withTable u := by
  induction n with
  | zero => rfl
  | succ n ih => rw [Execution.after, ih, h.advance, Execution.after]

theorem AnswerAlike.records (h : AnswerAlike t u log log') (tape : Tape) (n : Nat) :
    (start u tape).records n = (start t tape).records n := by
  have ht := start_sound h.first.sound tape
  have hu := start_sound h.second.sound tape
  apply List.ext_getElem?
  intro i
  rw [ht.getElem?_records, hu.getElem?_records, h.after, record_withTable, withTable_state]

/-- Nothing that two runs show tells them apart. -/
structure Indistinguishable (e e' : Execution) : Prop where
  state : ∀ n, (e.after n).state = (e'.after n).state
  cursor : ∀ n, (e.after n).cursor = (e'.after n).cursor
  stepCount : ∀ n, (e.after n).stepCount = (e'.after n).stepCount
  tape : ∀ n, (e.after n).tape = (e'.after n).tape
  step : ∀ n, (e.after n).advance.1 = (e'.after n).advance.1
  records : ∀ n, (e.run n).1 = (e'.run n).1

theorem AnswerAlike.indistinguishable (h : AnswerAlike t u log log') (tape : Tape) :
    Indistinguishable (start t tape) (start u tape) := by
  constructor
  · intro n
    rw [h.after]
    rfl
  · intro n
    rw [h.after]
    rfl
  · intro n
    rw [h.after]
    rfl
  · intro n
    rw [h.after]
    rfl
  · intro n
    rw [h.after, h.advance]
  · intro n
    rw [(start_sound h.first.sound tape).run, (start_sound h.second.sound tape).run, h.records]

end Execution

open Execution (Indistinguishable)

/-- Machines loaded with these blocks start runs that cannot be told apart, on every tape and with
every blank symbol, and refuse the same tapes. -/
structure SameRuns (block block' : String) : Prop where
  launched : ∀ blank seed cells, readSeed seed = .ok cells → ∃ e e',
    Machine.freshRun blank block seed = .ok e ∧ Machine.freshRun blank block' seed = .ok e' ∧
      Indistinguishable e e'
  refused : ∀ blank seed fault, readSeed seed = .error fault →
    Machine.freshRun blank block seed = .error fault ∧
      Machine.freshRun blank block' seed = .error fault

theorem sameRuns_of_answers {block block' : String} {is js : List Instruction}
    (hi : readInstructions block = .ok is) (hj : readInstructions block' = .ok js)
    (ha : ∀ q : Request, 0 ≤ q.state → Table.answer is q = Table.answer js q) :
    SameRuns block block' := by
  have h : Execution.AnswerAlike (Table.empty.setAll is).2 (Table.empty.setAll js).2 is js :=
    ⟨Table.holds_empty.setAll is, Table.holds_empty.setAll js, ha⟩
  constructor
  · intro blank seed cells hs
    exact ⟨_, _, Machine.freshRun_ok hi hs blank, Machine.freshRun_ok hj hs blank,
      h.indistinguishable _⟩
  · intro blank seed fault hs
    exact ⟨Machine.freshRun_bad_tape hi hs blank, Machine.freshRun_bad_tape hj hs blank⟩

/-- An accepted block has the runs of every block that answers alike for states that are not
negative. Edits that reorder lines for distinct requests, or that delete lines overridden later,
lines that keep everything as it is or lines for negative states, leave it an accepted block with
the same runs. -/
theorem runs_depend_on_answers (block : String) (is : List Instruction)
    (hi : readInstructions block = .ok is) :
    (∀ block' js, readInstructions block' = .ok js →
      (∀ q : Request, 0 ≤ q.state → Table.answer is q = Table.answer js q) →
        SameRuns block block') ∧
    (∀ block', Relation.ReflTransGen Edit (inkedLines block.toList) (inkedLines block'.toList) →
      (∃ js, readInstructions block' = .ok js) ∧ SameRuns block block') := by
  constructor
  · intro block' js hj ha
    exact sameRuns_of_answers hi hj ha
  · intro block' he
    obtain ⟨js, hj, ha⟩ := edited_block_answers hi he
    exact ⟨⟨js, hj⟩, sameRuns_of_answers hi hj ha⟩

/-- A line that is overridden goes and the others change places; and a block with a line for a
negative state answers as one without it. -/
theorem tidied_block_runs_alike :
    (∃ is, readInstructions "0(a)=>1(b)R\n1(b)=>0(a)L\n0(a)=>-1(a)S" = .ok is ∧
      Relation.ReflTransGen Edit (inkedLines "0(a)=>1(b)R\n1(b)=>0(a)L\n0(a)=>-1(a)S".toList)
        (inkedLines "0(a)=>-1(a)S\n\n1(b)=>0(a)L".toList) ∧
      SameRuns "0(a)=>1(b)R\n1(b)=>0(a)L\n0(a)=>-1(a)S" "0(a)=>-1(a)S\n\n1(b)=>0(a)L") ∧
    ∃ is js, readInstructions "-2(a)=>0(b)R\n0(a)=>-1(a)S" = .ok is ∧
      readInstructions "0(a)=>-1(a)S" = .ok js ∧
      (∀ q : Request, 0 ≤ q.state → Table.answer is q = Table.answer js q) ∧
      SameRuns "-2(a)=>0(b)R\n0(a)=>-1(a)S" "0(a)=>-1(a)S" := by
  have hlong : readInstructions "0(a)=>1(b)R\n1(b)=>0(a)L\n0(a)=>-1(a)S" =
      .ok [⟨⟨0, "a"⟩, ⟨1, "b", .right⟩⟩, ⟨⟨1, "b"⟩, ⟨0, "a", .left⟩⟩,
        ⟨⟨0, "a"⟩, ⟨-1, "a", .stay⟩⟩] := rfl
  have hgone : Edit (inkedLines "0(a)=>1(b)R\n1(b)=>0(a)L\n0(a)=>-1(a)S".toList)
      (inkedLines "1(b)=>0(a)L\n0(a)=>-1(a)S".toList) :=
    @Edit.overridden [] (inkedLines "1(b)=>0(a)L\n0(a)=>-1(a)S".toList) "0(a)=>1(b)R".toList
      ⟨⟨0, "a"⟩, ⟨1, "b", .right⟩⟩ rfl (by decide)
  have hmoved : Edit (inkedLines "1(b)=>0(a)L\n0(a)=>-1(a)S".toList)
      (inkedLines "0(a)=>-1(a)S\n\n1(b)=>0(a)L".toList) :=
    @Edit.reordered [] ["1(b)=>0(a)L".toList, "0(a)=>-1(a)S".toList]
      ["0(a)=>-1(a)S".toList, "1(b)=>0(a)L".toList] [] (.swap _ _ _) (by decide)
  have hneg : readInstructions "-2(a)=>0(b)R\n0(a)=>-1(a)S" =
      .ok [⟨⟨-2, "a"⟩, ⟨0, "b", .right⟩⟩, ⟨⟨0, "a"⟩, ⟨-1, "a", .stay⟩⟩] := rfl
  have hshort : readInstructions "0(a)=>-1(a)S" = .ok [⟨⟨0, "a"⟩, ⟨-1, "a", .stay⟩⟩] := rfl
  have hanswers : ∀ q : Request, 0 ≤ q.state →
      Table.answer [⟨⟨-2, "a"⟩, ⟨0, "b", .right⟩⟩, ⟨⟨0, "a"⟩, ⟨-1, "a", .stay⟩⟩] q =
        Table.answer [⟨⟨0, "a"⟩, ⟨-1, "a", .stay⟩⟩] q := by
    intro q hq
    have hne : q ≠ ⟨-2, "a"⟩ := by
      rintro rfl
      exact absurd hq (by decide)
    exact Table.answer_remove hne [] _
  have hedits := Relation.ReflTransGen.head hgone (.single hmoved)
  exact ⟨⟨_, hlong, hedits, ((runs_depend_on_answers _ _ hlong).2 _ hedits).2⟩,
    _, _, hneg, hshort, hanswers, (runs_depend_on_answers _ _ hneg).1 _ _ hshort hanswers⟩

end SingleTape

import SingleTape.Proofs.Execution.Calls
import SingleTape.Proofs.Session.Pulls

/-!
No call on a run and no pull from a session meets an error, whatever was done before: the table
answers every request and the head never leaves the tape.
-/

namespace SingleTape

open Execution (Intact start)

structure Execution.Unfailing (e : Execution) (given : Nat) (calls : List Execution.Operation) :
    Prop where
  answers : ∀ answer ∈ (e.history calls).1, answer.fault? = none
  run : Intact given (e.pulled calls).length (e.afterAll calls)

/-- Every answer of a session to some operations is without a fault, and then it still has its run,
which is intact. -/
structure Session.Unfailing (s : Session) (given : Nat) (ops : List Session.Operation) :
    Prop where
  answers : ∀ answer ∈ (s.history ops).1, answer.fault? = none
  run : ∃ e, (s.afterAll ops).execution = some e ∧ Intact given (s.pulled ops).length e

theorem Execution.start_unfailing {table : Table} (ht : table.Sound) (tape : Tape)
    (calls : List Execution.Operation) :
    (start table tape).Unfailing tape.length calls := by
  have hs := start_sound ht tape
  obtain ⟨hf, hb⟩ := history_brings hs calls hs.brings_nil
  exact ⟨hf, hb.intact ht tape⟩

namespace Session

variable {s t : Session} {instructions seed : String} {repeated : List Request}

theorem compile_launches (h : s.compile instructions seed = .ok (repeated, t)) :
    ∃ (is : List Instruction) (tape : Tape), readSeed seed = .ok tape.cells ∧
      t.execution = some (start (Table.empty.setAll is).2 tape) := by
  obtain ⟨⟨is, hi⟩, cells, hc⟩ := exists_of_compile_ok h
  refine ⟨is, ⟨cells, s.machine.blank, readSeed_ne_nil hc⟩, hc, ?_⟩
  cases (compile_ok hi hc s).symm.trans h
  rfl

theorem compiled_unfailing (h : s.compile instructions seed = .ok (repeated, t)) :
    ∃ cells, readSeed seed = .ok cells ∧
      ∀ ops, (∀ op ∈ ops, Operation.Keeps op) → t.Unfailing cells.length ops := by
  obtain ⟨is, tape, hseed, hx⟩ := compile_launches h
  refine ⟨tape.cells, hseed, fun ops hops => ?_⟩
  have ht : (Table.empty.setAll is).2.Sound := Table.Sound.empty.setAll is
  have hs := Execution.start_sound ht tape
  obtain ⟨hf, e, he, hb⟩ := history_brings hs ops hops hx hs.brings_nil
  exact ⟨hf, e, he, hb.intact ht tape⟩

/-- No sequence of calls makes a run fail, on a table with any history and on any tape, and no
sequence of operations makes a session fail or lose the run of the program it has accepted. -/
theorem runs_meet_no_fault :
    (∀ (ops : List Table.Operation) (tape : Tape) (calls : List Execution.Operation),
      (start (Table.built ops) tape).Unfailing tape.length calls) ∧
    ∀ (s t : Session) (instructions seed : String) (repeated : List Request),
      s.compile instructions seed = .ok (repeated, t) →
        ∃ cells, readSeed seed = .ok cells ∧
          ∀ ops, (∀ op ∈ ops, Operation.Keeps op) → t.Unfailing cells.length ops := by
  refine ⟨fun ops tape calls => ?_, fun s t instructions seed repeated h => ?_⟩
  · exact Execution.start_unfailing (Table.built_holds ops).sound tape calls
  · exact compiled_unfailing h

/-- A run that grows its tape on the right and halts, pulled beyond its end. -/
theorem growing_run_unfailing :
    ∃ repeated t, (new "0").compile "0(1) => 1(x) R\n1(0) => -1(0) R" "1" = .ok (repeated, t) ∧
      t.Unfailing 1 [.next, .setAuto true, .handle .render, .skip 3, .next] := by
  have hi : readInstructions "0(1) => 1(x) R\n1(0) => -1(0) R" =
      .ok [⟨⟨0, "1"⟩, ⟨1, "x", .right⟩⟩, ⟨⟨1, "0"⟩, ⟨-1, "0", .right⟩⟩] := rfl
  have hseed : readSeed "1" = .ok ["1"] := rfl
  have hc := compile_ok hi hseed (new "0")
  obtain ⟨cells, hcells, h⟩ := runs_meet_no_fault.2 _ _ _ _ _ hc
  cases hseed.symm.trans hcells
  refine ⟨_, _, hc, h _ ?_⟩
  simp only [List.forall_mem_cons]
  exact ⟨.next, .setAuto true, .handle .render, .skip 3, .next, by simp⟩

end Session

end SingleTape

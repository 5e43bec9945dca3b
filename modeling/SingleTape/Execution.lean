import SingleTape.Record
import SingleTape.Table
import SingleTape.Tape

/-!
A run of a table on a tape. It works only when asked for a step, and each step leaves a record. A
run that met an error keeps it.
-/

namespace SingleTape

/-- What a step brought: a record after which the run goes on, its last record, or nothing, because
the run had halted before. -/
inductive Step where
  | moved (record : Record)
  | final (record : Record)
  | halted
  deriving DecidableEq, Repr

def Step.record? : Step → Option Record
  | moved record => some record
  | final record => some record
  | halted => none

structure Execution where
  table : Table
  tape : Tape
  state : State
  cursor : Nat
  stepCount : Nat
  fault : Option Error

namespace Execution

def start (table : Table) (tape : Tape) : Execution where
  table := table
  tape := tape
  state := initialState
  cursor := 0
  stepCount := 0
  fault := none

def isHalted (e : Execution) : Bool := e.state < 0

def target (cursor : Nat) : Move → Int
  | .left => cursor - 1
  | .stay => cursor
  | .right => cursor + 1

/-- Looks up the response, takes the record, writes, and moves the head, growing the tape as needed.
-/
def transition (e : Execution) : Except Error (Step × Execution) := do
  let symbol ← e.tape.read e.cursor
  let request : Request := ⟨e.state, symbol⟩
  let response ← e.table.respond request
  let record : Record := ⟨request, e.cursor, e.tape.cells⟩
  let written ← e.tape.write e.cursor response.symbol
  let (cursor, tape) := match response.move with
    | .stay => (e.cursor, written)
    | move => written.reach (target e.cursor move)
  let next : Execution :=
    { e with tape, cursor, state := response.state, stepCount := e.stepCount + 1 }
  .ok (if next.isHalted then .final record else .moved record, next)

/-- One step. A halted run stays as it is, and so does a run with an error. -/
def advance (e : Execution) : Except Error Step × Execution :=
  match e.fault with
  | some fault => (.error fault, e)
  | none =>
    if e.isHalted then (.ok .halted, e)
    else match e.transition with
      | .ok (step, next) => (.ok step, next)
      | .error fault => (.error fault, { e with fault := some fault })

/-- The next record. An error is told once; after it, and after the last record, there is nothing.
-/
def next (e : Execution) : Option (Except Error Record) × Execution :=
  match e.fault with
  | some _ => (none, e)
  | none =>
    match e.advance with
    | (.ok step, e) => (step.record?.map .ok, e)
    | (.error fault, e) => (some (.error fault), e)

def runOnto (taken : List Record) : Nat → Execution → Except Error (List Record) × Execution
  | 0, e => (.ok taken.reverse, e)
  | limit + 1, e =>
    match e.next with
    | (none, e) => (.ok taken.reverse, e)
    | (some (.error fault), e) => (.error fault, e)
    | (some (.ok record), e) => runOnto (record :: taken) limit e

/-- Up to `limit` records, fewer if the run halts. -/
def run (limit : Nat) (e : Execution) : Except Error (List Record) × Execution :=
  runOnto [] limit e

end Execution

end SingleTape

import SingleTape.Instruction.Basic

/-!
Records of a run: one for each step, taken before the response was applied, and the line that shows
it.
-/

namespace SingleTape

/-- The request of a step, the position of the head and all cells of the tape at that moment. -/
structure Record where
  request : Request
  index : Nat
  tape : List Symbol
  deriving DecidableEq, Repr

def Record.symbol? (r : Record) : Option Symbol := r.tape[r.index]?

def markedCells (index : Nat) (cells : List Symbol) : List String :=
  cells.mapIdx fun i cell => if i = index then " [" ++ cell ++ "]" else " " ++ cell

def Record.line (r : Record) : String :=
  r.request.text ++ ":" ++ String.join (markedCells r.index r.tape)

end SingleTape

import SingleTape.Decimal.Integer

/-!
Instructions of a single-tape machine: a request (the state and the symbol under the head) and the
response to it (the next state, the symbol to write and the move of the head), with their notation.
-/

namespace SingleTape

/-- States are numbered. A negative state halts the machine. -/
abbrev State := Int64

abbrev Symbol := String

def initialState : State := 0

def stateText (s : State) : String := String.ofList (Decimal.integer s.toInt)

def state? (i : Int) : Option State :=
  if Int64.minValue.toInt ≤ i ∧ i ≤ Int64.maxValue.toInt then some (Int64.ofInt i) else none

theorem state?_toInt (s : State) : state? s.toInt = some s := by
  rw [state?, if_pos ⟨s.minValue_le_toInt, s.toInt_le⟩, Int64.ofInt_toInt]

inductive Move where
  | left
  | stay
  | right
  deriving DecidableEq, Hashable, Repr

def Move.code : Move → String
  | left => "L"
  | stay => "S"
  | right => "R"

def Move.ofCode? : String → Option Move
  | "L" => some left
  | "S" => some stay
  | "R" => some right
  | _ => none

structure Request where
  state : State
  symbol : Symbol
  deriving DecidableEq, Hashable, Repr

structure Response where
  state : State
  symbol : Symbol
  move : Move
  deriving DecidableEq, Hashable, Repr

def Response.halts (r : Response) : Bool := r.state < 0

/-- The answer to a request that no instruction covers: nothing changes. -/
def Request.unanswered (q : Request) : Response := ⟨q.state, q.symbol, .stay⟩

structure Instruction where
  request : Request
  response : Response
  deriving DecidableEq, Repr

def Request.text (q : Request) : String :=
  stateText q.state ++ "(" ++ q.symbol ++ ")"

def Response.text (r : Response) : String :=
  stateText r.state ++ "(" ++ r.symbol ++ ") " ++ r.move.code

def Instruction.text (i : Instruction) : String :=
  i.request.text ++ " => " ++ i.response.text

end SingleTape

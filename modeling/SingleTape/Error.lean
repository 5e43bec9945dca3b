import SingleTape.Decimal.Layout
import SingleTape.Instruction.Basic

/-!
Everything that can go wrong, with its kind and its wording.
-/

namespace SingleTape

inductive Part where
  | line
  | request
  | response
  deriving DecidableEq, Repr

def Part.name : Part → String
  | line => "line"
  | request => "request"
  | response => "response"

inductive Error where
  | malformed (part : Part) (text : String)
  | unknownMove (word : String)
  | badTape (reason : String)
  | badSettings (reason : String)
  | badRate (rate : Float)
  | outOfRange (index length : Nat)
  | missingResponse (request : Request)
  | inLine (number : Nat) (cause : Error)
  | badFile (reason : String)
  deriving DecidableEq, Repr

inductive Error.Kind where
  | grammar
  | shape
  | range
  | reference
  | file
  deriving DecidableEq, Repr

def Error.kind : Error → Error.Kind
  | malformed .. => .grammar
  | unknownMove _ | badTape _ | badSettings _ => .shape
  | badRate _ | outOfRange .. => .range
  | missingResponse _ => .reference
  | inLine _ cause => cause.kind
  | badFile _ => .file

/-- Rates in messages have the fewest digits that identify them and never an exponent. -/
def Error.rateLayout : Decimal.Layout where
  positional := fun _ => true
  pointZero := false
  plusSign := false
  tie := .up
  nan := "NaN"
  infinity := "inf"

def Error.message : Error → String
  | malformed part text => "Invalid " ++ part.name ++ " syntax at part '" ++ text ++ "'"
  | unknownMove word => "Invalid move " ++ word ++ " type"
  | badTape reason => "Invalid tape: " ++ reason
  | badSettings reason => "Invalid settings: " ++ reason
  | badRate rate =>
    "Rate limit must be higher than 0, got " ++ String.ofList (rateLayout.text rate)
  | outOfRange index length =>
    "Tape index " ++ Decimal.naturalText index ++ " is out of range (tape has " ++
      Decimal.naturalText length ++ " cells)"
  | missingResponse request => "Request " ++ request.text ++ " is missing"
  | inLine number cause => "Line " ++ Decimal.naturalText number ++ ": " ++ cause.message
  | badFile reason => "File error: " ++ reason

end SingleTape

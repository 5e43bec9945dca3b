import SingleTape.Decimal.Integer

/-!
Reading numbers that stand alone: a count with an optional plus sign, and a double in positional or
exponent notation, rounded to the nearest.
-/

namespace SingleTape.Decimal

/-- The double nearest to `m * 10 ^ e`. Beyond the range of doubles the power of ten is not built:
the answer is infinity or zero there. -/
def nearest (m : Nat) (e : Int) : Float :=
  let size := (natural m).length + e
  if m == 0 then 0
  else if 310 < size then 1.0 / 0.0
  else if size < -330 then 0
  else Float.ofScientific m (e < 0) e.natAbs

def readDigits (cs : List Char) : Option Nat :=
  if cs ≠ [] ∧ cs.all Char.isDigit then some (value cs) else none

def readCount (cs : List Char) : Option Nat :=
  let digits := match cs with
    | '+' :: r => r
    | _ => cs
  (readDigits digits).filter (· < UInt64.size)

def readExponent : List Char → Option Int
  | [] => some 0
  | c :: r =>
    if c == 'e' || c == 'E' then
      match r with
      | '-' :: ds => (readDigits ds).map fun n => -(n : Int)
      | '+' :: ds => (readDigits ds).map fun n => (n : Int)
      | ds => (readDigits ds).map fun n => (n : Int)
    else none

/-- A number without sign: digits, perhaps with a point among or beside them, and an exponent. -/
def readMagnitude (cs : List Char) : Option Float :=
  match (String.ofList (cs.map Char.toLower)) with
  | "inf" | "infinity" => some (1.0 / 0.0)
  | "nan" => some (0.0 / 0.0)
  | _ =>
    let whole := cs.takeWhile Char.isDigit
    let rest := cs.dropWhile Char.isDigit
    let (fraction, tail) := match rest with
      | '.' :: r => (r.takeWhile Char.isDigit, r.dropWhile Char.isDigit)
      | r => ([], r)
    if whole ++ fraction = [] then none
    else (readExponent tail).map fun e => nearest (value (whole ++ fraction)) (e - fraction.length)

def readDouble : List Char → Option Float
  | '-' :: r => (readMagnitude r).map fun x => -x
  | '+' :: r => readMagnitude r
  | r => readMagnitude r

end SingleTape.Decimal

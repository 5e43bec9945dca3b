import SingleTape.Decimal.Integer

/-!
Spans of time in whole nanoseconds, also used as timestamps counted from some start.
-/

namespace SingleTape

structure Duration where
  nanos : Nat
  deriving DecidableEq, Repr

namespace Duration

def perSecond : Nat := 1000000000

def zero : Duration := ⟨0⟩

def longest : Duration := ⟨UInt64.size * perSecond - 1⟩

def ofParts (seconds nanos : Nat) : Duration := ⟨seconds * perSecond + nanos⟩

def wholeSeconds (d : Duration) : Nat := d.nanos / perSecond

def restNanos (d : Duration) : Nat := d.nanos % perSecond

def add (d e : Duration) : Duration := ⟨d.nanos + e.nanos⟩

def since (later earlier : Duration) : Duration := ⟨later.nanos - earlier.nanos⟩

/-- The span in seconds, the whole ones and the rest rounded on their own. -/
def seconds (d : Duration) : Float :=
  Float.ofNat d.wholeSeconds + Float.ofNat d.restNanos / 1000000000.0

def fraction (places n : Nat) : List Char :=
  let digits := Decimal.natural n
  let padded := List.replicate (places - digits.length) '0' ++ digits
  match (padded.reverse.dropWhile (· == '0')).reverse with
  | [] => []
  | ds => '.' :: ds

/-- The exact span in the largest unit that leaves a whole part: `1.5s`, `250ms`, `3.2µs`, `0ns`. -/
def text (d : Duration) : String :=
  let n := d.restNanos
  String.ofList <|
    if 0 < d.wholeSeconds then Decimal.natural d.wholeSeconds ++ fraction 9 n ++ ['s']
    else if 1000000 ≤ n then
      Decimal.natural (n / 1000000) ++ fraction 6 (n % 1000000) ++ ['m', 's']
    else if 1000 ≤ n then Decimal.natural (n / 1000) ++ fraction 3 (n % 1000) ++ ['µ', 's']
    else Decimal.natural n ++ ['n', 's']

end Duration

end SingleTape

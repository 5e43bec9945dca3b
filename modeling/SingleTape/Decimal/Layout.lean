import SingleTape.Decimal.Shortest

/-!
How a double is laid out as text, once its digits are chosen. A format is one `Layout` value; the
formats of this library stand in the modules that write them.
-/

namespace SingleTape.Decimal

structure Layout where
  positional : Int → Bool
  pointZero : Bool
  plusSign : Bool
  tie : Tie
  nan : String
  infinity : String

def Layout.plain (l : Layout) (digits : List Char) (exponent : Int) : List Char :=
  let point := digits.length + exponent
  if 0 ≤ exponent then
    digits ++ List.replicate exponent.toNat '0' ++ (if l.pointZero then ['.', '0'] else [])
  else if 0 < point then
    digits.take point.toNat ++ '.' :: digits.drop point.toNat
  else
    '0' :: '.' :: List.replicate (-point).toNat '0' ++ digits

def Layout.scientific (l : Layout) (digits : List Char) (lead : Int) : List Char :=
  let fraction := match digits.drop 1 with
    | [] => []
    | ds => '.' :: ds
  digits.take 1 ++ fraction ++
    'e' :: ((if l.plusSign && 0 ≤ lead then ['+'] else []) ++ integer lead)

def Layout.scaled (l : Layout) (d : Scaled) : List Char :=
  let digits := natural d.digits
  let lead := digits.length + d.exponent - 1
  if l.positional lead then l.plain digits d.exponent else l.scientific digits lead

def Layout.magnitude (l : Layout) (x : Float) : List Char :=
  if x.isNaN then l.nan.toList
  else if x.isInf then l.infinity.toList
  else if x == 0 then '0' :: (if l.pointZero then ['.', '0'] else [])
  else l.scaled ((Binary.ofBits x.toBits).shortest l.tie)

/-- The text of a double. A zero may be negative, NaN has no sign. -/
def Layout.text (l : Layout) (x : Float) : List Char :=
  if x.toBits >>> 63 == 1 && !x.isNaN then '-' :: l.magnitude x else l.magnitude x

end SingleTape.Decimal

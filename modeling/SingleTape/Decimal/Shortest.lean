import SingleTape.Decimal.Integer

/-!
The shortest decimal that stands for a double: of all decimals that round to it, one with the fewest
digits, and of those the nearest. All comparisons are exact, on naturals.
-/

namespace SingleTape.Decimal

inductive Tie where
  | toEven
  | up
  deriving DecidableEq, Repr

/-- A positive finite double, `significand * 2 ^ exponent`. It is `narrow` when the double below it
is only half as far away as the one above. -/
structure Binary where
  significand : Nat
  exponent : Int
  narrow : Bool
  deriving DecidableEq, Repr

def Binary.ofBits (bits : UInt64) : Binary :=
  let e := ((bits >>> 52) &&& 0x7FF).toNat
  let f := (bits &&& 0xFFFFFFFFFFFFF).toNat
  if e == 0 then ⟨f, -1074, false⟩ else ⟨0x10000000000000 + f, (e : Int) - 1075, f == 0 && 1 < e⟩

/-- A double measured on the multiples of a power of ten: it lies `value / unit` steps above zero,
and `gap / unit` steps below the next double. -/
structure OnGrid where
  value : Nat
  unit : Nat
  gap : Nat

def Binary.onGrid (x : Binary) (g : Int) : OnGrid where
  value := x.significand * (Nat.pow 2 x.exponent.toNat * Nat.pow 10 (-g).toNat)
  unit := Nat.pow 2 (-x.exponent).toNat * Nat.pow 10 g.toNat
  gap := Nat.pow 2 x.exponent.toNat * Nat.pow 10 (-g).toNat

/-- Whether the grid point `d` rounds to the double: it lies within half the gap on its side, the
halfway points going to the double with the even significand. -/
def Binary.admits (x : Binary) (o : OnGrid) (d : Nat) : Bool :=
  let distance :=
    if o.value ≤ d * o.unit then 2 * (d * o.unit - o.value)
    else (if x.narrow then 4 else 2) * (o.value - d * o.unit)
  distance < o.gap || (distance == o.gap && x.significand % 2 == 0)

def OnGrid.nearer (o : OnGrid) (tie : Tie) (d : Nat) : Nat :=
  match compare (2 * o.value) ((2 * d + 1) * o.unit), tie with
  | .lt, _ => d
  | .gt, _ => d + 1
  | .eq, .up => d + 1
  | .eq, .toEven => if d % 2 == 0 then d else d + 1

def Binary.pointOn (x : Binary) (tie : Tie) (g : Int) : Option Nat :=
  let o := x.onGrid g
  let d := o.value / o.unit
  match x.admits o d, x.admits o (d + 1) with
  | true, true => some (o.nearer tie d)
  | true, false => some d
  | false, true => some (d + 1)
  | false, false => none

/-- The number of digits in front of the decimal point, negative when zeros follow the point. The
finest double is above `10 ^ (-324)`, so 400 more places hold its leading digit. -/
def Binary.magnitude (x : Binary) : Int :=
  let o := x.onGrid (-400)
  (natural (o.value / o.unit)).length - 400

structure Scaled where
  digits : Nat
  exponent : Int
  deriving DecidableEq, Repr

def Scaled.strip (n : Nat) (d : Scaled) : Scaled :=
  match n with
  | 0 => d
  | n + 1 => if d.digits % 10 == 0 then strip n ⟨d.digits / 10, d.exponent + 1⟩ else d

/-- Tries the grids of one digit, two digits, and so on. Seventeen digits always suffice; the last
line only makes the function total. -/
def Binary.shortest (x : Binary) (tie : Tie) : Scaled :=
  let k := x.magnitude
  let attempt (n : Nat) : Option Scaled :=
    (x.pointOn tie (k - (n + 1))).map fun d => Scaled.strip 17 ⟨d, k - (n + 1)⟩
  match (List.range 17).findSome? attempt with
  | some d => d
  | none => ⟨(x.onGrid (k - 17)).value / (x.onGrid (k - 17)).unit, k - 17⟩

end SingleTape.Decimal

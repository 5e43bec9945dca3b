import SingleTape.Json.Defect

/-!
JSON numbers. The text is read into a numeral; its value is an integer if it has neither fraction
nor exponent and fits 64 bits, else a double. The double is formed from the leading digits that fit
64 bits, by one multiplication or a few divisions by powers of ten.
-/

namespace SingleTape.Json

/-- The parts of a number as written. The fraction is empty when there is no point. -/
structure Numeral where
  negative : Bool
  whole : List Char
  fraction : List Char
  exponent : Option Int
  deriving DecidableEq, Repr

/-- The digits behind a point, if there is one. `cut` is what a text that ends too early is taken
for. -/
def readFraction (cut : Defect) : List Char → Except Defect (List Char × List Char)
  | '.' :: rest =>
    match rest.takeWhile Char.isDigit with
    | [] => .error (if rest = [] then cut else .badNumber)
    | digits => .ok (digits, rest.dropWhile Char.isDigit)
  | rest => .ok ([], rest)

def readSign : List Char → Bool × List Char
  | '+' :: rest => (false, rest)
  | '-' :: rest => (true, rest)
  | rest => (false, rest)

def readExponent (cut : Defect) : List Char → Except Defect (Option Int × List Char)
  | [] => .ok (none, [])
  | c :: rest =>
    if c = 'e' ∨ c = 'E' then
      let behind := (readSign rest).2
      match behind.takeWhile Char.isDigit with
      | [] => .error (if behind = [] then cut else .badNumber)
      | digits =>
        let size : Int := Decimal.value digits
        .ok (some (if (readSign rest).1 then -size else size), behind.dropWhile Char.isDigit)
    else .ok (none, c :: rest)

def readWhole (cut : Defect) (cs : List Char) : Except Defect (List Char × List Char) :=
  match cs.takeWhile Char.isDigit with
  | [] => .error (if cs = [] then cut else .badNumber)
  | '0' :: _ :: _ => .error .badNumber
  | digits => .ok (digits, cs.dropWhile Char.isDigit)

def readNumeral (cut : Defect) (negative : Bool) (cs : List Char) :
    Except Defect (Numeral × List Char) := do
  let (whole, rest) ← readWhole cut cs
  let (fraction, rest) ← readFraction cut rest
  let (exponent, rest) ← readExponent cut rest
  .ok (⟨negative, whole, fraction, exponent⟩, rest)

/-- Appends digits to a number as long as it fits 64 bits, and gives back those left over. -/
def absorb (n : Nat) : List Char → Nat × List Char
  | [] => (n, [])
  | d :: ds =>
    let m := n * 10 + (d.toNat - '0'.toNat)
    if m < UInt64.size then absorb m ds else (n, d :: ds)

def tenTo (k : Nat) : Float := Float.ofScientific 1 false k

/-- A double times a power of ten. Powers beyond `10 ^ 308` are divided by in steps. -/
def scale (x : Float) (e : Int) : Except Defect Float :=
  if e.natAbs ≤ 308 then
    if e < 0 then .ok (x / tenTo e.natAbs)
    else if (x * tenTo e.natAbs).isInf then .error .numberOutOfRange
    else .ok (x * tenTo e.natAbs)
  else if x == 0 then .ok x
  else if 0 ≤ e then .error .numberOutOfRange
  else scale (x / tenTo 308) (e + 308)
termination_by e.natAbs

inductive Number where
  | integer (value : Int)
  | double (value : Float)
  deriving DecidableEq, Repr

def Numeral.signed (n : Numeral) (x : Float) : Number := .double (if n.negative then -x else x)

/-- The value of a numeral. Minus zero is a double, and so is a negative number below 64 bits. -/
def Numeral.value (n : Numeral) : Except Defect Number :=
  let (m, dropped) := absorb 0 n.whole
  if n.fraction = [] ∧ n.exponent = none then
    if dropped ≠ [] then (scale (Float.ofNat m) dropped.length).map n.signed
    else if !n.negative then .ok (.integer m)
    else if 0 < m ∧ Int64.minValue.toInt ≤ -(m : Int) then .ok (.integer (-m))
    else .ok (n.signed (Float.ofNat m))
  else
    let (m, unread) := absorb m n.fraction
    let kept : Int := n.fraction.length - unread.length
    (scale (Float.ofNat m) (dropped.length - kept + n.exponent.getD 0)).map n.signed

def readNumber (negative : Bool) (cs : List Char) : Except Defect (Number × List Char) := do
  let (numeral, rest) ← readNumeral (.endIn .value) negative cs
  .ok (← numeral.value, rest)

def Number.found : Number → Found
  | integer i => .integer i
  | double x => .double x

theorem readFraction_length {cut : Defect} {cs ds rest : List Char}
    (h : readFraction cut cs = .ok (ds, rest)) : rest.length ≤ cs.length := by
  unfold readFraction at h
  split at h
  · rename_i r
    split at h
    · cases h
    · cases h
      exact Nat.le_succ_of_le (List.dropWhile_suffix _).length_le
  · cases h
    exact Nat.le_refl _

theorem readSign_length (cs : List Char) : (readSign cs).2.length ≤ cs.length := by
  unfold readSign
  split <;> simp

theorem readExponent_length {cut : Defect} {cs rest : List Char} {e : Option Int}
    (h : readExponent cut cs = .ok (e, rest)) : rest.length ≤ cs.length := by
  unfold readExponent at h
  split at h
  · cases h
    exact Nat.le_refl _
  · rename_i c r
    split at h
    · dsimp only at h
      split at h
      · cases h
      · cases h
        exact Nat.le_succ_of_le
          (Nat.le_trans (List.dropWhile_suffix _).length_le (readSign_length r))
    · cases h
      exact Nat.le_refl _

theorem readWhole_length {cut : Defect} {cs ds rest : List Char}
    (h : readWhole cut cs = .ok (ds, rest)) : rest.length < cs.length := by
  unfold readWhole at h
  have split_length : (cs.takeWhile Char.isDigit).length + (cs.dropWhile Char.isDigit).length =
      cs.length := by
    rw [← List.length_append, List.takeWhile_append_dropWhile]
  split at h
  · cases h
  · cases h
  · rename_i hne _
    have : 0 < (cs.takeWhile Char.isDigit).length := List.length_pos_iff.2 hne
    cases h
    omega

theorem readNumeral_length {cut : Defect} {negative : Bool} {cs rest : List Char} {n : Numeral}
    (h : readNumeral cut negative cs = .ok (n, rest)) : rest.length < cs.length := by
  obtain ⟨⟨_, _⟩, hw, h⟩ := exists_of_bind_eq_ok h
  obtain ⟨⟨_, _⟩, hf, h⟩ := exists_of_bind_eq_ok h
  obtain ⟨⟨_, _⟩, he, h⟩ := exists_of_bind_eq_ok h
  cases h
  exact Nat.lt_of_le_of_lt (Nat.le_trans (readExponent_length he) (readFraction_length hf))
    (readWhole_length hw)

theorem readNumber_length {negative : Bool} {cs rest : List Char} {n : Number}
    (h : readNumber negative cs = .ok (n, rest)) : rest.length < cs.length := by
  obtain ⟨⟨_, _⟩, hx, h⟩ := exists_of_bind_eq_ok h
  obtain ⟨_, _, h⟩ := exists_of_bind_eq_ok h
  cases h
  exact readNumeral_length hx

end SingleTape.Json

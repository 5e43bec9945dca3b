/-!
Decimal text of whole numbers. Writing uses the fewest digits and a minus sign in front of a
negative number; reading takes any digits, leading zeros included.
-/

namespace SingleTape.Decimal

def natural (n : Nat) : List Char := Nat.toDigits 10 n

def naturalText (n : Nat) : String := String.ofList (natural n)

def value (cs : List Char) : Nat := Nat.ofDigitChars 10 cs 0

@[simp] theorem value_natural (n : Nat) : value (natural n) = n :=
  Nat.ofDigitChars_toDigits (by decide) (by decide)

def integer (i : Int) : List Char :=
  if i < 0 then '-' :: natural i.natAbs else natural i.natAbs

end SingleTape.Decimal

import Mathlib.Data.List.TakeWhile
import SingleTape.Json.Number

/-!
Numbers inside a longer text. Reading a number stops where it ends, provided that what follows does
not go on like one; a written integer of 64 bits is read as itself.
-/

namespace SingleTape.Json

variable {cut : Defect} {negative : Bool} {cs ds rest behind : List Char} {c : Char}

/-- No number goes on in this text: it begins with no digit, no point and no exponent. -/
def Ended (cs : List Char) : Prop :=
  ∀ c ∈ cs.head?, c.isDigit = false ∧ c ≠ '.' ∧ c ≠ 'e' ∧ c ≠ 'E'

theorem ended_nil : Ended [] := by
  intro c hc
  cases hc

theorem ended_cons :
    Ended (c :: cs) ↔ c.isDigit = false ∧ c ≠ '.' ∧ c ≠ 'e' ∧ c ≠ 'E' := by
  simp [Ended]

theorem Ended.takeWhile_digits (h : Ended cs) : cs.takeWhile Char.isDigit = [] := by
  cases cs with
  | nil => rfl
  | cons c cs => simp [(ended_cons.mp h).1]

theorem Ended.dropWhile_digits (h : Ended cs) : cs.dropWhile Char.isDigit = cs := by
  cases cs with
  | nil => rfl
  | cons c cs => simp [(ended_cons.mp h).1]

theorem takeWhile_digits_append (h : Ended behind) (cs : List Char) :
    (cs ++ behind).takeWhile Char.isDigit = cs.takeWhile Char.isDigit := by
  induction cs with
  | nil => exact h.takeWhile_digits
  | cons c cs ih => simp only [List.cons_append, List.takeWhile_cons, ih]

theorem dropWhile_digits_append (h : Ended behind) (cs : List Char) :
    (cs ++ behind).dropWhile Char.isDigit = cs.dropWhile Char.isDigit ++ behind := by
  induction cs with
  | nil => exact h.dropWhile_digits
  | cons c cs ih =>
    simp only [List.cons_append, List.dropWhile_cons, ih]
    split <;> rfl

theorem readWhole_append (h : readWhole cut cs = .ok (ds, rest)) (hb : Ended behind) :
    readWhole cut (cs ++ behind) = .ok (ds, rest ++ behind) := by
  unfold readWhole at h ⊢
  rw [takeWhile_digits_append hb, dropWhile_digits_append hb]
  split at h
  · cases h
  · cases h
  · cases h
    rfl

theorem readFraction_append (h : readFraction cut cs = .ok (ds, rest)) (hb : Ended behind) :
    readFraction cut (cs ++ behind) = .ok (ds, rest ++ behind) := by
  unfold readFraction at h
  split at h
  · next r =>
    rw [List.cons_append, readFraction, takeWhile_digits_append hb, dropWhile_digits_append hb]
    split at h
    · cases h
    · cases h
      rfl
  · next hpoint =>
    cases h
    rw [readFraction]
    intro r hr
    cases cs with
    | nil =>
      rw [List.nil_append] at hr
      rw [hr, ended_cons] at hb
      exact hb.2.1 rfl
    | cons c cs =>
      cases hr
      exact hpoint cs rfl

theorem readSign_append (h : cs ≠ []) :
    readSign (cs ++ behind) = ((readSign cs).1, (readSign cs).2 ++ behind) := by
  cases cs with
  | nil => exact absurd rfl h
  | cons c cs =>
    rw [List.cons_append]
    unfold readSign
    split <;> simp_all

theorem readExponent_append {e : Option Int} (h : readExponent cut cs = .ok (e, rest))
    (hb : Ended behind) : readExponent cut (cs ++ behind) = .ok (e, rest ++ behind) := by
  cases cs with
  | nil =>
    cases h
    cases behind with
    | nil => rfl
    | cons c behind =>
      obtain ⟨-, -, he, hE⟩ := ended_cons.mp hb
      rw [List.nil_append, readExponent, if_neg (by simp [he, hE])]
  | cons c cs =>
    rw [readExponent] at h
    rw [List.cons_append, readExponent]
    by_cases hc : c = 'e' ∨ c = 'E'
    · rw [if_pos hc] at h ⊢
      -- an exponent without digits is refused, so the sign is not sought in what follows
      have hne : cs ≠ [] := by
        rintro rfl
        cases h
      simp only [readSign_append hne, takeWhile_digits_append hb, dropWhile_digits_append hb] at h ⊢
      split at h
      · cases h
      · cases h
        rfl
    · rw [if_neg hc] at h ⊢
      cases h
      rfl

theorem readNumeral_append {n : Numeral} (h : readNumeral cut negative cs = .ok (n, rest))
    (hb : Ended behind) : readNumeral cut negative (cs ++ behind) = .ok (n, rest ++ behind) := by
  obtain ⟨⟨whole, r₁⟩, hw, h⟩ := exists_of_bind_eq_ok h
  obtain ⟨⟨fraction, r₂⟩, hf, h⟩ := exists_of_bind_eq_ok h
  obtain ⟨⟨e, r₃⟩, he, h⟩ := exists_of_bind_eq_ok h
  cases h
  simp only [readNumeral, readWhole_append hw hb, readFraction_append hf hb,
    readExponent_append he hb, bind, Except.bind]

theorem readNumber_append {n : Number} (h : readNumber negative cs = .ok (n, rest))
    (hb : Ended behind) : readNumber negative (cs ++ behind) = .ok (n, rest ++ behind) := by
  obtain ⟨⟨numeral, r⟩, hn, h⟩ := exists_of_bind_eq_ok h
  obtain ⟨x, hx, h⟩ := exists_of_bind_eq_ok h
  cases h
  simp only [readNumber, readNumeral_append hn hb, hx, bind, Except.bind]

theorem isDigit_of_mem_natural {n : Nat} (h : c ∈ Decimal.natural n) : c.isDigit = true :=
  Nat.isDigit_of_mem_toDigits (by decide) (by decide) h

theorem natural_ne_nil (n : Nat) : Decimal.natural n ≠ [] := Nat.toDigits_ne_nil

theorem eq_zero_of_natural_eq_cons {n : Nat} (h : Decimal.natural n = '0' :: ds) : n = 0 := by
  induction n using Nat.strongRecOn generalizing ds with
  | ind n ih =>
    -- the last digit is split off, so the leading one is that of a tenth of the number
    rw [Decimal.natural, Nat.toDigits_eq_if (by decide)] at h
    by_cases hn : n < 10
    · rw [if_pos hn] at h
      have hd : n.digitChar = '0' := (List.cons.inj h).1
      clear ih h
      revert n
      decide
    · rw [if_neg hn] at h
      obtain ⟨d, ds', hd⟩ := List.exists_cons_of_ne_nil (natural_ne_nil (n / 10))
      rw [Decimal.natural] at hd
      rw [hd] at h
      cases h
      have := ih (n / 10) (by omega) hd
      omega

theorem readWhole_natural (n : Nat) :
    readWhole cut (Decimal.natural n) = .ok (Decimal.natural n, []) := by
  have htake : (Decimal.natural n).takeWhile Char.isDigit = Decimal.natural n :=
    List.takeWhile_eq_self_iff.mpr fun c hc => isDigit_of_mem_natural hc
  have hdrop : (Decimal.natural n).dropWhile Char.isDigit = [] :=
    List.dropWhile_eq_nil_iff.mpr fun c hc => isDigit_of_mem_natural hc
  unfold readWhole
  rw [htake, hdrop]
  split
  · exact absurd ‹_› (natural_ne_nil n)
  · next d ds h =>
    rw [eq_zero_of_natural_eq_cons h] at h
    cases h
  · rfl

theorem readNumeral_natural (n : Nat) :
    readNumeral cut negative (Decimal.natural n) = .ok (⟨negative, Decimal.natural n, [], none⟩, [])
    := by
  simp only [readNumeral, readWhole_natural, readFraction, readExponent, bind, Except.bind]

theorem le_ofDigitChars (m : Nat) (ds : List Char) : m ≤ Nat.ofDigitChars 10 ds m := by
  induction ds generalizing m with
  | nil => exact Nat.le_refl m
  | cons d ds ih =>
    rw [Nat.ofDigitChars_cons]
    have := ih (10 * m + (d.toNat - '0'.toNat))
    omega

/-- No digit is left over as long as the whole number fits. -/
theorem absorb_eq {m : Nat} (h : Nat.ofDigitChars 10 ds m < UInt64.size) :
    absorb m ds = (Nat.ofDigitChars 10 ds m, []) := by
  induction ds generalizing m with
  | nil => rfl
  | cons d ds ih =>
    rw [Nat.ofDigitChars_cons, Nat.mul_comm] at h ⊢
    have hm := Nat.lt_of_le_of_lt (le_ofDigitChars _ ds) h
    rw [absorb, if_pos hm]
    exact ih h

theorem absorb_natural {n : Nat} (h : n < UInt64.size) : absorb 0 (Decimal.natural n) = (n, []) := by
  have hv : Nat.ofDigitChars 10 (Decimal.natural n) 0 = n := Decimal.value_natural n
  rw [absorb_eq (by rwa [hv]), hv]

theorem readNumber_natural {n : Nat} (h : n < UInt64.size) :
    readNumber false (Decimal.natural n) = .ok (.integer n, []) := by
  simp [readNumber, readNumeral_natural, Numeral.value, absorb_natural h, bind, Except.bind]

theorem readNumber_negative {n : Nat} (hpos : 0 < n) (h : Int64.minValue.toInt ≤ -(n : Int)) :
    readNumber true (Decimal.natural n) = .ok (.integer (-n), []) := by
  have hmin : Int64.minValue.toInt = -9223372036854775808 := rfl
  have hsize : UInt64.size = 18446744073709551616 := rfl
  have hn : n < UInt64.size := by omega
  have hfit : 0 < n ∧ (n : Int) ≤ 9223372036854775808 := by omega
  simp [readNumber, readNumeral_natural, Numeral.value, absorb_natural hn, hfit, bind, Except.bind]

end SingleTape.Json

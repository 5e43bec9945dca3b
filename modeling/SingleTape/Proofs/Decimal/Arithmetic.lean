import SingleTape.Proofs.Decimal.Doubles

/-!
Arithmetic on doubles. The product, the quotient and the double of a whole number are the doubles
that take the exact result; a whole number with no more than 53 bits in front of its zeros is one.
-/

namespace SingleTape.Decimal

open Float.Model Float.Model.UnpackedFloat

variable {x p q : Binary} {f a b : Float} {v : ℚ} {m n k : Nat}

theorem log2_mul_two_pow (hm : 0 < m) (k : Nat) : (m * 2 ^ k).log2 = m.log2 + k := by
  rw [Nat.log2_eq_iff (by positivity), pow_add, Nat.add_right_comm, pow_add]
  have hlow := Nat.log2_self_le hm.ne'
  have hhigh := Nat.lt_log2_self (n := m)
  constructor
  · gcongr
  · gcongr

theorem stands_exact {e : Int} (hx : x.Canonical) (hv : x.Takes (m * 2 ^ e)) (hfull : 2 ^ 52 ≤ m) :
    Stands (.ofModel (.pack (roundWithAccuracy Format.binary64 .positive m e .exact))) x := by
  have hlog : 52 ≤ m.log2 := (Nat.le_log2 (by omega)).mpr hfull
  have hexact : Represents (.ofMantissaAndAccuracy m .exact) (m * 2 ^ e / 2 ^ e) := by
    rw [mul_div_cancel_right₀ _ (by positivity)]
    exact represents_exact m
  rw [roundWithAccuracy_of_takes hx hv (by omega) hexact (by rw [targetExponent_eq]; omega)]
  exact stands_pack hx

/-- A product is the double that takes the exact product. -/
theorem Stands.mul (ha : Stands a p) (hb : Stands b q) (hfull : 2 ^ 52 ≤ p.significand)
    (hx : x.Canonical) (hv : x.Takes (p.value * q.value)) : Stands (a * b) x := by
  have hproduct : a * b = .ofModel (.pack (roundWithAccuracy Format.binary64 .positive
      (p.significand * q.significand) (p.exponent + q.exponent) .exact)) := by
    change Float.ofModel (.pack (.mul Format.binary64 a.toModel.unpack b.toModel.unpack)) = _
    rw [ha.unpack, hb.unpack]
    rfl
  rw [hproduct]
  apply stands_exact hx
  · convert hv using 1
    rw [Binary.value, Binary.value, zpow_add₀ two_ne_zero]
    push_cast
    ring
  · exact hfull.trans (Nat.le_mul_of_pos_right _ hb.canonical.positive)

theorem represents_quotient (m : Nat) {d : Nat} (hd : 0 < d) :
    Represents (.ofMantissaAndAccuracy (m / d) (accuracyOfFraction (m % d) d)) (m / d : ℚ) := by
  have hpos : (0 : ℚ) < d := by exact_mod_cast hd
  have hparts : (m : ℚ) / d = (m / d : Nat) + (m % d : Nat) / d := by
    rw [div_eq_iff hpos.ne', add_mul, div_mul_cancel₀ _ hpos.ne']
    exact_mod_cast (Nat.div_add_mod' m d).symm
  have hlt : ((m % d : Nat) : ℚ) < d := by exact_mod_cast Nat.mod_lt m hd
  rw [hparts, accuracyOfFraction]
  generalize m % d = r at hlt ⊢
  by_cases hr : r = 0
  · rw [if_pos hr, hr, Nat.cast_zero, zero_div, add_zero]
    exact represents_exact _
  · have hrpos : 0 < (r : ℚ) / d := by
      have : 0 < (r : ℚ) := by exact_mod_cast Nat.pos_of_ne_zero hr
      positivity
    have hrlt : (r : ℚ) / d < 1 := (div_lt_one hpos).mpr hlt
    rw [if_neg hr]
    rcases hcompare : compare (2 * r) d with _ | _ | _
    · have hhalf : (r : ℚ) / d < 1 / 2 := by
        rw [div_lt_iff₀ hpos]
        have : (2 * r : ℚ) < d := by exact_mod_cast Nat.compare_eq_lt.mp hcompare
        linarith
      exact ⟨r / d, by simp [ExtendedMantissa.ofMantissaAndAccuracy], hrpos.le, hhalf,
        by simpa [ExtendedMantissa.ofMantissaAndAccuracy] using hrpos⟩
    · have hhalf : (r : ℚ) / d = 1 / 2 := by
        rw [div_eq_iff hpos.ne']
        have : (2 * r : ℚ) = d := by exact_mod_cast Nat.compare_eq_eq.mp hcompare
        linarith
      exact ⟨0, by simp [ExtendedMantissa.ofMantissaAndAccuracy, hhalf], le_rfl, by norm_num,
        by simp [ExtendedMantissa.ofMantissaAndAccuracy]⟩
    · have hhalf : 1 / 2 < (r : ℚ) / d := by
        rw [lt_div_iff₀ hpos]
        have : (d : ℚ) < 2 * r := by exact_mod_cast Nat.compare_eq_gt.mp hcompare
        linarith
      refine ⟨r / d - 1 / 2, ?_, by linarith, by linarith, ?_⟩
      · simp only [ExtendedMantissa.ofMantissaAndAccuracy, Bool.toNat_true, Nat.cast_one]
        ring
      · simpa [ExtendedMantissa.ofMantissaAndAccuracy] using hhalf

theorem divCore_full {m d : Nat} {e e' : Int} (hm : m.log2 = 52) (hd : d.log2 = 52)
    (he : -1021 ≤ e - e') : divCore Format.binary64 m e d e' =
      (m * 2 ^ 53 / d, e - e' - 53, accuracyOfFraction (m * 2 ^ 53 % d) d) := by
  have htarget : min (e - e') (Format.binary64.targetExponent
      (totalExponent m e - totalExponent d e')) = e - e' - 53 := by
    simp only [Format.targetExponent, totalExponent, hm, hd, Format.mantissaBits,
      Format.minExponent]
    norm_num
    omega
  have hshift : (e - e' - (e - e' - 53)).toNat = 53 := by omega
  simp only [divCore, htarget, hshift, Nat.shiftLeft_eq]

theorem Binary.Canonical.log2_eq (hx : x.Canonical) (hfull : 2 ^ 52 ≤ x.significand) :
    x.significand.log2 = 52 :=
  (Nat.log2_eq_iff hx.positive.ne').mpr ⟨hfull, hx.significand⟩

/-- A quotient is the double that takes the exact quotient. -/
theorem Stands.div (ha : Stands a p) (hb : Stands b q) (hp : 2 ^ 52 ≤ p.significand)
    (hq : 2 ^ 52 ≤ q.significand) (hexponents : -1021 ≤ p.exponent - q.exponent)
    (hx : x.Canonical) (hv : x.Takes (p.value / q.value)) : Stands (a / b) x := by
  have hpos := hb.canonical.positive
  have hquotient : a / b = .ofModel (.pack (roundWithAccuracy Format.binary64 .positive
      (p.significand * 2 ^ 53 / q.significand) (p.exponent - q.exponent - 53)
      (accuracyOfFraction (p.significand * 2 ^ 53 % q.significand) q.significand))) := by
    change Float.ofModel (.pack (.div Format.binary64 a.toModel.unpack b.toModel.unpack)) = _
    rw [ha.unpack, hb.unpack]
    simp only [UnpackedFloat.div, divCore_full (ha.canonical.log2_eq hp) (hb.canonical.log2_eq hq)
      hexponents]
    rfl
  have hfull : 2 ^ 52 ≤ p.significand * 2 ^ 53 / q.significand := by
    rw [Nat.le_div_iff_mul_le hpos]
    have := hb.canonical.significand
    nlinarith
  have hlog : 52 ≤ (p.significand * 2 ^ 53 / q.significand).log2 :=
    (Nat.le_log2 (by omega)).mpr hfull
  have hrepresents := represents_quotient (p.significand * 2 ^ 53) hpos
  have hvalue : ((p.significand * 2 ^ 53 : Nat) : ℚ) / q.significand =
      p.value / q.value / 2 ^ (p.exponent - q.exponent - 53) := by
    rw [Binary.value, Binary.value, zpow_sub₀ two_ne_zero, zpow_sub₀ two_ne_zero]
    have : (q.significand : ℚ) ≠ 0 := by exact_mod_cast hpos.ne'
    push_cast
    field_simp
  rw [hvalue] at hrepresents
  rw [hquotient, roundWithAccuracy_of_takes hx hv (by omega) hrepresents
    (by rw [targetExponent_eq]; omega)]
  exact stands_pack hx

def Binary.whole (m k : Nat) : Binary where
  significand := m * 2 ^ (52 - m.log2)
  exponent := k + m.log2 - 52
  narrow := m * 2 ^ (52 - m.log2) == 2 ^ 52

section Whole

variable (hpos : 0 < m) (hm : m < 2 ^ 53)
include hpos hm

theorem Binary.log2_whole : (whole m k).significand.log2 = 52 := by
  have hlog : m.log2 < 53 := (Nat.log2_lt hpos.ne').mpr hm
  rw [whole, log2_mul_two_pow hpos]
  omega

theorem Binary.full_whole :
    2 ^ 52 ≤ (whole m k).significand ∧ (whole m k).significand < 2 ^ 53 :=
  (Nat.log2_eq_iff (by rw [whole]; positivity)).mp (log2_whole hpos hm)

theorem Binary.canonical_whole (hk : k ≤ 971) : (whole m k).Canonical where
  positive := by rw [whole]; positivity
  significand := (full_whole hpos hm).2
  least := by rw [whole]; dsimp only; omega
  greatest := by
    have hlog : m.log2 < 53 := (Nat.log2_lt hpos.ne').mpr hm
    rw [whole]
    dsimp only
    omega
  full := .inl (full_whole hpos hm).1
  narrow := by
    rw [whole]
    simp only [beq_iff_eq]
    omega

theorem Binary.value_whole : (whole m k).value = m * 2 ^ k := by
  have hlog : m.log2 < 53 := (Nat.log2_lt hpos.ne').mpr hm
  have hexponent : (k : Int) + m.log2 - 52 + (52 - m.log2 : Nat) = k := by omega
  rw [value, whole]
  dsimp only
  push_cast
  rw [mul_assoc, mul_comm (2 ^ _), ← zpow_natCast, ← zpow_add₀ two_ne_zero, hexponent, zpow_natCast]

end Whole

theorem stands_modelOfNat (hn : 0 < n) (hx : x.Canonical) (hv : x.Takes n) :
    Stands (.ofModel (.ofNat n)) x := by
  have hround : Float.Model.ofNat n = .pack (roundWithAccuracy Format.binary64 .positive
      (n * 2 ^ (52 - n.log2)) (-(52 - n.log2 : Nat)) .exact) := by
    have hshift : (-Format.binary64.targetExponent (totalExponent n 0)).toNat = 52 - n.log2 := by
      rw [targetExponent_eq]
      omega
    have hcompare : compare (n : Int) 0 = .gt := Int.compare_eq_gt.mpr (by exact_mod_cast hn)
    simp only [Float.Model.ofNat, UnpackedFloat.ofNat, UnpackedFloat.ofInt,
      UnpackedFloat.normalize, hcompare, Int.toNat_natCast, UnpackedFloat.round, decreaseExponent,
      zero_sub, hshift, Nat.shiftLeft_eq]
  rw [hround]
  apply stands_exact hx
  · convert hv using 1
    rw [zpow_neg, zpow_natCast]
    push_cast
    exact mul_inv_cancel_right₀ (by positivity) _
  · calc 2 ^ 52 ≤ 2 ^ (n.log2 + (52 - n.log2)) := Nat.pow_le_pow_right two_pos (by omega)
      _ = 2 ^ n.log2 * 2 ^ (52 - n.log2) := pow_add ..
      _ ≤ n * 2 ^ (52 - n.log2) := Nat.mul_le_mul_right _ (Nat.log2_self_le hn.ne')

theorem stands_one : Stands (Float.ofBits 0x3FF0000000000000) (Binary.whole 1 0) :=
  ⟨Binary.canonical_whole one_pos (by decide) (by decide), rfl⟩

theorem modelOfScientific_eq (hn : 0 < n) (hk : k ≤ 2 ^ 11) : Float.Model.ofScientific n k =
    .pack (roundWithAccuracy Format.binary64 .positive (n * 2 ^ 53 * 10 ^ k) (-53) .exact) := by
  have hlow : ¬ (k : Int) < -(2 ^ Format.binary64.exponentBits + (n.log2 : Int)) := by
    change ¬ (k : Int) < -(2 ^ 11 + (n.log2 : Int))
    omega
  have hhigh : ¬ (k : Int) > 2 ^ Format.binary64.exponentBits := by
    change ¬ (k : Int) > 2 ^ 11
    omega
  have hbits : Format.binary64.mantissaBits = 53 := rfl
  simp only [Float.Model.ofScientific, UnpackedFloat.ofScientific, dif_neg hn.ne', if_neg hlow,
    if_neg hhigh, if_pos (Int.natCast_nonneg k), UnpackedFloat.mul, Nat.shiftLeft_eq,
    Int.toNat_natCast, add_zero, hbits]
  rfl

theorem stands_modelOfScientific (hn : 0 < n) (hk : k ≤ 2 ^ 11) (hx : x.Canonical)
    (hv : x.Takes (n * 10 ^ k)) : Stands (.ofModel (.ofScientific n k)) x := by
  rw [modelOfScientific_eq hn hk]
  apply stands_exact hx
  · convert hv using 1
    push_cast
    rw [zpow_neg, zpow_ofNat]
    field_simp
    norm_num
  · calc 2 ^ 52 ≤ n * 2 ^ 53 := by omega
      _ ≤ n * 2 ^ 53 * 10 ^ k := Nat.le_mul_of_pos_right _ (by positivity)

/-- The double of a whole number is the one that takes it. -/
theorem stands_ofNat (hn : 0 < n) (hx : x.Canonical) (hv : x.Takes n) :
    Stands (Float.ofNat n) x := by
  change Stands (Float.ofScientific n false 0) _
  by_cases hsmall : n < 2 ^ 53
  · have hsize : n.toUInt64.toNat = n := UInt64.toNat_ofNat_of_lt (hsmall.trans (by decide))
    have hfloat : n.toUInt64.toFloat = .ofModel (.ofNat n) := by
      rw [UInt64.toFloat, Float.Model.ofUInt64, UnpackedFloat.ofUInt64, hsize]
      rfl
    have hcanonical := Binary.canonical_whole hn hsmall (k := 0) (by decide)
    have hvalue := Binary.value_whole hn hsmall (k := 0)
    rw [pow_zero, mul_one] at hvalue
    have hexact : Stands (.ofModel (.ofNat n)) (Binary.whole n 0) := by
      apply stands_modelOfNat hn hcanonical
      rw [← hvalue]
      exact Binary.takes_value _
    rw [Float.ofScientific, dif_pos ⟨hsmall, by decide⟩, if_neg (by decide), hfloat]
    apply hexact.mul stands_one (Binary.full_whole hn hsmall).1 hx
    rwa [hvalue, Binary.value_whole one_pos (by decide), Nat.cast_one, pow_zero, mul_one, mul_one]
  · rw [Float.ofScientific, dif_neg (by omega), if_neg (by decide)]
    apply stands_modelOfScientific hn (Nat.zero_le _) hx
    rwa [pow_zero, mul_one]

theorem stands_of_value (hx : x.Canonical) (hv : x.value = n) : Stands (Float.ofNat n) x := by
  have hpos := hx.value_pos
  rw [hv] at hpos
  apply stands_ofNat (by exact_mod_cast hpos) hx
  rw [← hv]
  exact Binary.takes_value x

theorem stands_whole (hpos : 0 < m) (hm : m < 2 ^ 53) (hk : k ≤ 971) :
    Stands (Float.ofNat (m * 2 ^ k)) (Binary.whole m k) := by
  apply stands_of_value (Binary.canonical_whole hpos hm hk)
  rw [Binary.value_whole hpos hm]
  push_cast
  rfl

/-- The number that a double is, if it is one. Both zeros are zero. -/
def number? (x : Float) : Option ℚ :=
  match x.toModel.unpack with
  | .notANumber => none
  | .infinity _ => none
  | .zero _ => some 0
  | .finite s m e _ => some ((s.apply m : Int) * 2 ^ e)

theorem number?_of_unpack {x : Float} {s : Sign} {e : Int} (hm : 0 < m)
    (h : x.toModel.unpack = .finite s m e hm) :
    number? x = some (((s.apply m : Int) : ℚ) * 2 ^ e) := by
  rw [number?, h]

theorem ofInt_positive {y : Float} {i : Int} (hy : Stands y x) (hv : x.value = i) :
    Float.ofInt i = y := by
  have hpos := hy.canonical.value_pos
  cases i with
  | ofNat n => exact (stands_of_value hy.canonical hv).unique hy
  | negSucc n =>
    rw [hv] at hpos
    have : (0 : Int) < .negSucc n := by exact_mod_cast hpos
    omega

theorem ofInt_negative {y : Float} {i : Int} (hx : x.Canonical)
    (hy : y.toModel.unpack = .finite .negative x.significand x.exponent hx.positive)
    (hv : x.value = (-i : Int)) : Float.ofInt i = y := by
  have hpos := hx.value_pos
  cases i with
  | ofNat n =>
    rw [hv] at hpos
    have : (0 : Int) < -(n : Int) := by exact_mod_cast hpos
    omega
  | negSucc n =>
    have hstands : Stands (Float.ofNat (n + 1)) x := stands_of_value hx hv
    have hmodel : (Float.ofInt (.negSucc n)).toModel = y.toModel := by
      change Float.Model.pack (Float.ofNat (n + 1)).toModel.unpack.neg = _
      rw [hstands.unpack, ← modelPack_unpack y.toModel, hy]
      rfl
    apply eq_of_unpack
    rw [hmodel]

theorem ofInt_eq {y : Float} {i : Int} (hy : number? y = some (i : ℚ)) (hi : i ≠ 0) :
    Float.ofInt i = y := by
  have hnonzero : (i : ℚ) ≠ 0 := by exact_mod_cast hi
  rw [number?] at hy
  cases hunpack : y.toModel.unpack with
  | notANumber => rw [hunpack] at hy; cases hy
  | infinity s => rw [hunpack] at hy; cases hy
  | zero s =>
    rw [hunpack] at hy
    exact absurd (Option.some.inj hy).symm hnonzero
  | finite s m e hm =>
    rw [hunpack] at hy
    have hvalue := Option.some.inj hy
    obtain ⟨hcanonical, rfl, rfl⟩ := ofBits_of_unpack hunpack
    cases s with
    | positive => exact ofInt_positive ⟨hcanonical, hunpack⟩ hvalue
    | negative =>
      apply ofInt_negative hcanonical hunpack
      rw [Int.cast_neg, ← hvalue]
      simp [Binary.value, Sign.apply]

/-- An integer that a double is equal to is made a double equal to it. -/
theorem number?_ofInt {i : Int} (h : ∃ y, number? y = some (i : ℚ)) :
    number? (Float.ofInt i) = some (i : ℚ) := by
  obtain ⟨y, hy⟩ := h
  by_cases hi : i = 0
  · rw [hi, Int.cast_zero]
    rfl
  · rw [ofInt_eq hy hi, hy]

end SingleTape.Decimal

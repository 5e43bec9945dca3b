import Mathlib
import SingleTape.Decimal.Shortest

/-!
Rounding to doubles. A double takes every number that lies within half the gap on its side, and the
halfway points if its significand is even; rounding a number gives the double that takes it.
-/

namespace SingleTape.Decimal

open Float.Model Float.Model.UnpackedFloat

variable {x : Binary} {v w : ℚ} {em : ExtendedMantissa} {m r : Nat} {e : Int} {accuracy : Accuracy}

def Binary.value (x : Binary) : ℚ := x.significand * 2 ^ x.exponent

/-- The significand has all its bits, or the exponent is the least one. -/
structure Binary.Canonical (x : Binary) : Prop where
  positive : 0 < x.significand
  significand : x.significand < 2 ^ 53
  least : -1074 ≤ x.exponent
  greatest : x.exponent ≤ 971
  full : 2 ^ 52 ≤ x.significand ∨ x.exponent = -1074
  narrow : x.narrow = true ↔ x.significand = 2 ^ 52 ∧ -1074 < x.exponent

/-- Twice how far a number is from the significand, both measured in gaps above the double. In front
of a narrow double the gap is only half as wide, so distances there count double. -/
def Binary.distance (x : Binary) (w : ℚ) : ℚ :=
  if x.significand ≤ w then 2 * (w - x.significand)
  else (if x.narrow then 4 else 2) * (x.significand - w)

/-- The double is the one that this number is rounded to. -/
def Binary.Takes (x : Binary) (v : ℚ) : Prop :=
  x.distance (v / 2 ^ x.exponent) < 1 ∨
    x.distance (v / 2 ^ x.exponent) = 1 ∧ x.significand % 2 = 0

theorem Binary.takes_value (x : Binary) : x.Takes x.value := by
  have hquotient : x.value / 2 ^ x.exponent = x.significand := by
    rw [value, mul_div_cancel_right₀]
    positivity
  left
  rw [hquotient, distance, if_pos le_rfl, sub_self, mul_zero]
  exact one_pos

theorem Binary.Takes.distance_le (h : x.Takes v) : x.distance (v / 2 ^ x.exponent) ≤ 1 := by
  rcases h with h | ⟨h, -⟩
  · exact h.le
  · exact h.le

theorem Binary.Takes.near (h : x.Takes v) : |v - x.value| ≤ 2 ^ x.exponent / 2 := by
  have hgap : (0 : ℚ) < 2 ^ x.exponent := by positivity
  have hdistance := h.distance_le
  have hv : v = v / 2 ^ x.exponent * 2 ^ x.exponent := by field_simp
  have hnear : |v / 2 ^ x.exponent - x.significand| ≤ 1 / 2 := by
    rw [distance] at hdistance
    rw [abs_le]
    split at hdistance
    · constructor <;> linarith
    · split at hdistance <;> constructor <;> linarith
  rw [value]
  nth_rewrite 1 [hv]
  rw [← sub_mul, abs_mul, abs_of_pos hgap]
  linarith [mul_le_mul_of_nonneg_right hnear hgap.le]

theorem Binary.Takes.pos (hx : x.Canonical) (h : x.Takes v) : 0 < v := by
  have hgap : (0 : ℚ) < 2 ^ x.exponent := by positivity
  have hleast : 1 * (2 : ℚ) ^ x.exponent ≤ x.value := by
    rw [value]
    gcongr
    exact_mod_cast hx.positive
  linarith [(abs_le.mp h.near).1]

theorem Binary.Canonical.value_pos (hx : x.Canonical) : 0 < x.value := by
  have : (0 : ℚ) < x.significand := by exact_mod_cast hx.positive
  exact mul_pos this (by positivity)

/-- The mantissa is the whole part of a number. The bit behind it stands for a half, and the last
bit for whatever is still missing. -/
def Represents (em : ExtendedMantissa) (w : ℚ) : Prop :=
  ∃ missing : ℚ, w = em.mantissa + em.roundBit.toNat / 2 + missing ∧ 0 ≤ missing ∧
    missing < 1 / 2 ∧ (em.stickyBit = true ↔ 0 < missing)

theorem represents_exact (m : Nat) : Represents (.ofMantissaAndAccuracy m .exact) m :=
  ⟨0, by simp [ExtendedMantissa.ofMantissaAndAccuracy], le_rfl, by norm_num,
    by simp [ExtendedMantissa.ofMantissaAndAccuracy]⟩

theorem Represents.bounds (h : Represents em w) : (em.mantissa : ℚ) ≤ w ∧ w < em.mantissa + 1 := by
  obtain ⟨missing, rfl, hlow, hhigh, -⟩ := h
  have hround : 0 ≤ (em.roundBit.toNat : ℚ) ∧ (em.roundBit.toNat : ℚ) ≤ 1 :=
    ⟨by positivity, by exact_mod_cast Bool.toNat_le em.roundBit⟩
  constructor <;> linarith

theorem Represents.shiftRightOne (h : Represents em w) : Represents em.shiftRightOne (w / 2) := by
  obtain ⟨missing, rfl, hlow, hhigh, hsticky⟩ := h
  have hbit : ((em.mantissa % 2 != 0).toNat : ℚ) = (em.mantissa % 2 : Nat) := by
    rcases Nat.mod_two_eq_zero_or_one em.mantissa with hm | hm <;> simp [hm]
  have hparts : ((em.mantissa % 2 : Nat) : ℚ) + 2 * (em.mantissa / 2 : Nat) = em.mantissa := by
    exact_mod_cast Nat.mod_add_div em.mantissa 2
  have hround : 0 ≤ (em.roundBit.toNat : ℚ) ∧ (em.roundBit.toNat : ℚ) ≤ 1 :=
    ⟨by positivity, by exact_mod_cast Bool.toNat_le em.roundBit⟩
  refine ⟨em.roundBit.toNat / 4 + missing / 2, ?_, by linarith, by linarith, ?_⟩
  · simp only [ExtendedMantissa.shiftRightOne, hbit]
    linarith
  · -- the new last bit is set if either of the two old ones was
    simp only [ExtendedMantissa.shiftRightOne, Bool.or_eq_true, hsticky]
    cases em.roundBit with
    | false => simp
    | true => simp; positivity

theorem Represents.shiftRight (h : Represents em w) (n : Nat) :
    Represents (em >>> n) (w / 2 ^ n) := by
  change Represents (n.repeat ExtendedMantissa.shiftRightOne em) _
  induction n with
  | zero => rwa [pow_zero, div_one]
  | succ n ih =>
    rw [pow_succ, ← div_div]
    exact ih.shiftRightOne

/-- The nearest whole number, of two that are equally near the even one. -/
def NearestEven (w : ℚ) (r : Nat) : Prop :=
  |w - r| < 1 / 2 ∨ |w - r| = 1 / 2 ∧ r % 2 = 0

theorem NearestEven.abs_le (h : NearestEven w r) : |w - r| ≤ 1 / 2 := by
  rcases h with h | ⟨h, -⟩
  · exact h.le
  · exact h.le

theorem Represents.roundedMantissa (h : Represents em w) (hr : NearestEven w r) :
    em.roundedMantissa = r := by
  obtain ⟨missing, hw, hlow, hhigh, hsticky⟩ := h
  obtain ⟨hrlow, hrhigh⟩ := abs_le.mp hr.abs_le
  rcases em with ⟨m, round, sticky⟩
  have hle {k l : Nat} (h : (k : ℚ) < l + 1) : k ≤ l := Nat.lt_succ_iff.mp (by exact_mod_cast h)
  cases round with
  | false =>
    simp only [Bool.toNat_false, Nat.cast_zero, zero_div, add_zero] at hw
    have hm : r = m := le_antisymm (hle (by linarith)) (hle (by linarith))
    rw [hm]
    cases sticky <;> rfl
  | true =>
    simp only [Bool.toNat_true, Nat.cast_one] at hw
    have hm : m ≤ r := hle (by linarith)
    cases sticky with
    | true =>
      have hpos : 0 < missing := hsticky.mp rfl
      have hr : r = m + 1 :=
        le_antisymm (hle (by push_cast; linarith)) (hle (by push_cast; linarith))
      exact hr.symm
    | false =>
      -- halfway between two whole numbers, of which `r` is the even one
      have hzero : missing = 0 := le_antisymm (not_lt.mp (by simpa using hsticky)) hlow
      have hr' : r ≤ m + 1 := hle (by push_cast; linarith)
      have heven : r % 2 = 0 := by
        rcases hr with hlt | ⟨-, heven⟩
        · obtain ⟨hlow, hhigh⟩ := abs_lt.mp hlt
          have hlt₁ : r < m + 1 := by exact_mod_cast (by linarith : (r : ℚ) < m + 1)
          have hlt₂ : m < r := by exact_mod_cast (by linarith : (m : ℚ) < r)
          omega
        · exact heven
      change m + m % 2 = r
      omega

variable {t : Int}

theorem targetExponent_eq (m : Nat) (e : Int) :
    Format.binary64.targetExponent (totalExponent m e) = max (m.log2 + e - 52) (-1074) := by
  simp only [Format.targetExponent, totalExponent, Format.mantissaBits, Format.minExponent]
  norm_num
  omega

theorem shiftToTargetExponent_eq (ht : Format.binary64.targetExponent (totalExponent m e) = t)
    (he : e ≤ t) : shiftToTargetExponent Format.binary64 m e accuracy =
      (ExtendedMantissa.ofMantissaAndAccuracy m accuracy >>> (t - e).toNat, t) := by
  have hsum : e + ((t - e).toNat : Int) = t := by omega
  simp only [shiftToTargetExponent, shiftToExponent, ht, hsum]

theorem shiftToTargetExponent_fitting (hr : r < 2 ^ 53) (ht : -1074 ≤ t) :
    shiftToTargetExponent Format.binary64 r t .exact = (⟨r, false, false⟩, t) := by
  have hlog : r.log2 < 53 := by
    rcases Nat.eq_zero_or_pos r with rfl | hpos
    · simp
    · exact (Nat.log2_lt hpos.ne').mpr hr
  have hshift : (Format.binary64.targetExponent (totalExponent r t) - t).toNat = 0 := by
    rw [targetExponent_eq]
    omega
  simp only [shiftToTargetExponent, shiftToExponent, hshift, Nat.cast_zero, add_zero]
  rfl

theorem shiftToTargetExponent_carry (ht : -1074 ≤ t) :
    shiftToTargetExponent Format.binary64 (2 ^ 53) t .exact = (⟨2 ^ 52, false, false⟩, t + 1) := by
  have hshift : (Format.binary64.targetExponent (totalExponent (2 ^ 53) t) - t).toNat = 1 := by
    rw [targetExponent_eq, Nat.log2_two_pow]
    omega
  simp only [shiftToTargetExponent, shiftToExponent, hshift]
  rfl

theorem Represents.binade (h : Represents (.ofMantissaAndAccuracy m accuracy) (v / 2 ^ e))
    (hm : 0 < m) : (2 : ℚ) ^ (m.log2 + e) ≤ v ∧ v < 2 ^ (m.log2 + 1 + e) := by
  have hmantissa : (ExtendedMantissa.ofMantissaAndAccuracy m accuracy).mantissa = m := by
    unfold ExtendedMantissa.ofMantissaAndAccuracy
    split <;> rfl
  obtain ⟨hlow, hhigh⟩ := h.bounds
  rw [hmantissa] at hlow hhigh
  have hpos : (0 : ℚ) < 2 ^ e := by positivity
  rw [le_div_iff₀ hpos] at hlow
  rw [div_lt_iff₀ hpos] at hhigh
  have hlog : (2 : ℚ) ^ m.log2 ≤ m := by exact_mod_cast Nat.log2_self_le hm.ne'
  have hlog' : (m : ℚ) + 1 ≤ 2 ^ (m.log2 + 1) := by exact_mod_cast Nat.lt_log2_self (n := m)
  constructor
  · calc (2 : ℚ) ^ (m.log2 + e) = 2 ^ m.log2 * 2 ^ e := by
          rw [zpow_add₀ two_ne_zero, zpow_natCast]
      _ ≤ m * 2 ^ e := by gcongr
      _ ≤ v := hlow
  · calc v < (m + 1) * 2 ^ e := hhigh
      _ ≤ 2 ^ (m.log2 + 1) * 2 ^ e := by gcongr
      _ = 2 ^ (m.log2 + 1 + e) := by
          rw [zpow_add₀ two_ne_zero]
          norm_cast

theorem Represents.shifted_rounded
    (h : Represents (.ofMantissaAndAccuracy m accuracy) (v / 2 ^ e))
    (ht : Format.binary64.targetExponent (totalExponent m e) = t) (he : e ≤ t)
    (hr : NearestEven (v / 2 ^ t) r) :
    (shiftToTargetExponent Format.binary64 m e accuracy).1.roundedMantissa = r ∧
      (shiftToTargetExponent Format.binary64 m e accuracy).2 = t := by
  rw [shiftToTargetExponent_eq ht he]
  refine ⟨?_, rfl⟩
  apply (h.shiftRight (t - e).toNat).roundedMantissa
  have hpow : (2 : ℚ) ^ e * 2 ^ (t - e).toNat = 2 ^ t := by
    rw [← zpow_natCast, ← zpow_add₀ two_ne_zero]
    congr 1
    omega
  rwa [div_div, hpow]

theorem div_two_zpow_sub_one (v : ℚ) (e : Int) : v / 2 ^ (e - 1) = 2 * (v / 2 ^ e) := by
  rw [zpow_sub₀ two_ne_zero, zpow_one, div_div_eq_mul_div]
  ring

theorem twice_half (d : ℚ) : (2 * d < 1 ↔ d < 1 / 2) ∧ (2 * d = 1 ↔ d = 1 / 2) := by
  constructor <;> constructor <;> intro h <;> linarith

/-- Just below the lowest number of a binade the doubles are twice as dense: there the significand
is rounded up to one bit more. -/
theorem Binary.takes_iff_nearest_below (hs : x.significand = 2 ^ 52) (hn : x.narrow = true)
    (hlt : v / 2 ^ x.exponent < 2 ^ 52) :
    x.Takes v ↔ NearestEven (v / 2 ^ (x.exponent - 1)) (2 ^ 53) := by
  have hcast : (x.significand : ℚ) = 2 ^ 52 := by exact_mod_cast hs
  have hdistance : x.distance (v / 2 ^ x.exponent) =
      2 * |v / 2 ^ (x.exponent - 1) - (2 ^ 53 : Nat)| := by
    rw [distance, hcast, if_neg hlt.not_ge, if_pos hn, div_two_zpow_sub_one, abs_of_neg]
    · push_cast
      ring
    · push_cast
      linarith
  have heven : x.significand % 2 = 0 ↔ 2 ^ 53 % 2 = 0 := by
    rw [hs]
    norm_num
  rw [Takes, NearestEven, hdistance, (twice_half _).1, (twice_half _).2, heven]

theorem Binary.distance_eq (hn : x.narrow = true → x.significand ≤ w) :
    x.distance w = 2 * |w - x.significand| := by
  unfold distance
  by_cases hle : (x.significand : ℚ) ≤ w
  · rw [if_pos hle, abs_of_nonneg (by linarith)]
  · rw [if_neg hle, if_neg fun h => hle (hn h), abs_of_neg (by linarith), neg_sub]

theorem Binary.takes_iff_nearest (hn : x.narrow = true → x.significand ≤ v / 2 ^ x.exponent) :
    x.Takes v ↔ NearestEven (v / 2 ^ x.exponent) x.significand := by
  rw [Takes, NearestEven, distance_eq hn, (twice_half _).1, (twice_half _).2]

theorem targetExponent_of_binade (hbinade : (2 : ℚ) ^ (m.log2 + e) ≤ v ∧ v < 2 ^ (m.log2 + 1 + e))
    (hlt : v / 2 ^ t < 2 ^ 53) (ht : -1074 ≤ t) (hfull : 2 ^ 52 ≤ v / 2 ^ t ∨ t = -1074) :
    Format.binary64.targetExponent (totalExponent m e) = t := by
  obtain ⟨hlow, hhigh⟩ := hbinade
  have hpos : (0 : ℚ) < 2 ^ t := by positivity
  have hupper : m.log2 + e < 53 + t := by
    have hpow : (2 : ℚ) ^ (53 + t) = 2 ^ 53 * 2 ^ t := by rw [zpow_add₀ two_ne_zero, zpow_ofNat]
    rw [div_lt_iff₀ hpos, ← hpow] at hlt
    exact (zpow_lt_zpow_iff_right₀ one_lt_two).mp (hlow.trans_lt hlt)
  rw [targetExponent_eq]
  rcases hfull with hfull | rfl
  · have hlower : 52 + t < m.log2 + 1 + e := by
      have hpow : (2 : ℚ) ^ (52 + t) = 2 ^ 52 * 2 ^ t := by rw [zpow_add₀ two_ne_zero, zpow_ofNat]
      rw [le_div_iff₀ hpos, ← hpow] at hfull
      exact (zpow_lt_zpow_iff_right₀ one_lt_two).mp (hfull.trans_lt hhigh)
    omega
  · omega

theorem Binary.Takes.full (hx : x.Canonical) (hv : x.Takes v)
    (hn : x.narrow = true → x.significand ≤ v / 2 ^ x.exponent) :
    2 ^ 52 ≤ v / 2 ^ x.exponent ∨ x.exponent = -1074 := by
  rcases hx.full with hfull | hleast
  · rcases hfull.lt_or_eq with hlt | heq
    · obtain ⟨hnear, -⟩ := abs_le.mp ((takes_iff_nearest hn).mp hv).abs_le
      have : (2 : ℚ) ^ 52 + 1 ≤ x.significand := by exact_mod_cast hlt
      exact .inl (by linarith)
    · by_cases hleast : x.exponent = -1074
      · exact .inr hleast
      · have hle := hn (hx.narrow.mpr ⟨heq.symm, lt_of_le_of_ne hx.least (Ne.symm hleast)⟩)
        rw [← heq] at hle
        exact .inl (by exact_mod_cast hle)
  · exact .inr hleast

/-- Rounding a number gives the double that takes it. -/
theorem roundWithAccuracy_of_takes (hx : x.Canonical) (hv : x.Takes v) (hm : 0 < m)
    (h : Represents (.ofMantissaAndAccuracy m accuracy) (v / 2 ^ e))
    (he : e ≤ Format.binary64.targetExponent (totalExponent m e)) :
    roundWithAccuracy Format.binary64 .positive m e accuracy =
      .finite .positive x.significand x.exponent hx.positive := by
  have hbinade := h.binade hm
  rw [roundWithAccuracy]
  by_cases hbelow : x.narrow = true ∧ v / 2 ^ x.exponent < x.significand
  · obtain ⟨hnarrow, hlt⟩ := hbelow
    obtain ⟨hlowest, hleast⟩ := hx.narrow.mp hnarrow
    rw [hlowest, Nat.cast_pow, Nat.cast_ofNat] at hlt
    have hr := (Binary.takes_iff_nearest_below hlowest hnarrow hlt).mp hv
    have ht : Format.binary64.targetExponent (totalExponent m e) = x.exponent - 1 := by
      obtain ⟨hnear, -⟩ := abs_le.mp hr.abs_le
      push_cast at hnear
      refine targetExponent_of_binade hbinade ?_ (by omega) (.inl (by linarith))
      rw [div_two_zpow_sub_one]
      linarith
    obtain ⟨hrounded, hshifted⟩ := h.shifted_rounded ht (ht ▸ he) hr
    have hcarry := shiftToTargetExponent_carry (t := x.exponent - 1) (by omega)
    simp only [hrounded, hshifted, hcarry, hlowest]
    simp
  · have hn : x.narrow = true → x.significand ≤ v / 2 ^ x.exponent :=
      fun hnarrow => not_lt.mp fun hlt => hbelow ⟨hnarrow, hlt⟩
    have hr := (Binary.takes_iff_nearest hn).mp hv
    have hlt : v / 2 ^ x.exponent < 2 ^ 53 := by
      obtain ⟨-, hnear⟩ := abs_le.mp hr.abs_le
      have : (x.significand : ℚ) + 1 ≤ 2 ^ 53 := by exact_mod_cast hx.significand
      linarith
    have ht := targetExponent_of_binade hbinade hlt hx.least (hv.full hx hn)
    obtain ⟨hrounded, hshifted⟩ := h.shifted_rounded ht (ht ▸ he) hr
    have hfitting := shiftToTargetExponent_fitting hx.significand hx.least
    simp only [hrounded, hshifted, hfitting, hx.positive.ne']
    rfl

end SingleTape.Decimal

import SingleTape.Proofs.Decimal.Arithmetic

/-!
The range of doubles. Every number that is not too small and lies below the halfway point behind the
greatest double is taken by a double; so a product that stays in the range is no infinity.
-/

namespace SingleTape.Decimal

variable {x p q : Binary} {a b : Float} {v w : ℚ} {e : Int}

theorem exists_nearestEven (h : 0 ≤ w) : ∃ r : Nat, NearestEven w r := by
  have hlow := Nat.floor_le h
  have hhigh := Nat.lt_floor_add_one w
  generalize ⌊w⌋₊ = n at hlow hhigh
  rcases lt_trichotomy (w - n) (1 / 2) with hlt | heq | hgt
  · exact ⟨n, .inl (by rwa [abs_of_nonneg (by linarith)])⟩
  · by_cases heven : n % 2 = 0
    · exact ⟨n, .inr ⟨by rwa [abs_of_nonneg (by linarith)], heven⟩⟩
    · refine ⟨n + 1, .inr ⟨?_, by omega⟩⟩
      push_cast
      rw [abs_of_nonpos (by linarith)]
      linarith
  · refine ⟨n + 1, .inl ?_⟩
    push_cast
    rw [abs_of_nonpos (by linarith)]
    linarith

def Binary.normal (m : Nat) (e : Int) : Binary := ⟨m, e, m == 2 ^ 52 && decide (-1074 < e)⟩

theorem Binary.canonical_normal {m : Nat} (hfull : 2 ^ 52 ≤ m) (hm : m < 2 ^ 53)
    (hleast : -1074 ≤ e) (hgreatest : e ≤ 971) : (normal m e).Canonical where
  positive := by rw [normal]; positivity
  significand := hm
  least := hleast
  greatest := hgreatest
  full := .inl hfull
  narrow := by simp [normal]

/-- A number is rounded to a significand at its own exponent, or to the lowest double of the next
binade if all bits are carried over. -/
theorem exists_takes_binade (hleast : -1074 ≤ e) (hgreatest : e ≤ 971) (hlow : 2 ^ 52 ≤ v / 2 ^ e)
    (hhigh : v / 2 ^ e < 2 ^ 53) (hlast : e = 971 → v / 2 ^ e < 2 ^ 53 - 1 / 2) :
    ∃ x : Binary, x.Canonical ∧ x.Takes v ∧ 2 ^ 52 ≤ x.significand := by
  obtain ⟨r, hr⟩ := exists_nearestEven (le_trans (by positivity) hlow)
  obtain ⟨hrlow, hrhigh⟩ := abs_le.mp hr.abs_le
  have hfull : 2 ^ 52 ≤ r := by
    have : ((2 ^ 52 : Nat) : ℚ) < (r + 1 : Nat) := by
      push_cast
      linarith
    exact Nat.lt_succ_iff.mp (Nat.cast_lt.mp this)
  have hcarry : r ≤ 2 ^ 53 := by
    have : (r : ℚ) < (2 ^ 53 + 1 : Nat) := by
      push_cast
      linarith
    exact Nat.lt_succ_iff.mp (Nat.cast_lt.mp this)
  rcases hcarry.lt_or_eq with hlt | rfl
  · refine ⟨.normal r e, Binary.canonical_normal hfull hlt hleast hgreatest, ?_, hfull⟩
    refine (Binary.takes_iff_nearest fun hnarrow => ?_).mpr hr
    obtain ⟨hlowest, -⟩ := (Binary.canonical_normal hfull hlt hleast hgreatest).narrow.mp hnarrow
    rw [hlowest]
    exact_mod_cast hlow
  · have hnotlast : e ≠ 971 := by
      intro he
      have := hlast he
      push_cast at hrlow
      linarith
    have hcanonical : (Binary.normal (2 ^ 52) (e + 1)).Canonical :=
      Binary.canonical_normal le_rfl (by norm_num) (by omega) (by omega)
    have hnarrow := hcanonical.narrow.mpr ⟨rfl, by dsimp only [Binary.normal]; omega⟩
    refine ⟨_, hcanonical, (Binary.takes_iff_nearest_below rfl hnarrow ?_).mpr ?_, le_rfl⟩
    · change v / 2 ^ (e + 1) < 2 ^ 52
      rw [zpow_add_one₀ two_ne_zero, ← div_div]
      linarith
    · change NearestEven (v / 2 ^ (e + 1 - 1)) _
      rwa [add_sub_cancel_right]

/-- The numbers that are rounded to doubles with all their bits. -/
def InRange (v : ℚ) : Prop := 2 ^ (-1022 : Int) ≤ v ∧ v < (2 ^ 53 - 1 / 2) * 2 ^ (971 : Int)

theorem InRange.exists_takes (h : InRange v) :
    ∃ x : Binary, x.Canonical ∧ x.Takes v ∧ 2 ^ 52 ≤ x.significand := by
  obtain ⟨hlow, hhigh⟩ := h
  have hpos : 0 < v := lt_of_lt_of_le (by positivity) hlow
  have hbinade := Int.zpow_log_le_self (b := 2) one_lt_two hpos
  have hbinade' := Int.lt_zpow_succ_log_self (b := 2) one_lt_two v
  have hleast : -1022 ≤ Int.log 2 v :=
    (Int.zpow_le_iff_le_log one_lt_two hpos).mp (by exact_mod_cast hlow)
  rw [Nat.cast_ofNat] at hbinade hbinade'
  obtain ⟨e, he⟩ : ∃ e, Int.log 2 v = 52 + e := ⟨Int.log 2 v - 52, by omega⟩
  rw [he] at hbinade hbinade' hleast
  have hgap : (0 : ℚ) < 2 ^ e := by positivity
  have hfirst : (2 : ℚ) ^ (52 + e) = 2 ^ 52 * 2 ^ e := by rw [zpow_add₀ two_ne_zero, zpow_ofNat]
  have hnext : (2 : ℚ) ^ (52 + e + 1) = 2 ^ 53 * 2 ^ e := by
    rw [zpow_add_one₀ two_ne_zero, hfirst]
    ring
  have hgreatest : 52 + e < 53 + 971 := by
    apply (zpow_lt_zpow_iff_right₀ (one_lt_two (α := ℚ))).mp
    calc (2 : ℚ) ^ (52 + e) ≤ v := hbinade
      _ < (2 ^ 53 - 1 / 2) * 2 ^ (971 : Int) := hhigh
      _ ≤ 2 ^ 53 * 2 ^ (971 : Int) := by gcongr; norm_num
      _ = 2 ^ (53 + 971 : Int) := by rw [zpow_add₀ two_ne_zero, zpow_ofNat 2 53]
  refine exists_takes_binade (e := e) (by omega) (by omega) ?_ ?_ ?_
  · rwa [le_div_iff₀ hgap, ← hfirst]
  · rwa [div_lt_iff₀ hgap, ← hnext]
  · intro hlast
    rw [div_lt_iff₀ hgap, hlast]
    exact hhigh

theorem Binary.Takes.bounds (hfull : 2 ^ 52 ≤ x.significand) (hv : x.Takes v) :
    v / 2 ≤ x.value ∧ x.value * (2 ^ 53 - 1) ≤ v * 2 ^ 53 := by
  have hleast : (2 : ℚ) ^ 52 * 2 ^ x.exponent ≤ x.value := by
    rw [value]
    gcongr
    exact_mod_cast hfull
  have hgap : (0 : ℚ) < 2 ^ x.exponent := by positivity
  obtain ⟨hlow, hhigh⟩ := abs_le.mp hv.near
  constructor <;> linarith

/-- The numbers that two more roundings cannot bring beyond all doubles. -/
def WellInRange (v : ℚ) : Prop := 1 ≤ v ∧ v ≤ (2 ^ 53 - 5 / 2) * 2 ^ (971 : Int)

theorem WellInRange.inRange (h : WellInRange v) : InRange v := by
  refine ⟨le_trans ?_ h.1, lt_of_le_of_lt h.2 ?_⟩
  · exact zpow_le_one_of_nonpos₀ one_le_two (by norm_num)
  · gcongr
    norm_num

theorem WellInRange.rounded (h : WellInRange (v * w)) (hv : 0 < v) (hw : 0 < w)
    (hp : p.Takes v) (hq : q.Takes w) (hpfull : 2 ^ 52 ≤ p.significand)
    (hqfull : 2 ^ 52 ≤ q.significand) : InRange (p.value * q.value) := by
  obtain ⟨hplow, hphigh⟩ := hp.bounds hpfull
  obtain ⟨hqlow, hqhigh⟩ := hq.bounds hqfull
  have hqpos : 0 < q.value := by linarith
  constructor
  · calc (2 : ℚ) ^ (-1022 : Int) ≤ 2 ^ (-2 : Int) := zpow_le_zpow_right₀ one_le_two (by norm_num)
      _ ≤ v * w / 4 := by linarith [h.1]
      _ = v / 2 * (w / 2) := by ring
      _ ≤ p.value * q.value := mul_le_mul hplow hqlow (by linarith) (by linarith)
  · have hproduct : p.value * q.value * (2 ^ 53 - 1) ^ 2 ≤ v * w * (2 ^ 53) ^ 2 := by
      calc p.value * q.value * (2 ^ 53 - 1) ^ 2
          = (p.value * (2 ^ 53 - 1)) * (q.value * (2 ^ 53 - 1)) := by ring
        _ ≤ (v * 2 ^ 53) * (w * 2 ^ 53) :=
          mul_le_mul hphigh hqhigh (by linarith) (by positivity)
        _ = v * w * (2 ^ 53) ^ 2 := by ring
    have hgap : (0 : ℚ) < 2 ^ (971 : Int) := by positivity
    have hhigh := h.2
    generalize (2 : ℚ) ^ (971 : Int) = gap at *
    linarith

theorem inRange_ten_pow {k : Nat} (hk : k ≤ 308) : InRange (10 ^ k) := by
  have hlast : 10 ^ 308 < 3 * 2 ^ 51 * 2 ^ 971 := by decide +kernel
  constructor
  · calc (2 : ℚ) ^ (-1022 : Int) ≤ 1 := zpow_le_one_of_nonpos₀ one_le_two (by norm_num)
      _ ≤ 10 ^ k := one_le_pow₀ (by norm_num)
  · calc (10 : ℚ) ^ k ≤ 10 ^ 308 := pow_le_pow_right₀ (by norm_num) hk
      _ < 3 * 2 ^ 51 * 2 ^ 971 := by exact_mod_cast hlast
      _ ≤ (2 ^ 53 - 1 / 2) * 2 ^ (971 : Int) := by
        rw [zpow_ofNat]
        gcongr
        norm_num

theorem WellInRange.ten_pow_le {k : Nat} (h : WellInRange v) (hk : 10 ^ k ≤ v) : k ≤ 308 := by
  have hlast : 2 ^ 53 * 2 ^ 971 < 10 ^ 309 := by decide +kernel
  have hpower : (10 : ℚ) ^ k < 10 ^ 309 := by
    calc (10 : ℚ) ^ k ≤ v := hk
      _ ≤ (2 ^ 53 - 5 / 2) * 2 ^ (971 : Int) := h.2
      _ ≤ 2 ^ 53 * 2 ^ 971 := by
        rw [zpow_ofNat]
        gcongr
        norm_num
      _ < 10 ^ 309 := by exact_mod_cast hlast
  exact Nat.lt_succ_iff.mp ((pow_lt_pow_iff_right₀ (by norm_num)).mp hpower)

theorem Stands.mul_isInf (ha : Stands a p) (hb : Stands b q) (hp : 2 ^ 52 ≤ p.significand)
    (hq : 2 ^ 52 ≤ q.significand) (hv : p.Takes v) (hw : q.Takes w) (h : WellInRange (v * w)) :
    (a * b).isInf = false := by
  have hrange := h.rounded (hv.pos ha.canonical) (hw.pos hb.canonical) hv hw hp hq
  obtain ⟨x, hx, htakes, -⟩ := hrange.exists_takes
  exact (ha.mul hb hp hx htakes).isInf

/-- All doubles but the two greatest ones take only numbers well in range. -/
theorem Binary.Takes.wellInRange (hx : x.Canonical) (hv : x.Takes v) (hlow : 1 ≤ v)
    (hnotlast : ¬ (x.exponent = 971 ∧ 2 ^ 53 - 2 ≤ x.significand)) : WellInRange v := by
  refine ⟨hlow, ?_⟩
  have hhigh : v ≤ (x.significand + 1 / 2) * 2 ^ x.exponent := by
    have := (abs_le.mp hv.near).2
    rw [value] at this
    linarith
  refine hhigh.trans ?_
  rcases hx.greatest.lt_or_eq with hlt | heq
  · have hsignificand : (x.significand : ℚ) + 1 ≤ 2 ^ 53 := by exact_mod_cast hx.significand
    have hdouble : (2 : ℚ) ^ (971 : Int) = 2 * 2 ^ (970 : Int) := by
      rw [mul_comm, ← zpow_add_one₀ two_ne_zero]
      rfl
    calc ((x.significand : ℚ) + 1 / 2) * 2 ^ x.exponent ≤ (2 ^ 53 - 1 / 2) * 2 ^ (970 : Int) := by
          gcongr
          · linarith
          · exact one_le_two
          · omega
      _ ≤ (2 ^ 53 - 5 / 2) * 2 ^ (971 : Int) := by
          rw [hdouble, ← mul_assoc]
          gcongr
          norm_num
  · have hsignificand : x.significand + 3 ≤ 2 ^ 53 := by omega
    have hsignificand : (x.significand : ℚ) + 3 ≤ 2 ^ 53 := by exact_mod_cast hsignificand
    rw [heq]
    gcongr
    linarith

end SingleTape.Decimal

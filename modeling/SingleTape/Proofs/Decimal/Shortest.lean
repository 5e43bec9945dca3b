import SingleTape.Proofs.Decimal.Rounding

/-!
The shortest decimal of a double is rounded to that double. It is sought on ever finer grids, and
the grid of seventeen digits is so fine that one of the two neighbours always does.
-/

namespace SingleTape.Decimal

variable {x : Binary} {g : Int} {d n : Nat} {tie : Tie}

def Scaled.value (d : Scaled) : ℚ := d.digits * 10 ^ d.exponent

theorem zpow_mul_toNat {b : ℚ} (hb : b ≠ 0) (e : Int) : b ^ e * b ^ (-e).toNat = b ^ e.toNat := by
  rw [← zpow_natCast, ← zpow_natCast, ← zpow_add₀ hb]
  congr 1
  omega

theorem Binary.unit_pos (x : Binary) (g : Int) : 0 < (x.onGrid g).unit := by
  simp only [onGrid, Nat.pow_eq]
  positivity

theorem Binary.gap_pos (x : Binary) (g : Int) : 0 < (x.onGrid g).gap := by
  simp only [onGrid, Nat.pow_eq]
  positivity

theorem Binary.gap_eq (x : Binary) (g : Int) :
    ((x.onGrid g).gap : ℚ) / (x.onGrid g).unit = 2 ^ x.exponent / 10 ^ g := by
  have htwo := zpow_mul_toNat (two_ne_zero' ℚ) x.exponent
  have hten := zpow_mul_toNat (by norm_num : (10 : ℚ) ≠ 0) (-g)
  rw [neg_neg] at hten
  simp only [onGrid, Nat.pow_eq]
  push_cast
  rw [← htwo, ← hten, zpow_neg]
  field_simp

theorem Binary.onGrid_value (x : Binary) (g : Int) :
    (x.onGrid g).value = x.significand * (x.onGrid g).gap := rfl

theorem Binary.value_eq (x : Binary) (g : Int) :
    ((x.onGrid g).value : ℚ) / (x.onGrid g).unit = x.value / 10 ^ g := by
  rw [onGrid_value, Nat.cast_mul, mul_div_assoc, gap_eq, value, mul_div_assoc]

theorem Binary.point_eq (x : Binary) (g : Int) (d : Nat) :
    (d * 10 ^ g / 2 ^ x.exponent : ℚ) = d * (x.onGrid g).unit / (x.onGrid g).gap := by
  have hgap := x.gap_eq g
  have hunit : ((x.onGrid g).unit : ℚ) ≠ 0 := by exact_mod_cast (x.unit_pos g).ne'
  have hpos : ((x.onGrid g).gap : ℚ) ≠ 0 := by exact_mod_cast (x.gap_pos g).ne'
  have hten : (10 : ℚ) ^ g ≠ 0 := by positivity
  rw [div_eq_div_iff hunit hten] at hgap
  rw [div_eq_div_iff (by positivity) hpos]
  linear_combination (d : ℚ) * hgap

theorem Binary.distance_point (x : Binary) (g : Int) (d : Nat) :
    ((if (x.onGrid g).value ≤ d * (x.onGrid g).unit
        then 2 * (d * (x.onGrid g).unit - (x.onGrid g).value)
        else (if x.narrow then 4 else 2) *
          ((x.onGrid g).value - d * (x.onGrid g).unit) : Nat) : ℚ) =
      x.distance (d * 10 ^ g / 2 ^ x.exponent) * (x.onGrid g).gap := by
  have hpos : (0 : ℚ) < (x.onGrid g).gap := by exact_mod_cast x.gap_pos g
  rw [point_eq, distance, onGrid_value]
  generalize (x.onGrid g).gap = gap at hpos ⊢
  generalize (x.onGrid g).unit = unit
  by_cases hle : x.significand * gap ≤ d * unit
  · have hle' : (x.significand : ℚ) ≤ d * unit / gap := by
      rw [le_div_iff₀ hpos]
      exact_mod_cast hle
    rw [if_pos hle, if_pos hle']
    push_cast [Nat.cast_sub hle]
    field_simp
  · have hle' : ¬ (x.significand : ℚ) ≤ d * unit / gap := by
      rw [le_div_iff₀ hpos]
      exact_mod_cast hle
    rw [if_neg hle, if_neg hle']
    push_cast [Nat.cast_sub (Nat.le_of_not_le hle)]
    field_simp

/-- The points that the search admits are those that are rounded to the double. -/
theorem Binary.admits_iff (x : Binary) (g : Int) (d : Nat) :
    x.admits (x.onGrid g) d = true ↔ x.Takes (d * 10 ^ g) := by
  have hpos : (0 : ℚ) < (x.onGrid g).gap := by exact_mod_cast x.gap_pos g
  have hdistance := x.distance_point g d
  simp only [admits, Takes, Bool.or_eq_true, decide_eq_true_eq, Bool.and_eq_true, beq_iff_eq]
  rw [← @Nat.cast_lt ℚ, ← @Nat.cast_inj ℚ, hdistance, mul_lt_iff_lt_one_left hpos,
    mul_eq_right₀ hpos.ne']

theorem OnGrid.nearer_eq (o : OnGrid) (tie : Tie) (d : Nat) :
    o.nearer tie d = d ∨ o.nearer tie d = d + 1 := by
  unfold nearer
  split
  · exact .inl rfl
  · exact .inr rfl
  · exact .inr rfl
  · split
    · exact .inl rfl
    · exact .inr rfl

theorem Binary.pointOn_cases (x : Binary) (tie : Tie) (g : Int) :
    (∃ d, x.pointOn tie g = some d ∧ x.Takes (d * 10 ^ g) ∧
      (d = (x.onGrid g).value / (x.onGrid g).unit ∨
        d = (x.onGrid g).value / (x.onGrid g).unit + 1)) ∨
    (x.pointOn tie g = none ∧
      ¬ x.Takes (((x.onGrid g).value / (x.onGrid g).unit : Nat) * 10 ^ g) ∧
      ¬ x.Takes (((x.onGrid g).value / (x.onGrid g).unit + 1 : Nat) * 10 ^ g)) := by
  have hlow := x.admits_iff g ((x.onGrid g).value / (x.onGrid g).unit)
  have hhigh := x.admits_iff g ((x.onGrid g).value / (x.onGrid g).unit + 1)
  have hnearer := (x.onGrid g).nearer_eq tie ((x.onGrid g).value / (x.onGrid g).unit)
  rw [pointOn]
  split
  · next h₁ h₂ =>
    left
    refine ⟨_, rfl, ?_, hnearer⟩
    rcases hnearer with h | h
    · rw [h]
      exact hlow.mp h₁
    · rw [h]
      exact hhigh.mp h₂
  · next h₁ h₂ => exact .inl ⟨_, rfl, hlow.mp h₁, .inl rfl⟩
  · next h₁ h₂ => exact .inl ⟨_, rfl, hhigh.mp h₂, .inr rfl⟩
  · next h₁ h₂ => exact .inr ⟨rfl, hlow.not.mp (by simp [h₁]), hhigh.not.mp (by simp [h₂])⟩

theorem Scaled.strip_value (n : Nat) (d : Scaled) : (strip n d).value = d.value := by
  induction n generalizing d with
  | zero => rfl
  | succ n ih =>
    rw [strip]
    split
    · next h =>
      have hdigits : d.digits = 10 * (d.digits / 10) := by
        rw [beq_iff_eq] at h
        omega
      rw [ih, value, value]
      dsimp only
      conv => rhs; rw [hdigits]
      rw [zpow_add_one₀ (by norm_num)]
      push_cast
      ring
    · rfl

theorem Scaled.strip_digits_le (n : Nat) (d : Scaled) : (strip n d).digits ≤ d.digits := by
  induction n generalizing d with
  | zero => exact le_rfl
  | succ n ih =>
    rw [strip]
    split
    · exact (ih _).trans (Nat.div_le_self _ _)
    · exact le_rfl

theorem Scaled.le_strip_exponent (n : Nat) (d : Scaled) : d.exponent ≤ (strip n d).exponent := by
  induction n generalizing d with
  | zero => exact le_rfl
  | succ n ih =>
    rw [strip]
    split
    · exact (Int.le_add_one le_rfl).trans (ih _)
    · exact le_rfl

theorem length_natural (n : Nat) :
    n < 10 ^ (natural n).length ∧ (0 < n → 10 ^ ((natural n).length - 1) ≤ n) := by
  have hpos : 0 < (natural n).length := Nat.length_toDigits_pos
  refine ⟨(Nat.length_toDigits_le_iff (by decide) hpos).mp le_rfl, fun hn => ?_⟩
  by_contra! hlt
  rcases Nat.eq_zero_or_pos ((natural n).length - 1) with hone | hmore
  · rw [hone] at hlt
    omega
  · have := (Nat.length_toDigits_le_iff (b := 10) (by decide) hmore).mpr hlt
    rw [← natural] at this
    omega

theorem Binary.floor_bounds (x : Binary) (g : Int) :
    (((x.onGrid g).value / (x.onGrid g).unit : Nat) : ℚ) ≤ x.value / 10 ^ g ∧
      x.value / 10 ^ g < ((x.onGrid g).value / (x.onGrid g).unit : Nat) + 1 := by
  have hpos : (0 : ℚ) < (x.onGrid g).unit := by exact_mod_cast x.unit_pos g
  rw [← value_eq, le_div_iff₀ hpos, div_lt_iff₀ hpos]
  constructor
  · exact_mod_cast Nat.div_mul_le_self _ _
  · exact_mod_cast Nat.lt_mul_of_div_lt (Nat.lt_succ_self _) (x.unit_pos g)

theorem Binary.one_le_scaled (hx : x.Canonical) : 1 ≤ x.value * 10 ^ 400 := by
  have hsignificand : (1 : ℚ) ≤ x.significand := by exact_mod_cast hx.positive
  have hexponent : (2 : ℚ) ^ (-1074 : Int) ≤ 2 ^ x.exponent :=
    zpow_le_zpow_right₀ one_le_two hx.least
  have hpowers : (2 : ℚ) ^ 1074 ≤ 10 ^ 400 :=
    calc (2 : ℚ) ^ 1074 ≤ 2 ^ (3 * 400) := pow_le_pow_right₀ one_le_two (by decide)
      _ = (2 ^ 3) ^ 400 := by rw [← pow_mul]
      _ ≤ 10 ^ 400 := pow_le_pow_left₀ (by norm_num) (by norm_num) 400
  calc (1 : ℚ) = 1 * 2 ^ (-1074 : Int) * 2 ^ 1074 := by
        rw [one_mul, zpow_neg, zpow_ofNat, inv_mul_cancel₀ (by positivity)]
    _ ≤ x.significand * 2 ^ x.exponent * 10 ^ 400 := by gcongr

/-- The double has its leading digit where its magnitude says. -/
theorem Binary.magnitude_bounds (hx : x.Canonical) :
    (10 : ℚ) ^ (x.magnitude - 1) ≤ x.value ∧ x.value < 10 ^ x.magnitude := by
  obtain ⟨hlow, hhigh⟩ := x.floor_bounds (-400)
  generalize hn : (x.onGrid (-400)).value / (x.onGrid (-400)).unit = n at hlow hhigh
  have hmagnitude : x.magnitude = (natural n).length - 400 := by rw [magnitude, ← hn]
  have hscaled : x.value / 10 ^ (-400 : Int) = x.value * 10 ^ 400 := by
    rw [zpow_neg, div_inv_eq_mul, zpow_ofNat]
  rw [hscaled] at hlow hhigh
  have hpos : 0 < n := by
    exact_mod_cast (lt_add_iff_pos_left (1 : ℚ)).mp ((one_le_scaled hx).trans_lt hhigh)
  obtain ⟨hless, hleast⟩ := length_natural n
  have hlength : 0 < (natural n).length := Nat.length_toDigits_pos
  have hleast : ((10 ^ ((natural n).length - 1) : Nat) : ℚ) ≤ n := by exact_mod_cast hleast hpos
  have hless : (n : ℚ) + 1 ≤ (10 ^ (natural n).length : Nat) := by exact_mod_cast hless
  have hten : (10 : ℚ) ≠ 0 := by norm_num
  have hscale : (0 : ℚ) < 10 ^ 400 := by positivity
  rw [hmagnitude]
  constructor
  · have hexponent :
        ((natural n).length - 400 - 1 : Int) = ((natural n).length - 1 : Nat) - 400 := by omega
    rw [hexponent, zpow_sub₀ hten, zpow_natCast, zpow_ofNat, div_le_iff₀ hscale]
    exact_mod_cast hleast.trans hlow
  · rw [zpow_sub₀ hten, zpow_natCast, zpow_ofNat, lt_div_iff₀ hscale]
    exact_mod_cast hhigh.trans_le hless

theorem Binary.step_lt_gap (hx : x.Canonical) :
    2 * ((10 : ℚ) ^ (x.magnitude - 17) / 2 ^ x.exponent) < if x.narrow then 1 else 2 := by
  have hstep : (10 : ℚ) ^ (x.magnitude - 17) / 2 ^ x.exponent ≤ x.significand / 10 ^ 16 := by
    have hsplit : (10 : ℚ) ^ (x.magnitude - 17) = 10 ^ (x.magnitude - 1) / 10 ^ 16 := by
      rw [← zpow_natCast, ← zpow_sub₀ (by norm_num)]
      congr 1
      omega
    rw [hsplit, div_div, div_le_div_iff₀ (by positivity) (by positivity)]
    calc (10 : ℚ) ^ (x.magnitude - 1) * 10 ^ 16 ≤ x.value * 10 ^ 16 := by
          gcongr
          exact (magnitude_bounds hx).1
      _ = (x.significand : ℚ) * (10 ^ 16 * 2 ^ x.exponent) := by rw [value]; ring
  by_cases hnarrow : x.narrow = true
  · rw [(hx.narrow.mp hnarrow).1] at hstep
    rw [if_pos hnarrow]
    norm_num at hstep ⊢
    linarith
  · have hbound : (x.significand : ℚ) < 2 ^ 53 := by exact_mod_cast hx.significand
    rw [if_neg hnarrow]
    norm_num at hstep ⊢
    linarith

/-- One of the two neighbours on the grid of seventeen digits is rounded to the double. -/
theorem Binary.takes_seventeen (hx : x.Canonical) :
    x.Takes (((x.onGrid (x.magnitude - 17)).value / (x.onGrid (x.magnitude - 17)).unit : Nat) *
      10 ^ (x.magnitude - 17)) ∨
    x.Takes (((x.onGrid (x.magnitude - 17)).value / (x.onGrid (x.magnitude - 17)).unit + 1 : Nat) *
      10 ^ (x.magnitude - 17)) := by
  have hgap := step_lt_gap hx
  obtain ⟨hlow, hhigh⟩ := x.floor_bounds (x.magnitude - 17)
  generalize (x.onGrid (x.magnitude - 17)).value / (x.onGrid (x.magnitude - 17)).unit = n
    at hlow hhigh ⊢
  generalize x.magnitude - 17 = g at hgap hlow hhigh ⊢
  have hsignificand : (x.significand : ℚ) = x.value / 10 ^ g * (10 ^ g / 2 ^ x.exponent) := by
    rw [value]
    field_simp
  have hstep : (0 : ℚ) < 10 ^ g / 2 ^ x.exponent := by positivity
  simp only [Takes, mul_div_assoc, distance, hsignificand]
  generalize x.value / 10 ^ g = u at hlow hhigh ⊢
  generalize (10 : ℚ) ^ g / 2 ^ x.exponent = step at hgap hstep ⊢
  rcases le_or_gt (u - n) (1 / 2) with hnear | hfar
  · left
    left
    have hbelow : (u - n) * step ≤ 1 / 2 * step := by gcongr
    have habove : n * step ≤ u * step := by gcongr
    by_cases hle : u * step ≤ n * step
    · rw [if_pos hle]
      linarith
    · rw [if_neg hle]
      by_cases hnarrow : x.narrow = true
      · rw [if_pos hnarrow] at hgap ⊢
        linarith
      · rw [if_neg hnarrow] at hgap ⊢
        linarith
  · right
    left
    have hbelow : (n + 1 - u) * step < 1 / 2 * step := by
      gcongr
      linarith
    have habove : u * step ≤ (n + 1 : Nat) * step := by
      gcongr
      push_cast
      linarith
    rw [if_pos habove]
    push_cast
    split at hgap <;> linarith

structure Binary.Found (x : Binary) (n : Nat) (d : Scaled) : Prop where
  takes : x.Takes d.value
  digits : d.digits ≤ 10 ^ (n + 1)
  exponent : x.magnitude - (n + 1) ≤ d.exponent

theorem Binary.found_of_pointOn (hx : x.Canonical)
    (h : x.pointOn tie (x.magnitude - (n + 1)) = some d) :
    x.Found n (Scaled.strip 17 ⟨d, x.magnitude - (n + 1)⟩) := by
  have hbelow := (magnitude_bounds hx).2
  generalize hg : x.magnitude - (n + 1) = g at h ⊢
  rcases x.pointOn_cases tie g with ⟨d', hd', htakes, hpoint⟩ | ⟨hnone, -⟩
  · obtain rfl : d' = d := Option.some.inj (hd'.symm.trans h)
    refine ⟨?_, (Scaled.strip_digits_le _ _).trans ?_, hg ▸ Scaled.le_strip_exponent _ _⟩
    · rw [Scaled.strip_value]
      exact htakes
    · have hless : x.value / 10 ^ g < 10 ^ (n + 1) := by
        have hmagnitude : ((n + 1 : Nat) : Int) + g = x.magnitude := by
          push_cast
          omega
        rw [div_lt_iff₀ (by positivity), ← zpow_natCast, ← zpow_add₀ (by norm_num), hmagnitude]
        exact hbelow
      have hfloor : (x.onGrid g).value / (x.onGrid g).unit < 10 ^ (n + 1) := by
        exact_mod_cast (x.floor_bounds g).1.trans_lt hless
      dsimp only
      omega
  · cases hnone.symm.trans h

/-- The kernel would evaluate the search to compare it with its definition point by point; as
functions the two are the same text. -/
theorem shortest_eq : @Binary.shortest = fun x tie =>
    let k := x.magnitude
    let attempt (n : Nat) : Option Scaled :=
      (x.pointOn tie (k - (n + 1))).map fun d => Scaled.strip 17 ⟨d, k - (n + 1)⟩
    match (List.range 17).findSome? attempt with
    | some d => d
    | none => ⟨(x.onGrid (k - 17)).value / (x.onGrid (k - 17)).unit, k - 17⟩ := by
  delta Binary.shortest
  rfl

/-- The search ends on the first grid with a point that is rounded to the double. -/
theorem Binary.exists_found (hx : x.Canonical) (tie : Tie) :
    ∃ n ≤ 16, x.Found n (x.shortest tie) ∧
      ∀ k < n, x.pointOn tie (x.magnitude - (k + 1)) = none := by
  have hfound (n d : Nat) (h : x.pointOn tie (x.magnitude - (n + 1)) = some d) :=
    found_of_pointOn hx h
  have hseventeen := takes_seventeen hx
  rw [shortest_eq]
  dsimp only
  generalize x.magnitude = k at hfound hseventeen ⊢
  split
  · next d h =>
    obtain ⟨l₁, n, l₂, hrange, hn, hbefore⟩ := List.findSome?_eq_some_iff.mp h
    obtain ⟨point, hpoint, rfl⟩ := Option.map_eq_some_iff.mp hn
    rw [List.range_eq_range', List.range'_eq_append_iff] at hrange
    obtain ⟨j, hj, rfl, hlast⟩ := hrange
    obtain ⟨rfl, hlt, -⟩ := List.range'_eq_cons_iff.mp hlast.symm
    refine ⟨_, by omega, hfound _ _ hpoint, fun i hi => ?_⟩
    exact Option.map_eq_none_iff.mp (hbefore i (List.mem_range'_1.mpr (by omega)))
  · next h =>
    exfalso
    have hnone := List.findSome?_eq_none_iff.mp h 16 (by decide)
    rw [Option.map_eq_none_iff] at hnone
    rcases x.pointOn_cases tie (k - 17) with ⟨d, hd, -⟩ | ⟨-, hlow, hhigh⟩
    · cases hnone.symm.trans hd
    · exact hseventeen.elim hlow hhigh

theorem eq_of_near {m n : Nat} (hlow : (n : ℚ) - 1 < m) (hhigh : (m : ℚ) < n + 1) : m = n := by
  have h₁ : m < n + 1 := by exact_mod_cast hhigh
  have h₂ : n < m + 1 := by exact_mod_cast (by linarith : (n : ℚ) < m + 1)
  omega

section Whole

variable (hx : x.Canonical) (hvalue : x.value = n)
include hvalue

theorem Binary.pointOn_whole (tie : Tie) : x.pointOn tie 0 ≠ none := by
  obtain ⟨hlow, hhigh⟩ := x.floor_bounds 0
  rw [hvalue, zpow_zero, div_one] at hlow hhigh
  have hfloor : (x.onGrid 0).value / (x.onGrid 0).unit = n :=
    eq_of_near (by linarith) (by linarith)
  intro hnone
  rcases x.pointOn_cases tie 0 with ⟨d, hd, -⟩ | ⟨-, htakes, -⟩
  · cases hnone.symm.trans hd
  · rw [hfloor, zpow_zero, mul_one, ← hvalue] at htakes
    exact htakes x.takes_value

include hx

theorem Binary.magnitude_pos : 0 < x.magnitude := by
  have hone : (1 : ℚ) ≤ n := by
    have hpos := hx.value_pos
    rw [hvalue] at hpos
    exact_mod_cast hpos
  have hhigh := (magnitude_bounds hx).2
  rw [hvalue] at hhigh
  by_contra! hle
  exact absurd (hone.trans_lt hhigh) (zpow_le_one_of_nonpos₀ (by norm_num) hle).not_gt

theorem Binary.shortest_exponent (tie : Tie) : 0 ≤ (x.shortest tie).exponent := by
  obtain ⟨j, -, hfound, hbefore⟩ := exists_found hx tie
  have hpos := magnitude_pos hx hvalue
  have hgrid : j + 1 ≤ x.magnitude := by
    by_contra! hfine
    have hnone := hbefore (x.magnitude - 1).toNat (by omega)
    have hunits : x.magnitude - ((x.magnitude - 1).toNat + 1) = 0 := by omega
    rw [hunits] at hnone
    exact pointOn_whole hvalue tie hnone
  have := hfound.exponent
  omega

/-- Where the gaps are no wider than one, the shortest decimal of a whole number is that number. -/
theorem Binary.shortest_whole (tie : Tie) (hgap : x.exponent ≤ 0) :
    (x.shortest tie).value = n ∧ 0 ≤ (x.shortest tie).exponent := by
  obtain ⟨j, -, hfound, -⟩ := exists_found hx tie
  have hexponent := shortest_exponent hx hvalue tie
  have hwhole : (x.shortest tie).value =
      ((x.shortest tie).digits * 10 ^ (x.shortest tie).exponent.toNat : Nat) := by
    rw [Scaled.value]
    nth_rewrite 1 [← Int.toNat_of_nonneg hexponent]
    push_cast
    rw [zpow_natCast]
  have hgap : (2 : ℚ) ^ x.exponent ≤ 1 := zpow_le_one_of_nonpos₀ (by norm_num) hgap
  have hnear := hfound.takes.near
  rw [hvalue, hwhole] at hnear
  obtain ⟨hlow, hhigh⟩ := abs_le.mp hnear
  have hsame : (x.shortest tie).digits * 10 ^ (x.shortest tie).exponent.toNat = n :=
    eq_of_near (by linarith) (by linarith)
  exact ⟨by rw [hwhole, hsame], hexponent⟩

end Whole

end SingleTape.Decimal

import SingleTape.Proofs.Decimal.Range
import SingleTape.Proofs.Decimal.Shortest
import SingleTape.Proofs.Json.Numerals
import SingleTape.Proofs.Json.Reads

/-!
Written doubles. A positive double is written by its shortest digits and read by those digits, in
two roundings: of the digits to a double, and of that double scaled by a power of ten.
-/

namespace SingleTape.Json

open Decimal (Scaled natural)
open Grammar (Digits isDigit_iff)

variable {d : Scaled} {ds cs : List Char} {k : Nat}

/-- The decimal that the text of a double is read as: the `.0` of a whole number is one more digit.
-/
def asRead (d : Scaled) : Scaled :=
  if numberLayout.positional ((natural d.digits).length + d.exponent - 1) && 0 ≤ d.exponent then
    ⟨d.digits * 10 ^ (d.exponent.toNat + 1), -1⟩
  else d

structure Numeral.Spells (n : Numeral) (d : Scaled) : Prop where
  positive : n.negative = false
  double : n.fraction ≠ [] ∨ n.exponent ≠ none
  digits : Decimal.value (n.whole ++ n.fraction) = d.digits
  exponent : n.exponent.getD 0 - n.fraction.length = d.exponent

theorem digits_zeros (k : Nat) : ∀ c ∈ List.replicate k '0', '0' ≤ c ∧ c ≤ '9' := by
  intro c hc
  obtain rfl := List.eq_of_mem_replicate hc
  decide

theorem not_zero_cons {n : Nat} (h : 0 < n) : natural n ≠ '0' :: ds := by
  intro heq
  have := eq_zero_of_natural_eq_cons heq
  omega

theorem value_append_zeros (ds : List Char) (k : Nat) :
    Decimal.value (ds ++ List.replicate k '0') = Decimal.value ds * 10 ^ k := by
  rw [Decimal.value, Nat.ofDigitChars_append, Nat.ofDigitChars_replicate_zero, mul_comm]
  rfl

theorem value_zeros_append (k : Nat) (ds : List Char) :
    Decimal.value (List.replicate k '0' ++ ds) = Decimal.value ds := by
  rw [Decimal.value, Nat.ofDigitChars_append, Nat.ofDigitChars_replicate_zero, mul_zero]
  rfl

theorem spells_whole (hd : 0 < d.digits) :
    ∃ n : Numeral, n.Spells ⟨d.digits * 10 ^ (d.exponent.toNat + 1), -1⟩ ∧
      n.Text (natural d.digits ++ List.replicate d.exponent.toNat '0' ++ ['.', '0']) := by
  refine ⟨⟨false, natural d.digits ++ List.replicate d.exponent.toNat '0', ['0'], none⟩,
    ⟨rfl, .inl (by simp), ?_, rfl⟩, ⟨⟨?_, ?_⟩, ?_, ?_, [], .none, ?_⟩⟩
  · have hzeros : List.replicate d.exponent.toNat '0' ++ ['0'] =
        List.replicate (d.exponent.toNat + 1) '0' := List.replicate_succ'.symm
    dsimp only
    rw [List.append_assoc, hzeros, value_append_zeros, Decimal.value_natural]
  · simp [natural_ne_nil]
  · intro c hc
    rcases List.mem_append.mp hc with hc | hc
    · exact (digits_natural _).2 c hc
    · exact digits_zeros _ c hc
  · intro ds hds
    obtain ⟨c, cs, hcs⟩ := List.exists_cons_of_ne_nil (natural_ne_nil d.digits)
    dsimp only at hds
    rw [hcs, List.cons_append] at hds
    obtain ⟨rfl, -⟩ := List.cons.inj hds
    exact absurd hcs (not_zero_cons hd)
  · simp
  · simp [fractionText]

theorem spells_among (hd : 0 < d.digits) (he : d.exponent < 0)
    (hpoint : 0 < (natural d.digits).length + d.exponent) :
    ∃ n : Numeral, n.Spells d ∧
      n.Text ((natural d.digits).take ((natural d.digits).length + d.exponent).toNat ++
        '.' :: (natural d.digits).drop ((natural d.digits).length + d.exponent).toNat) := by
  generalize hk : ((natural d.digits).length + d.exponent).toNat = k
  have hne : (natural d.digits).drop k ≠ [] := by
    intro h
    have := List.drop_eq_nil_iff.mp h
    omega
  refine ⟨⟨false, (natural d.digits).take k, (natural d.digits).drop k, none⟩,
    ⟨rfl, .inl hne, ?_, ?_⟩, ⟨⟨?_, ?_⟩, ?_, ?_, [], .none, ?_⟩⟩
  · dsimp only
    rw [List.take_append_drop, Decimal.value_natural]
  · simp only [Option.getD_none, List.length_drop]
    omega
  · intro h
    dsimp only at h
    have := congrArg List.length h
    simp only [List.length_take, List.length_nil] at this
    omega
  · exact fun c hc => (digits_natural _).2 c (List.mem_of_mem_take hc)
  · intro ds hds
    dsimp only at hds
    have hall := List.take_append_drop k (natural d.digits)
    rw [hds] at hall
    exact absurd hall.symm (not_zero_cons hd)
  · exact fun c hc => (digits_natural _).2 c (List.mem_of_mem_drop hc)
  · simp [fractionText_of_ne_nil hne]

theorem spells_below (d : Scaled) (hpoint : (natural d.digits).length + d.exponent ≤ 0) :
    ∃ n : Numeral, n.Spells d ∧
      n.Text ('0' :: '.' :: List.replicate (-((natural d.digits).length + d.exponent)).toNat '0' ++
        natural d.digits) := by
  generalize hk : (-((natural d.digits).length + d.exponent)).toNat = k
  have hne : List.replicate k '0' ++ natural d.digits ≠ [] := by simp [natural_ne_nil]
  refine ⟨⟨false, ['0'], List.replicate k '0' ++ natural d.digits, none⟩,
    ⟨rfl, .inl hne, ?_, ?_⟩, ⟨⟨by simp, by simp⟩, by simp, ?_, [], .none, ?_⟩⟩
  · have hzeros : ['0'] ++ (List.replicate k '0' ++ natural d.digits) =
        List.replicate (k + 1) '0' ++ natural d.digits := rfl
    dsimp only
    rw [hzeros, value_zeros_append, Decimal.value_natural]
  · simp only [Option.getD_none, List.length_append, List.length_replicate]
    omega
  · intro c hc
    rcases List.mem_append.mp hc with hc | hc
    · exact digits_zeros _ c hc
    · exact (digits_natural _).2 c hc
  · simp [fractionText_of_ne_nil hne]

theorem exponentText_integer (i : Int) : ExponentText (some i)
    ('e' :: ((if numberLayout.plusSign && 0 ≤ i then ['+'] else []) ++ Decimal.integer i)) := by
  rw [Decimal.integer]
  by_cases hi : i < 0
  · have hplus : (numberLayout.plusSign && decide (0 ≤ i)) = false := by simp [hi]
    have htext := ExponentText.some (.inl rfl : 'e' = 'e' ∨ _) .minus (digits_natural i.natAbs)
    have hvalue : -(i.natAbs : Int) = i := by omega
    rw [if_pos rfl, Decimal.value_natural, hvalue] at htext
    rw [hplus, if_pos hi]
    exact htext
  · have hplus : (numberLayout.plusSign && decide (0 ≤ i)) = true := by
      simp [numberLayout, not_lt.mp hi]
    have htext := ExponentText.some (.inl rfl : 'e' = 'e' ∨ _) .plus (digits_natural i.natAbs)
    have hvalue : (i.natAbs : Int) = i := by omega
    rw [if_neg Bool.false_ne_true, Decimal.value_natural, hvalue] at htext
    rw [hplus, if_neg hi]
    exact htext

theorem scientific_eq (digits : List Char) (lead : Int) : numberLayout.scientific digits lead =
    digits.take 1 ++ (fractionText (digits.drop 1) ++ 'e' ::
      ((if numberLayout.plusSign && 0 ≤ lead then ['+'] else []) ++ Decimal.integer lead)) := by
  rw [Decimal.Layout.scientific, List.append_assoc]
  rfl

theorem spells_scientific (d : Scaled) :
    ∃ n : Numeral, n.Spells d ∧ n.Text (numberLayout.scientific (natural d.digits)
      ((natural d.digits).length + d.exponent - 1)) := by
  have hlength : 0 < (natural d.digits).length := List.length_pos_iff.mpr (natural_ne_nil _)
  refine ⟨⟨false, (natural d.digits).take 1, (natural d.digits).drop 1,
      some ((natural d.digits).length + d.exponent - 1)⟩,
    ⟨rfl, .inr (by simp), ?_, ?_⟩, ⟨⟨?_, ?_⟩, ?_, ?_, _, exponentText_integer _, scientific_eq ..⟩⟩
  · dsimp only
    rw [List.take_append_drop, Decimal.value_natural]
  · simp only [Option.getD_some, List.length_drop]
    omega
  · simp [natural_ne_nil]
  · exact fun c hc => (digits_natural _).2 c (List.mem_of_mem_take hc)
  · intro ds hds
    obtain ⟨c, cs, hcs⟩ := List.exists_cons_of_ne_nil (natural_ne_nil d.digits)
    simp only [hcs, List.take_succ_cons, List.take_zero, List.cons.injEq] at hds
    exact hds.2.symm
  · exact fun c hc => (digits_natural _).2 c (List.mem_of_mem_drop hc)

theorem exists_spells (hd : 0 < d.digits) :
    ∃ n : Numeral, n.Spells (asRead d) ∧ n.Text (numberLayout.scaled d) := by
  rw [asRead, Decimal.Layout.scaled]
  generalize hlead : ((natural d.digits).length + d.exponent - 1 : Int) = lead
  cases numberLayout.positional lead with
  | false =>
    rw [if_neg Bool.false_ne_true, ← hlead]
    exact spells_scientific d
  | true =>
    rw [if_pos rfl, Decimal.Layout.plain]
    by_cases he : 0 ≤ d.exponent
    · rw [if_pos he, if_pos (by simp [he])]
      exact spells_whole hd
    · rw [if_neg he, if_neg (by simpa using he)]
      split
      · exact spells_among hd (not_le.mp he) ‹_›
      · exact spells_below d (not_lt.mp ‹_›)

/-- As long as no digit is dropped, the digits are made a double and scaled by the exponent. -/
theorem Numeral.Spells.value {n : Numeral} (h : n.Spells d) (hsize : d.digits < UInt64.size) :
    n.value = (scale (Float.ofNat d.digits) d.exponent).map Number.double := by
  have hdigits := h.digits
  rw [Decimal.value, Nat.ofDigitChars_append] at hdigits
  have hwhole : absorb 0 n.whole = (Nat.ofDigitChars 10 n.whole 0, []) :=
    absorb_eq (lt_of_le_of_lt (le_ofDigitChars _ n.fraction) (hdigits ▸ hsize))
  have hfraction : absorb (Nat.ofDigitChars 10 n.whole 0) n.fraction = (d.digits, []) := by
    rw [← hdigits]
    exact absorb_eq (hdigits ▸ hsize)
  have hdouble : ¬ (n.fraction = [] ∧ n.exponent = none) := by
    rcases h.double with hne | hne <;> simp [hne]
  have hexponent : ((0 : Nat) : Int) - (n.fraction.length - (0 : Nat)) + n.exponent.getD 0 =
      d.exponent := by
    have := h.exponent
    omega
  have hsigned : n.signed = Number.double := by
    funext x
    rw [signed, h.positive]
    rfl
  simp only [Numeral.value, hwhole, if_neg hdouble, hfraction, List.length_nil, hexponent, hsigned]

/-- The text of a positive double is read as its shortest decimal, rounded twice: its digits are
made a double, and that double is scaled. -/
theorem takeNumber_magnitude {wanted : Wanted} (hd : 0 < d.digits)
    (hsize : (asRead d).digits < UInt64.size) :
    takeNumber wanted (numberLayout.scaled d) =
      (scale (Float.ofNat (asRead d).digits) (asRead d).exponent).map fun x => (.double x, []) := by
  obtain ⟨n, hspells, htext⟩ := exists_spells hd
  rw [takeNumber_text ⟨_, htext, by rw [hspells.positive]; rfl⟩, hspells.value hsize]
  cases scale (Float.ofNat (asRead d).digits) (asRead d).exponent <;> rfl

open Decimal (Binary Stands WellInRange)

variable {x : Float}

def shortest (x : Float) : Scaled := (Binary.ofBits x.toBits).shortest .toEven

/-- The decimal that is read from the text of a double. -/
def reread (x : Float) : Scaled := asRead (shortest x)

theorem writeDouble_eq (h : x.isFinite = true) (hpos : 0 < x) :
    writeDouble x = numberLayout.scaled (shortest x) := by
  have hx := Decimal.stands_of_pos h hpos
  have hzero : ¬ (x == 0) = true := by simp [hx.ne_zero]
  have hsign : (x.toBits >>> 63 == 1 && !x.isNaN) = false := by rw [hx.sign_bit]; rfl
  rw [writeDouble, if_pos h, Decimal.Layout.text, hsign, if_neg Bool.false_ne_true,
    Decimal.Layout.magnitude, hx.isNaN, if_neg Bool.false_ne_true, hx.isInf,
    if_neg Bool.false_ne_true, if_neg hzero]
  rfl

theorem asRead_digits (h : d.digits ≤ 10 ^ 17) : (asRead d).digits < UInt64.size := by
  have hsize : UInt64.size = 18446744073709551616 := rfl
  rw [asRead]
  split
  · next hwhole =>
    -- positional text has at most sixteen digits in front of the point
    simp only [numberLayout, Bool.and_eq_true, decide_eq_true_eq] at hwhole
    have hdigits : d.digits * 10 ^ (d.exponent.toNat + 1) <
        10 ^ ((natural d.digits).length + (d.exponent.toNat + 1)) := by
      rw [pow_add 10 (natural d.digits).length]
      exact Nat.mul_lt_mul_of_pos_right (Decimal.length_natural d.digits).1
        (pow_pos (by decide : 0 < 10) _)
    have hlength : 10 ^ ((natural d.digits).length + (d.exponent.toNat + 1)) ≤ 10 ^ 17 :=
      Nat.pow_le_pow_right (by decide) (by omega)
    dsimp only
    omega
  · omega

theorem reread_digits (h : x.isFinite = true) (hpos : 0 < x) :
    0 < (shortest x).digits ∧ (reread x).digits < UInt64.size := by
  have hx := (Decimal.stands_of_pos h hpos).canonical
  obtain ⟨n, hn, hfound, -⟩ := Binary.exists_found hx .toEven
  constructor
  · have hvalue : 0 < (shortest x).value := hfound.takes.pos hx
    by_contra! hzero
    rw [Scaled.value, Nat.le_zero.mp hzero, Nat.cast_zero, zero_mul] at hvalue
    exact lt_irrefl _ hvalue
  · apply asRead_digits
    exact hfound.digits.trans (Nat.pow_le_pow_right (by decide) (by omega))

variable {m : Nat} {e : Int} {b : Binary}

/-- A double holds the number: it has at most 53 bits in front of its zeros. -/
def Holds (m : Nat) : Prop := ∃ n k, n < 2 ^ 53 ∧ m = n * 2 ^ k

theorem tenTo_eq : ∀ k : Fin 23, tenTo k = Float.ofNat (5 ^ k.val * 2 ^ k.val) := by
  decide +kernel

theorem five_pow_lt (hk : k ≤ 22) : 5 ^ k < 2 ^ 53 :=
  calc 5 ^ k ≤ 5 ^ 22 := Nat.pow_le_pow_right (by decide) hk
    _ < 2 ^ 53 := by decide

theorem stands_tenTo (hk : k ≤ 22) : Stands (tenTo k) (Binary.whole (5 ^ k) k) := by
  rw [tenTo_eq ⟨k, by omega⟩]
  exact Decimal.stands_whole (by positivity) (five_pow_lt hk) (by omega)

theorem value_tenTo (hk : k ≤ 22) : (Binary.whole (5 ^ k) k).value = 10 ^ k := by
  rw [Binary.value_whole (by positivity) (five_pow_lt hk)]
  push_cast
  rw [← mul_pow]
  norm_num

/-- Digits that a double holds, scaled by a power of ten that a double holds, are rounded once. -/
theorem scale_ofNat (hpos : 0 < m) (hm : Holds m) (hsize : m < UInt64.size) (he : e.natAbs ≤ 22)
    (hx : Stands x b) (hv : b.Takes (m * 10 ^ e)) : scale (Float.ofNat m) e = .ok x := by
  obtain ⟨n, k, hn, rfl⟩ := hm
  have hnpos : 0 < n := Nat.pos_of_mul_pos_right hpos
  have hk : k < 64 :=
    (Nat.pow_lt_pow_iff_right (by decide)).mp ((Nat.le_mul_of_pos_left _ hnpos).trans_lt hsize)
  have hdigits := Decimal.stands_whole hnpos hn (k := k) (by omega)
  have hten := stands_tenTo he
  have hfull := Binary.full_whole hnpos hn (k := k)
  have hfull' := Binary.full_whole (k := e.natAbs) (by positivity) (five_pow_lt he)
  rw [Nat.cast_mul, Nat.cast_pow, Nat.cast_ofNat, ← Binary.value_whole hnpos hn] at hv
  rw [scale, if_pos (by omega)]
  by_cases hneg : e < 0
  · have hpower : (10 : ℚ) ^ e = (10 ^ e.natAbs)⁻¹ := by
      rw [← zpow_natCast, ← zpow_neg]
      congr 1
      omega
    rw [hpower, ← div_eq_mul_inv, ← value_tenTo he] at hv
    have hexponents : -1021 ≤ (Binary.whole n k).exponent -
        (Binary.whole (5 ^ e.natAbs) e.natAbs).exponent := by
      have hlog : (5 ^ e.natAbs).log2 < 53 :=
        (Nat.log2_lt (by positivity)).mpr (five_pow_lt he)
      change (-1021 : Int) ≤ k + n.log2 - 52 - (e.natAbs + (5 ^ e.natAbs).log2 - 52)
      omega
    have hquotient := hdigits.div hten hfull.1 hfull'.1 hexponents hx.canonical hv
    rw [if_pos hneg, hquotient.unique hx]
  · have hpower : (10 : ℚ) ^ e = 10 ^ e.natAbs := by
      rw [← zpow_natCast]
      congr 1
      omega
    rw [hpower, ← value_tenTo he] at hv
    have hproduct := (hdigits.mul hten hfull.1 hx.canonical hv).unique hx
    rw [if_neg hneg, hproduct, hx.isInf]
    rfl

theorem asRead_value (d : Scaled) : (asRead d).value = d.value := by
  rw [asRead]
  split
  · next hwhole =>
    have hexponent : 0 ≤ d.exponent := by
      rw [Bool.and_eq_true] at hwhole
      exact of_decide_eq_true hwhole.2
    have hpower : (10 : ℚ) ^ d.exponent = 10 ^ d.exponent.toNat := by
      rw [← zpow_natCast, Int.toNat_of_nonneg hexponent]
    rw [Scaled.value, Scaled.value, hpower]
    push_cast
    rw [pow_succ, zpow_neg_one]
    ring
  · rfl

theorem takeNumber_written {wanted : Wanted} (h : x.isFinite = true) (hpos : 0 < x) :
    takeNumber wanted (writeDouble x) =
      (scale (Float.ofNat (reread x).digits) (reread x).exponent).map fun y => (.double y, []) := by
  obtain ⟨hdigits, hsize⟩ := reread_digits h hpos
  rw [writeDouble_eq h hpos]
  exact takeNumber_magnitude hdigits hsize

/-- The decimal that is read has the double as the nearest one. -/
theorem takes_reread (h : x.isFinite = true) (hpos : 0 < x) :
    (Binary.ofBits x.toBits).Takes ((reread x).digits * 10 ^ (reread x).exponent) ∧
      0 < (reread x).digits := by
  have hx := (Decimal.stands_of_pos h hpos).canonical
  obtain ⟨n, -, hfound, -⟩ := Binary.exists_found hx .toEven
  have htakes : (Binary.ofBits x.toBits).Takes (reread x).value := by
    rw [reread, asRead_value]
    exact hfound.takes
  refine ⟨htakes, ?_⟩
  by_contra! hzero
  have hvalue := htakes.pos hx
  rw [Scaled.value, Nat.le_zero.mp hzero, Nat.cast_zero, zero_mul] at hvalue
  exact lt_irrefl _ hvalue

/-- A double that is read in one rounding is read as itself. -/
theorem scale_reread (h : x.isFinite = true) (hpos : 0 < x) (hdigits : Holds (reread x).digits)
    (hexponent : (reread x).exponent.natAbs ≤ 22) :
    scale (Float.ofNat (reread x).digits) (reread x).exponent = .ok x := by
  obtain ⟨htakes, hnonzero⟩ := takes_reread h hpos
  exact scale_ofNat hnonzero hdigits (reread_digits h hpos).2 hexponent
    (Decimal.stands_of_pos h hpos) htakes

theorem positional_whole {digits k n : Nat} (hn : 0 < n) (hsize : n < 10 ^ 16)
    (hdigits : digits * 10 ^ k = n) :
    numberLayout.positional ((natural digits).length + (k : Int) - 1) = true := by
  have hlength : 0 < (natural digits).length := List.length_pos_iff.mpr (natural_ne_nil _)
  have hpos : 0 < digits := by
    by_contra! hzero
    rw [Nat.le_zero.mp hzero, zero_mul] at hdigits
    omega
  have hbound : 10 ^ ((natural digits).length - 1 + k) < 10 ^ 16 := by
    rw [pow_add]
    have hfirst := (Decimal.length_natural digits).2 hpos
    have := Nat.mul_le_mul_right (10 ^ k) hfirst
    omega
  have := (Nat.pow_lt_pow_iff_right (by decide)).mp hbound
  simp only [numberLayout, Bool.and_eq_true, decide_eq_true_eq]
  omega

/-- The shortest decimal of a whole number that a double holds exactly is that number, with an
exponent that is not negative. -/
theorem shortest_ofNat {n : Nat} (hn : 0 < n) (hfits : n < 2 ^ 53) :
    ∃ k : Nat, (shortest (Float.ofNat n)).exponent = k ∧
      (shortest (Float.ofNat n)).digits * 10 ^ k = n := by
  have hwhole : Stands (Float.ofNat n) (Binary.whole n 0) := by
    have := Decimal.stands_whole hn hfits (k := 0) (by decide)
    rwa [pow_zero, mul_one] at this
  obtain ⟨hcanonical, hsignificand, hexponent⟩ := Decimal.ofBits_of_unpack hwhole.unpack
  have hvalue : (Binary.ofBits (Float.ofNat n).toBits).value = n := by
    have := Binary.value_whole hn hfits (k := 0)
    rw [pow_zero, mul_one] at this
    rw [← this, Binary.value, Binary.value, ← hsignificand, ← hexponent]
    rfl
  have hgap : (Binary.ofBits (Float.ofNat n).toBits).exponent ≤ 0 := by
    have hlog : n.log2 < 53 := (Nat.log2_lt hn.ne').mpr hfits
    refine hexponent.trans_le ?_
    change ((0 : Nat) : Int) + n.log2 - 52 ≤ 0
    omega
  obtain ⟨hshortest, hpoint⟩ := Binary.shortest_whole hcanonical hvalue .toEven hgap
  change (shortest (Float.ofNat n)).value = n at hshortest
  change 0 ≤ (shortest (Float.ofNat n)).exponent at hpoint
  obtain ⟨k, hk⟩ := Int.eq_ofNat_of_zero_le hpoint
  refine ⟨k, hk, ?_⟩
  rw [Scaled.value, hk, zpow_natCast] at hshortest
  exact_mod_cast hshortest

theorem reread_ofNat {n : Nat} (hn : 0 < n) (hsize : 10 * n < 2 ^ 54) :
    reread (Float.ofNat n) = ⟨10 * n, -1⟩ := by
  obtain ⟨k, hk, hdigits⟩ := shortest_ofNat hn (by omega)
  have hpositional := positional_whole hn (by omega) hdigits
  rw [reread, asRead, hk, hpositional, if_pos (by simp), Int.toNat_natCast, pow_succ, ← mul_assoc,
    hdigits, mul_comm]

theorem exists_scale_of_neg (x : Float) (he : e < 0) : ∃ y, scale x e = .ok y := by
  fun_induction scale x e with
  | case1 => exact ⟨_, rfl⟩
  | case2 | case3 => exact absurd he ‹_›
  | case4 => exact ⟨_, rfl⟩
  | case5 => omega
  | case6 x e hlarge hzero hneg ih => exact ih (by omega)

theorem exists_scale_of_isInf (hk : k ≤ 308) (h : (x * tenTo k).isInf = false) :
    ∃ y, scale x k = .ok y := by
  rw [scale, Int.natAbs_natCast, if_pos hk, if_neg (by omega), h, if_neg Bool.false_ne_true]
  exact ⟨_, rfl⟩

theorem exists_stands_tenTo (hk : k ≤ 308) :
    ∃ q, Stands (tenTo k) q ∧ q.Takes (10 ^ k) ∧ 2 ^ 52 ≤ q.significand := by
  by_cases hsmall : k ≤ 22
  · have htakes := (Binary.whole (5 ^ k) k).takes_value
    rw [value_tenTo hsmall] at htakes
    exact ⟨_, stands_tenTo hsmall, htakes,
      (Binary.full_whole (by positivity) (five_pow_lt hsmall)).1⟩
  · obtain ⟨q, hq, htakes, hfull⟩ := (Decimal.inRange_ten_pow hk).exists_takes
    refine ⟨q, ?_, htakes, hfull⟩
    rw [tenTo, Float.ofScientific, dif_neg (by omega), if_neg Bool.false_ne_true]
    apply Decimal.stands_modelOfScientific one_pos (by omega) hq
    rwa [Nat.cast_one, one_mul]

theorem exists_scale (hm : 0 < m) (h : WellInRange (m * 10 ^ k)) :
    ∃ y, scale (Float.ofNat m) k = .ok y := by
  have hdigits : (1 : ℚ) ≤ m := by exact_mod_cast hm
  have hpower : (1 : ℚ) ≤ 10 ^ k := one_le_pow₀ (by norm_num)
  have hk := h.ten_pow_le (le_mul_of_one_le_left (by positivity) hdigits)
  have hrange : WellInRange m :=
    ⟨hdigits, (le_mul_of_one_le_right (by positivity) hpower).trans h.2⟩
  obtain ⟨p, hp, hptakes, hpfull⟩ := hrange.inRange.exists_takes
  obtain ⟨q, hq, hqtakes, hqfull⟩ := exists_stands_tenTo hk
  exact exists_scale_of_isInf hk
    ((Decimal.stands_ofNat hm hp hptakes).mul_isInf hq hpfull hqfull hptakes hqtakes h)

/-- The two greatest doubles are so close to the end of the range that they are tried out. -/
theorem exists_scale_greatest (hx : Stands x b) (hexponent : b.exponent = 971)
    (hsignificand : 2 ^ 53 - 2 ≤ b.significand) :
    ∃ y, scale (Float.ofNat (reread x).digits) (reread x).exponent = .ok y := by
  have hbound := hx.canonical.significand
  have hunpack := hx.unpack
  obtain hs | hs : b.significand = 2 ^ 53 - 2 ∨ b.significand = 2 ^ 53 - 1 := by omega
  · have hgreat : x = Float.ofBits 0x7FEFFFFFFFFFFFFE := by
      apply Decimal.eq_of_unpack
      simp only [hunpack, hs, hexponent]
      rfl
    have hreread : reread x = ⟨17976931348623155, 292⟩ := by
      rw [hgreat]
      decide +kernel
    rw [hreread]
    exact exists_scale_of_isInf (by decide) (by decide +kernel)
  · have hgreatest : x = Float.ofBits 0x7FEFFFFFFFFFFFFF := by
      apply Decimal.eq_of_unpack
      simp only [hunpack, hs, hexponent]
      rfl
    have hreread : reread x = ⟨17976931348623157, 292⟩ := by
      rw [hgreatest]
      decide +kernel
    rw [hreread]
    exact exists_scale_of_isInf (by decide) (by decide +kernel)

theorem exists_scale_reread (h : x.isFinite = true) (hpos : 0 < x) :
    ∃ y, scale (Float.ofNat (reread x).digits) (reread x).exponent = .ok y := by
  have hx := Decimal.stands_of_pos h hpos
  obtain ⟨htakes, hdigits⟩ := takes_reread h hpos
  rcases lt_or_ge (reread x).exponent 0 with hneg | hnonneg
  · exact exists_scale_of_neg _ hneg
  · by_cases hgreatest : (Binary.ofBits x.toBits).exponent = 971 ∧
        2 ^ 53 - 2 ≤ (Binary.ofBits x.toBits).significand
    · exact exists_scale_greatest hx hgreatest.1 hgreatest.2
    · obtain ⟨k, hk⟩ := Int.eq_ofNat_of_zero_le hnonneg
      rw [hk, zpow_natCast] at htakes
      have hlow : (1 : ℚ) ≤ (reread x).digits * 10 ^ k :=
        one_le_mul_of_one_le_of_one_le (by exact_mod_cast hdigits) (one_le_pow₀ (by norm_num))
      rw [hk]
      exact exists_scale hdigits (htakes.wellInRange hx.canonical hlow hgreatest)

end SingleTape.Json

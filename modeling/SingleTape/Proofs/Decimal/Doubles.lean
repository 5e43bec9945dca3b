import SingleTape.Proofs.Decimal.Rounding

/-!
Doubles as bits and as numbers. A positive finite double stands for one number with a significand
and an exponent, which its bits hold and which it is unpacked into; no two of them stand for the
same.
-/

namespace SingleTape.Decimal

open Float.Model Float.Model.UnpackedFloat

variable {x y : Binary} {f g : Float} {v : ℚ}

theorem toNat_unpackMantissa (b : BitVec 64) :
    (@unpackMantissa Format.binary64 b).toNat = b.toNat % 2 ^ 52 := by
  simp [unpackMantissa]

theorem toNat_unpackExponent (b : BitVec 64) :
    (@unpackExponent Format.binary64 b).toNat = b.toNat / 2 ^ 52 % 2 ^ 11 := by
  simp [unpackExponent, Nat.shiftRight_eq_div_pow]

theorem toNat_unpackSign (b : BitVec 64) :
    (@unpackSign Format.binary64 b).toNat = b.toNat / 2 ^ 63 := by
  have := b.isLt
  simp [unpackSign, Nat.shiftRight_eq_div_pow]
  omega

theorem toNat_implicit (m : BitVec 52) : (1#1 ++ m).toNat = 2 ^ 52 + m.toNat := by
  rw [BitVec.toNat_append, ← Nat.shiftLeft_add_eq_or_of_lt m.isLt]
  rfl

theorem ofBits_eq (bits : UInt64) : Binary.ofBits bits =
    if bits.toNat / 2 ^ 52 % 2 ^ 11 = 0 then ⟨bits.toNat % 2 ^ 52, -1074, false⟩
    else ⟨2 ^ 52 + bits.toNat % 2 ^ 52, (bits.toNat / 2 ^ 52 % 2 ^ 11 : Nat) - 1075,
      bits.toNat % 2 ^ 52 == 0 && 1 < bits.toNat / 2 ^ 52 % 2 ^ 11⟩ := by
  have hexponent : ((bits >>> 52) &&& 0x7FF).toNat = bits.toNat / 2 ^ 52 % 2 ^ 11 := by
    simp only [UInt64.toNat_and, UInt64.toNat_shiftRight, Nat.shiftRight_eq_div_pow]
    exact Nat.and_two_pow_sub_one_eq_mod _ 11
  have hfraction : (bits &&& 0xFFFFFFFFFFFFF).toNat = bits.toNat % 2 ^ 52 := by
    rw [UInt64.toNat_and]
    exact Nat.and_two_pow_sub_one_eq_mod _ 52
  simp only [Binary.ofBits, hexponent, hfraction, beq_iff_eq]
  rfl

/-- The double is this positive number. -/
structure Stands (f : Float) (x : Binary) : Prop where
  canonical : x.Canonical
  unpack : f.toModel.unpack = .finite .positive x.significand x.exponent canonical.positive

theorem canonical_subnormal {fraction : Nat} (hpos : 0 < fraction) (h : fraction < 2 ^ 52) :
    Binary.Canonical ⟨fraction, -1074, false⟩ where
  positive := hpos
  significand := by dsimp only; omega
  least := le_rfl
  greatest := by dsimp only; omega
  full := .inr rfl
  narrow := by simp

theorem canonical_normal {fraction exponent : Nat} (h : fraction < 2 ^ 52) (hpos : exponent ≠ 0)
    (hlast : exponent < 2047) : Binary.Canonical
      ⟨2 ^ 52 + fraction, exponent - 1075, fraction == 0 && 1 < exponent⟩ where
  positive := by dsimp only; omega
  significand := by dsimp only; omega
  least := by dsimp only; omega
  greatest := by dsimp only; omega
  full := .inl (by dsimp only; omega)
  narrow := by
    simp only [Bool.and_eq_true, beq_iff_eq, decide_eq_true_eq]
    omega

theorem ofBits_of_unpack {bits : UInt64} {s : Sign} {m : Nat} {e : Int} {hm : 0 < m}
    (h : UnpackedFloat.unpack Format.binary64 bits.toBitVec = .finite s m e hm) :
    (Binary.ofBits bits).Canonical ∧ (Binary.ofBits bits).significand = m ∧
      (Binary.ofBits bits).exponent = e := by
  have hmantissa := toNat_unpackMantissa bits.toBitVec
  have hexponent := toNat_unpackExponent bits.toBitVec
  have himplicit := toNat_implicit (@unpackMantissa Format.binary64 bits.toBitVec)
  rw [UInt64.toNat_toBitVec] at hmantissa hexponent
  have hfraction : bits.toNat % 2 ^ 52 < 2 ^ 52 := Nat.mod_lt _ (by decide)
  have hbound : bits.toNat / 2 ^ 52 % 2 ^ 11 < 2 ^ 11 := Nat.mod_lt _ (by decide)
  unfold UnpackedFloat.unpack at h
  dsimp only at h
  rw [ofBits_eq, ← hmantissa, ← hexponent]
  rw [← hmantissa] at hfraction
  rw [← hexponent] at hbound
  split at h
  · split at h <;> cases h
  · next hlast =>
    split at h
    · next hzero =>
      split at h
      · cases h
      · cases h
        have hzero : (@unpackExponent Format.binary64 bits.toBitVec).toNat = 0 :=
          congrArg BitVec.toNat hzero
        rw [if_pos hzero, hzero]
        exact ⟨canonical_subnormal ‹_› hfraction, rfl, rfl⟩
    · next hzero =>
      cases h
      have hzero : (@unpackExponent Format.binary64 bits.toBitVec).toNat ≠ 0 :=
        fun h => hzero (BitVec.eq_of_toNat_eq h)
      have hlast : (@unpackExponent Format.binary64 bits.toBitVec).toNat ≠ 2047 :=
        fun h => hlast (BitVec.eq_of_toNat_eq h)
      rw [if_neg hzero]
      exact ⟨canonical_normal hfraction hzero (by omega), himplicit.symm, rfl⟩

/-- A positive finite double is the number that its bits say. -/
theorem stands_of_pos (h : f.isFinite = true) (hpos : 0 < f) :
    Stands f (Binary.ofBits f.toBits) := by
  have hless : Float.Model.lt (0 : Float).toModel f.toModel = true := of_decide_eq_true hpos
  have hzero : (0 : Float).toModel.unpack = .zero .positive := rfl
  change f.toModel.unpack.isFinite = true at h
  rw [Float.Model.lt, hzero] at hless
  cases hf : f.toModel.unpack with
  | notANumber => rw [hf] at h; cases h
  | infinity s => rw [hf] at h; cases h
  | zero s => rw [hf] at hless; cases hless
  | finite s m e hm =>
    cases s with
    | negative => rw [hf] at hless; cases hless
    | positive =>
      obtain ⟨hcanonical, rfl, rfl⟩ := ofBits_of_unpack hf
      exact ⟨hcanonical, hf⟩

theorem sign_of_unpack {bits : UInt64} {s : Sign} {m : Nat} {e : Int} {hm : 0 < m}
    (h : UnpackedFloat.unpack Format.binary64 bits.toBitVec = .finite s m e hm) :
    Sign.ofBitVec (@unpackSign Format.binary64 bits.toBitVec) = s := by
  unfold UnpackedFloat.unpack at h
  dsimp only at h
  split at h
  · split at h <;> cases h
  · split at h
    · split at h <;> cases h
      rfl
    · cases h
      rfl

theorem Stands.sign_bit (h : Stands f x) : (f.toBits >>> 63 == 1) = false := by
  have hsign : (@unpackSign Format.binary64 f.toBits.toBitVec).toNat = 0 := by
    have hpositive := sign_of_unpack h.unpack
    rw [Sign.ofBitVec] at hpositive
    split at hpositive
    · exact congrArg BitVec.toNat ‹_›
    · cases hpositive
  rw [toNat_unpackSign, UInt64.toNat_toBitVec] at hsign
  rw [beq_eq_false_iff_ne]
  intro hone
  have hbits := congrArg UInt64.toNat hone
  rw [UInt64.toNat_shiftRight, Nat.shiftRight_eq_div_pow] at hbits
  exact Nat.one_ne_zero (hbits.symm.trans hsign)

theorem Stands.isNaN (h : Stands f x) : f.isNaN = false := by
  rw [Float.isNaN, Float.Model.isNaN, h.unpack]
  rfl

theorem Stands.isInf (h : Stands f x) : f.isInf = false := by
  rw [Float.isInf, Float.Model.isInf, h.unpack]
  rfl

theorem Stands.ne_zero (h : Stands f x) : (f == 0) = false := by
  change Float.Model.beq f.toModel (0 : Float).toModel = false
  have hzero : (0 : Float).toModel.unpack = .zero .positive := rfl
  rw [Float.Model.beq, h.unpack, hzero]
  rfl

theorem log2_full_iff {m : Nat} (hpos : 0 < m) (h : m < 2 ^ 53) :
    m.log2 + 1 = Format.binary64.mantissaBits ↔ 2 ^ 52 ≤ m := by
  have hlow := Nat.le_log2 (k := 52) hpos.ne'
  have hhigh := (Nat.log2_lt hpos.ne').mpr h
  change m.log2 + 1 = 53 ↔ _
  omega

theorem pack_subnormal {s : Sign} {m : Nat} (hpos : 0 < m) (h : m < 2 ^ 52) :
    UnpackedFloat.pack Format.binary64 (.finite s m (-1074) hpos) =
      packComponents Format.binary64 s 0#11 (BitVec.ofNat 52 m) := by
  have hlog : ¬ m.log2 + 1 = Format.binary64.mantissaBits := by
    rw [log2_full_iff hpos (by omega)]
    omega
  unfold UnpackedFloat.pack
  rw [if_neg (by decide), if_neg hlog]

theorem pack_normal {s : Sign} {m exponent : Nat} (hpos : 0 < m) (hfull : 2 ^ 52 ≤ m)
    (h : m < 2 ^ 53) (hlast : exponent < 2047) :
    UnpackedFloat.pack Format.binary64 (.finite s m (exponent - 1075) hpos) =
      packComponents Format.binary64 s (BitVec.ofNat 11 exponent) (BitVec.ofNat 52 m) := by
  have hbiased : ((exponent : Int) - 1075 + Format.binary64.exponentBias + (52 : Nat)).toNat =
      exponent := by
    change ((exponent : Int) - 1075 + (1023 : Nat) + (52 : Nat)).toNat = exponent
    omega
  unfold UnpackedFloat.pack
  dsimp only
  rw [hbiased, if_neg (by omega), if_pos ((log2_full_iff hpos h).mpr hfull)]

theorem unpack_normal {m exponent : Nat} (hpos : 0 < m) (hfull : 2 ^ 52 ≤ m) (h : m < 2 ^ 53)
    (hzero : exponent ≠ 0) (hlast : exponent < 2047) :
    UnpackedFloat.unpack Format.binary64 (packComponents Format.binary64 .positive
      (BitVec.ofNat 11 exponent) (BitVec.ofNat 52 m)) =
      .finite .positive m (exponent - 1075) hpos := by
  have hfield : (BitVec.ofNat 11 exponent).toNat = exponent := Nat.mod_eq_of_lt (by omega)
  have hlast : BitVec.ofNat 11 exponent ≠ -1#11 := by
    intro h
    have : exponent = 2047 := hfield.symm.trans (congrArg BitVec.toNat h)
    omega
  have hzero : BitVec.ofNat 11 exponent ≠ 0#11 :=
    fun h => hzero (hfield.symm.trans (congrArg BitVec.toNat h))
  have himplicit : (1#1 ++ BitVec.ofNat 52 m).toNat = m := by
    rw [toNat_implicit, BitVec.toNat_ofNat]
    omega
  unfold UnpackedFloat.unpack
  simp only [unpackMantissa_packComponents, unpackExponent_packComponents,
    unpackSign_packComponents, Sign.ofBitVec_toBitVec, if_neg hlast, if_neg hzero, himplicit,
    hfield]
  rfl

theorem unpack_subnormal {m : Nat} (hpos : 0 < m) (h : m < 2 ^ 52) :
    UnpackedFloat.unpack Format.binary64 (packComponents Format.binary64 .positive 0#11
      (BitVec.ofNat 52 m)) = .finite .positive m (-1074) hpos := by
  have hfield : (BitVec.ofNat 52 m).toNat = m := Nat.mod_eq_of_lt (by omega)
  have hzero : BitVec.ofNat 52 m ≠ 0#52 :=
    fun h => hpos.ne' (hfield.symm.trans (congrArg BitVec.toNat h))
  unfold UnpackedFloat.unpack
  simp only [unpackMantissa_packComponents, unpackExponent_packComponents,
    unpackSign_packComponents, Sign.ofBitVec_toBitVec, dif_neg hzero, hfield]
  rfl

theorem stands_pack (hx : x.Canonical) : Stands
    (.ofModel (.pack (.finite .positive x.significand x.exponent hx.positive))) x := by
  refine ⟨hx, ?_⟩
  change UnpackedFloat.unpack Format.binary64 (UnpackedFloat.pack Format.binary64 _) = _
  have hleast := hx.least
  have hgreatest := hx.greatest
  by_cases hfull : 2 ^ 52 ≤ x.significand
  · obtain ⟨exponent, he⟩ : ∃ exponent : Nat, x.exponent = exponent - 1075 :=
      ⟨(x.exponent + 1075).toNat, by omega⟩
    simp only [he]
    rw [pack_normal hx.positive hfull hx.significand (by omega)]
    exact unpack_normal hx.positive hfull hx.significand (by omega) (by omega)
  · simp only [hx.full.resolve_left hfull]
    rw [pack_subnormal hx.positive (not_le.mp hfull)]
    exact unpack_subnormal hx.positive (not_le.mp hfull)

/-- No bits are lost by unpacking. -/
theorem modelPack_unpack (b : Float.Model) : Float.Model.pack b.unpack = b := by
  rcases b with ⟨bits, valid⟩
  simp only [Float.Model.pack, Float.Model.unpack, pack_unpack_of_valid valid]

theorem eq_of_unpack (h : f.toModel.unpack = g.toModel.unpack) : f = g := by
  have hmodel : f.toModel = g.toModel := by
    rw [← modelPack_unpack f.toModel, h, modelPack_unpack]
  cases f
  cases g
  exact congrArg Float.ofModel hmodel

/-- No two doubles stand for the same positive number. -/
theorem Stands.unique (hf : Stands f x) (hg : Stands g x) : f = g :=
  eq_of_unpack (hf.unpack.trans hg.unpack.symm)

end SingleTape.Decimal

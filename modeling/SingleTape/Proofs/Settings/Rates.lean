import SingleTape.Proofs.Json.Doubles
import SingleTape.Proofs.Settings.Export
import SingleTape.Proofs.Settings.Validity

/-!
Rates that are exported and imported again. A rate is read in two roundings, of its digits and of
the scaled digits; where the first one is exact it comes back as it was.
-/

namespace SingleTape.Settings

open Json

variable {s : Settings} {rate : Float}

theorem reads_written (h : s.rateLimit.isFinite = true) (hpos : 0 < s.rateLimit)
    (hscale : scale (Float.ofNat (reread s.rateLimit).digits) (reread s.rateLimit).exponent =
      .ok rate) :
    rateReader.Reads (writeDouble s.rateLimit) rate := by
  have hread : Reader.double.run (writeDouble s.rateLimit) = .ok (rate, []) := by
    change Except.bind (takeNumber .double (writeDouble s.rateLimit)) _ = _
    rw [takeNumber_written h hpos, hscale]
    rfl
  obtain ⟨c, cs, htext, hc⟩ := Reader.exists_of_double hread
  exact (Reader.reads_double hread).orNull _ htext hc

/-- What becomes of a rate that is exported and imported again: the digits of its text are made a
double, which is scaled. It is kept if a double holds the digits and the power of ten is a double; a
whole number has one digit more in its text, the zero behind the point. -/
structure RateLaws (s : Settings) : Prop where
  imported : ∃ rate, scale (Float.ofNat (reread s.rateLimit).digits)
    (reread s.rateLimit).exponent = .ok rate ∧ ofJson s.json = .ok { s with rateLimit := rate }
  kept : Holds (reread s.rateLimit).digits → (reread s.rateLimit).exponent.natAbs ≤ 22 →
    ofJson s.json = .ok s
  whole : ∀ n, s.rateLimit = Float.ofNat n → 10 * n < 2 ^ 54 → ofJson s.json = .ok s

theorem exported_rates (h : s.rateLimit.isFinite = true) (hpos : 0 < s.rateLimit) :
    RateLaws s := by
  have hkept (hdigits : Holds (reread s.rateLimit).digits)
      (hexponent : (reread s.rateLimit).exponent.natAbs ≤ 22) : ofJson s.json = .ok s :=
    ofJson_json (reads_written h hpos (scale_reread h hpos hdigits hexponent))
  obtain ⟨rate, hscale⟩ := exists_scale_reread h hpos
  refine ⟨⟨rate, hscale, ofJson_json (reads_written h hpos hscale)⟩, hkept, ?_⟩
  intro n hn hsize
  have hnpos : 0 < n := by
    by_contra! hzero
    rw [hn, Nat.le_zero.mp hzero] at hpos
    exact absurd hpos (by decide)
  have hreread : reread s.rateLimit = ⟨10 * n, -1⟩ := by rw [hn, reread_ofNat hnpos hsize]
  apply hkept
  · rw [hreread]
    exact ⟨5 * n, 1, by omega, by dsimp only; omega⟩
  · rw [hreread]
    exact (by decide : (-1 : Int).natAbs ≤ 22)

def withRate (rate : Float) : Settings := { default with rateLimit := rate }

/-- The last whole number below the bound, and a tenth. -/
theorem exported_rates_at_bound :
    ofJson (withRate (Float.ofNat 1801439850948198)).json =
      .ok (withRate (Float.ofNat 1801439850948198)) ∧
    ofJson (withRate 0.1).json = .ok (withRate 0.1) := by
  refine ⟨(exported_rates (by decide +kernel) (by decide +kernel)).whole 1801439850948198 rfl
    (by decide), (exported_rates (by decide +kernel) (by decide +kernel)).kept ?_ ?_⟩
  · exact ⟨1, 0, by decide, by decide +kernel⟩
  · decide +kernel

/-- The first whole number beyond it comes back a quarter larger. -/
theorem whole_rate_changed :
    (withRate 1801439850948199).Valid ∧
    ofJson (withRate 1801439850948199).json = .ok (withRate 1801439850948199.25) ∧
    withRate 1801439850948199.25 ≠ withRate 1801439850948199 := by
  have hreread : reread (withRate 1801439850948199).rateLimit = ⟨18014398509481990, -1⟩ := by
    decide +kernel
  have hscale : scale (Float.ofNat 18014398509481990) (-1) = .ok 1801439850948199.25 := by
    rw [scale, if_pos (by decide), if_pos (by decide)]
    exact congrArg Except.ok (by decide +kernel)
  refine ⟨⟨by decide +kernel, by decide +kernel, ?_⟩, ?_, by decide +kernel⟩
  · exact ⟨_, rfl⟩
  · apply ofJson_json
    apply reads_written (by decide +kernel) (by decide +kernel)
    rw [hreread]
    exact hscale

end SingleTape.Settings

import SingleTape.Proofs.Json.Objects
import SingleTape.Settings.Json

/-!
Exported settings are imported again. Only the rate may differ: what is no number is exported as
null, which stands for a rate without bound.
-/

namespace SingleTape.Settings

open Json

variable {s : Settings} {x rate : Float}

/-- The text that a rate is exported as is read back as the same double. -/
def Rereadable (x : Float) : Prop := Reader.double.run (writeDouble x) = .ok (x, [])

theorem reads_rate (h : Rereadable x) : rateReader.Reads (writeDouble x) x := by
  obtain ⟨c, cs, htext, hc⟩ := Reader.exists_of_double h
  exact (Reader.reads_double h).orNull _ htext hc

theorem writeDouble_of_not_finite (h : x.isFinite = false) : writeDouble x = "null".toList := by
  rw [writeDouble, h]
  rfl

theorem reads_unbounded_rate (h : x.isFinite = false) :
    rateReader.Reads (writeDouble x) (1.0 / 0.0) := by
  rw [writeDouble_of_not_finite h]
  exact Reader.reads_null_orNull _ _

theorem isFinite_infinity : (1.0 / 0.0 : Float).isFinite = false := by decide

theorem isFinite_of_unbounded (h : x.isNaN = true ∨ x = -(1.0 / 0.0)) : x.isFinite = false := by
  rcases h with h | rfl
  · rw [Float.isNaN, Float.Model.isNaN] at h
    rw [Float.isFinite, Float.Model.isFinite]
    cases hx : x.toModel.unpack with
    | notANumber => rfl
    | infinity => rfl
    | zero => rw [hx] at h; cases h
    | finite => rw [hx] at h; cases h
  · decide

/-- Whatever the rate is read as, all other settings are imported as they were. -/
theorem ofJson_json (h : rateReader.Reads (writeDouble s.rateLimit) rate) :
    ofJson s.json = .ok { s with rateLimit := rate } := by
  have hfills : Fills shape {}
      [("instructions", writeText s.instructions), ("tape", writeText s.tape),
        ("blank", writeText s.blank), ("rateLimit", writeDouble s.rateLimit),
        ("auto", writeBool s.auto)]
      ⟨some s.instructions, some s.tape, some s.blank, some rate, some s.auto⟩ := by
    refine .member rfl rfl (Reader.reads_text s.instructions) ?_
    refine .member rfl rfl (Reader.reads_text s.tape) ?_
    refine .member rfl rfl (Reader.reads_text s.blank) ?_
    refine .member rfl rfl h ?_
    refine .member rfl rfl (Reader.reads_bool s.auto) ?_
    exact .nil _
  have hreads : shape.reader.document s.json = .ok { s with rateLimit := rate } :=
    (hfills.reads_lines rfl).document
  rw [ofJson, hreads]
  rfl

theorem json_eq_of_rate (h : writeDouble rate = writeDouble s.rateLimit) :
    json { s with rateLimit := rate } = s.json := by
  simp only [json, h]

/-- Settings survive being exported and imported. An unbounded rate stays unbounded, a finite one
is kept if its text can be read back, and any other one becomes unbounded; exporting what was
imported gives the same text. -/
theorem settings_survive_export (s : Settings) :
    (s.rateLimit = 1.0 / 0.0 → ofJson s.json = .ok s) ∧
    (s.rateLimit.isFinite = true → Rereadable s.rateLimit → ofJson s.json = .ok s) ∧
    (s.rateLimit.isNaN = true ∨ s.rateLimit = -(1.0 / 0.0) →
      ofJson s.json = .ok { s with rateLimit := 1.0 / 0.0 }) ∧
    (s.rateLimit.isFinite = false ∨ Rereadable s.rateLimit →
      ∃ t, ofJson s.json = .ok t ∧ t.json = s.json) := by
  refine ⟨?_, ?_, ?_, ?_⟩
  · intro h
    have hread := reads_unbounded_rate (h ▸ isFinite_infinity)
    rw [← h] at hread
    exact ofJson_json hread
  · intro _ h
    exact ofJson_json (reads_rate h)
  · intro h
    exact ofJson_json (reads_unbounded_rate (isFinite_of_unbounded h))
  · rintro (h | h)
    · refine ⟨_, ofJson_json (reads_unbounded_rate h), json_eq_of_rate ?_⟩
      rw [writeDouble_of_not_finite h, writeDouble_of_not_finite isFinite_infinity]
    · exact ⟨_, ofJson_json (reads_rate h), rfl⟩

theorem rereadable_two : Rereadable 2.0 := by
  have htext : writeDouble 2.0 = ['2', '.', '0'] := by decide +kernel
  have hnumeral : readNumeral (.endIn .value) false ['2', '.', '0'] =
      .ok (⟨false, ['2'], ['0'], none⟩, []) := rfl
  have hscale : scale (Float.ofNat 20) (-1) = .ok 2.0 := by
    rw [scale, if_pos (by decide), if_pos (by decide)]
    exact congrArg Except.ok (by decide +kernel)
  have hvalue : Numeral.value ⟨false, ['2'], ['0'], none⟩ = .ok (.double 2.0) := by
    change (scale (Float.ofNat 20) (-1)).map (Numeral.signed ⟨false, ['2'], ['0'], none⟩) = _
    rw [hscale]
    rfl
  have hnumber : takeNumber .double ['2', '.', '0'] = .ok (.double 2.0, []) := by
    rw [Reader.takeNumber_digit rfl, readNumber, hnumeral]
    change Except.bind (Numeral.value ⟨false, ['2'], ['0'], none⟩) _ = _
    rw [hvalue]
    rfl
  rw [Rereadable, htext]
  change Except.bind (takeNumber .double ['2', '.', '0']) _ = _
  rw [hnumber]
  rfl

def quoting (rate : Float) : Settings :=
  ⟨"0(\"1\") => 0(\\) R\n\t\x01", "é \x00 𝄞", "\"", rate, false⟩

theorem quoting_settings_survive :
    ofJson (quoting 2.0).json = .ok (quoting 2.0) ∧
    ofJson (quoting (1.0 / 0.0)).json = .ok (quoting (1.0 / 0.0)) ∧
    ofJson (quoting (0.0 / 0.0)).json = .ok (quoting (1.0 / 0.0)) ∧
    ∃ t, ofJson (quoting (-(1.0 / 0.0))).json = .ok t ∧ t.json = (quoting (-(1.0 / 0.0))).json :=
  ⟨(settings_survive_export (quoting 2.0)).2.1 (by decide) rereadable_two,
    (settings_survive_export (quoting (1.0 / 0.0))).1 rfl,
    (settings_survive_export (quoting (0.0 / 0.0))).2.2.1 (.inl (by decide)),
    (settings_survive_export (quoting (-(1.0 / 0.0)))).2.2.2 (.inl (by decide))⟩

end SingleTape.Settings

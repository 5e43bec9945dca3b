import SingleTape.Proofs.Session.Faultless

/-!
Settings that pass the check. Their rate, their blank symbol and their tape are accepted wherever
they are used, so that only the instructions can still be refused.
-/

namespace SingleTape

theorem RateLimit.ofFloat_ok {rate : Float} (h : 0 < rate) :
    RateLimit.ofFloat rate = .ok ⟨rate, h⟩ := dif_pos h

namespace Settings

variable {s : Settings}

/-- What the check demands. -/
structure Valid (s : Settings) : Prop where
  rate : 0 < s.rateLimit
  blank : isToken s.blank = true
  tape : ∃ cells, readSeed s.tape = .ok cells

theorem validate_ok_iff : s.validate = .ok () ↔ s.Valid := by
  constructor
  · intro h
    by_cases hr : 0 < s.rateLimit
    · cases hb : isToken s.blank with
      | false => simp [validate, RateLimit.ofFloat_ok hr, hb, bind, Except.bind] at h
      | true =>
        cases ht : readSeed s.tape with
        | error e => simp [validate, RateLimit.ofFloat_ok hr, hb, ht, bind, Except.bind] at h
        | ok cells => exact ⟨hr, hb, cells, ht⟩
    · simp [validate, RateLimit.ofFloat, hr, bind, Except.bind] at h
  · rintro ⟨hr, hb, cells, ht⟩
    simp [validate, RateLimit.ofFloat_ok hr, hb, ht, bind, Except.bind]

theorem Valid.compile_error_iff (h : s.Valid) (session : Session) (e : Error) :
    session.compile s.instructions s.tape = .error e ↔
      readInstructions s.instructions = .error e := by
  obtain ⟨cells, ht⟩ := h.tape
  simp [Session.compile_error_iff, ht]

theorem Valid.exists_compile (h : s.Valid) {is : List Instruction}
    (hi : readInstructions s.instructions = .ok is) (session : Session) :
    ∃ repeated t, session.compile s.instructions s.tape = .ok (repeated, t) := by
  obtain ⟨cells, ht⟩ := h.tape
  exact ⟨_, _, Session.compile_ok hi ht session⟩

end Settings

end SingleTape

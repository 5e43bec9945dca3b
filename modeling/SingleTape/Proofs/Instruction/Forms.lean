import Mathlib.Algebra.Group.Int.Defs
import SingleTape.Proofs.Instruction.Grammar

/-!
Reading requests and responses: exactly the texts of their forms are accepted, with the values that
stand in them. In a response the move is looked at last.
-/

namespace SingleTape.Grammar

def Fits (i : Int) : Prop := -2 ^ 63 ≤ i ∧ i < 2 ^ 63

inductive Names : List Char → Move → Prop where
  | left : Names ['L'] .left
  | stay : Names ['S'] .stay
  | right : Names ['R'] .right

def IsRequest (cs : List Char) : Prop := ∃ i word, RequestForm cs i word ∧ Fits i

def IsResponse (cs : List Char) : Prop := ∃ i word code, ResponseForm cs i word code ∧ Fits i

variable {cs word code : List Char} {i : Int} {s : State} {m : Move}

theorem state?_eq_some_iff : state? i = some s ↔ i = s.toInt := by
  constructor
  · intro h
    simp only [state?, Option.ite_none_right_eq_some, Option.some.injEq] at h
    obtain ⟨⟨hl, hu⟩, rfl⟩ := h
    have hmin : Int64.minValue.toInt = -2 ^ 63 := rfl
    have hmax : Int64.maxValue.toInt = 2 ^ 63 - 1 := rfl
    rw [Int64.toInt_ofInt_of_le (by omega) (by omega)]
  · rintro rfl
    exact state?_toInt s

theorem fits_toInt (s : State) : Fits s.toInt := by
  have hmin : Int64.minValue.toInt = -2 ^ 63 := rfl
  have hmax : Int64.maxValue.toInt = 2 ^ 63 - 1 := rfl
  have hl := s.minValue_le_toInt
  have hu := s.toInt_le
  exact ⟨by omega, by omega⟩

theorem Fits.exists_state (h : Fits i) : ∃ s : State, i = s.toInt := by
  refine ⟨Int64.ofInt i, ?_⟩
  rw [Int64.toInt_ofInt_of_le h.1 h.2]

theorem ofCode?_eq_some_iff : Move.ofCode? (String.ofList code) = some m ↔ Names code m := by
  constructor
  · intro h
    have hc : ∀ word : String, String.ofList code = word → code = word.toList := by
      rintro _ rfl
      exact String.toList_ofList.symm
    unfold Move.ofCode? at h
    split at h
    · next hw =>
      cases h
      exact hc _ hw ▸ .left
    · next hw =>
      cases h
      exact hc _ hw ▸ .stay
    · next hw =>
      cases h
      exact hc _ hw ▸ .right
    · cases h
  · rintro (_ | _ | _) <;> rfl

theorem requestForm_iff : RequestForm cs i word ↔ readCell cs = some (i, word, []) := by
  simp only [RequestForm, readCell_eq_some_iff, skipGap_eq_nil_iff]

theorem responseForm_iff :
    ResponseForm cs i word code ↔
      ∃ rest tail, readCell cs = some (i, word, rest) ∧ readWord rest = some (code, tail) ∧
        skipGap tail = [] := by
  constructor
  · rintro ⟨g₁, g₂, hcell, hg₁, hcode, hg₂⟩
    refine ⟨code ++ g₂, g₂, readCell_eq_some_iff.mpr ⟨_, hcell, ?_⟩, ?_,
      skipGap_eq_nil_iff.mpr hg₂⟩
    · rw [List.append_assoc, skipGap_append hg₁, hcode.skipGap_append]
    · refine readWord_eq_some_iff.mpr ⟨rfl, hcode, ?_⟩
      rw [← List.append_nil g₂]
      exact hg₂.stops rfl rfl (by simp [Stops])
  · rintro ⟨rest, tail, hcell, hword, htail⟩
    obtain ⟨r, hr, rfl⟩ := readCell_eq_some_iff.mp hcell
    obtain ⟨hcs, hcode, -⟩ := readWord_eq_some_iff.mp hword
    obtain ⟨g₁, hg₁, hg⟩ := exists_skipGap r
    refine ⟨g₁, tail, ?_, hg₁, hcode, skipGap_eq_nil_iff.mp htail⟩
    rw [List.append_assoc, ← hcs, ← hg]
    exact hr

theorem request_cases (cs : List Char) :
    (∃ (s : State) (word : List Char), RequestForm cs s.toInt word ∧
      Request.ofChars cs = .ok ⟨s, String.ofList word⟩) ∨
      (¬ IsRequest cs ∧ Request.ofChars cs = .error (.malformed .request (String.ofList cs))) := by
  by_cases h : IsRequest cs
  · obtain ⟨i, word, hf, hi⟩ := h
    obtain ⟨s, rfl⟩ := hi.exists_state
    refine Or.inl ⟨s, word, hf, ?_⟩
    simp [Request.ofChars, requestForm_iff.mp hf, state?_toInt]
  · refine Or.inr ⟨h, ?_⟩
    rw [Request.ofChars]
    split
    · next i word hr =>
      have hf : RequestForm cs i word := requestForm_iff.mpr hr
      cases hs : state? i with
      | none => rfl
      | some s => exact absurd ⟨i, word, hf, state?_eq_some_iff.mp hs ▸ fits_toInt s⟩ h
    · rfl

theorem requestForm_unique {j : Int} {other : List Char} (h : RequestForm cs i word)
    (k : RequestForm cs j other) : i = j ∧ word = other := by
  have he := (requestForm_iff.mp h).symm.trans (requestForm_iff.mp k)
  simpa using he

theorem request_ok_iff {q : Request} :
    Request.ofChars cs = .ok q ↔ RequestForm cs q.state.toInt q.symbol.toList := by
  rcases request_cases cs with ⟨s, word, hf, hr⟩ | ⟨hn, hr⟩
  · rw [hr]
    constructor
    · intro h
      cases h
      simpa using hf
    · intro h
      obtain ⟨hi, rfl⟩ := requestForm_unique hf h
      rw [Int64.toInt_inj.mp hi, String.ofList_toList]
  · rw [hr]
    constructor
    · intro h
      cases h
    · intro h
      exact absurd ⟨_, _, h, fits_toInt _⟩ hn

theorem response_cases (cs : List Char) :
    (∃ (s : State) (word code : List Char) (m : Move),
      ResponseForm cs s.toInt word code ∧ Names code m ∧
      Response.ofChars cs = .ok ⟨s, String.ofList word, m⟩) ∨
      (∃ i word code, ResponseForm cs i word code ∧ Fits i ∧ (∀ m, ¬ Names code m) ∧
        Response.ofChars cs = .error (.unknownMove (String.ofList code))) ∨
      (¬ IsResponse cs ∧
        Response.ofChars cs = .error (.malformed .response (String.ofList cs))) := by
  by_cases h : IsResponse cs
  · obtain ⟨i, word, code, hf, hi⟩ := h
    obtain ⟨s, rfl⟩ := hi.exists_state
    obtain ⟨rest, tail, hcell, hword, htail⟩ := responseForm_iff.mp hf
    cases hm : Move.ofCode? (String.ofList code) with
    | some m =>
      refine Or.inl ⟨s, word, code, m, hf, ofCode?_eq_some_iff.mp hm, ?_⟩
      simp [Response.ofChars, hcell, hword, htail, state?_toInt, hm]
    | none =>
      refine Or.inr (Or.inl ⟨_, word, code, hf, hi, fun m hn => ?_, ?_⟩)
      · simp [ofCode?_eq_some_iff.mpr hn] at hm
      · simp [Response.ofChars, hcell, hword, htail, state?_toInt, hm]
  · refine Or.inr (Or.inr ⟨h, ?_⟩)
    have hn : ∀ i word rest code tail, readCell cs = some (i, word, rest) →
        readWord rest = some (code, tail) → skipGap tail = [] → state? i = none := by
      intro i word rest code tail hcell hword htail
      cases hs : state? i with
      | none => rfl
      | some s =>
        have hf := responseForm_iff.mpr ⟨rest, tail, hcell, hword, htail⟩
        exact absurd ⟨i, word, code, hf, state?_eq_some_iff.mp hs ▸ fits_toInt s⟩ h
    rw [Response.ofChars]
    split
    · next i word rest hcell =>
      split
      · next code tail hword =>
        by_cases htail : skipGap tail = []
        · simp [htail, hn i word rest code tail hcell hword htail]
        · simp [htail]
      · rfl
    · rfl

theorem responseForm_unique {j : Int} {other move : List Char} (h : ResponseForm cs i word code)
    (k : ResponseForm cs j other move) : i = j ∧ word = other ∧ code = move := by
  obtain ⟨rest, tail, hcell, hword, -⟩ := responseForm_iff.mp h
  obtain ⟨rest', tail', hcell', hword', -⟩ := responseForm_iff.mp k
  obtain ⟨hi, hw, rfl⟩ : i = j ∧ word = other ∧ rest = rest' := by
    simpa using hcell.symm.trans hcell'
  have hc : code = move ∧ tail = tail' := by simpa using hword.symm.trans hword'
  exact ⟨hi, hw, hc.1⟩

theorem names_unique {n : Move} (h : Names code m) (k : Names code n) : m = n := by
  cases h <;> cases k <;> rfl

theorem response_ok_iff {r : Response} :
    Response.ofChars cs = .ok r ↔
      ∃ code, ResponseForm cs r.state.toInt r.symbol.toList code ∧ Names code r.move := by
  rcases response_cases cs with
    ⟨s, word, code, m, hf, hm, hr⟩ | ⟨i, word, code, hf, -, hm, hr⟩ | ⟨hn, hr⟩
  · rw [hr]
    constructor
    · intro h
      cases h
      exact ⟨code, by simpa using hf, hm⟩
    · rintro ⟨move, hform, hmove⟩
      obtain ⟨hi, rfl, rfl⟩ := responseForm_unique hf hform
      rw [Int64.toInt_inj.mp hi, names_unique hm hmove, String.ofList_toList]
  · rw [hr]
    constructor
    · intro h
      cases h
    · rintro ⟨move, hform, hmove⟩
      obtain ⟨-, -, rfl⟩ := responseForm_unique hf hform
      exact absurd hmove (hm _)
  · rw [hr]
    constructor
    · intro h
      cases h
    · rintro ⟨move, hform, -⟩
      exact absurd ⟨_, _, _, hform, fits_toInt _⟩ hn

/-- Nothing but an ill-formed text and a word that names no move is refused. -/
theorem response_error_iff {e : Error} :
    Response.ofChars cs = .error e ↔
      (¬ IsResponse cs ∧ e = .malformed .response (String.ofList cs)) ∨
        ∃ i word code, ResponseForm cs i word code ∧ Fits i ∧ (∀ m, ¬ Names code m) ∧
          e = .unknownMove (String.ofList code) := by
  rcases response_cases cs with
    ⟨s, word, code, m, hf, hm, hr⟩ | ⟨i, word, code, hf, hi, hm, hr⟩ | ⟨hn, hr⟩
  · rw [hr]
    constructor
    · intro h
      cases h
    · rintro (⟨hn, -⟩ | ⟨j, other, other', hform, -, hnone, -⟩)
      · exact absurd ⟨_, word, code, hf, fits_toInt s⟩ hn
      · obtain ⟨-, -, rfl⟩ := responseForm_unique hf hform
        exact absurd hm (hnone m)
  · rw [hr]
    constructor
    · intro h
      cases h
      exact Or.inr ⟨i, word, code, hf, hi, hm, rfl⟩
    · rintro (⟨hn, -⟩ | ⟨j, other, other', hform, -, -, rfl⟩)
      · exact absurd ⟨i, word, code, hf, hi⟩ hn
      · obtain ⟨-, -, rfl⟩ := responseForm_unique hf hform
        rfl
  · rw [hr]
    constructor
    · intro h
      cases h
      exact Or.inl ⟨hn, rfl⟩
    · rintro (⟨-, rfl⟩ | ⟨j, other, other', hform, hj, -, -⟩)
      · rfl
      · exact absurd ⟨j, other, other', hform, hj⟩ hn

end SingleTape.Grammar

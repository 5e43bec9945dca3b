import SingleTape.Proofs.Instruction.Lines

/-!
What is written of an instruction is read back, provided its symbols are words.
-/

namespace SingleTape

structure Instruction.Worded (i : Instruction) : Prop where
  request : Grammar.Word i.request.symbol.toList
  response : Grammar.Word i.response.symbol.toList

namespace Grammar

variable {cs code : List Char} {n : Int} {c : Char}

theorem digits_natural (n : Nat) : Digits (Decimal.natural n) := by
  refine ⟨Nat.toDigits_ne_nil, fun c hc => (isDigit_iff c).mp ?_⟩
  exact Nat.isDigit_of_mem_toDigits (by decide) (by decide) hc

theorem numeral_integer (n : Int) : Numeral (Decimal.integer n) n := by
  have hd := digits_natural n.natAbs
  by_cases hn : n < 0
  · have h := Numeral.negative hd
    have hv : -(n.natAbs : Int) = n := by omega
    rw [Decimal.value_natural, hv] at h
    rwa [Decimal.integer, if_pos hn]
  · have h := Numeral.plain hd
    have hv : (n.natAbs : Int) = n := by omega
    rw [Decimal.value_natural, hv] at h
    rwa [Decimal.integer, if_neg hn]

theorem gap_nil : Gap [] := by simp [Gap]

theorem gap_space : Gap [' '] := by simp [Gap]

theorem names_code (m : Move) : Names m.code.toList m := by
  cases m with
  | left => exact .left
  | stay => exact .stay
  | right => exact .right

theorem Names.word {m : Move} (h : Names code m) : Word code := by
  cases h <;> exact ⟨List.cons_ne_nil _ _, List.forall_mem_singleton.mpr (by decide)⟩

theorem toList_requestText (q : Request) :
    q.text.toList = Decimal.integer q.state.toInt ++ '(' :: (q.symbol.toList ++ [')']) := by
  simp [Request.text, stateText]

theorem toList_responseText (r : Response) :
    r.text.toList =
      Decimal.integer r.state.toInt ++ '(' :: (r.symbol.toList ++ ')' :: ' ' :: r.move.code.toList)
    := by
  simp [Response.text, stateText]

theorem toList_instructionText (i : Instruction) :
    i.text.toList =
      (i.request.text.toList ++ [' ']) ++ '=' :: '>' :: (' ' :: i.response.text.toList) := by
  simp [Instruction.text]

theorem requestForm_text {q : Request} (h : Word q.symbol.toList) :
    RequestForm q.text.toList q.state.toInt q.symbol.toList := by
  have hn := numeral_integer q.state.toInt
  refine ⟨[], ⟨[], _, [], [], [], ?_, gap_nil, hn, gap_nil, gap_nil, h, gap_nil⟩, gap_nil⟩
  simp [toList_requestText]

theorem responseForm_text {r : Response} (h : Word r.symbol.toList) :
    ResponseForm r.text.toList r.state.toInt r.symbol.toList r.move.code.toList := by
  have hn := numeral_integer r.state.toInt
  refine ⟨[' '], [], ⟨[], _, [], [], [], ?_, gap_nil, hn, gap_nil, gap_nil, h, gap_nil⟩,
    gap_space, (names_code r.move).word, gap_nil⟩
  simp [toList_responseText]

theorem ofChars_requestText {q : Request} (h : Word q.symbol.toList) :
    Request.ofChars q.text.toList = .ok q :=
  request_ok_iff.mpr (requestForm_text h)

theorem ofChars_responseText {r : Response} (h : Word r.symbol.toList) :
    Response.ofChars r.text.toList = .ok r :=
  response_ok_iff.mpr ⟨_, responseForm_text h, names_code r.move⟩

def isInk (c : Char) : Bool := isWordChar c || ['-', '(', ')', ' '].contains c

theorem Word.ink (h : Word cs) : ∀ c ∈ cs, isInk c = true := by
  intro c hc
  have hw := (isWordChar_iff c).mpr (h.2 c hc)
  simp [isInk, hw]

theorem Digits.ink (h : Digits cs) : ∀ c ∈ cs, isInk c = true := by
  intro c hc
  have hw := (isWordChar_iff c).mpr (Or.inr (Or.inr (Or.inl (h.2 c hc))))
  simp [isInk, hw]

theorem Numeral.ink (h : Numeral cs n) : ∀ c ∈ cs, isInk c = true := by
  cases h with
  | plain hd => exact hd.ink
  | negative hd => exact List.forall_mem_cons.mpr ⟨by decide, hd.ink⟩

theorem ink_requestText {q : Request} (h : Word q.symbol.toList) :
    ∀ c ∈ q.text.toList, isInk c = true := by
  have hn := (numeral_integer q.state.toInt).ink
  intro c hc
  simp only [toList_requestText, List.mem_append, List.mem_cons, List.not_mem_nil, or_false] at hc
  rcases hc with hc | rfl | hc | rfl
  · exact hn c hc
  · decide
  · exact h.ink c hc
  · decide

theorem ink_responseText {r : Response} (h : Word r.symbol.toList) :
    ∀ c ∈ r.text.toList, isInk c = true := by
  have hn := (numeral_integer r.state.toInt).ink
  have hm := (names_code r.move).word.ink
  intro c hc
  simp only [toList_responseText, List.mem_append, List.mem_cons] at hc
  rcases hc with hc | rfl | hc | rfl | rfl | hc
  · exact hn c hc
  · decide
  · exact h.ink c hc
  · decide
  · decide
  · exact hm c hc

theorem ne_of_ink {d : Char} (h : isInk c = true) (hd : isInk d = false) : c ≠ d := by
  rintro rfl
  exact Bool.false_ne_true (hd.symm.trans h)

theorem firstArrow_of_free {before : List Char} (h : ∀ c ∈ before, c ≠ '=')
    (behind : List Char) : FirstArrow (before ++ '=' :: '>' :: behind) before behind := by
  induction before with
  | nil => exact firstArrow_here behind
  | cons c before ih =>
    obtain ⟨hc, hb⟩ := List.forall_mem_cons.mp h
    exact firstArrow_cons (fun _ he => absurd he hc) (ih hb)

theorem firstArrow_text {i : Instruction} (h : i.Worded) :
    FirstArrow i.text.toList (i.request.text.toList ++ [' ']) (' ' :: i.response.text.toList) := by
  rw [toList_instructionText]
  refine firstArrow_of_free (fun c hc => ?_) _
  rcases List.mem_append.mp hc with hc | hc
  · exact ne_of_ink (ink_requestText h.request c hc) (by decide)
  · rw [List.mem_singleton.mp hc]
    decide

theorem newline_free_text {i : Instruction} (h : i.Worded) : ∀ c ∈ i.text.toList, c ≠ '\n' := by
  intro c hc
  simp only [toList_instructionText, List.mem_append, List.mem_cons, List.not_mem_nil,
    or_false] at hc
  rcases hc with (hc | rfl) | rfl | rfl | rfl | hc
  · exact ne_of_ink (ink_requestText h.request c hc) (by decide)
  · decide
  · decide
  · decide
  · decide
  · exact ne_of_ink (ink_responseText h.response c hc) (by decide)

theorem isBlank_digit (h : '0' ≤ c ∧ c ≤ '9') : Text.isBlank c = false := by
  have hl : 48 ≤ c.toNat := h.1
  have hu : c.toNat ≤ 57 := h.2
  simp only [Text.isBlank, Bool.or_eq_false_iff, Bool.and_eq_false_iff, decide_eq_false_iff_not,
    beq_eq_false_iff_ne]
  omega

theorem Digits.isBlank_eq_false (h : Digits cs) : ∀ c ∈ cs, Text.isBlank c = false :=
  fun c hc => isBlank_digit (h.2 c hc)

theorem Numeral.bare (h : Numeral cs n) : Text.Bare cs := by
  apply Text.bare_of_forall
  cases h with
  | plain hd => exact hd.isBlank_eq_false
  | negative hd => exact List.forall_mem_cons.mpr ⟨by decide, hd.isBlank_eq_false⟩

theorem Numeral.ne_nil (h : Numeral cs n) : cs ≠ [] := by
  cases h with
  | plain hd => exact hd.1
  | negative hd => exact List.cons_ne_nil _ _

theorem Names.bare {m : Move} (h : Names code m) : Text.Bare code := by
  apply Text.bare_of_forall
  cases h <;> exact List.forall_mem_singleton.mpr (by decide)

theorem requestText_ne_nil (q : Request) : q.text.toList ≠ [] := by
  simp [toList_requestText]

theorem responseText_ne_nil (r : Response) : r.text.toList ≠ [] := by
  simp [toList_responseText]

theorem bare_requestText (q : Request) : Text.Bare q.text.toList := by
  have hn := numeral_integer q.state.toInt
  have hp : Text.Bare [')'] := Text.bare_of_forall (List.forall_mem_singleton.mpr (by decide))
  have hj := hn.bare.join hp hn.ne_nil (by simp) ('(' :: q.symbol.toList)
  rw [toList_requestText]
  simpa using hj

theorem bare_responseText (r : Response) : Text.Bare r.text.toList := by
  have hn := numeral_integer r.state.toInt
  have hm := names_code r.move
  have hj := hn.bare.join hm.bare hn.ne_nil hm.word.1 ('(' :: (r.symbol.toList ++ [')', ' ']))
  rw [toList_responseText]
  simpa using hj

theorem bare_instructionText (i : Instruction) : Text.Bare i.text.toList := by
  have hj := (bare_requestText i.request).join (bare_responseText i.response)
    (requestText_ne_nil i.request) (responseText_ne_nil i.response) [' ', '=', '>', ' ']
  rw [toList_instructionText]
  simpa using hj

theorem read_text {i : Instruction} (h : i.Worded) : Instruction.read i.text = .ok i := by
  have hnil : ∀ c ∈ ([] : List Char), Text.isBlank c = true := by simp
  have hspace : ∀ c ∈ [' '], Text.isBlank c = true := List.forall_mem_singleton.mpr (by decide)
  have hl := (bare_requestText i.request).trims hnil hspace
  have hr := (bare_responseText i.response).trims hspace hnil
  rw [List.nil_append] at hl
  rw [List.append_nil, List.singleton_append] at hr
  rw [read_divided (bare_instructionText i).trims_self (firstArrow_text h) (by simp) (by simp),
    ← Text.trims_iff.mp hl, ← Text.trims_iff.mp hr]
  exact readSides_ok_iff.mpr ⟨ofChars_requestText h.request, ofChars_responseText h.response⟩

end Grammar

end SingleTape

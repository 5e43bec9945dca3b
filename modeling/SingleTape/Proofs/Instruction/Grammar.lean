import Mathlib.Data.List.TakeWhile
import SingleTape.Instruction.Reader

/-!
The grammar of requests and responses, said without a reader, and the parts of the reader against
it: each accepts exactly the texts of its rule and takes as much as it can.
-/

namespace SingleTape.Grammar

def Gap (cs : List Char) : Prop := ∀ c ∈ cs, c = ' ' ∨ c = '\t'

def Digits (cs : List Char) : Prop := cs ≠ [] ∧ ∀ c ∈ cs, '0' ≤ c ∧ c ≤ '9'

/-- A whole number in decimal digits, perhaps behind a minus sign, and its value. -/
inductive Numeral : List Char → Int → Prop where
  | plain {cs : List Char} : Digits cs → Numeral cs (Decimal.value cs)
  | negative {cs : List Char} : Digits cs → Numeral ('-' :: cs) (-(Decimal.value cs))

def Word (cs : List Char) : Prop :=
  cs ≠ [] ∧ ∀ c ∈ cs,
    ('A' ≤ c ∧ c ≤ 'Z') ∨ ('a' ≤ c ∧ c ≤ 'z') ∨ ('0' ≤ c ∧ c ≤ '9') ∨ c = '_'

/-- A number and a word in parentheses with any gaps between them, and the rest of the text. -/
def CellForm (cs : List Char) (i : Int) (word rest : List Char) : Prop :=
  ∃ g₁ number g₂ g₃ g₄,
    cs = g₁ ++ number ++ g₂ ++ ['('] ++ g₃ ++ word ++ g₄ ++ [')'] ++ rest ∧
    Gap g₁ ∧ Numeral number i ∧ Gap g₂ ∧ Gap g₃ ∧ Word word ∧ Gap g₄

def RequestForm (cs : List Char) (i : Int) (word : List Char) : Prop :=
  ∃ g, CellForm cs i word g ∧ Gap g

def ResponseForm (cs : List Char) (i : Int) (word code : List Char) : Prop :=
  ∃ g₁ g₂, CellForm cs i word (g₁ ++ code ++ g₂) ∧ Gap g₁ ∧ Word code ∧ Gap g₂

variable {cs rest word : List Char} {i : Int} {p : Char → Bool}

theorem isGap_iff (c : Char) : isGap c = true ↔ c = ' ' ∨ c = '\t' := by
  simp [isGap]

theorem isDigit_iff (c : Char) : c.isDigit = true ↔ '0' ≤ c ∧ c ≤ '9' := by
  simp only [Char.isDigit, Bool.and_eq_true, decide_eq_true_eq]
  rfl

theorem isUpper_iff (c : Char) : c.isUpper = true ↔ 'A' ≤ c ∧ c ≤ 'Z' := by
  change decide (65 ≤ c.val ∧ c.val ≤ 90) = true ↔ _
  rw [decide_eq_true_eq]
  rfl

theorem isLower_iff (c : Char) : c.isLower = true ↔ 'a' ≤ c ∧ c ≤ 'z' := by
  change (decide (97 ≤ c.val) && decide (c.val ≤ 122)) = true ↔ _
  rw [Bool.and_eq_true, decide_eq_true_eq, decide_eq_true_eq]
  rfl

theorem isWordChar_iff (c : Char) :
    isWordChar c = true ↔
      ('A' ≤ c ∧ c ≤ 'Z') ∨ ('a' ≤ c ∧ c ≤ 'z') ∨ ('0' ≤ c ∧ c ≤ '9') ∨ c = '_' := by
  change (((c.isUpper || c.isLower) || c.isDigit) || c == '_') = true ↔ _
  simp only [Bool.or_eq_true, isUpper_iff, isLower_iff, isDigit_iff, beq_iff_eq, or_assoc]

/-- The text does not go on with a character of the class. -/
def Stops (p : Char → Bool) (cs : List Char) : Prop := ∀ c ∈ cs.head?, p c = false

theorem stops_dropWhile (p : Char → Bool) (cs : List Char) : Stops p (cs.dropWhile p) := by
  intro c hc
  have h := List.head?_dropWhile_not p cs
  rw [Option.mem_def.mp hc] at h
  simpa using h

theorem Stops.takeWhile (h : Stops p cs) : cs.takeWhile p = [] := by
  cases cs with
  | nil => rfl
  | cons c cs => simp [h c rfl]

theorem Stops.dropWhile (h : Stops p cs) : cs.dropWhile p = cs := by
  cases cs with
  | nil => rfl
  | cons c cs => simp [h c rfl]

theorem takeWhile_stops {front : List Char} (hf : ∀ c ∈ front, p c = true) (h : Stops p rest) :
    (front ++ rest).takeWhile p = front := by
  rw [List.takeWhile_append_of_pos hf, h.takeWhile, List.append_nil]

theorem dropWhile_stops {front : List Char} (hf : ∀ c ∈ front, p c = true) (h : Stops p rest) :
    (front ++ rest).dropWhile p = rest := by
  rw [List.dropWhile_append_of_pos hf, h.dropWhile]

theorem skipGap_append {g : List Char} (hg : Gap g) (cs : List Char) :
    skipGap (g ++ cs) = skipGap cs :=
  List.dropWhile_append_of_pos fun c hc => (isGap_iff c).mpr (hg c hc)

theorem exists_skipGap (cs : List Char) : ∃ g, Gap g ∧ cs = g ++ skipGap cs := by
  refine ⟨cs.takeWhile isGap, fun c hc => ?_, List.takeWhile_append_dropWhile.symm⟩
  exact (isGap_iff c).mp (List.mem_takeWhile_imp hc)

theorem skipGap_eq_nil_iff : skipGap cs = [] ↔ Gap cs := by
  simp only [skipGap, List.dropWhile_eq_nil_iff, isGap_iff, Gap]

theorem stops_cons {c : Char} (h : p c = false) (cs : List Char) : Stops p (c :: cs) := by
  simpa [Stops] using h

theorem Gap.stops {g : List Char} (hg : Gap g) (hs : p ' ' = false) (ht : p '\t' = false)
    (hr : Stops p rest) : Stops p (g ++ rest) := by
  cases g with
  | nil => exact hr
  | cons c g =>
    rcases hg c (by simp) with rfl | rfl
    · exact stops_cons hs _
    · exact stops_cons ht _

theorem readMark_eq_some_iff {d : Char} (hd : isGap d = false) :
    readMark d cs = some rest ↔ ∃ g, Gap g ∧ cs = g ++ d :: rest := by
  constructor
  · intro h
    obtain ⟨g, hg, hcs⟩ := exists_skipGap cs
    cases hs : skipGap cs with
    | nil => simp [readMark, hs] at h
    | cons c r =>
      simp only [readMark, hs, Option.ite_none_right_eq_some, Option.some.injEq] at h
      obtain ⟨rfl, rfl⟩ := h
      exact ⟨g, hg, hs ▸ hcs⟩
  · rintro ⟨g, hg, rfl⟩
    have hs : skipGap (d :: rest) = d :: rest := by simp [skipGap, hd]
    simp [readMark, skipGap_append hg, hs]

theorem readWord_eq_some_iff :
    readWord cs = some (word, rest) ↔ cs = word ++ rest ∧ Word word ∧ Stops isWordChar rest := by
  constructor
  · intro h
    simp only [readWord, Option.ite_none_left_eq_some, Option.some.injEq, Prod.mk.injEq] at h
    obtain ⟨hne, rfl, rfl⟩ := h
    refine ⟨List.takeWhile_append_dropWhile.symm, ⟨hne, fun c hc => ?_⟩, stops_dropWhile _ _⟩
    exact (isWordChar_iff c).mp (List.mem_takeWhile_imp hc)
  · rintro ⟨rfl, ⟨hne, hw⟩, hs⟩
    have hall : ∀ c ∈ word, isWordChar c = true := fun c hc => (isWordChar_iff c).mpr (hw c hc)
    simp [readWord, takeWhile_stops hall hs, dropWhile_stops hall hs, hne]

theorem digits_takeWhile (h : cs.takeWhile Char.isDigit ≠ []) :
    Digits (cs.takeWhile Char.isDigit) :=
  ⟨h, fun c hc => (isDigit_iff c).mp (List.mem_takeWhile_imp hc)⟩

theorem readInteger_minus (cs : List Char) :
    readInteger ('-' :: cs) =
      if cs.takeWhile Char.isDigit = [] then none
      else some (-(Decimal.value (cs.takeWhile Char.isDigit) : Int), cs.dropWhile Char.isDigit) := by
  simp [readInteger]

theorem readInteger_plain (h : cs.head? ≠ some '-') :
    readInteger cs =
      if cs.takeWhile Char.isDigit = [] then none
      else some ((Decimal.value (cs.takeWhile Char.isDigit) : Int), cs.dropWhile Char.isDigit) := by
  have hb : (cs.head? == some '-') = false := by simpa using h
  simp [readInteger, hb]

theorem numeral_of_readInteger (h : readInteger cs = some (i, rest)) :
    ∃ number, cs = number ++ rest ∧ Numeral number i ∧ Stops Char.isDigit rest := by
  by_cases hm : cs.head? = some '-'
  · obtain ⟨ds, rfl⟩ : ∃ ds, cs = '-' :: ds := List.head?_eq_some_iff.mp hm
    rw [readInteger_minus] at h
    simp only [Option.ite_none_left_eq_some, Option.some.injEq, Prod.mk.injEq] at h
    obtain ⟨hne, rfl, rfl⟩ := h
    refine ⟨'-' :: ds.takeWhile Char.isDigit, ?_, .negative (digits_takeWhile hne),
      stops_dropWhile _ _⟩
    rw [List.cons_append, List.takeWhile_append_dropWhile]
  · rw [readInteger_plain hm] at h
    simp only [Option.ite_none_left_eq_some, Option.some.injEq, Prod.mk.injEq] at h
    obtain ⟨hne, rfl, rfl⟩ := h
    exact ⟨_, List.takeWhile_append_dropWhile.symm, .plain (digits_takeWhile hne),
      stops_dropWhile _ _⟩

theorem Digits.head_ne_minus (h : Digits cs) (rest : List Char) :
    (cs ++ rest).head? ≠ some '-' := by
  cases cs with
  | nil => exact absurd rfl h.1
  | cons c cs =>
    intro hc
    have hm : c = '-' := by simpa using hc
    exact absurd (h.2 c (by simp)) (by rw [hm]; decide)

theorem readInteger_numeral {number : List Char} (h : Numeral number i)
    (hs : Stops Char.isDigit rest) : readInteger (number ++ rest) = some (i, rest) := by
  cases h with
  | plain hd =>
    have hall : ∀ c ∈ number, c.isDigit = true := fun c hc => (isDigit_iff c).mpr (hd.2 c hc)
    rw [readInteger_plain (hd.head_ne_minus rest), takeWhile_stops hall hs,
      dropWhile_stops hall hs, if_neg hd.1]
  | @negative ds hd =>
    have hall : ∀ c ∈ ds, c.isDigit = true := fun c hc => (isDigit_iff c).mpr (hd.2 c hc)
    rw [List.cons_append, readInteger_minus, takeWhile_stops hall hs, dropWhile_stops hall hs,
      if_neg hd.1]

theorem skipGap_cons {c : Char} (h : isGap c = false) (cs : List Char) :
    skipGap (c :: cs) = c :: cs := by
  simp [skipGap, h]

theorem Numeral.skipGap_append {number : List Char} (h : Numeral number i) (rest : List Char) :
    skipGap (number ++ rest) = number ++ rest := by
  cases h with
  | negative hd => exact skipGap_cons (by decide) _
  | plain hd =>
    cases number with
    | nil => exact absurd rfl hd.1
    | cons c ds =>
      refine skipGap_cons (Bool.eq_false_iff.mpr fun hg => ?_) _
      have hc := hd.2 c (by simp)
      rcases (isGap_iff c).mp hg with rfl | rfl <;> exact absurd hc (by decide)

theorem Word.skipGap_append (h : Word word) (rest : List Char) :
    skipGap (word ++ rest) = word ++ rest := by
  cases word with
  | nil => exact absurd rfl h.1
  | cons c cs =>
    refine skipGap_cons (Bool.eq_false_iff.mpr fun hg => ?_) _
    have hc := h.2 c (by simp)
    rcases (isGap_iff c).mp hg with rfl | rfl <;> exact absurd hc (by decide)

theorem readCell_steps {tail : List Char} :
    readCell cs = some (i, word, tail) ↔ ∃ a b c rest,
      readInteger (skipGap cs) = some (i, a) ∧ readMark '(' a = some b ∧
      readWord (skipGap b) = some (word, c) ∧ readMark ')' c = some rest ∧ skipGap rest = tail := by
  simp only [readCell, bind, Option.bind_eq_some_iff, Prod.exists, Option.some.injEq, Prod.mk.injEq]
  constructor
  · rintro ⟨_, a, ha, b, hb, _, c, hc, rest, hr, rfl, rfl, ht⟩
    exact ⟨a, b, c, rest, ha, hb, hc, hr, ht⟩
  · rintro ⟨a, b, c, rest, ha, hb, hc, hr, ht⟩
    exact ⟨i, a, ha, b, hb, word, c, hc, rest, hr, rfl, rfl, ht⟩

/-- The reader of cells accepts what has the form of a cell, and skips the gap behind it. -/
theorem readCell_eq_some_iff {tail : List Char} :
    readCell cs = some (i, word, tail) ↔ ∃ rest, CellForm cs i word rest ∧ skipGap rest = tail := by
  rw [readCell_steps]
  constructor
  · rintro ⟨a, b, c, rest, ha, hb, hc, hr, ht⟩
    obtain ⟨g₁, hg₁, hcs⟩ := exists_skipGap cs
    obtain ⟨number, hnum, hn, -⟩ := numeral_of_readInteger ha
    obtain ⟨g₂, hg₂, rfl⟩ := (readMark_eq_some_iff (by decide)).mp hb
    obtain ⟨g₃, hg₃, hb'⟩ := exists_skipGap b
    obtain ⟨hword, hw, -⟩ := readWord_eq_some_iff.mp hc
    obtain ⟨g₄, hg₄, rfl⟩ := (readMark_eq_some_iff (by decide)).mp hr
    refine ⟨rest, ⟨g₁, number, g₂, g₃, g₄, ?_, hg₁, hn, hg₂, hg₃, hw, hg₄⟩, ht⟩
    rw [hcs, hnum, hb', hword]
    simp
  · rintro ⟨rest, ⟨g₁, number, g₂, g₃, g₄, rfl, hg₁, hn, hg₂, hg₃, hw, hg₄⟩, ht⟩
    -- What follows a number or a word is a gap or a parenthesis, so neither can go on.
    have hopen : Stops Char.isDigit (g₂ ++ '(' :: (g₃ ++ (word ++ (g₄ ++ ')' :: rest)))) :=
      hg₂.stops rfl rfl (stops_cons rfl _)
    have hclose : Stops isWordChar (g₄ ++ ')' :: rest) := hg₄.stops rfl rfl (stops_cons rfl _)
    simp only [List.append_assoc, List.cons_append, List.nil_append]
    refine ⟨_, g₃ ++ (word ++ (g₄ ++ ')' :: rest)), g₄ ++ ')' :: rest, rest, ?_,
      (readMark_eq_some_iff (by decide)).mpr ⟨g₂, hg₂, rfl⟩, ?_,
      (readMark_eq_some_iff (by decide)).mpr ⟨g₄, hg₄, rfl⟩, ht⟩
    · rw [skipGap_append hg₁, hn.skipGap_append, readInteger_numeral hn hopen]
    · rw [skipGap_append hg₃, hw.skipGap_append]
      exact readWord_eq_some_iff.mpr ⟨rfl, hw, hclose⟩

end SingleTape.Grammar

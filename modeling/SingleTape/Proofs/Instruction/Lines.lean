import SingleTape.Proofs.Instruction.Forms
import SingleTape.Proofs.Text.Trim

/-!
Reading a line: what stands on either side of its first arrow decides, and the first part that is
wrong is blamed.
-/

namespace SingleTape.Grammar

/-- `before` and `behind` are the sides of the first arrow of a text. -/
structure FirstArrow (cs before behind : List Char) : Prop where
  split : cs = before ++ '=' :: '>' :: behind
  first : ∀ a b, cs = a ++ '=' :: '>' :: b → before.length ≤ a.length

def HasArrow (cs : List Char) : Prop := ['=', '>'] <:+: cs

theorem hasArrow_iff {cs : List Char} : HasArrow cs ↔ ∃ a b, cs = a ++ '=' :: '>' :: b := by
  constructor
  · rintro ⟨a, b, rfl⟩
    exact ⟨a, b, by simp⟩
  · rintro ⟨a, b, rfl⟩
    exact ⟨a, b, by simp⟩

theorem firstArrow_here (rest : List Char) : FirstArrow ('=' :: '>' :: rest) [] rest :=
  ⟨rfl, fun _ _ _ => Nat.zero_le _⟩

theorem firstArrow_cons {c : Char} {cs a b : List Char}
    (hc : ∀ rest, c = '=' → cs ≠ '>' :: rest) (h : FirstArrow cs a b) :
    FirstArrow (c :: cs) (c :: a) b := by
  refine ⟨by rw [h.split, List.cons_append], fun x y hxy => ?_⟩
  cases x with
  | nil =>
    obtain ⟨rfl, rfl⟩ := List.cons.inj hxy
    exact absurd rfl (hc y rfl)
  | cons d x =>
    obtain ⟨-, hcs⟩ := List.cons.inj hxy
    simpa using h.first x y hcs

theorem splitArrow_some {before cs left right : List Char}
    (h : splitArrow before cs = some (left, right)) :
    ∃ a, left = before.reverse ++ a ∧ FirstArrow cs a right := by
  fun_induction splitArrow before cs with
  | case1 before => cases h
  | case2 before rest =>
    obtain ⟨rfl, rfl⟩ : before.reverse = left ∧ rest = right := by simpa using h
    exact ⟨[], by simp, firstArrow_here rest⟩
  | case3 before c rest hc ih =>
    obtain ⟨a, rfl, ha⟩ := ih h
    refine ⟨c :: a, by simp, firstArrow_cons (fun tail hce hr => ?_) ha⟩
    exact hc tail hce hr

theorem splitArrow_none {before cs : List Char} (h : splitArrow before cs = none) :
    ¬ HasArrow cs := by
  rw [hasArrow_iff]
  rintro ⟨a, b, hab⟩
  fun_induction splitArrow before cs generalizing a with
  | case1 before => simp at hab
  | case2 before rest => cases h
  | case3 before c rest hc ih =>
    cases a with
    | nil =>
      obtain ⟨rfl, rfl⟩ := List.cons.inj hab
      exact hc b rfl rfl
    | cons d a => exact ih h a (List.cons.inj hab).2

theorem firstArrow_unique {cs a b a' b' : List Char} (h : FirstArrow cs a b)
    (k : FirstArrow cs a' b') : a = a' ∧ b = b' := by
  have hlen : a.length = a'.length :=
    Nat.le_antisymm (h.first a' b' k.split) (k.first a b h.split)
  have he := List.append_inj (h.split.symm.trans k.split) hlen
  simpa using he

theorem splitArrow_eq_some_iff {cs a b : List Char} :
    splitArrow [] cs = some (a, b) ↔ FirstArrow cs a b := by
  constructor
  · intro h
    obtain ⟨x, rfl, hx⟩ := splitArrow_some h
    exact hx
  · intro h
    cases hs : splitArrow [] cs with
    | none => exact absurd (hasArrow_iff.mpr ⟨a, b, h.split⟩) (splitArrow_none hs)
    | some sides =>
      obtain ⟨x, hx, hf⟩ := splitArrow_some hs
      obtain ⟨rfl, rfl⟩ := firstArrow_unique h hf
      rw [← List.nil_append a]
      exact congrArg some (Prod.ext hx rfl)

theorem splitArrow_eq_none_iff {cs : List Char} : splitArrow [] cs = none ↔ ¬ HasArrow cs := by
  refine ⟨splitArrow_none, fun h => ?_⟩
  cases hs : splitArrow [] cs with
  | none => rfl
  | some sides =>
    have hf : FirstArrow cs sides.1 sides.2 := splitArrow_eq_some_iff.mp hs
    exact absurd (hasArrow_iff.mpr ⟨_, _, hf.split⟩) h

/-- A line that cannot be split: it has no arrow, or nothing in front of or behind the first. -/
def Undivided (t : List Char) : Prop :=
  ¬ HasArrow t ∨ (∃ b, FirstArrow t [] b) ∨ ∃ a, FirstArrow t a []

theorem exists_sides {t : List Char} (h : ¬ Undivided t) :
    ∃ a b, FirstArrow t a b ∧ a ≠ [] ∧ b ≠ [] := by
  simp only [Undivided, not_or, not_not, not_exists] at h
  obtain ⟨harrow, hfront, hback⟩ := h
  cases hs : splitArrow [] t with
  | none => exact absurd harrow (splitArrow_none hs)
  | some sides =>
    have hf : FirstArrow t sides.1 sides.2 := splitArrow_eq_some_iff.mp hs
    refine ⟨sides.1, sides.2, hf, fun ha => ?_, fun hb => ?_⟩
    · exact hfront sides.2 (ha ▸ hf)
    · exact hback sides.1 (hb ▸ hf)

def readSides (l r : List Char) : Except Error Instruction := do
  let request ← Request.ofChars l
  let response ← Response.ofChars r
  .ok ⟨request, response⟩

theorem readSides_ok_iff {l r : List Char} {i : Instruction} :
    readSides l r = .ok i ↔
      Request.ofChars l = .ok i.request ∧ Response.ofChars r = .ok i.response := by
  cases i
  cases hq : Request.ofChars l <;> cases hr : Response.ofChars r <;>
    simp [readSides, hq, hr, bind, Except.bind]

theorem readSides_error_iff {l r : List Char} {e : Error} :
    readSides l r = .error e ↔
      (¬ IsRequest l ∧ e = .malformed .request (String.ofList l)) ∨
        (IsRequest l ∧ Response.ofChars r = .error e) := by
  rcases request_cases l with ⟨s, word, hf, hq⟩ | ⟨hn, hq⟩
  · have hl : IsRequest l := ⟨_, word, hf, fits_toInt s⟩
    cases hr : Response.ofChars r <;> simp [readSides, hq, hr, hl, bind, Except.bind]
  · simp [readSides, hq, hn, bind, Except.bind, eq_comm]

theorem read_undivided {text : String} {t : List Char} (ht : Text.Trims text.toList t)
    (h : Undivided t) : Instruction.read text = .error (.malformed .line (String.ofList t)) := by
  have ht := Text.trims_iff.mp ht
  subst ht
  rw [Instruction.read, Instruction.ofChars]
  rcases h with h | ⟨b, h⟩ | ⟨a, h⟩
  · simp [splitArrow_eq_none_iff.mpr h]
  · simp [splitArrow_eq_some_iff.mpr h]
  · simp [splitArrow_eq_some_iff.mpr h]

theorem read_divided {text : String} {t a b : List Char} (ht : Text.Trims text.toList t)
    (h : FirstArrow t a b) (ha : a ≠ []) (hb : b ≠ []) :
    Instruction.read text = readSides (Text.trim a) (Text.trim b) := by
  have ht := Text.trims_iff.mp ht
  subst ht
  rw [Instruction.read, Instruction.ofChars]
  simp [splitArrow_eq_some_iff.mpr h, ha, hb, readSides]

theorem readSides_ne_line {l r : List Char} {text : String} :
    readSides l r ≠ .error (.malformed .line text) := by
  intro h
  rcases readSides_error_iff.mp h with ⟨-, he⟩ | ⟨-, he⟩
  · cases he
  · rcases response_error_iff.mp he with ⟨-, he⟩ | ⟨_, _, _, -, -, -, he⟩ <;> cases he

/-- What reading the two sides of a line comes to: the request is blamed before the response, the
form of the response before its move. -/
structure SideLaws (l r : List Char) (result : Except Error Instruction) : Prop where
  request : result = .error (.malformed .request (String.ofList l)) ↔ ¬ IsRequest l
  response : result = .error (.malformed .response (String.ofList r)) ↔
    IsRequest l ∧ ¬ IsResponse r
  move : ∀ word, result = .error (.unknownMove word) ↔
    IsRequest l ∧ ∃ i symbol code, ResponseForm r i symbol code ∧ Fits i ∧
      (∀ m, ¬ Names code m) ∧ word = String.ofList code
  success : ∀ i, result = .ok i ↔
    RequestForm l i.request.state.toInt i.request.symbol.toList ∧
      ∃ code, ResponseForm r i.response.state.toInt i.response.symbol.toList code ∧
        Names code i.response.move

theorem readSides_laws (l r : List Char) : SideLaws l r (readSides l r) where
  request := by simp [readSides_error_iff, response_error_iff]
  response := by simp [readSides_error_iff, response_error_iff]
  move word := by simp [readSides_error_iff, response_error_iff]
  success i := by rw [readSides_ok_iff, request_ok_iff, response_ok_iff]

/-- What reading a line comes to, said of the line without the white space around it. -/
structure LineLaws (text : String) (t : List Char) : Prop where
  trims : Text.Trims text.toList t
  line : Instruction.read text = .error (.malformed .line (String.ofList t)) ↔ Undivided t
  divided : ¬ Undivided t → ∃ a b, FirstArrow t a b ∧ a ≠ [] ∧ b ≠ []
  sides : ∀ a b l r, FirstArrow t a b → a ≠ [] → b ≠ [] → Text.Trims a l → Text.Trims b r →
    SideLaws l r (Instruction.read text)

theorem lineLaws (text : String) : LineLaws text (Text.trim text.toList) where
  trims := Text.trims_trim text.toList
  line := by
    have ht := Text.trims_trim text.toList
    refine ⟨fun h => ?_, read_undivided ht⟩
    by_contra hn
    obtain ⟨a, b, hf, ha, hb⟩ := exists_sides hn
    rw [read_divided ht hf ha hb] at h
    exact readSides_ne_line h
  divided := exists_sides
  sides a b l r h ha hb hl hr := by
    rw [read_divided (Text.trims_trim text.toList) h ha hb, Text.trims_iff.mp hl,
      Text.trims_iff.mp hr]
    exact readSides_laws _ _

-- White space around a line is trimmed, but a request by itself may have only spaces and tabs.
example : Instruction.read "\n 0 ( 1 ) => -1(0)R" = .ok ⟨⟨0, "1"⟩, ⟨-1, "0", .right⟩⟩ := rfl

example : Request.read "\n 0 ( 1 )" = .error (.malformed .request "\n 0 ( 1 )") := rfl

end SingleTape.Grammar

import SingleTape.Proofs.Instruction.Grammar
import SingleTape.Proofs.Json.Reads

/-!
The grammar of JSON numbers. A number is read into the parts that it is written from.
-/

namespace SingleTape.Json

open Grammar (Digits Stops takeWhile_stops dropWhile_stops stops_cons isDigit_iff)

variable {cut : Defect} {cs ds rest space behind tail : List Char}

def fractionText : List Char → List Char
  | [] => []
  | ds => '.' :: ds

inductive SignText : Bool → List Char → Prop
  | none : SignText false []
  | plus : SignText false ['+']
  | minus : SignText true ['-']

inductive ExponentText : Option Int → List Char → Prop
  | none : ExponentText none []
  | some {mark : Char} {negative : Bool} {sign ds : List Char} : mark = 'e' ∨ mark = 'E' →
      SignText negative sign → Digits ds →
      ExponentText
        (some (if negative then -(Decimal.value ds : Int) else Decimal.value ds))
        (mark :: (sign ++ ds))

/-- How the parts of a number are written one behind the other, after a minus sign if it has one:
digits without a zero in front of others, perhaps a fraction, perhaps an exponent. -/
structure Numeral.Text (n : Numeral) (cs : List Char) : Prop where
  whole : Digits n.whole
  leading : ∀ ds, n.whole = '0' :: ds → ds = []
  fraction : ∀ c ∈ n.fraction, '0' ≤ c ∧ c ≤ '9'
  parts : ∃ tail, ExponentText n.exponent tail ∧ cs = n.whole ++ (fractionText n.fraction ++ tail)

theorem fractionText_of_ne_nil (h : ds ≠ []) : fractionText ds = '.' :: ds := by
  rw [fractionText]
  exact h

theorem forall_isDigit (h : ∀ c ∈ ds, '0' ≤ c ∧ c ≤ '9') : ∀ c ∈ ds, c.isDigit = true :=
  fun c hc => (isDigit_iff c).mpr (h c hc)

theorem ExponentText.stops {e : Option Int} (h : ExponentText e tail) :
    Stops Char.isDigit tail := by
  cases h with
  | none => simp [Stops]
  | some hmark _ _ =>
    apply stops_cons
    rcases hmark with rfl | rfl <;> decide

theorem ExponentText.ne_point {e : Option Int} (h : ExponentText e tail) :
    ∀ cs, tail ≠ '.' :: cs := by
  rintro cs rfl
  cases h with
  | some hmark _ _ => simp at hmark

theorem stops_fractionText (h : Stops Char.isDigit tail) :
    Stops Char.isDigit (fractionText ds ++ tail) := by
  cases ds with
  | nil => exact h
  | cons d ds => exact stops_cons (by decide) _

theorem readWhole_digits (h : Digits ds) (hleading : ∀ ds', ds = '0' :: ds' → ds' = [])
    (hrest : Stops Char.isDigit rest) : readWhole cut (ds ++ rest) = .ok (ds, rest) := by
  unfold readWhole
  rw [takeWhile_stops (forall_isDigit h.2) hrest, dropWhile_stops (forall_isDigit h.2) hrest]
  split
  · exact absurd rfl h.1
  · cases hleading _ rfl
  · rfl

theorem readFraction_text (h : ∀ c ∈ ds, '0' ≤ c ∧ c ≤ '9') (hrest : Stops Char.isDigit rest)
    (hpoint : ∀ cs, rest ≠ '.' :: cs) :
    readFraction cut (fractionText ds ++ rest) = .ok (ds, rest) := by
  cases ds with
  | nil =>
    rw [fractionText, List.nil_append, readFraction]
    exact hpoint
  | cons d ds =>
    have hdigits := forall_isDigit h
    rw [fractionText, List.cons_append, readFraction, takeWhile_stops hdigits hrest,
      dropWhile_stops hdigits hrest]
    · simp

theorem readSign_text {negative : Bool} {sign : List Char} (h : SignText negative sign)
    (hdigits : Digits ds) : readSign (sign ++ ds) = (negative, ds) := by
  cases h with
  | plus => rfl
  | minus => rfl
  | none =>
    obtain ⟨d, ds, rfl⟩ := List.exists_cons_of_ne_nil hdigits.1
    have hd := forall_isDigit hdigits.2 d List.mem_cons_self
    rw [List.nil_append, readSign]
    · rintro r heq
      cases heq
      cases hd
    · rintro r heq
      cases heq
      cases hd

theorem readExponent_text {e : Option Int} (h : ExponentText e tail) :
    readExponent cut tail = .ok (e, []) := by
  cases h with
  | none => rfl
  | @some mark negative sign ds hmark hsign hdigits =>
    have htake : ds.takeWhile Char.isDigit = ds :=
      List.takeWhile_eq_self_iff.mpr (forall_isDigit hdigits.2)
    have hdrop : ds.dropWhile Char.isDigit = [] :=
      List.dropWhile_eq_nil_iff.mpr (forall_isDigit hdigits.2)
    simp only [readExponent, if_pos hmark, readSign_text hsign hdigits, htake, hdrop]
    obtain ⟨d, ds, rfl⟩ := List.exists_cons_of_ne_nil hdigits.1
    rfl

/-- A number that is written by the grammar is read into its parts. -/
theorem Numeral.Text.readNumeral {n : Numeral} (h : n.Text cs) (hb : Ended behind) :
    readNumeral cut n.negative (cs ++ behind) = .ok (n, behind) := by
  obtain ⟨tail, htail, rfl⟩ := h.parts
  have hread : Json.readNumeral cut n.negative (n.whole ++ (fractionText n.fraction ++ tail)) =
      .ok (n, []) := by
    simp only [Json.readNumeral,
      readWhole_digits h.whole h.leading (stops_fractionText htail.stops),
      readFraction_text h.fraction htail.stops htail.ne_point, readExponent_text htail, bind,
      Except.bind]
  exact readNumeral_append hread hb

/-- A number with its sign. -/
def Numeral.Signed (n : Numeral) (cs : List Char) : Prop :=
  ∃ digits, n.Text digits ∧ cs = if n.negative then '-' :: digits else digits

theorem Numeral.Text.exists_digit {n : Numeral} (h : n.Text cs) :
    ∃ c rest, cs = c :: rest ∧ c.isDigit = true := by
  obtain ⟨tail, -, rfl⟩ := h.parts
  obtain ⟨c, ds, hds⟩ := List.exists_cons_of_ne_nil h.whole.1
  refine ⟨c, ds ++ (fractionText n.fraction ++ tail), by rw [hds, List.cons_append], ?_⟩
  exact forall_isDigit h.whole.2 c (hds ▸ List.mem_cons_self)

theorem takeNumber_spaces {wanted : Wanted} (hs : Spaces space) (cs : List Char) :
    takeNumber wanted (space ++ cs) = takeNumber wanted cs := by
  rw [takeNumber, takeNumber, skipSpace_append hs]

theorem takeNumber_signed {n : Numeral} {wanted : Wanted} (h : n.Signed cs) (hs : Spaces space)
    (hb : Ended behind) : takeNumber wanted (space ++ (cs ++ behind)) =
      n.value.map fun number => (number, behind) := by
  obtain ⟨digits, htext, rfl⟩ := h
  have hread : readNumber n.negative (digits ++ behind) =
      n.value.map fun number => (number, behind) := by
    rw [readNumber, htext.readNumeral hb]
    cases hv : n.value <;> simp [hv, Except.map, bind, Except.bind]
  cases hn : n.negative with
  | true =>
    rw [hn] at hread
    rw [takeNumber_spaces hs, if_pos rfl, takeNumber, List.cons_append, skipSpace_cons rfl]
    exact hread
  | false =>
    rw [hn] at hread
    obtain ⟨c, rest, rfl, hc⟩ := htext.exists_digit
    rw [takeNumber_spaces hs, if_neg Bool.false_ne_true, List.cons_append,
      Reader.takeNumber_digit hc]
    exact hread

theorem takeNumber_text {n : Numeral} {wanted : Wanted} (h : n.Signed cs) :
    takeNumber wanted cs = n.value.map fun number => (number, []) := by
  have hread : takeNumber wanted ([] ++ (cs ++ [])) = _ := takeNumber_signed h spaces_nil ended_nil
  rwa [List.nil_append, List.append_nil] at hread

theorem digits_natural (n : Nat) : Digits (Decimal.natural n) :=
  ⟨natural_ne_nil n, fun c hc => (isDigit_iff c).mp (isDigit_of_mem_natural hc)⟩

theorem Numeral.signed_natural (n : Nat) :
    Numeral.Signed ⟨false, Decimal.natural n, [], none⟩ (Decimal.natural n) := by
  refine ⟨Decimal.natural n, ⟨digits_natural n, ?_, ?_, [], .none, ?_⟩, rfl⟩
  · intro ds hds
    dsimp only at hds
    rw [eq_zero_of_natural_eq_cons hds] at hds
    cases hds
    rfl
  · intro c hc
    cases hc
  · rw [fractionText, List.append_nil, List.append_nil]

def Numeral.integer (n : Numeral) : Int :=
  if n.negative then -(Decimal.value n.whole : Int) else Decimal.value n.whole

/-- The number is an integer that has at most 64 bits besides its sign. -/
structure Numeral.Fits (n : Numeral) : Prop where
  fraction : n.fraction = []
  exponent : n.exponent = none
  low : -(UInt64.size : Int) < n.integer
  high : n.integer < UInt64.size

theorem Numeral.Fits.absorbed {n : Numeral} (h : n.Fits) :
    absorb 0 n.whole = (Decimal.value n.whole, []) := by
  have hlow := h.low
  have hhigh := h.high
  rw [Numeral.integer] at hlow hhigh
  have hsize : Decimal.value n.whole < UInt64.size := by
    by_cases hn : n.negative = true
    · rw [if_pos hn] at hlow
      omega
    · rw [if_neg hn] at hhigh
      omega
  exact absorb_eq hsize

/-- An integer of at most 64 bits is read as itself, or as its double if it is below the signed
ones. Minus zero is a double of its own. -/
theorem Numeral.Fits.value {n : Numeral} (h : n.Fits) :
    n.value = .ok (.integer n.integer) ∨ n.value = .ok (.double (Float.ofInt n.integer)) ∨
      n.integer = 0 ∧ n.value = .ok (.double (-(Float.ofNat 0))) := by
  have hwhole := h.absorbed
  obtain ⟨negative, whole, fraction, exponent⟩ := n
  obtain rfl : fraction = [] := h.fraction
  obtain rfl : exponent = none := h.exponent
  cases negative with
  | false =>
    left
    simp [Numeral.value, Numeral.integer, hwhole]
  | true =>
    rw [Numeral.value, Numeral.integer, hwhole]
    cases Decimal.value whole with
    | zero => exact .inr (.inr ⟨rfl, rfl⟩)
    | succ m =>
      by_cases hsigned : Int64.minValue.toInt ≤ -((m + 1 : Nat) : Int)
      · left
        simp only [m.succ_pos, hsigned, ne_eq, not_true, and_self, if_true, if_false,
          Bool.not_true, Bool.false_eq_true]
      · right
        left
        simp only [m.succ_pos, hsigned, ne_eq, not_true, and_false, and_self, if_true, if_false,
          Bool.not_true, Bool.false_eq_true]
        rfl

end SingleTape.Json

import SingleTape.Json.Writer

/-!
Written strings. Reading takes every escape back for the character it was written for.
-/

namespace SingleTape.Json

variable {cs rest : List Char} {c : Char}

theorem hexValue_hexDigit {n : Nat} (h : n < 16) : hexValue (hexDigit n) = some n := by
  revert h
  revert n
  decide

theorem readEscape_control (h : c.toNat < 0x20) (rest : List Char) :
    readEscape ('u' :: '0' :: '0' :: hexDigit (c.toNat / 16) :: hexDigit (c.toNat % 16) :: rest) =
      .ok (c, rest) := by
  have hhigh := hexValue_hexDigit (n := c.toNat / 16) (by omega)
  have hlow := hexValue_hexDigit (n := c.toNat % 16) (by omega)
  have hzero : hexValue '0' = some 0 := rfl
  have hcode : c.toNat / 16 * 16 + c.toNat % 16 = c.toNat := by omega
  have hfirst : isFirstHalf c.toNat = false := by
    simp only [isFirstHalf, Bool.and_eq_false_iff, decide_eq_false_iff_not]
    omega
  have hsecond : isSecondHalf c.toNat = false := by
    simp only [isSecondHalf, Bool.and_eq_false_iff, decide_eq_false_iff_not]
    omega
  simp [readEscape, readCode, readHex, hhigh, hlow, hzero, hcode, hfirst, hsecond, bind,
    Except.bind]

theorem readTextOnto_backslash (h : readEscape cs = .ok (c, rest)) (taken : List Char) :
    readTextOnto taken ('\\' :: cs) = readTextOnto (c :: taken) rest := by
  rw [readTextOnto]
  split
  · next h' =>
    cases h.symm.trans h'
    rfl
  · next h' => cases h.symm.trans h'

theorem readTextOnto_plain (hq : c ≠ '"') (hb : c ≠ '\\') (hc : ¬ c.toNat < 0x20)
    (taken cs : List Char) : readTextOnto taken (c :: cs) = readTextOnto (c :: taken) cs := by
  rw [readTextOnto, if_neg hc]
  · exact hq
  · exact hb

theorem readTextOnto_escape (taken : List Char) (c : Char) (cs : List Char) :
    readTextOnto taken (escape c ++ cs) = readTextOnto (c :: taken) cs := by
  unfold escape
  split
  -- all other arms are escapes of one letter
  case h_8 _ hq hb _ _ _ _ _ =>
    by_cases hc : c.toNat < 0x20
    · rw [if_pos hc]
      exact readTextOnto_backslash (readEscape_control hc cs) taken
    · rw [if_neg hc]
      exact readTextOnto_plain hq hb hc taken cs
  all_goals exact readTextOnto_backslash rfl taken

theorem readTextOnto_flatMap_escape (taken cs rest : List Char) :
    readTextOnto taken (cs.flatMap escape ++ '"' :: rest) = .ok (taken.reverse ++ cs, rest) := by
  induction cs generalizing taken with
  | nil => simp [readTextOnto]
  | cons c cs ih =>
    rw [List.flatMap_cons, List.append_assoc, readTextOnto_escape, ih]
    simp

theorem writeText_append (s : String) (rest : List Char) :
    writeText s ++ rest = '"' :: (s.toList.flatMap escape ++ '"' :: rest) := by
  simp [writeText]

theorem readText_escaped (s : String) (rest : List Char) :
    readText (s.toList.flatMap escape ++ '"' :: rest) = .ok (s, rest) := by
  simp [readText, readTextOnto_flatMap_escape, bind, Except.bind]

end SingleTape.Json

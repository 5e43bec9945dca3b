import SingleTape.Proofs.Json.Strings

/-!
Strings with any escapes in them. A string is a row of glyphs, each a character as it is or an
escape; it can be decoded if surrogates stand in pairs. Skipping passes over a string in any case,
reading takes it for what it decodes to or refuses it.
-/

namespace SingleTape.Json

variable {c d : Char} {n : Nat}

def hexCode (a b c d : Char) : Option Nat := do
  some ((((← hexValue a) * 16 + (← hexValue b)) * 16 + (← hexValue c)) * 16 + (← hexValue d))

/-- One character of a string as it is written: itself, a letter behind a backslash, or a code. -/
inductive Glyph where
  | plain (c : Char) (quote : c ≠ '"') (backslash : c ≠ '\\') (control : ¬ c.toNat < 0x20)
  | letter (c d : Char) (known : letterValue c = some d)
  | code (a b c d : Char) (n : Nat) (digits : hexCode a b c d = some n)

def Glyph.text : Glyph → List Char
  | plain c _ _ _ => [c]
  | letter c _ _ => ['\\', c]
  | code a b c d _ _ => ['\\', 'u', a, b, c, d]

def glyphText (gs : List Glyph) : List Char := gs.flatMap Glyph.text

def pairValue (n m : Nat) : Char := Char.ofNat ((n - 0xD800) * 0x400 + (m - 0xDC00) + 0x10000)

/-- The string that glyphs stand for. None if half of a surrogate pair stands without the other. -/
def decode : List Glyph → Option (List Char)
  | [] => some []
  | .plain c _ _ _ :: gs => (decode gs).map (c :: ·)
  | .letter _ d _ :: gs => (decode gs).map (d :: ·)
  | .code _ _ _ _ n _ :: gs =>
    if isSecondHalf n then none
    else if isFirstHalf n then
      match gs with
      | .code _ _ _ _ m _ :: gs =>
        if isSecondHalf m then (decode gs).map (pairValue n m :: ·) else none
      | _ => none
    else (decode gs).map (Char.ofNat n :: ·)

def isPlain (c : Char) : Bool := c != '"' && c != '\\' && 0x20 ≤ c.toNat

theorem isPlain_iff : isPlain c = true ↔ (c ≠ '"' ∧ c ≠ '\\') ∧ ¬ c.toNat < 0x20 := by
  simp [isPlain]

def plainGlyphs (cs : List Char) (h : cs.all isPlain = true) : List Glyph :=
  cs.pmap (fun c hc => .plain c (isPlain_iff.mp hc).1.1 (isPlain_iff.mp hc).1.2
    (isPlain_iff.mp hc).2) (List.all_eq_true.mp h)

variable {gs : List Glyph} {text rest : List Char}

theorem glyphText_cons (g : Glyph) (gs : List Glyph) (rest : List Char) :
    glyphText (g :: gs) ++ rest = g.text ++ (glyphText gs ++ rest) := by
  rw [glyphText, List.flatMap_cons, List.append_assoc]
  rfl

theorem glyphText_letter (h : letterValue c = some d) (gs : List Glyph) (rest : List Char) :
    glyphText (.letter c d h :: gs) ++ rest = '\\' :: c :: (glyphText gs ++ rest) :=
  glyphText_cons ..

theorem glyphText_code {a b : Char} (h : hexCode a b c d = some n) (gs : List Glyph)
    (rest : List Char) : glyphText (.code a b c d n h :: gs) ++ rest =
      '\\' :: 'u' :: a :: b :: c :: d :: (glyphText gs ++ rest) :=
  glyphText_cons ..

theorem readHex_code {a b : Char} (h : hexCode a b c d = some n) (rest : List Char) :
    readHex (a :: b :: c :: d :: rest) = .ok (n, rest) := by
  simp only [hexCode, Option.bind_eq_bind, Option.bind_eq_some_iff, Option.some.injEq] at h
  obtain ⟨_, ha, _, hb, _, hc, _, hd, rfl⟩ := h
  simp only [readHex, ha, hb, hc, hd]

theorem ne_code_letter (h : letterValue c = some d) : c ≠ 'u' := by
  rintro rfl
  cases h

theorem skipText_backslash {cs : List Char} (h : skipEscape cs = .ok rest) :
    skipText ('\\' :: cs) = skipText rest := by
  rw [skipText]
  split
  · next h' =>
    cases h.symm.trans h'
    rfl
  · next h' => cases h.symm.trans h'

theorem skipText_glyph (g : Glyph) (cs : List Char) : skipText (g.text ++ cs) = skipText cs := by
  cases g with
  | plain c hq hb hc =>
    rw [Glyph.text, List.singleton_append, skipText, if_neg hc]
    · exact hq
    · exact hb
  | letter c d h =>
    apply skipText_backslash
    change skipEscape (c :: cs) = _
    rw [skipEscape, h]
    · rfl
    · exact ne_code_letter h
  | code a b c d n h =>
    apply skipText_backslash
    simp [skipEscape, readHex_code h, bind, Except.bind]

theorem skipText_glyphs (gs : List Glyph) (rest : List Char) :
    skipText (glyphText gs ++ '"' :: rest) = .ok rest := by
  induction gs with
  | nil => rw [glyphText, List.flatMap_nil, List.nil_append, skipText]
  | cons g gs ih => rw [glyphText_cons, skipText_glyph, ih]

theorem readEscape_letter (h : letterValue c = some d) (rest : List Char) :
    readEscape (c :: rest) = .ok (d, rest) := by
  rw [readEscape, h]
  exact ne_code_letter h

theorem readTextOnto_refused {cs : List Char} {defect : Defect} (h : readEscape cs = .error defect)
    (taken : List Char) : readTextOnto taken ('\\' :: cs) = .error defect := by
  rw [readTextOnto]
  split
  · next h' => cases h.symm.trans h'
  · next h' =>
    cases h.symm.trans h'
    rfl

theorem readSecondHalf_refused (h : ∀ a b c d m hm gs', gs = .code a b c d m hm :: gs' →
    isSecondHalf m = false) (rest : List Char) :
    ∃ defect, readSecondHalf (glyphText gs ++ '"' :: rest) = .error defect := by
  cases gs with
  | nil => exact ⟨_, rfl⟩
  | cons g gs =>
    rw [glyphText_cons]
    cases g with
    | plain c hq hb hc =>
      refine ⟨.unfinishedEscape, ?_⟩
      rw [Glyph.text, List.singleton_append, readSecondHalf]
      all_goals simp [hb]
    | letter c d hl =>
      refine ⟨.unfinishedEscape, ?_⟩
      have hu := ne_code_letter hl
      simp only [Glyph.text, List.cons_append, List.nil_append]
      rw [readSecondHalf]
      all_goals simp [hu]
    | code a b c d m hm =>
      refine ⟨.loneSurrogate, ?_⟩
      simp [Glyph.text, readSecondHalf, readHex_code hm, h _ _ _ _ _ _ _ rfl, bind, Except.bind]

/-- An escape by code, read: alone, as the first half of a pair, or refused. -/
theorem readEscape_code {a b : Char} (h : hexCode a b c d = some n) (rest : List Char) :
    readEscape ('u' :: a :: b :: c :: d :: rest) =
      if isSecondHalf n then .error .loneSurrogate
      else if isFirstHalf n then (readSecondHalf rest).map fun half => (pairValue n half.1, half.2)
      else .ok (Char.ofNat n, rest) := by
  rw [readEscape, readCode, readHex_code h]
  change (if isSecondHalf n then _ else _) = _
  cases readSecondHalf rest with
  | error defect => rfl
  | ok half => rfl

theorem readSecondHalf_code {a b : Char} (h : hexCode a b c d = some n)
    (hs : isSecondHalf n = true) (rest : List Char) :
    readSecondHalf ('\\' :: 'u' :: a :: b :: c :: d :: rest) = .ok (n, rest) := by
  simp [readSecondHalf, readHex_code h, hs, bind, Except.bind]

theorem readEscape_refused {a b : Char} (h : hexCode a b c d = some n)
    (hs : ¬ isSecondHalf n = true) (hf : isFirstHalf n = true)
    (hnone : ∀ a b c d m hm gs', gs = .code a b c d m hm :: gs' → isSecondHalf m = false)
    (rest : List Char) :
    ∃ defect, readEscape ('u' :: a :: b :: c :: d :: (glyphText gs ++ '"' :: rest)) =
      .error defect := by
  obtain ⟨defect, hd⟩ := readSecondHalf_refused hnone rest
  exact ⟨defect, by rw [readEscape_code h, if_neg hs, if_pos hf, hd]; rfl⟩

theorem toOption_refused {cs : List Char} (h : ∃ defect, readEscape cs = .error defect)
    (taken : List Char) : (readTextOnto taken ('\\' :: cs)).toOption = none := by
  obtain ⟨defect, h⟩ := h
  rw [readTextOnto_refused h]
  rfl

theorem decode_second {a b : Char} (h : hexCode a b c d = some n) (hs : isSecondHalf n = true)
    (gs : List Glyph) : decode (.code a b c d n h :: gs) = none := by
  unfold decode
  rw [if_pos hs]

theorem decode_unit {a b : Char} (h : hexCode a b c d = some n) (hs : ¬ isSecondHalf n = true)
    (hf : ¬ isFirstHalf n = true) (gs : List Glyph) :
    decode (.code a b c d n h :: gs) = (decode gs).map (Char.ofNat n :: ·) := by
  conv => lhs; unfold decode
  rw [if_neg hs, if_neg hf]

/-- A string that can be decoded is read as what it decodes to, any other one is refused. -/
theorem toOption_readTextOnto (taken : List Char) (gs : List Glyph) (rest : List Char) :
    (readTextOnto taken (glyphText gs ++ '"' :: rest)).toOption =
      (decode gs).map fun text => (taken.reverse ++ text, rest) := by
  have hmore (taken : List Char) (c : Char) (found : Option (List Char)) :
      (found.map fun text => ((c :: taken).reverse ++ text, rest)) =
        (found.map (c :: ·)).map fun text => (taken.reverse ++ text, rest) := by
    simp [Function.comp_def]
  induction gs using decode.induct generalizing taken with
  | case1 => simp [glyphText, readTextOnto, decode, Except.toOption]
  | case2 c hq hb hc gs ih =>
    rw [glyphText_cons, Glyph.text, List.singleton_append, readTextOnto_plain hq hb hc, ih,
      decode, hmore]
  | case3 c d hl gs ih =>
    rw [glyphText_letter, readTextOnto_backslash (readEscape_letter hl _), ih, decode, hmore]
  | case4 a b c d n h gs hs =>
    rw [glyphText_code, decode_second h hs]
    apply toOption_refused
    exact ⟨_, by rw [readEscape_code h, if_pos hs]⟩
  | case5 a b c d n h hs hf a' b' c' d' m h' gs hm ih =>
    have hpair (cs : List Char) : readEscape ('u' :: a :: b :: c :: d :: '\\' :: 'u' :: a' :: b' ::
        c' :: d' :: cs) = .ok (pairValue n m, cs) := by
      rw [readEscape_code h, if_neg hs, if_pos hf, readSecondHalf_code h' hm]
      rfl
    rw [glyphText_code, glyphText_code, readTextOnto_backslash (hpair _), ih, hmore, decode,
      if_neg hs, if_pos hf, if_pos hm]
  | case6 a b c d n h hs hf a' b' c' d' m h' gs hm =>
    have hnone : ∀ e₁ e₂ e₃ e₄ k hk gs', Glyph.code a' b' c' d' m h' :: gs =
        .code e₁ e₂ e₃ e₄ k hk :: gs' → isSecondHalf k = false := by
      rintro _ _ _ _ _ _ _ heq
      cases heq
      exact Bool.eq_false_iff.mpr hm
    rw [glyphText_code, decode, if_neg hs, if_pos hf, if_neg hm]
    exact toOption_refused (readEscape_refused h hs hf hnone rest) taken
  | case7 a b c d n h gs hs hf hnone =>
    rw [glyphText_code, decode, if_neg hs, if_pos hf]
    · apply toOption_refused
      refine readEscape_refused h hs hf ?_ rest
      intro _ _ _ _ _ _ _ heq
      exact (hnone _ _ _ _ _ _ _ heq).elim
    · exact hnone
  | case8 a b c d n h gs hs hf ih =>
    have hcode (cs : List Char) : readEscape ('u' :: a :: b :: c :: d :: cs) =
        .ok (Char.ofNat n, cs) := by
      rw [readEscape_code h, if_neg hs, if_neg hf]
    rw [glyphText_code, readTextOnto_backslash (hcode _), ih, hmore, decode_unit h hs hf]

theorem readText_glyphs (h : decode gs = some text) (rest : List Char) :
    readText (glyphText gs ++ '"' :: rest) = .ok (String.ofList text, rest) := by
  have hread := toOption_readTextOnto [] gs rest
  rw [h] at hread
  cases hr : readTextOnto [] (glyphText gs ++ '"' :: rest) with
  | error defect => rw [hr] at hread; cases hread
  | ok read =>
    rw [hr] at hread
    cases hread
    simp [readText, hr, bind, Except.bind]

theorem readText_refused (h : decode gs = none) (rest : List Char) :
    ∃ defect, readText (glyphText gs ++ '"' :: rest) = .error defect := by
  have hread := toOption_readTextOnto [] gs rest
  rw [h] at hread
  cases hr : readTextOnto [] (glyphText gs ++ '"' :: rest) with
  | error defect => exact ⟨defect, by simp [readText, hr, bind, Except.bind]⟩
  | ok read => rw [hr] at hread; cases hread

end SingleTape.Json

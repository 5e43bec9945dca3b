import SingleTape.Json.Defect

/-!
JSON strings: how they are written, read and skipped. Reading decodes all escapes and wants
surrogates in pairs; skipping only looks for the end and takes any four hexadecimal digits.
-/

namespace SingleTape.Json

def hexDigit (n : Nat) : Char := "0123456789abcdef".toList.getD n '0'

/-- One character of a written string. Only quotation marks, backslashes and controls are escaped.
-/
def escape (c : Char) : List Char :=
  match c with
  | '"' => ['\\', '"']
  | '\\' => ['\\', '\\']
  | '\x08' => ['\\', 'b']
  | '\x0c' => ['\\', 'f']
  | '\n' => ['\\', 'n']
  | '\r' => ['\\', 'r']
  | '\t' => ['\\', 't']
  | c =>
    if c.toNat < 0x20 then
      ['\\', 'u', '0', '0', hexDigit (c.toNat / 16), hexDigit (c.toNat % 16)]
    else [c]

def writeText (s : String) : List Char := '"' :: s.toList.flatMap escape ++ ['"']

def hexValue (c : Char) : Option Nat :=
  if '0' ≤ c ∧ c ≤ '9' then some (c.toNat - '0'.toNat)
  else if 'a' ≤ c ∧ c ≤ 'f' then some (c.toNat - 'a'.toNat + 10)
  else if 'A' ≤ c ∧ c ≤ 'F' then some (c.toNat - 'A'.toNat + 10)
  else none

def readHex : List Char → Except Defect (Nat × List Char)
  | a :: b :: c :: d :: rest =>
    match hexValue a, hexValue b, hexValue c, hexValue d with
    | some a, some b, some c, some d => .ok (((a * 16 + b) * 16 + c) * 16 + d, rest)
    | _, _, _, _ => .error .badEscape
  | cs => .error (if (String.ofList cs).utf8ByteSize < 4 then .endIn .string else .badEscape)

def isFirstHalf (n : Nat) : Bool := 0xD800 ≤ n && n ≤ 0xDBFF

def isSecondHalf (n : Nat) : Bool := 0xDC00 ≤ n && n ≤ 0xDFFF

def readSecondHalf : List Char → Except Defect (Nat × List Char)
  | [] => .error (.endIn .string)
  | '\\' :: [] => .error (.endIn .string)
  | '\\' :: 'u' :: rest => do
    let (n, rest) ← readHex rest
    if isSecondHalf n then .ok (n, rest) else .error .loneSurrogate
  | _ => .error .unfinishedEscape

/-- A character given by its code: one escape, or two for a surrogate pair. -/
def readCode (cs : List Char) : Except Defect (Char × List Char) := do
  let (n, rest) ← readHex cs
  if isSecondHalf n then .error .loneSurrogate
  else if isFirstHalf n then do
    let (m, rest) ← readSecondHalf rest
    .ok (Char.ofNat ((n - 0xD800) * 0x400 + (m - 0xDC00) + 0x10000), rest)
  else .ok (Char.ofNat n, rest)

def letterValue : Char → Option Char
  | '"' => some '"'
  | '\\' => some '\\'
  | '/' => some '/'
  | 'b' => some '\x08'
  | 'f' => some '\x0c'
  | 'n' => some '\n'
  | 'r' => some '\r'
  | 't' => some '\t'
  | _ => none

def readEscape : List Char → Except Defect (Char × List Char)
  | [] => .error (.endIn .string)
  | 'u' :: rest => readCode rest
  | c :: rest =>
    match letterValue c with
    | some d => .ok (d, rest)
    | none => .error .badEscape

def skipEscape : List Char → Except Defect (List Char)
  | [] => .error (.endIn .string)
  | 'u' :: rest => do .ok (← readHex rest).2
  | c :: rest => if (letterValue c).isSome then .ok rest else .error .badEscape

theorem readHex_length {cs rest : List Char} {n : Nat} (h : readHex cs = .ok (n, rest)) :
    rest.length < cs.length := by
  unfold readHex at h
  split at h
  · split at h
    · cases h
      simp only [List.length_cons]
      omega
    · cases h
  · cases h

theorem readSecondHalf_length {cs rest : List Char} {n : Nat}
    (h : readSecondHalf cs = .ok (n, rest)) : rest.length < cs.length := by
  unfold readSecondHalf at h
  split at h
  · cases h
  · cases h
  · obtain ⟨⟨_, _⟩, hx, h⟩ := exists_of_bind_eq_ok h
    have := readHex_length hx
    dsimp only at h
    split at h
    · cases h
      simp only [List.length_cons]
      omega
    · cases h
  · cases h

theorem readCode_length {cs rest : List Char} {c : Char} (h : readCode cs = .ok (c, rest)) :
    rest.length < cs.length := by
  obtain ⟨⟨_, _⟩, hx, h⟩ := exists_of_bind_eq_ok h
  dsimp only at h
  split at h
  · cases h
  · split at h
    · obtain ⟨⟨_, _⟩, hy, h⟩ := exists_of_bind_eq_ok h
      obtain ⟨_, rfl⟩ := Prod.mk.inj (Except.ok.inj h)
      exact Nat.lt_trans (readSecondHalf_length hy) (readHex_length hx)
    · obtain ⟨_, rfl⟩ := Prod.mk.inj (Except.ok.inj h)
      exact readHex_length hx

theorem readEscape_length {cs rest : List Char} {c : Char} (h : readEscape cs = .ok (c, rest)) :
    rest.length < cs.length := by
  unfold readEscape at h
  split at h
  · cases h
  · exact Nat.lt_succ_of_lt (readCode_length h)
  · split at h
    · cases h
      exact Nat.lt_succ_self _
    · cases h

theorem skipEscape_length {cs rest : List Char} (h : skipEscape cs = .ok rest) :
    rest.length < cs.length := by
  unfold skipEscape at h
  split at h
  · cases h
  · obtain ⟨⟨_, _⟩, hx, h⟩ := exists_of_bind_eq_ok h
    cases h
    exact Nat.lt_succ_of_lt (readHex_length hx)
  · split at h
    · cases h
      exact Nat.lt_succ_self _
    · cases h

/-- The rest of a string up to its closing quotation mark, `taken` being what was read of it, last
character first. -/
def readTextOnto (taken : List Char) (cs : List Char) : Except Defect (List Char × List Char) :=
  match cs with
  | [] => .error (.endIn .string)
  | '"' :: rest => .ok (taken.reverse, rest)
  | '\\' :: rest =>
    match _h : readEscape rest with
    | .ok (c, rest') => readTextOnto (c :: taken) rest'
    | .error defect => .error defect
  | c :: rest => if c.toNat < 0x20 then .error .controlCharacter else readTextOnto (c :: taken) rest
termination_by cs.length
decreasing_by
  · have := readEscape_length _h
    simp only [List.length_cons]; omega
  · simp

def readText (cs : List Char) : Except Defect (String × List Char) := do
  let (text, rest) ← readTextOnto [] cs
  .ok (String.ofList text, rest)

def skipText (cs : List Char) : Except Defect (List Char) :=
  match cs with
  | [] => .error (.endIn .string)
  | '"' :: rest => .ok rest
  | '\\' :: rest =>
    match _h : skipEscape rest with
    | .ok rest' => skipText rest'
    | .error defect => .error defect
  | c :: rest => if c.toNat < 0x20 then .error .controlCharacter else skipText rest
termination_by cs.length
decreasing_by
  · have := skipEscape_length _h
    simp only [List.length_cons]; omega
  · simp

theorem readTextOnto_length {taken cs text rest : List Char}
    (h : readTextOnto taken cs = .ok (text, rest)) : rest.length < cs.length := by
  fun_induction readTextOnto taken cs with
  | case1 => cases h
  | case2 =>
    cases h
    exact Nat.lt_succ_self _
  | case3 taken r c r' he ih =>
    exact Nat.lt_succ_of_lt (Nat.lt_trans (ih h) (readEscape_length he))
  | case4 => cases h
  | case5 => cases h
  | case6 taken c r hq hb hc ih => exact Nat.lt_succ_of_lt (ih h)

theorem readText_length {cs rest : List Char} {s : String} (h : readText cs = .ok (s, rest)) :
    rest.length < cs.length := by
  obtain ⟨⟨_, _⟩, hx, h⟩ := exists_of_bind_eq_ok h
  cases h
  exact readTextOnto_length hx

theorem skipText_length {cs rest : List Char} (h : skipText cs = .ok rest) :
    rest.length < cs.length := by
  fun_induction skipText cs with
  | case1 => cases h
  | case2 =>
    cases h
    exact Nat.lt_succ_self _
  | case3 r r' he ih =>
    exact Nat.lt_succ_of_lt (Nat.lt_trans (ih h) (skipEscape_length he))
  | case4 => cases h
  | case5 => cases h
  | case6 c r hq hb hc ih => exact Nat.lt_succ_of_lt (ih h)

end SingleTape.Json

import SingleTape.Json.Number
import SingleTape.Json.Text

/-!
Passing over one JSON value of any depth without keeping it. The open lists and objects are a stack,
so the depth costs no recursion.
-/

namespace SingleTape.Json

def isSpace (c : Char) : Bool := c == ' ' || c == '\n' || c == '\t' || c == '\r'

def skipSpace (cs : List Char) : List Char := cs.dropWhile isSpace

def readWordRest : List Char → List Char → Except Defect (List Char)
  | [], cs => .ok cs
  | _ :: _, [] => .error (.endIn .value)
  | c :: word, d :: rest => if c = d then readWordRest word rest else .error .noWord

def readColon (cs : List Char) : Except Defect (List Char) :=
  match skipSpace cs with
  | ':' :: rest => .ok rest
  | [] => .error (.endIn .object)
  | _ => .error .noColon

inductive Frame where
  | list
  | object
  deriving DecidableEq, Repr

def Frame.closing : Frame → Char
  | list => ']'
  | object => '}'

def Frame.place : Frame → Place
  | list => .list
  | object => .object

def Frame.noComma : Frame → Defect
  | list => .noCommaOrBracket
  | object => .noCommaOrBrace

def skipKey (cs : List Char) : Except Defect (List Char) :=
  match skipSpace cs with
  | '"' :: rest => do readColon (← skipText rest)
  | [] => .error (.endIn .object)
  | _ => .error .keyNotString

def skipScalar : List Char → Except Defect (List Char)
  | [] => .error (.endIn .value)
  | 'n' :: rest => readWordRest ['u', 'l', 'l'] rest
  | 't' :: rest => readWordRest ['r', 'u', 'e'] rest
  | 'f' :: rest => readWordRest ['a', 'l', 's', 'e'] rest
  | '"' :: rest => skipText rest
  | '-' :: rest => do .ok (← readNumeral .badNumber true rest).2
  | c :: rest =>
    if c.isDigit then do .ok (← readNumeral .badNumber false (c :: rest)).2
    else .error .noValue

theorem length_skipSpace (cs : List Char) : (skipSpace cs).length ≤ cs.length :=
  (List.dropWhile_suffix isSpace).length_le

theorem length_lt_of_skipSpace {c : Char} {cs rest : List Char} (h : skipSpace cs = c :: rest) :
    rest.length < cs.length := by
  have := length_skipSpace cs
  rw [h] at this
  exact this

theorem readWordRest_length {word cs rest : List Char} (h : readWordRest word cs = .ok rest) :
    rest.length ≤ cs.length := by
  fun_induction readWordRest word cs with
  | case1 =>
    cases h
    exact Nat.le_refl _
  | case2 => cases h
  | case3 _ _ _ ih => exact Nat.le_succ_of_le (ih h)
  | case4 => cases h

theorem readColon_length {cs rest : List Char} (h : readColon cs = .ok rest) :
    rest.length < cs.length := by
  unfold readColon at h
  split at h
  · cases h
    exact length_lt_of_skipSpace ‹_›
  · cases h
  · cases h

theorem skipKey_length {cs rest : List Char} (h : skipKey cs = .ok rest) :
    rest.length < cs.length := by
  unfold skipKey at h
  split at h
  · obtain ⟨_, hx, h⟩ := exists_of_bind_eq_ok h
    exact Nat.lt_trans (readColon_length h)
      (Nat.lt_trans (skipText_length hx) (length_lt_of_skipSpace ‹_›))
  · cases h
  · cases h

theorem skipScalar_length {cs rest : List Char} (h : skipScalar cs = .ok rest) :
    rest.length < cs.length := by
  unfold skipScalar at h
  split at h
  · cases h
  · exact Nat.lt_succ_of_le (readWordRest_length h)
  · exact Nat.lt_succ_of_le (readWordRest_length h)
  · exact Nat.lt_succ_of_le (readWordRest_length h)
  · exact Nat.lt_succ_of_lt (skipText_length h)
  · obtain ⟨⟨_, _⟩, hx, h⟩ := exists_of_bind_eq_ok h
    cases h
    exact Nat.lt_succ_of_lt (readNumeral_length hx)
  · split at h
    · obtain ⟨⟨_, _⟩, hx, h⟩ := exists_of_bind_eq_ok h
      cases h
      exact readNumeral_length hx
    · cases h

/-- What is expected next: a value, the first element of the innermost list or object or its end, or
what follows a value. -/
inductive Expect where
  | value
  | first
  | next
  deriving DecidableEq, Repr

def Expect.rank : Expect → Nat
  | value => 0
  | first => 1
  | next => 0

/-- Passes over the rest of a value. The stack holds the open lists and objects, the innermost
first. -/
def skipRest (expect : Expect) (stack : List Frame) (cs : List Char) : Except Defect (List Char) :=
  match expect, stack with
  | .next, [] => .ok cs
  | .first, [] => .ok cs
  | .value, stack =>
    match _h : skipSpace cs with
    | '[' :: rest => skipRest .first (.list :: stack) rest
    | '{' :: rest => skipRest .first (.object :: stack) rest
    | cs' =>
      match _hs : skipScalar cs' with
      | .ok rest => skipRest .next stack rest
      | .error defect => .error defect
  | .first, frame :: stack =>
    match _h : skipSpace cs with
    | [] => .error (.endIn frame.place)
    | c :: rest =>
      if c = frame.closing then skipRest .next stack rest
      else match frame with
        | .list => skipRest .value (frame :: stack) cs
        | .object =>
          match _hk : skipKey cs with
          | .ok rest => skipRest .value (frame :: stack) rest
          | .error defect => .error defect
  | .next, frame :: stack =>
    match _h : skipSpace cs with
    | [] => .error (.endIn frame.place)
    | c :: rest =>
      if c = frame.closing then skipRest .next stack rest
      else if c = ',' then
        match frame with
        | .list => skipRest .value (frame :: stack) rest
        | .object =>
          match _hk : skipKey rest with
          | .ok rest => skipRest .value (frame :: stack) rest
          | .error defect => .error defect
      else .error frame.noComma
termination_by (cs.length, expect.rank)
decreasing_by
  all_goals have hspace := length_skipSpace cs
  · simp only [_h, List.length_cons] at hspace
    exact Prod.Lex.left _ _ (by omega)
  · simp only [_h, List.length_cons] at hspace
    exact Prod.Lex.left _ _ (by omega)
  · have := skipScalar_length _hs
    rw [_h] at hspace
    exact Prod.Lex.left _ _ (by omega)
  · simp only [_h, List.length_cons] at hspace
    exact Prod.Lex.left _ _ (by omega)
  · exact Prod.Lex.right _ (by decide)
  · have := skipKey_length _hk
    exact Prod.Lex.left _ _ (by omega)
  · simp only [_h, List.length_cons] at hspace
    exact Prod.Lex.left _ _ (by omega)
  · simp only [_h, List.length_cons] at hspace
    exact Prod.Lex.left _ _ (by omega)
  · have := skipKey_length _hk
    simp only [_h, List.length_cons] at hspace
    exact Prod.Lex.left _ _ (by omega)

theorem skipRest_length {expect : Expect} {stack : List Frame} {cs rest : List Char}
    (h : skipRest expect stack cs = .ok rest) : rest.length ≤ cs.length := by
  have tail {c : Char} {cs r : List Char} (hs : skipSpace cs = c :: r) : r.length ≤ cs.length :=
    Nat.le_of_lt (length_lt_of_skipSpace hs)
  fun_induction skipRest expect stack cs with
  | case1 =>
    cases h
    exact Nat.le_refl _
  | case2 =>
    cases h
    exact Nat.le_refl _
  | case3 cs stack r hs ih => exact Nat.le_trans (ih h) (tail hs)
  | case4 cs stack r hs ih => exact Nat.le_trans (ih h) (tail hs)
  | case5 cs stack r _ _ hs ih =>
    have := skipScalar_length hs
    have := length_skipSpace cs
    have := ih h
    omega
  | case6 => cases h
  | case7 => cases h
  | case8 cs frame stack r hs ih => exact Nat.le_trans (ih h) (tail hs)
  | case9 cs stack c r hs _ ih => exact ih h
  | case10 cs stack c r hs r' hk _ ih =>
    exact Nat.le_trans (ih h) (Nat.le_of_lt (skipKey_length hk))
  | case11 => cases h
  | case12 => cases h
  | case13 cs frame stack r hs ih => exact Nat.le_trans (ih h) (tail hs)
  | case14 cs stack r hs _ ih => exact Nat.le_trans (ih h) (tail hs)
  | case15 cs stack r r' hk hs _ ih =>
    exact Nat.le_trans (Nat.le_trans (ih h) (Nat.le_of_lt (skipKey_length hk))) (tail hs)
  | case16 => cases h
  | case17 => cases h

def skipValue (cs : List Char) : Except Defect (List Char) := skipRest .value [] cs

end SingleTape.Json

import SingleTape.Json.Skip

/-!
Readers of JSON values. A reader takes one value off the front of a text and says what follows;
since it takes at least one character, lists and objects are read by recursion on the rest. Errors
come in reading order: the first one met is the one reported.
-/

namespace SingleTape.Json

structure Reader (α : Type) where
  run : List Char → Except Defect (α × List Char)
  consumes : ∀ {cs : List Char} {a : α} {rest : List Char},
    run cs = .ok (a, rest) → rest.length < cs.length

/-- The defect of a value that is not of the wanted type. Only as much of it is read as its type
shows. -/
def mismatch (wanted : Wanted) (cs : List Char) : Defect :=
  let afterWord (word : List Char) (found : Found) (rest : List Char) : Defect :=
    match readWordRest word rest with
    | .ok _ => .wrongType found wanted
    | .error defect => defect
  let ofNumber (negative : Bool) (rest : List Char) : Defect :=
    match readNumber negative rest with
    | .ok (number, _) => .wrongType number.found wanted
    | .error defect => defect
  match cs with
  | [] => .endIn .value
  | 'n' :: rest => afterWord ['u', 'l', 'l'] .null rest
  | 't' :: rest => afterWord ['r', 'u', 'e'] (.boolean true) rest
  | 'f' :: rest => afterWord ['a', 'l', 's', 'e'] (.boolean false) rest
  | '-' :: rest => ofNumber true rest
  | '"' :: rest =>
    match readText rest with
    | .ok (text, _) => .wrongType (.text text) wanted
    | .error defect => defect
  | '[' :: _ => .wrongType .list wanted
  | '{' :: _ => .wrongType .object wanted
  | c :: rest => if c.isDigit then ofNumber false (c :: rest) else .noValue

def takeText (cs : List Char) : Except Defect (String × List Char) :=
  match skipSpace cs with
  | '"' :: rest => readText rest
  | cs => .error (mismatch .text cs)

def takeNumber (wanted : Wanted) (cs : List Char) : Except Defect (Number × List Char) :=
  match skipSpace cs with
  | '-' :: rest => readNumber true rest
  | c :: rest =>
    if c.isDigit then readNumber false (c :: rest) else .error (mismatch wanted (c :: rest))
  | [] => .error (.endIn .value)

def takeBool (cs : List Char) : Except Defect (Bool × List Char) :=
  match skipSpace cs with
  | 't' :: rest => do .ok (true, ← readWordRest ['r', 'u', 'e'] rest)
  | 'f' :: rest => do .ok (false, ← readWordRest ['a', 'l', 's', 'e'] rest)
  | cs => .error (mismatch .boolean cs)

def takeNull (cs : List Char) : Except Defect (Unit × List Char) :=
  match skipSpace cs with
  | 'n' :: rest => do .ok ((), ← readWordRest ['u', 'l', 'l'] rest)
  | cs => .error (mismatch .null cs)

theorem takeText_length {cs rest : List Char} {s : String} (h : takeText cs = .ok (s, rest)) :
    rest.length < cs.length := by
  unfold takeText at h
  split at h
  · exact Nat.lt_trans (readText_length h) (length_lt_of_skipSpace ‹_›)
  · cases h

theorem takeNumber_length {wanted : Wanted} {cs rest : List Char} {n : Number}
    (h : takeNumber wanted cs = .ok (n, rest)) : rest.length < cs.length := by
  unfold takeNumber at h
  split at h
  · exact Nat.lt_trans (readNumber_length h) (length_lt_of_skipSpace ‹_›)
  · split at h
    · exact Nat.lt_of_lt_of_le (readNumber_length h) (‹skipSpace cs = _› ▸ length_skipSpace cs)
    · cases h
  · cases h

theorem length_lt_of_wordRest {α : Type} {word cs tail rest : List Char} {c : Char} {a b : α}
    (hs : skipSpace cs = c :: tail)
    (h : (do .ok (a, ← readWordRest word tail) : Except Defect (α × List Char)) = .ok (b, rest)) :
    rest.length < cs.length := by
  obtain ⟨_, hx, h⟩ := exists_of_bind_eq_ok h
  cases h
  exact Nat.lt_of_le_of_lt (readWordRest_length hx) (length_lt_of_skipSpace hs)

theorem takeBool_length {cs rest : List Char} {b : Bool} (h : takeBool cs = .ok (b, rest)) :
    rest.length < cs.length := by
  unfold takeBool at h
  split at h
  · exact length_lt_of_wordRest ‹_› h
  · exact length_lt_of_wordRest ‹_› h
  · cases h

theorem takeNull_length {cs rest : List Char} {u : Unit} (h : takeNull cs = .ok (u, rest)) :
    rest.length < cs.length := by
  unfold takeNull at h
  split at h
  · exact length_lt_of_wordRest ‹_› h
  · cases h

namespace Reader

def refine {α β : Type} (r : Reader α) (f : α → Except Defect β) : Reader β where
  run cs := do
    let (a, rest) ← r.run cs
    .ok (← f a, rest)
  consumes h := by
    obtain ⟨⟨_, _⟩, hx, h⟩ := exists_of_bind_eq_ok h
    obtain ⟨_, _, h⟩ := exists_of_bind_eq_ok h
    cases h
    exact r.consumes hx

def map {α β : Type} (r : Reader α) (f : α → β) : Reader β := r.refine fun a => .ok (f a)

def text : Reader String := ⟨takeText, takeText_length⟩

def bool : Reader Bool := ⟨takeBool, takeBool_length⟩

def null : Reader Unit := ⟨takeNull, takeNull_length⟩

def number (wanted : Wanted) : Reader Number := ⟨takeNumber wanted, takeNumber_length⟩

/-- An integer from `low` up to `high`. A double is not taken for an integer. -/
def integerIn (wanted : Wanted) (low high : Int) : Reader Int :=
  (number wanted).refine fun
    | .integer i => if low ≤ i ∧ i ≤ high then .ok i else .error (.wrongValue i wanted)
    | .double x => .error (.wrongType (.double x) wanted)

def signed64 : Reader Int := integerIn .signed64 Int64.minValue.toInt Int64.maxValue.toInt

def unsigned64 : Reader Nat := (integerIn .unsigned64 0 (UInt64.size - 1)).map Int.toNat

def double : Reader Float :=
  (number .double).map fun
    | .integer i => Float.ofInt i
    | .double x => x

def orNull {α : Type} (null : α) (r : Reader α) : Reader α where
  run cs :=
    match skipSpace cs with
    | 'n' :: rest => do .ok (null, ← readWordRest ['u', 'l', 'l'] rest)
    | _ => r.run cs
  consumes h := by
    split at h
    · exact length_lt_of_wordRest ‹_› h
    · exact r.consumes h

end Reader

/-- The way to the next element of a list, `first` for the first one: the text in front of it, or
none at the end of the list, whose bracket stays unread. -/
def toElement (first : Bool) (cs : List Char) : Except Defect (Option (List Char)) :=
  match skipSpace cs with
  | [] => .error (.endIn .list)
  | ']' :: _ => .ok none
  | c :: rest =>
    if first then .ok (some (c :: rest))
    else if c = ',' then
      match skipSpace rest with
      | [] => .error (.endIn .value)
      | ']' :: _ => .error .trailingComma
      | cs => .ok (some cs)
    else .error .noCommaOrBracket

def readListEnd (cs : List Char) : Except Defect (List Char) :=
  match skipSpace cs with
  | [] => .error (.endIn .list)
  | ']' :: rest => .ok rest
  | ',' :: rest =>
    match skipSpace rest with
    | ']' :: _ => .error .trailingComma
    | _ => .error .trailingCharacters
  | _ => .error .trailingCharacters

def toKey (first : Bool) (cs : List Char) : Except Defect (Option String × List Char) :=
  match skipSpace cs with
  | [] => .error (.endIn .object)
  | '}' :: rest => .ok (none, rest)
  | c :: rest =>
    if first then
      if c = '"' then do
        let (key, rest) ← readText rest
        .ok (some key, rest)
      else .error .keyNotString
    else if c = ',' then
      match skipSpace rest with
      | [] => .error (.endIn .value)
      | '"' :: rest => do
        let (key, rest) ← readText rest
        .ok (some key, rest)
      | '}' :: _ => .error .trailingComma
      | _ => .error .keyNotString
    else .error .noCommaOrBrace

theorem toElement_length {first : Bool} {cs rest : List Char}
    (h : toElement first cs = .ok (some rest)) : rest.length ≤ cs.length := by
  unfold toElement at h
  split at h
  · cases h
  · cases h
  · rename_i c r _ hs
    split at h
    · cases h
      exact hs ▸ length_skipSpace cs
    · split at h
      · split at h
        · cases h
        · cases h
        · cases h
          exact Nat.le_trans (length_skipSpace r) (Nat.le_of_lt (length_lt_of_skipSpace hs))
      · cases h

theorem readListEnd_length {cs rest : List Char} (h : readListEnd cs = .ok rest) :
    rest.length < cs.length := by
  unfold readListEnd at h
  split at h
  · cases h
  · cases h
    exact length_lt_of_skipSpace ‹_›
  · split at h <;> cases h
  · cases h

theorem toKey_length {first : Bool} {cs rest : List Char} {key : Option String}
    (h : toKey first cs = .ok (key, rest)) : rest.length < cs.length := by
  unfold toKey at h
  split at h
  · cases h
  · cases h
    exact length_lt_of_skipSpace ‹_›
  · rename_i c r _ hs
    have h₁ := length_lt_of_skipSpace hs
    split at h
    · split at h
      · obtain ⟨⟨_, _⟩, hx, h⟩ := exists_of_bind_eq_ok h
        cases h
        exact Nat.lt_trans (readText_length hx) h₁
      · cases h
    · split at h
      · split at h
        · cases h
        · obtain ⟨⟨_, _⟩, hx, h⟩ := exists_of_bind_eq_ok h
          cases h
          exact Nat.lt_trans (Nat.lt_trans (readText_length hx) (length_lt_of_skipSpace ‹_›)) h₁
        · cases h
        · cases h
      · cases h

def readElements {α : Type} (r : Reader α) (taken : List α) (cs : List Char) :
    Except Defect (List α × List Char) :=
  match _h : toElement taken.isEmpty cs with
  | .error defect => .error defect
  | .ok none => do .ok (taken.reverse, ← readListEnd cs)
  | .ok (some cs') =>
    match _hr : r.run cs' with
    | .error defect => .error defect
    | .ok (a, rest) => readElements r (a :: taken) rest
termination_by cs.length
decreasing_by
  have := toElement_length _h
  have := r.consumes _hr
  omega

theorem readElements_length {α : Type} {r : Reader α} {taken as : List α} {cs rest : List Char}
    (h : readElements r taken cs = .ok (as, rest)) : rest.length < cs.length := by
  fun_induction readElements r taken cs with
  | case1 => cases h
  | case2 taken cs _ =>
    obtain ⟨_, hx, h⟩ := exists_of_bind_eq_ok h
    cases h
    exact readListEnd_length hx
  | case3 => cases h
  | case4 taken cs cs' h₁ a r' h₂ ih =>
    exact Nat.lt_trans (ih h) (Nat.lt_of_lt_of_le (r.consumes h₂) (toElement_length h₁))

def Reader.list {α : Type} (r : Reader α) : Reader (List α) where
  run cs :=
    match skipSpace cs with
    | '[' :: rest => readElements r [] rest
    | cs => .error (mismatch .list cs)
  consumes h := by
    split at h
    · exact Nat.lt_trans (readElements_length h) (length_lt_of_skipSpace ‹_›)
    · cases h

def Reader.document {α : Type} (r : Reader α) (source : String) : Except Defect α := do
  let (a, rest) ← r.run source.toList
  if skipSpace rest = [] then .ok a else .error .trailingCharacters

end SingleTape.Json

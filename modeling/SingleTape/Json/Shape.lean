import SingleTape.Json.Reader

/-!
Structures and variants in JSON. A structure is an object with its fields in any order, or a list of
its fields in the declared order; unknown members are passed over, a field given twice is an error.
A variant is its name as a string, or an object with the name as its one key and null for the value.
-/

namespace SingleTape.Json

structure Field (σ : Type) where
  name : String
  isRead : σ → Bool
  reader : σ → Reader σ

structure Shape (σ α : Type) where
  name : String
  fields : List (Field σ)
  start : σ
  mayEndEarly : Bool
  finish : σ → Except Defect α

variable {σ α : Type}

def Shape.wanted (shape : Shape σ α) : Wanted := .fields shape.name

/-- The members of an object behind what was read already, with the text behind the closing brace.
-/
def readMembers (shape : Shape σ α) (draft : σ) (first : Bool) (cs : List Char) :
    Except Defect (σ × List Char) :=
  match _h : toKey first cs with
  | .error defect => .error defect
  | .ok (none, rest) => .ok (draft, rest)
  | .ok (some key, rest) =>
    match shape.fields.find? (·.name == key) with
    | some field =>
      if field.isRead draft then .error (.duplicateField key)
      else
        match _hc : readColon rest with
        | .error defect => .error defect
        | .ok value =>
          match _hr : (field.reader draft).run value with
          | .error defect => .error defect
          | .ok (draft, rest) => readMembers shape draft false rest
    | none =>
      match _hc : readColon rest with
      | .error defect => .error defect
      | .ok value =>
        match _hs : skipValue value with
        | .error defect => .error defect
        | .ok rest => readMembers shape draft false rest
termination_by cs.length
decreasing_by
  · have := toKey_length _h
    have := readColon_length _hc
    have := Reader.consumes _ _hr
    omega
  · have := toKey_length _h
    have := readColon_length _hc
    have := skipRest_length _hs
    omega

/-- The elements of a list for these fields, of which the first one is at `position`. -/
def readPositions (shape : Shape σ α) (position : Nat) (fields : List (Field σ)) (draft : σ)
    (cs : List Char) : Except Defect (σ × List Char) :=
  match fields with
  | [] => .ok (draft, cs)
  | field :: fields =>
    match toElement (position == 0) cs with
    | .error defect => .error defect
    | .ok none =>
      if shape.mayEndEarly then .ok (draft, cs)
      else .error (.wrongLength position shape.wanted shape.fields.length)
    | .ok (some value) =>
      match (field.reader draft).run value with
      | .error defect => .error defect
      | .ok (draft, rest) => readPositions shape (position + 1) fields draft rest

theorem readMembers_length {shape : Shape σ α} {draft draft' : σ} {first : Bool}
    {cs rest : List Char} (h : readMembers shape draft first cs = .ok (draft', rest)) :
    rest.length < cs.length := by
  fun_induction readMembers shape draft first cs with
  | case1 => cases h
  | case2 draft first cs r hk =>
    cases h
    exact toKey_length hk
  | case3 => cases h
  | case4 => cases h
  | case5 => cases h
  | case6 draft first cs key r hk field _ _ v hc draft' r' hr ih =>
    have h₁ := toKey_length hk
    have h₂ := readColon_length hc
    have h₃ := Reader.consumes _ hr
    have h₄ := ih h
    omega
  | case7 => cases h
  | case8 => cases h
  | case9 draft first cs key r hk _ v hc r' hs ih =>
    have h₁ := toKey_length hk
    have h₂ := readColon_length hc
    have h₃ := skipRest_length hs
    have h₄ := ih h
    omega

theorem readPositions_length {shape : Shape σ α} {position : Nat} {fields : List (Field σ)}
    {draft draft' : σ} {cs rest : List Char}
    (h : readPositions shape position fields draft cs = .ok (draft', rest)) :
    rest.length ≤ cs.length := by
  fun_induction readPositions shape position fields draft cs with
  | case1 =>
    cases h
    exact Nat.le_refl _
  | case2 => cases h
  | case3 =>
    cases h
    exact Nat.le_refl _
  | case4 => cases h
  | case5 => cases h
  | case6 position draft cs field fields v he draft' r hr ih =>
    have h₁ := toElement_length he
    have h₂ := Reader.consumes _ hr
    have h₃ := ih h
    omega

def Shape.reader (shape : Shape σ α) : Reader α where
  run cs :=
    match skipSpace cs with
    | '{' :: rest => do
      let (draft, rest) ← readMembers shape shape.start true rest
      .ok (← shape.finish draft, rest)
    | '[' :: rest => do
      let (draft, rest) ← readPositions shape 0 shape.fields shape.start rest
      let a ← shape.finish draft
      .ok (a, ← readListEnd rest)
    | cs => .error (mismatch shape.wanted cs)
  consumes h := by
    split at h
    · obtain ⟨⟨_, _⟩, hx, h⟩ := exists_of_bind_eq_ok h
      obtain ⟨_, _, h⟩ := exists_of_bind_eq_ok h
      cases h
      exact Nat.lt_trans (readMembers_length hx) (length_lt_of_skipSpace ‹_›)
    · obtain ⟨⟨_, _⟩, hx, h⟩ := exists_of_bind_eq_ok h
      obtain ⟨_, _, h⟩ := exists_of_bind_eq_ok h
      obtain ⟨_, hy, h⟩ := exists_of_bind_eq_ok h
      cases h
      exact Nat.lt_trans (Nat.lt_of_lt_of_le (readListEnd_length hy) (readPositions_length hx))
        (length_lt_of_skipSpace ‹_›)
    · cases h

def lookupVariant (named : List (String × α)) (name : String) : Except Defect α :=
  match named.lookup name with
  | some a => .ok a
  | none => .error (.unknownVariant name (named.map (·.1)))

def readVariantName (cs : List Char) : Except Defect (String × List Char) :=
  match skipSpace cs with
  | '"' :: rest => readText rest
  | '}' :: _ => .error .noValue
  | [] => .error (.endIn .object)
  | _ => .error .keyNotString

def readVariantEnd (cs : List Char) : Except Defect (List Char) :=
  match skipSpace cs with
  | '}' :: rest => .ok rest
  | [] => .error (.endIn .object)
  | _ => .error .noValue

theorem readVariantEnd_length {cs rest : List Char} (h : readVariantEnd cs = .ok rest) :
    rest.length < cs.length := by
  unfold readVariantEnd at h
  split at h
  · cases h
    exact length_lt_of_skipSpace ‹_›
  · cases h
  · cases h

theorem readVariantName_length {cs rest : List Char} {name : String}
    (h : readVariantName cs = .ok (name, rest)) : rest.length < cs.length := by
  unfold readVariantName at h
  split at h
  · exact Nat.lt_trans (readText_length h) (length_lt_of_skipSpace ‹_›)
  · cases h
  · cases h
  · cases h

/-- A variant without content. An unknown name is reported before anything behind it is read. -/
def Reader.variant (named : List (String × α)) : Reader α where
  run cs :=
    match skipSpace cs with
    | [] => .error (.endIn .value)
    | '{' :: rest => do
      let (name, rest) ← readVariantName rest
      let a ← lookupVariant named name
      let rest ← readColon rest
      let (_, rest) ← takeNull rest
      .ok (a, ← readVariantEnd rest)
    | '"' :: rest => do
      let (name, rest) ← readText rest
      .ok (← lookupVariant named name, rest)
    | _ => .error .noValue
  consumes h := by
    split at h
    · cases h
    · obtain ⟨⟨_, _⟩, hx, h⟩ := exists_of_bind_eq_ok h
      obtain ⟨_, _, h⟩ := exists_of_bind_eq_ok h
      obtain ⟨_, hy, h⟩ := exists_of_bind_eq_ok h
      obtain ⟨⟨_, _⟩, hz, h⟩ := exists_of_bind_eq_ok h
      obtain ⟨_, hw, h⟩ := exists_of_bind_eq_ok h
      cases h
      have h₁ := readVariantName_length hx
      have h₂ := readColon_length hy
      have h₃ := takeNull_length hz
      have h₄ := readVariantEnd_length hw
      have h₅ := length_lt_of_skipSpace ‹_›
      omega
    · obtain ⟨⟨_, _⟩, hx, h⟩ := exists_of_bind_eq_ok h
      obtain ⟨_, _, h⟩ := exists_of_bind_eq_ok h
      cases h
      exact Nat.lt_trans (readText_length hx) (length_lt_of_skipSpace ‹_›)
    · cases h

end SingleTape.Json

import SingleTape.Json.Text

/-!
Writing JSON: compact, without any white space between tokens, or as an object with one member a
line.
-/

namespace SingleTape.Json

def writeInteger (i : Int) : List Char := Decimal.integer i

def writeBool (b : Bool) : List Char := (if b then "true" else "false").toList

/-- JSON has no infinities and no NaN; they are written as null. -/
def writeDouble (x : Float) : List Char :=
  if x.isFinite then numberLayout.text x else "null".toList

def writeList (values : List (List Char)) : List Char :=
  '[' :: List.intercalate [','] values ++ [']']

def writeMember (name : String) (value : List Char) : List Char :=
  writeText name ++ ':' :: value

def writeObject (members : List (String × List Char)) : List Char :=
  '{' :: List.intercalate [','] (members.map fun (name, value) => writeMember name value) ++ ['}']

def writeMemberLine (name : String) (value : List Char) : List Char :=
  '\n' :: ' ' :: ' ' :: writeText name ++ ':' :: ' ' :: value

def writeLines (members : List (String × List Char)) : List Char :=
  '{' :: List.intercalate [','] (members.map fun (name, value) => writeMemberLine name value) ++
    ['\n', '}']

end SingleTape.Json

import SingleTape.Decimal.Layout
import SingleTape.General.Results
import SingleTape.Text.Quoted

/-!
What can be wrong with a JSON document, as JSON or for the value that is read from it, with the
wording.
-/

namespace SingleTape.Json

inductive Place where
  | value
  | string
  | list
  | object
  deriving DecidableEq, Repr

/-- A value that is not of the wanted type. Lists and objects are not looked into. -/
inductive Found where
  | null
  | boolean (value : Bool)
  | integer (value : Int)
  | double (value : Float)
  | text (value : String)
  | list
  | object
  deriving DecidableEq, Repr

inductive Wanted where
  | text
  | boolean
  | signed64
  | unsigned64
  | double
  | list
  | null
  | fields (name : String)
  deriving DecidableEq, Repr

inductive Defect where
  | endIn (place : Place)
  | noValue
  | noColon
  | noCommaOrBracket
  | noCommaOrBrace
  | noWord
  | trailingComma
  | trailingCharacters
  | keyNotString
  | badNumber
  | numberOutOfRange
  | badEscape
  | unfinishedEscape
  | loneSurrogate
  | controlCharacter
  | duplicateField (name : String)
  | missingField (name : String)
  | unknownVariant (name : String) (known : List String)
  | wrongLength (length : Nat) (wanted : Wanted) (fields : Nat)
  | wrongType (found : Found) (wanted : Wanted)
  | wrongValue (value : Int) (wanted : Wanted)
  deriving DecidableEq, Repr

/-- Doubles are positional from a hundred-thousandth up to ten to the sixteenth, and have a signed
exponent beyond. -/
def numberLayout : Decimal.Layout where
  positional := fun e => -5 ≤ e && e < 16
  pointZero := true
  plusSign := true
  tie := .toEven
  nan := "null"
  infinity := "null"

def Place.name : Place → String
  | value => "a value"
  | string => "a string"
  | list => "a list"
  | object => "an object"

def integerText (i : Int) : String := String.ofList (Decimal.integer i)

def ticked (s : String) : String := "`" ++ s ++ "`"

def Found.describe : Found → String
  | null => "null"
  | boolean b => "boolean " ++ ticked (if b then "true" else "false")
  | integer i => "integer " ++ ticked (integerText i)
  | double x => "floating point " ++ ticked (String.ofList (numberLayout.text x))
  | text s => "string " ++ Text.quoted s
  | list => "sequence"
  | object => "map"

def Wanted.describe : Wanted → String
  | text => "a string"
  | boolean => "a boolean"
  | signed64 => "i64"
  | unsigned64 => "usize"
  | double => "f64"
  | list => "a sequence"
  | null => "unit"
  | fields name => "struct " ++ name

def Defect.message : Defect → String
  | endIn place => "EOF while parsing " ++ place.name
  | noValue => "expected value"
  | noColon => "expected `:`"
  | noCommaOrBracket => "expected `,` or `]`"
  | noCommaOrBrace => "expected `,` or `\x7d`"
  | noWord => "expected ident"
  | trailingComma => "trailing comma"
  | trailingCharacters => "trailing characters"
  | keyNotString => "key must be a string"
  | badNumber => "invalid number"
  | numberOutOfRange => "number out of range"
  | badEscape => "invalid escape"
  | unfinishedEscape => "unexpected end of hex escape"
  | loneSurrogate => "lone leading surrogate in hex escape"
  | controlCharacter => "control character (\\u0000-\\u001F) found while parsing a string"
  | duplicateField name => "duplicate field " ++ ticked name
  | missingField name => "missing field " ++ ticked name
  | unknownVariant name known =>
    "unknown variant " ++ ticked name ++ ", expected one of " ++ ", ".intercalate (known.map ticked)
  | wrongLength length wanted fields =>
    "invalid length " ++ Decimal.naturalText length ++ ", expected " ++ wanted.describe ++
      " with " ++ Decimal.naturalText fields ++ " elements"
  | wrongType found wanted => "invalid type: " ++ found.describe ++ ", expected " ++ wanted.describe
  | wrongValue value wanted =>
    "invalid value: integer " ++ ticked (integerText value) ++ ", expected " ++ wanted.describe

end SingleTape.Json

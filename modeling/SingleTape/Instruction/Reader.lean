import SingleTape.Error
import SingleTape.Text.Blank

/-!
Reading the notation of instructions, `s(a) => t(b) M`, and tape seeds. Spaces and tabs may stand
between the tokens of a request or response; a line is first trimmed of all white space and split at
its first arrow. Of several errors the one that stands first is reported.
-/

namespace SingleTape

def isGap (c : Char) : Bool := c == ' ' || c == '\t'

def skipGap (cs : List Char) : List Char := cs.dropWhile isGap

def isWordChar (c : Char) : Bool := c.isAlphanum || c == '_'

def readInteger (cs : List Char) : Option (Int × List Char) :=
  let negative := cs.head? == some '-'
  let digits := (if negative then cs.drop 1 else cs).takeWhile Char.isDigit
  let rest := (if negative then cs.drop 1 else cs).dropWhile Char.isDigit
  if digits = [] then none
  else some (if negative then -(Decimal.value digits : Int) else Decimal.value digits, rest)

def readWord (cs : List Char) : Option (List Char × List Char) :=
  if cs.takeWhile isWordChar = [] then none
  else some (cs.takeWhile isWordChar, cs.dropWhile isWordChar)

def readMark (c : Char) (cs : List Char) : Option (List Char) :=
  match skipGap cs with
  | d :: r => if d = c then some r else none
  | [] => none

def readCell (cs : List Char) : Option (Int × List Char × List Char) := do
  let (number, rest) ← readInteger (skipGap cs)
  let rest ← readMark '(' rest
  let (word, rest) ← readWord (skipGap rest)
  let rest ← readMark ')' rest
  some (number, word, skipGap rest)

def Request.ofChars (cs : List Char) : Except Error Request :=
  let refused := .error (.malformed .request (String.ofList cs))
  match readCell cs with
  | some (number, word, []) =>
    match state? number with
    | some state => .ok ⟨state, String.ofList word⟩
    | none => refused
  | _ => refused

/-- A response fills the whole text. A state out of range is reported before an unknown move. -/
def Response.ofChars (cs : List Char) : Except Error Response :=
  let refused := .error (.malformed .response (String.ofList cs))
  match readCell cs with
  | some (number, word, rest) =>
    match readWord rest with
    | some (code, tail) =>
      if skipGap tail = [] then
        match state? number with
        | some state =>
          match Move.ofCode? (String.ofList code) with
          | some move => .ok ⟨state, String.ofList word, move⟩
          | none => .error (.unknownMove (String.ofList code))
        | none => refused
      else refused
    | none => refused
  | none => refused

/-- The text in front of the first arrow and the text behind it; `before` is what was passed
already, last character first. -/
def splitArrow (before : List Char) : List Char → Option (List Char × List Char)
  | [] => none
  | '=' :: '>' :: rest => some (before.reverse, rest)
  | c :: rest => splitArrow (c :: before) rest

def Instruction.ofChars (line : List Char) : Except Error Instruction :=
  let text := Text.trim line
  match splitArrow [] text with
  | some (left, right) =>
    if left = [] ∨ right = [] then .error (.malformed .line (String.ofList text))
    else do
      let request ← Request.ofChars (Text.trim left)
      let response ← Response.ofChars (Text.trim right)
      .ok ⟨request, response⟩
  | none => .error (.malformed .line (String.ofList text))

/-- The lines of a block that are not blank, with their numbers, counted from one. -/
def numberedLines (block : List Char) : List (List Char × Nat) :=
  ((Text.lines block).zipIdx 1).filter fun (line, _) => Text.trim line ≠ []

def Instruction.block (block : List Char) : Except Error (List Instruction) :=
  (numberedLines block).mapM fun (line, number) =>
    (Instruction.ofChars line).mapError (Error.inLine number)

def Request.read (text : String) : Except Error Request := Request.ofChars text.toList

def Response.read (text : String) : Except Error Response := Response.ofChars text.toList

def Instruction.read (line : String) : Except Error Instruction := Instruction.ofChars line.toList

def readInstructions (block : String) : Except Error (List Instruction) :=
  Instruction.block block.toList

def Move.read (word : String) : Except Error Move :=
  match Move.ofCode? word with
  | some move => .ok move
  | none => .error (.unknownMove word)

def trimmed (text : String) : String := String.ofList (Text.trim text.toList)

def Error.emptyTape : Error := .badTape "tape must contain at least one symbol"

/-- The symbols of a tape seed, separated by white space. There is at least one. -/
def readSeed (seed : String) : Except Error (List Symbol) :=
  match Text.words seed.toList with
  | [] => .error .emptyTape
  | words => .ok (words.map String.ofList)

end SingleTape

import SingleTape.Instruction.Reader

/-!
The tape: at least one cell, as many as were given or visited, growing at both ends with the blank
symbol. Growth on the left moves every cell to the right.
-/

namespace SingleTape

structure Tape where
  cells : List Symbol
  blank : Symbol
  cells_ne_nil : cells ≠ []

namespace Tape

def ofCells (cells : List Symbol) (blank : Symbol) : Except Error Tape :=
  if h : cells = [] then .error .emptyTape else .ok ⟨cells, blank, h⟩

def ofSeed (seed : String) (blank : Symbol) : Except Error Tape := do
  ofCells (← readSeed seed) blank

def length (t : Tape) : Nat := t.cells.length

def read (t : Tape) (index : Nat) : Except Error Symbol :=
  match t.cells[index]? with
  | some symbol => .ok symbol
  | none => .error (.outOfRange index t.length)

def write (t : Tape) (index : Nat) (symbol : Symbol) : Except Error Tape :=
  if index < t.length then
    .ok { t with
      cells := t.cells.set index symbol
      cells_ne_nil := by simpa using t.cells_ne_nil }
  else .error (.outOfRange index t.length)

def growLeft (t : Tape) (n : Nat) : Tape where
  cells := List.replicate n t.blank ++ t.cells
  blank := t.blank
  cells_ne_nil := by simp [t.cells_ne_nil]

def growRight (t : Tape) (n : Nat) : Tape where
  cells := t.cells ++ List.replicate n t.blank
  blank := t.blank
  cells_ne_nil := by simp [t.cells_ne_nil]

/-- Grows the tape until it has a cell at `index`, and says where that cell is then. A cell at a
negative index becomes the first one; on the right positions stay as they are. -/
def reach (t : Tape) : Int → Nat × Tape
  | .ofNat i => (i, if i < t.length then t else t.growRight (i + 1 - t.length))
  | .negSucc i => (0, t.growLeft (i + 1))

def text (t : Tape) : String := " ".intercalate t.cells

end Tape

end SingleTape

import SingleTape.Machine

/-!
Machines and runs side by side. A machine, its copies and the runs it has started do not carry a
table each: they hold one together, in a cell that counts its holders. A machine that is to edit a
table which others hold as well moves to a cell of its own first.
-/

namespace SingleTape

namespace Pool

structure Cell where
  table : Table
  holders : Nat

structure Owner where
  blank : Symbol
  cell : Nat

structure Progress where
  tape : Tape
  state : State
  cursor : Nat
  stepCount : Nat
  fault : Option Error

structure Run where
  cell : Nat
  progress : Progress

def Progress.of (e : Execution) : Progress where
  tape := e.tape
  state := e.state
  cursor := e.cursor
  stepCount := e.stepCount
  fault := e.fault

def Progress.on (p : Progress) (table : Table) : Execution where
  table := table
  tape := p.tape
  state := p.state
  cursor := p.cursor
  stepCount := p.stepCount
  fault := p.fault

theorem Progress.on_of (e : Execution) : (Progress.of e).on e.table = e := rfl

end Pool

structure Pool where
  cells : List Pool.Cell
  owners : List Pool.Owner
  runs : List Pool.Run

namespace Pool

variable {α : Type}

def empty : Pool := ⟨[], [], []⟩

def tableIn (cells : List Cell) (cell : Nat) : Option Table := cells[cell]?.map (·.table)

def hold (cells : List Cell) (cell : Nat) : List Cell :=
  cells.modify cell fun c => { c with holders := c.holders + 1 }

def release (cells : List Cell) (cell : Nat) : List Cell :=
  cells.modify cell fun c => { c with holders := c.holders - 1 }

def write (cells : List Cell) (cell : Nat) (table : Table) : List Cell :=
  cells.modify cell fun c => { c with table }

def machine? (p : Pool) (m : Nat) : Option Machine := do
  let owner ← p.owners[m]?
  let table ← tableIn p.cells owner.cell
  some ⟨owner.blank, table⟩

def run? (p : Pool) (r : Nat) : Option Execution := do
  let run ← p.runs[r]?
  let table ← tableIn p.cells run.cell
  some (run.progress.on table)

def add (p : Pool) (machine : Machine) : Pool :=
  { p with
    cells := p.cells ++ [⟨machine.table, 1⟩]
    owners := p.owners ++ [⟨machine.blank, p.cells.length⟩] }

def copy (p : Pool) (m : Nat) : Option Pool := do
  let owner ← p.owners[m]?
  some { p with
    cells := hold p.cells owner.cell
    owners := p.owners ++ [owner] }

def launch (p : Pool) (m : Nat) (tape : Tape) : Option Pool := do
  let owner ← p.owners[m]?
  let machine ← p.machine? m
  some { p with
    cells := hold p.cells owner.cell
    runs := p.runs ++ [⟨owner.cell, .of (machine.launch tape)⟩] }

def launchSeed (p : Pool) (m : Nat) (seed : String) : Option (Except Error Pool) := do
  let machine ← p.machine? m
  match Tape.ofSeed seed machine.blank with
  | .error fault => some (.error fault)
  | .ok tape => (p.launch m tape).map .ok

/-- A machine moves to a new cell with a copy of its table, which one holder less has then. -/
def move (p : Pool) (m : Nat) (owner : Owner) (table : Table) : Pool :=
  { p with
    cells := release p.cells owner.cell ++ [⟨table, 1⟩]
    owners := p.owners.set m { owner with cell := p.cells.length } }

def own (p : Pool) (m : Nat) : Pool :=
  match p.owners[m]? with
  | none => p
  | some owner =>
    match p.cells[owner.cell]? with
    | none => p
    -- The only holder of a table may keep it.
    | some cell => if cell.holders = 1 then p else p.move m owner cell.table

/-- Edits the table of a machine where it stands, once the machine is its only holder. -/
def edit (p : Pool) (m : Nat) (change : Table → α × Table) : Option (α × Pool) := do
  let q := p.own m
  let owner ← q.owners[m]?
  let table ← tableIn q.cells owner.cell
  some ((change table).1, { q with cells := write q.cells owner.cell (change table).2 })

/-- Asks something of a run. What becomes of its table is not kept. -/
def call (p : Pool) (r : Nat) (ask : Execution → α × Execution) : Option (α × Pool) := do
  let run ← p.runs[r]?
  let e ← p.run? r
  some ((ask e).1, { p with runs := p.runs.set r { run with progress := .of (ask e).2 } })

end Pool

end SingleTape

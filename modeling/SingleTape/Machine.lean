import SingleTape.Execution

/-!
A machine: its blank symbol and its table. A run takes the table as it is at the start; later
changes to the machine do not reach it.
-/

namespace SingleTape

structure Machine where
  blank : Symbol
  table : Table

namespace Machine

def defaultBlank : Symbol := "0"

def withBlank (blank : Symbol) : Machine := ⟨blank, .empty⟩

def default : Machine := withBlank defaultBlank

/-- Adds the instructions of a block to the table, and tells which requests were there already. -/
def load (m : Machine) (block : String) : Except Error (List Request × Machine) := do
  let (repeated, table) ← m.table.load block
  .ok (repeated, { m with table })

def launch (m : Machine) (tape : Tape) : Execution := .start m.table tape

def launchSeed (m : Machine) (seed : String) : Except Error Execution := do
  .ok (m.launch (← Tape.ofSeed seed m.blank))

end Machine

end SingleTape

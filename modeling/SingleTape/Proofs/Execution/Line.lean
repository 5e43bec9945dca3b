import Mathlib.Data.Finset.Lattice.Fold
import Mathlib.Data.Finset.Range
import Mathlib.Logic.Function.Basic
import SingleTape.Proofs.Execution.Soundness
import SingleTape.Proofs.Table.History

/-!
The machine on a tape without ends: the head stands anywhere on the whole numbers and every one of
them has a symbol. A run on a growing tape shows a window of this line, which is moved to the right
by as many cells as the head has ever been left of the first one.
-/

namespace SingleTape

def Move.offset : Move → Int
  | left => -1
  | stay => 0
  | right => 1

structure Line where
  state : State
  head : Int
  cells : Int → Symbol

namespace Line

def start (cells : List Symbol) (blank : Symbol) : Line where
  state := initialState
  head := 0
  cells i := if 0 ≤ i then cells[i.toNat]?.getD blank else blank

def apply (c : Line) (r : Response) : Line where
  state := r.state
  head := c.head + r.move.offset
  cells := Function.update c.cells c.head r.symbol

/-- One step of a machine that answers as `answer` does. In a negative state it has stopped. -/
def step (answer : Request → Response) (c : Line) : Line :=
  if c.state < 0 then c else c.apply (answer ⟨c.state, c.cells c.head⟩)

def computation (answer : Request → Response) (cells : List Symbol) (blank : Symbol) : Nat → Line
  | 0 => start cells blank
  | n + 1 => step answer (computation answer cells blank n)

def leftmost (run : Nat → Line) (n : Nat) : Int :=
  (Finset.range (n + 1)).inf' Finset.nonempty_range_add_one fun k => (run k).head

def rightmost (run : Nat → Line) (n : Nat) : Int :=
  (Finset.range (n + 1)).sup' Finset.nonempty_range_add_one fun k => (run k).head

/-- Where zero is in the window: behind one cell for each position left of it. -/
def origin (run : Nat → Line) (n : Nat) : Int := max 0 (-leftmost run n)

/-- The cells between the ends of what was given at first and what the head has visited. -/
def window (run : Nat → Line) (given n : Nat) : List Symbol :=
  (List.range (max (given : Int) (rightmost run n + 1) + origin run n).toNat).map
    fun (i : Nat) => (run n).cells (i - origin run n)

def record (run : Nat → Line) (given n : Nat) : Record where
  request := ⟨(run n).state, (run n).cells (run n).head⟩
  index := ((run n).head + origin run n).toNat
  tape := window run given n

/-- What the step behind the first `n` brings: the record before it, if there is such a step. -/
def outcome (run : Nat → Line) (given n : Nat) : Step :=
  if (run n).state < 0 then .halted
  else if (run (n + 1)).state < 0 then .final (record run given n)
  else .moved (record run given n)

variable {run : Nat → Line}

theorem leftmost_zero : leftmost run 0 = (run 0).head := by
  simp [leftmost]

theorem rightmost_zero : rightmost run 0 = (run 0).head := by
  simp [rightmost]

theorem leftmost_succ (n : Nat) :
    leftmost run (n + 1) = min (leftmost run n) (run (n + 1)).head := by
  simp only [leftmost, Finset.range_add_one (n := n + 1)]
  rw [Finset.inf'_insert Finset.nonempty_range_add_one, min_comm]

theorem rightmost_succ (n : Nat) :
    rightmost run (n + 1) = max (rightmost run n) (run (n + 1)).head := by
  simp only [rightmost, Finset.range_add_one (n := n + 1)]
  rw [Finset.sup'_insert Finset.nonempty_range_add_one, max_comm]

theorem leftmost_le (n : Nat) : leftmost run n ≤ (run n).head :=
  Finset.inf'_le _ (Finset.self_mem_range_succ n)

theorem le_rightmost (n : Nat) : (run n).head ≤ rightmost run n :=
  Finset.le_sup' (fun k => (run k).head) (Finset.self_mem_range_succ n)

end Line

end SingleTape

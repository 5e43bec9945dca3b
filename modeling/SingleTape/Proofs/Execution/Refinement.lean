import SingleTape.Proofs.Execution.Line

/-!
A run on a growing tape refines the machine on a tape without ends. Each step keeps the relation
`Follows`; growth on the left moves the origin of the window by the cell that comes in front.
-/

namespace SingleTape.Execution

open Line (computation origin leftmost rightmost window)

variable {e : Execution} {c : Line} {o : Int} {run : Nat → Line} {given n : Nat}
  {answer : Request → Response}

theorem target_eq (cursor : Nat) (move : Move) : target cursor move = cursor + move.offset := by
  cases move with
  | left => exact Int.sub_eq_add_neg
  | stay => exact (Int.add_zero _).symm
  | right => rfl

/-- The run shows the line, zero being the cell at `o`. -/
structure Shows (e : Execution) (c : Line) (o : Int) : Prop where
  state : e.state = c.state
  cursor : (e.cursor : Int) = c.head + o
  cells : ∀ p, c.cells p = e.tape.look (p + o)

theorem Shows.request (h : Shows e c o) :
    (⟨c.state, c.cells c.head⟩ : Request) = e.request := by
  rw [h.cells, ← h.cursor, ← h.state]
  rfl

def nextShift (e : Execution) : Nat := Tape.shift (target e.cursor e.response.move)

theorem cursor_successor (e : Execution) :
    (e.successor.cursor : Int) = e.cursor + e.response.move.offset + e.nextShift := by
  rw [nextShift, ← target_eq]
  exact Tape.reach_position _ _

theorem length_successor (e : Execution) :
    (e.successor.tape.length : Int) =
      max (e.tape.length : Int) (e.cursor + e.response.move.offset + 1) + e.nextShift := by
  rw [nextShift, ← target_eq]
  rw [← Tape.length_put e.tape e.cursor e.response.symbol]
  exact Tape.length_reach _ _

theorem look_successor (h : e.Sound) (i : Int) :
    e.successor.tape.look i =
      if i - e.nextShift = e.cursor then e.response.symbol
      else e.tape.look (i - e.nextShift) := by
  rw [← Tape.look_put h.inside]
  exact Tape.look_reach _ _ _

theorem Shows.successor (h : Shows e c o) (hs : e.Sound) (hn : ¬ e.state < 0)
    (ha : answer e.request = e.response) :
    Shows e.successor (Line.step answer c) (o + e.nextShift) := by
  have hc : ¬ c.state < 0 := h.state ▸ hn
  rw [Line.step, if_neg hc, h.request, ha]
  constructor
  · rfl
  · simp only [cursor_successor, h.cursor, Line.apply]
    omega
  · intro p
    have hp : p + (o + e.nextShift) - e.nextShift = p + o := by omega
    rw [look_successor hs, hp, h.cursor, Line.apply]
    by_cases hph : p = c.head
    · subst p
      simp
    · have hne : p + o ≠ c.head + o := by omega
      rw [if_neg hne, ← h.cells]
      exact Function.update_of_ne hph _ _

/-- After `n` steps the run shows the line, and its tape reaches from the leftmost to the rightmost
cell that was given or visited. -/
structure Follows (e : Execution) (run : Nat → Line) (given n : Nat) : Prop where
  shows : Shows e (run n) (origin run n)
  length : (e.tape.length : Int) = max (given : Int) (rightmost run n + 1) + origin run n

theorem origin_succ (run : Nat → Line) (n : Nat) :
    origin run (n + 1) = max (origin run n) (-(run (n + 1)).head) := by
  simp only [origin, Line.leftmost_succ]
  omega

theorem Follows.successor (h : Follows e run given n) (hs : e.Sound) (hn : ¬ e.state < 0)
    (ha : answer e.request = e.response) (hr : run (n + 1) = Line.step answer (run n)) :
    Follows e.successor run given (n + 1) := by
  have hc : ¬ (run n).state < 0 := h.shows.state ▸ hn
  have hhead : (run (n + 1)).head = (run n).head + e.response.move.offset := by
    rw [hr, Line.step, if_neg hc, h.shows.request, ha, Line.apply]
  have hcur := h.shows.cursor
  -- The origin moves by exactly the cells that come in front.
  have ho : origin run (n + 1) = origin run n + e.nextShift := by
    rw [origin_succ, nextShift, target_eq, Tape.shift]
    have : 0 ≤ origin run n := le_max_left _ _
    omega
  constructor
  · rw [ho, hr]
    exact h.shows.successor hs hn ha
  · rw [length_successor, h.length, ho, Line.rightmost_succ]
    omega

theorem Follows.halted (h : Follows e run given n) (hr : run (n + 1) = run n) :
    Follows e run given (n + 1) := by
  have hl : Line.leftmost run n ≤ (run n).head := Line.leftmost_le n
  have hh : (run n).head ≤ Line.rightmost run n := Line.le_rightmost n
  have ho : origin run (n + 1) = origin run n := by
    rw [origin_succ, hr]
    simp only [origin]
    omega
  constructor
  · rw [ho, hr]
    exact h.shows
  · rw [h.length, ho, Line.rightmost_succ, hr]
    omega

theorem start_follows (table : Table) (tape : Tape) (answer : Request → Response) :
    Follows (start table tape) (computation answer tape.cells tape.blank) tape.length 0 := by
  have ho : origin (computation answer tape.cells tape.blank) 0 = 0 := by
    rw [origin, Line.leftmost_zero]
    rfl
  constructor
  · refine ⟨rfl, ?_, fun p => ?_⟩
    · rw [ho]
      rfl
    · rw [ho, Int.add_zero]
      rfl
  · have := tape.length_pos
    rw [ho, Line.rightmost_zero]
    simp only [start, computation, Line.start]
    omega

theorem answer_request {table : Table} {log : List Instruction} (ht : table.Holds log)
    (tape : Tape) (n : Nat) :
    Table.answer log ((start table tape).after n).request =
      ((start table tape).after n).response := by
  rw [Table.answer, ← ht.stored, response, (start_sound ht.sound tape).table_after]
  rfl

/-- A run of a table with the contents of a log follows the machine that answers by the log. -/
theorem after_follows {table : Table} {log : List Instruction} (ht : table.Holds log)
    (tape : Tape) (n : Nat) :
    Follows ((start table tape).after n)
      (computation (Table.answer log) tape.cells tape.blank) tape.length n := by
  have hsound := start_sound ht.sound tape
  induction n with
  | zero => exact start_follows table tape _
  | succ n ih =>
    have hs := hsound.after n
    have ha := answer_request ht tape n
    rcases hs.advance_cases with ⟨hh, he⟩ | ⟨hn, he⟩
    · rw [Execution.after, he]
      have hc := ih.shows.state ▸ hh
      exact ih.halted (by rw [computation, Line.step, if_pos hc])
    · rw [Execution.after, he]
      exact ih.successor hs hn ha rfl

theorem Follows.cells_eq_window (h : Follows e run given n) : e.tape.cells = window run given n := by
  have hlen : e.tape.cells.length =
      (max (given : Int) (rightmost run n + 1) + origin run n).toNat := by
    rw [← h.length]
    rfl
  apply List.ext_getElem?
  intro i
  by_cases hi : i < e.tape.length
  · have hir : i < (max (given : Int) (rightmost run n + 1) + origin run n).toNat := hlen ▸ hi
    have hp : (i : Int) - origin run n + origin run n = i := by omega
    rw [Tape.getElem?_cells hi, window, List.getElem?_map, List.getElem?_range hir,
      Option.map_some, h.shows.cells, hp]
  · have hle : e.tape.cells.length ≤ i := Nat.le_of_not_lt hi
    rw [List.getElem?_eq_none hle, List.getElem?_eq_none (by simpa [window, hlen] using hle)]

theorem Follows.record_eq (h : Follows e run given n) : e.record = Line.record run given n := by
  have hc : ((run n).head + origin run n).toNat = e.cursor := by
    rw [← h.shows.cursor]
    rfl
  rw [record, Line.record, h.cells_eq_window, h.shows.request, hc]

/-- What an execution and the machine on a tape without ends agree on after `n` steps. -/
structure Agreement (e : Execution) (run : Nat → Line) (tape : Tape) (n : Nat) : Prop where
  state : e.state = (run n).state
  cursor : (e.cursor : Int) = (run n).head + origin run n
  cells : ∀ i : Nat, i < e.tape.length →
    e.tape.cells[i]? = some ((run n).cells (i - origin run n))
  unseen : ∀ p : Int, p + origin run n < 0 ∨ e.tape.length ≤ p + origin run n →
    (run n).cells p = tape.blank
  step : e.advance.1 = .ok (Line.outcome run tape.length n)

/-- Whatever was set, loaded and cleared, and on any tape: after `n` steps the execution shows the
machine on the tape without ends, and its next step brings the record of what that machine is. -/
theorem execution_refines_line (ops : List Table.Operation) (tape : Tape) (n : Nat) :
    Agreement ((start (Table.built ops) tape).after n)
      (computation (Table.answer (Table.inserted ops)) tape.cells tape.blank) tape n := by
  have ht := Table.built_holds ops
  have hsound := start_sound ht.sound tape
  have hf := after_follows ht tape n
  have hnext := after_follows ht tape (n + 1)
  rw [after] at hnext
  constructor
  · exact hf.shows.state
  · exact hf.shows.cursor
  · intro i hi
    rw [Tape.getElem?_cells hi, hf.shows.cells]
    congr 2
    omega
  · intro p hp
    rw [hf.shows.cells, Tape.look_outside hp, hsound.blank_after]
    rfl
  · rcases (hsound.after n).advance_cases with ⟨hh, he⟩ | ⟨hn, he⟩
    · rw [he, Line.outcome, if_pos (hf.shows.state ▸ hh)]
    · rw [he] at hnext
      rw [he, Line.outcome, if_neg (hf.shows.state ▸ hn), outcome, hf.record_eq,
        ← hnext.shows.state]
      simp [isHalted]

end SingleTape.Execution

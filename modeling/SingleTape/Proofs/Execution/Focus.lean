import Mathlib.Logic.Function.Iterate
import SingleTape.Proofs.Execution.Refinement

/-!
A run seen from its head: the cell under it and the cells beside it, the nearest ones first. A step
touches no other cell, so loops of a program are followed on these lists.
-/

namespace SingleTape

structure Focus where
  state : State
  left : List Symbol
  here : Symbol
  right : List Symbol

namespace Focus

def start (cells : List Symbol) (blank : Symbol) : Focus :=
  ⟨initialState, [], cells.headD blank, cells.tail⟩

def cells (f : Focus) : List Symbol := f.left.reverse ++ f.here :: f.right

def request (f : Focus) : Request := ⟨f.state, f.here⟩

def apply (blank : Symbol) (f : Focus) (r : Response) : Focus :=
  match r.move with
  | .left => ⟨r.state, f.left.tail, f.left.headD blank, r.symbol :: f.right⟩
  | .stay => ⟨r.state, f.left, r.symbol, f.right⟩
  | .right => ⟨r.state, r.symbol :: f.left, f.right.headD blank, f.right.tail⟩

def step (answer : Request → Response) (blank : Symbol) (f : Focus) : Focus :=
  if f.state < 0 then f else f.apply blank (answer f.request)

variable {answer : Request → Response} {blank : Symbol} {f : Focus} {r : Response}

theorem step_of_answer (hs : ¬ f.state < 0) (hr : answer f.request = r) :
    step answer blank f = f.apply blank r := by
  rw [step, if_neg hs, hr]

theorem state_apply (blank : Symbol) (f : Focus) (r : Response) :
    (f.apply blank r).state = r.state := by
  rw [apply]
  cases r.move <;> rfl

theorem length_cells (f : Focus) : f.cells.length = f.left.length + f.right.length + 1 := by
  simp [cells, Nat.add_assoc]

theorem cells_start {cells : List Symbol} (h : cells ≠ []) (blank : Symbol) :
    (start cells blank).cells = cells := by
  cases cells with
  | nil => exact absurd rfl h
  | cons cell cells => rfl

end Focus

namespace Execution

structure Faces (e : Execution) (f : Focus) : Prop where
  state : e.state = f.state
  cells : e.tape.cells = f.cells
  cursor : e.cursor = f.left.length

variable {e : Execution} {f : Focus}

theorem Faces.request (h : Faces e f) : e.request = f.request := by
  have hc : e.tape.cells[e.cursor]? = some f.here := by
    simp [h.cells, h.cursor, Focus.cells]
  have hi : e.cursor < e.tape.length := (List.getElem?_eq_some_iff.mp hc).1
  rw [Tape.getElem?_cells hi] at hc
  rw [Execution.request, Focus.request, h.state, Option.some.inj hc]

theorem Faces.length (h : Faces e f) : e.tape.length = f.left.length + f.right.length + 1 := by
  rw [Tape.length, h.cells, f.length_cells]

theorem Faces.cells_put (h : Faces e f) (symbol : Symbol) :
    (e.tape.put e.cursor symbol).cells = f.left.reverse ++ symbol :: f.right := by
  have hle : f.left.reverse.length ≤ e.cursor := by simp [h.cursor]
  change e.tape.cells.set e.cursor symbol = _
  rw [h.cells, Focus.cells, List.set_append_right _ _ hle]
  simp [h.cursor]

theorem Faces.cells_successor (h : Faces e f) (hs : e.Sound) :
    e.successor.tape.cells = (f.apply e.tape.blank e.response).cells := by
  have hin : e.cursor < (e.tape.put e.cursor e.response.symbol).length := by
    simpa using hs.inside
  have hput := h.cells_put e.response.symbol
  have hlen := h.length
  have hcur := h.cursor
  cases hm : e.response.move with
  | stay =>
    rw [tape_successor, hm, target, Tape.reach_of_inside hin, hput]
    simp [Focus.apply, Focus.cells, hm]
  | left =>
    rw [tape_successor, hm, target, Tape.cells_reach_left hin, hput]
    cases hl : f.left <;> simp_all [Focus.apply, Focus.cells]
  | right =>
    rw [tape_successor, hm, target, Tape.cells_reach_right hin, hput]
    cases hr : f.right <;> simp_all [Focus.apply, Focus.cells]

theorem Faces.cursor_successor (h : Faces e f) :
    e.successor.cursor = (f.apply e.tape.blank e.response).left.length := by
  have hc := Execution.cursor_successor e
  rw [nextShift, target_eq, Tape.shift, h.cursor] at hc
  cases hm : e.response.move with
  | stay =>
    rw [hm, Move.offset] at hc
    simp only [Focus.apply, hm]
    omega
  | left =>
    rw [hm, Move.offset] at hc
    simp only [Focus.apply, hm, List.length_tail]
    omega
  | right =>
    rw [hm, Move.offset] at hc
    simp only [Focus.apply, hm, List.length_cons]
    omega

theorem Faces.successor (h : Faces e f) (hs : e.Sound) :
    Faces e.successor (f.apply e.tape.blank e.response) :=
  ⟨(Focus.state_apply e.tape.blank f e.response).symm, h.cells_successor hs, h.cursor_successor⟩

theorem start_faces (table : Table) (tape : Tape) :
    Faces (start table tape) (Focus.start tape.cells tape.blank) :=
  ⟨rfl, (Focus.cells_start tape.cells_ne_nil tape.blank).symm, rfl⟩

/-- A run of a table with the contents of a log keeps the focus of the steps that the log answers. -/
theorem after_faces {table : Table} {log : List Instruction} (ht : table.Holds log) (tape : Tape)
    (n : Nat) :
    Faces ((start table tape).after n)
      ((Focus.step (Table.answer log) tape.blank)^[n] (Focus.start tape.cells tape.blank)) := by
  have hsound := start_sound ht.sound tape
  induction n with
  | zero => exact start_faces table tape
  | succ n ih =>
    rw [Function.iterate_succ_apply', Focus.step, Execution.after]
    rcases (hsound.after n).advance_cases with ⟨hs, ha⟩ | ⟨hs, ha⟩
    · rw [ha, if_pos (ih.state ▸ hs)]
      exact ih
    · have hb : ((start table tape).after n).tape.blank = tape.blank := hsound.blank_after n
      have hf := ih.successor (hsound.after n)
      rw [ha, if_neg (ih.state ▸ hs), ← ih.request, answer_request ht tape n]
      rwa [hb] at hf

end Execution

end SingleTape

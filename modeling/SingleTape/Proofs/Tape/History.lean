import Mathlib.Data.List.Basic
import Mathlib.Data.List.Induction
import Mathlib.Tactic.Ring
import SingleTape.Proofs.Tape.Coordinates

/-!
A tape that is reached, read and written in any order. Its cells are a line without ends on which
every cell keeps its coordinate: a cell at an index has the coordinate that is left when the cells
that have come in front are taken off.
-/

namespace SingleTape.Tape

inductive Operation where
  | reach (i : Int)
  | read (index : Nat)
  | write (index : Nat) (symbol : Symbol)
  deriving DecidableEq, Repr

inductive Answer where
  | reached (position : Nat)
  | shown (result : Except Error Symbol)
  | written (result : Except Error Unit)

def perform (t : Tape) : Operation → Answer × Tape
  | .reach i => (.reached (t.reach i).1, (t.reach i).2)
  | .read index => (.shown (t.read index), t)
  | .write index symbol =>
    match t.write index symbol with
    | .ok u => (.written (.ok ()), u)
    | .error e => (.written (.error e), t)

def afterAll (t : Tape) (ops : List Operation) : Tape := ops.foldl (fun t op => (t.perform op).2) t

def Operation.shift : Operation → Nat
  | .reach i => Tape.shift i
  | .read _ => 0
  | .write _ _ => 0

/-- The index of the first cell given, after these operations. -/
def origin (ops : List Operation) : Nat := (ops.map Operation.shift).sum

def Operation.mark (t : Tape) (o : Nat) : Operation → Option (Int × Symbol)
  | .write index symbol => if index < t.length then some (index - o, symbol) else none
  | .reach _ => none
  | .read _ => none

def marks (t : Tape) (o : Nat) : List Operation → List (Int × Symbol)
  | [] => []
  | op :: ops => (op.mark t o).toList ++ marks (t.perform op).2 (o + op.shift) ops

/-- The symbol that was written last at a coordinate. -/
def lastMark (log : List (Int × Symbol)) (x : Int) : Option Symbol :=
  (log.reverse.find? fun mark => mark.1 = x).map (·.2)

/-- The symbol at a coordinate after a history: the last one written there, else the one of the cell
that was given there, else the blank symbol. -/
def content (t : Tape) (ops : List Operation) (x : Int) : Symbol :=
  (lastMark (marks t 0 ops) x).getD (t.look x)

variable {t u : Tape} {index o : Nat} {symbol : Symbol} {e : Error} {op : Operation}
  {ops : List Operation} {log : List (Int × Symbol)} {i x : Int}

theorem read_error_iff :
    t.read index = .error e ↔ t.length ≤ index ∧ e = .outOfRange index t.length := by
  by_cases h : index < t.length
  · simp [read_inside h, h]
  · have hnone : t.cells[index]? = none := List.getElem?_eq_none (Nat.le_of_not_lt h)
    simp [read, hnone, Nat.le_of_not_lt h, eq_comm]

theorem perform_write_inside (h : index < t.length) (symbol : Symbol) :
    t.perform (.write index symbol) = (.written (.ok ()), t.put index symbol) := by
  rw [perform, write_inside h]

theorem perform_write_outside (h : ¬ index < t.length) (symbol : Symbol) :
    t.perform (.write index symbol) = (.written (.error (.outOfRange index t.length)), t) := by
  simp [perform, write, h]

theorem afterAll_concat (t : Tape) (ops : List Operation) (op : Operation) :
    t.afterAll (ops ++ [op]) = ((t.afterAll ops).perform op).2 := List.foldl_concat ..

theorem origin_concat (ops : List Operation) (op : Operation) :
    origin (ops ++ [op]) = origin ops + op.shift := by simp [origin]

theorem marks_concat (t : Tape) (o : Nat) (ops : List Operation) (op : Operation) :
    marks t o (ops ++ [op]) =
      marks t o ops ++ (op.mark (t.afterAll ops) (o + origin ops)).toList := by
  induction ops generalizing t o with
  | nil => simp [marks, afterAll, origin]
  | cons first ops ih =>
    have horigin : o + first.shift + origin ops = o + origin (first :: ops) := by
      simp [origin, Nat.add_assoc]
    rw [List.cons_append, marks, marks, ih, horigin, List.append_assoc]
    rfl

theorem lastMark_concat (log : List (Int × Symbol)) (y x : Int) (symbol : Symbol) :
    lastMark (log ++ [(y, symbol)]) x = if x = y then some symbol else lastMark log x := by
  by_cases h : x = y
  · simp [lastMark, h]
  · simp [lastMark, h, Ne.symm h]

/-- A tape that `t` has become: `o` cells have come in front, and these symbols were written. -/
structure Shows (t : Tape) (o : Nat) (log : List (Int × Symbol)) (u : Tape) : Prop where
  blank : u.blank = t.blank
  look : ∀ x, u.look (x + o) = (lastMark log x).getD (t.look x)

theorem look_put_shifted (h : index < u.length) (o : Nat) (symbol : Symbol) (x : Int) :
    (u.put index symbol).look (x + o) = if x = index - o then symbol else u.look (x + o) := by
  rw [look_put h]
  by_cases hx : x = index - o
  · rw [if_pos hx, if_pos (by omega)]
  · rw [if_neg hx, if_neg (by omega)]

theorem look_reach_shifted (u : Tape) (o : Nat) (i x : Int) :
    (u.reach i).2.look (x + (o + shift i : Nat)) = u.look (x + o) := by
  rw [look_reach]
  congr 1
  omega

theorem Shows.perform (h : Shows t o log u) (op : Operation) :
    Shows t (o + op.shift) (log ++ (op.mark u o).toList) (u.perform op).2 := by
  cases op with
  | reach i =>
    refine ⟨(blank_reach u i).trans h.blank, fun x => ?_⟩
    rw [Operation.mark, Option.toList_none, List.append_nil]
    exact (look_reach_shifted u o i x).trans (h.look x)
  | read index =>
    rw [Operation.mark, Option.toList_none, List.append_nil]
    exact h
  | write index symbol =>
    by_cases hin : index < u.length
    · rw [perform_write_inside hin, Operation.mark, if_pos hin, Option.toList_some]
      refine ⟨h.blank, fun x => ?_⟩
      rw [lastMark_concat]
      refine (look_put_shifted hin o symbol x).trans ?_
      by_cases hx : x = index - o
      · rw [if_pos hx, if_pos hx, Option.getD_some]
      · rw [if_neg hx, if_neg hx, h.look]
    · rw [perform_write_outside hin, Operation.mark, if_neg hin, Option.toList_none,
        List.append_nil]
      exact h

theorem afterAll_shows (t : Tape) (ops : List Operation) :
    Shows t (origin ops) (marks t 0 ops) (t.afterAll ops) := by
  induction ops using List.reverseRecOn with
  | nil => exact ⟨rfl, fun x => by simp [origin, marks, lastMark, afterAll]⟩
  | append_singleton ops op ih =>
    rw [afterAll_concat, origin_concat, marks_concat, Nat.zero_add]
    exact ih.perform op

/-- What the next operation answers and does once these were performed. Coordinates are counted from
the first cell given, which is then at the index `origin ops`. -/
structure ArrayLaws (t : Tape) (ops : List Operation) : Prop where
  blank : (t.afterAll ops).blank = t.blank
  reached : ∀ i, ∃ position, ((t.afterAll ops).perform (.reach i)).1 = .reached position ∧
    position < (t.afterAll (ops ++ [.reach i])).length ∧
    (position : Int) - origin (ops ++ [.reach i]) = i - origin ops
  growth : ∀ i, ((t.afterAll (ops ++ [.reach i])).length : Int) =
    max ((t.afterAll ops).length : Int) (i + 1) + max 0 (-i)
  kept : ∀ i x, (t.afterAll (ops ++ [.reach i])).look (x + origin (ops ++ [.reach i])) =
    (t.afterAll ops).look (x + origin ops)
  read : ∀ index, index < (t.afterAll ops).length →
    (t.afterAll ops).read index = .ok (content t ops (index - origin ops))
  read_fails : ∀ index e, (t.afterAll ops).read index = .error e ↔
    (t.afterAll ops).length ≤ index ∧ e = .outOfRange index (t.afterAll ops).length
  written : ∀ index symbol, index < (t.afterAll ops).length →
    ((t.afterAll ops).perform (.write index symbol)).1 = .written (.ok ()) ∧
    (t.afterAll (ops ++ [.write index symbol])).length = (t.afterAll ops).length ∧
    ∀ x, (t.afterAll (ops ++ [.write index symbol])).look (x + origin ops) =
      if x = index - origin ops then symbol else (t.afterAll ops).look (x + origin ops)
  write_fails : ∀ index symbol e,
    ((t.afterAll ops).perform (.write index symbol)).1 = .written (.error e) ↔
      (t.afterAll ops).length ≤ index ∧ e = .outOfRange index (t.afterAll ops).length
  failed : ∀ op e, ((t.afterAll ops).perform op).1 = .shown (.error e) ∨
    ((t.afterAll ops).perform op).1 = .written (.error e) →
      t.afterAll (ops ++ [op]) = t.afterAll ops

theorem perform_failed (h : (t.perform op).1 = .shown (.error e) ∨
    (t.perform op).1 = .written (.error e)) : (t.perform op).2 = t := by
  cases op with
  | reach i => simp [perform] at h
  | read index => rfl
  | write index symbol =>
    by_cases hin : index < t.length
    · simp [perform_write_inside hin] at h
    · rw [perform_write_outside hin]

theorem perform_write_error_iff : (t.perform (.write index symbol)).1 = .written (.error e) ↔
    t.length ≤ index ∧ e = .outOfRange index t.length := by
  by_cases hin : index < t.length
  · simp [perform_write_inside hin, hin]
  · simp [perform_write_outside hin, Nat.le_of_not_lt hin, eq_comm]

/-- Whatever was reached, read and written, far away or not: a tape is an array without ends, of
which it holds the cells that were given and those that were reached. -/
theorem histories_show_endless_array (t : Tape) (ops : List Operation) : ArrayLaws t ops := by
  have hs := afterAll_shows t ops
  refine ⟨hs.blank, ?_, ?_, ?_, ?_, fun _ _ => read_error_iff, ?_,
    fun _ _ _ => perform_write_error_iff, ?_⟩
  · intro i
    have hposition := (t.afterAll ops).reach_position i
    refine ⟨_, rfl, ?_, ?_⟩
    · rw [afterAll_concat]
      exact reach_inside _ i
    · rw [origin_concat, Operation.shift]
      omega
  · intro i
    have hlength := (t.afterAll ops).length_reach i
    rw [afterAll_concat]
    change (((t.afterAll ops).reach i).2.length : Int) = _
    simp only [shift] at hlength
    omega
  · intro i x
    rw [afterAll_concat, origin_concat]
    exact look_reach_shifted _ _ i x
  · intro index hin
    have hlook := hs.look (index - origin ops)
    rw [Int.sub_add_cancel] at hlook
    rw [read_inside hin, hlook, content]
  · intro index symbol hin
    rw [afterAll_concat, perform_write_inside hin]
    exact ⟨rfl, length_put _ _ _, look_put_shifted hin _ _⟩
  · intro op e hfail
    rw [afterAll_concat, perform_failed hfail]

/-- A cell that was written keeps its symbol when the tape grows far to the left and right of it. -/
example : content ⟨["a", "b"], "_", by decide⟩
    [.reach (-3), .write 4 "x", .reach (-2), .reach 9, .write 3 "y"] 1 = "x" := by decide

end SingleTape.Tape

import Mathlib.Algebra.Order.Group.Int
import SingleTape.Tape

/-!
A tape seen as a line of cells without ends, in coordinates that start at its first cell: `look`
answers the blank symbol wherever no cell has been made yet. Reading, writing and growing are
described by what they do to this line.
-/

namespace SingleTape.Tape

def look (t : Tape) (i : Int) : Symbol :=
  if 0 ≤ i then t.cells[i.toNat]?.getD t.blank else t.blank

def put (t : Tape) (index : Nat) (symbol : Symbol) : Tape :=
  { t with
    cells := t.cells.set index symbol
    cells_ne_nil := mt (List.set_eq_nil_iff index symbol).mp t.cells_ne_nil }

variable {t : Tape} {index : Nat} {i : Int}

theorem length_pos (t : Tape) : 0 < t.length := List.length_pos_iff.mpr t.cells_ne_nil

@[simp] theorem length_put (t : Tape) (index : Nat) (symbol : Symbol) :
    (t.put index symbol).length = t.length := by simp [put, length]

@[simp] theorem blank_put (t : Tape) (index : Nat) (symbol : Symbol) :
    (t.put index symbol).blank = t.blank := rfl

@[simp] theorem length_growLeft (t : Tape) (n : Nat) : (t.growLeft n).length = n + t.length := by
  simp [growLeft, length]

@[simp] theorem length_growRight (t : Tape) (n : Nat) :
    (t.growRight n).length = t.length + n := by
  simp [growRight, length]

theorem getElem?_cells (h : index < t.length) : t.cells[index]? = some (t.look index) := by
  have hc : index < t.cells.length := h
  simp [look, hc]

theorem look_outside (h : i < 0 ∨ t.length ≤ i) : t.look i = t.blank := by
  by_cases hi : 0 ≤ i
  · have hl : t.cells.length ≤ i.toNat := by
      change i < 0 ∨ (t.cells.length : Int) ≤ i at h
      omega
    simp [look, hi, List.getElem?_eq_none hl]
  · simp [look, hi]

theorem read_inside (h : index < t.length) : t.read index = .ok (t.look index) := by
  simp [read, getElem?_cells h]

theorem write_inside (h : index < t.length) (symbol : Symbol) :
    t.write index symbol = .ok (t.put index symbol) := by
  simp [write, h, put]

theorem look_put (h : index < t.length) (symbol : Symbol) (i : Int) :
    (t.put index symbol).look i = if i = index then symbol else t.look i := by
  have hc : index < t.cells.length := h
  by_cases hi : i = index
  · subst i
    simp [look, put, hc]
  · rw [if_neg hi]
    by_cases hn : 0 ≤ i
    · have hne : index ≠ i.toNat := by omega
      simp [look, put, hn, List.getElem?_set_ne hne]
    · simp [look, put, hn]

theorem put_look (h : index < t.length) : t.put index (t.look index) = t := by
  have hc : index < t.cells.length := h
  have hl : t.look index = t.cells[index] := by simp [look, hc]
  simp [put, hl]

theorem look_growLeft (t : Tape) (n : Nat) (i : Int) : (t.growLeft n).look i = t.look (i - n) := by
  by_cases hi : 0 ≤ i
  · simp only [look, growLeft, if_pos hi]
    by_cases hn : i < n
    · have hlt : i.toNat < n := by omega
      rw [List.getElem?_append_left (by simpa using hlt), if_neg (by omega)]
      simp [hlt]
    · have hle : n ≤ i.toNat := by omega
      have hsub : (i - n).toNat = i.toNat - n := by omega
      rw [List.getElem?_append_right (by simpa using hle), if_pos (by omega), hsub]
      simp
  · rw [look_outside (Or.inl (by omega)), look_outside (Or.inl (by omega))]
    rfl

theorem look_growRight (t : Tape) (n : Nat) (i : Int) : (t.growRight n).look i = t.look i := by
  by_cases hi : 0 ≤ i
  · simp only [look, growRight, if_pos hi]
    by_cases hl : i.toNat < t.cells.length
    · rw [List.getElem?_append_left hl]
    · have hle : t.cells.length ≤ i.toNat := by omega
      rw [List.getElem?_append_right hle, List.getElem?_eq_none hle, List.getElem?_replicate]
      split <;> rfl
  · rw [look_outside (Or.inl (by omega)), look_outside (Or.inl (by omega))]
    rfl

/-- How many cells come in front when the tape is made to reach a coordinate: as many as are missing
on the left. -/
def shift (i : Int) : Nat := (-i).toNat

theorem reach_position (t : Tape) (i : Int) : ((t.reach i).1 : Int) = i + shift i := by
  cases i with
  | ofNat i => simp [reach, shift]
  | negSucc i =>
    simp only [reach, shift]
    omega

theorem length_reach (t : Tape) (i : Int) :
    ((t.reach i).2.length : Int) = max (t.length : Int) (i + 1) + shift i := by
  cases i with
  | ofNat i =>
    by_cases hi : i < t.length
    · simp only [reach, shift, if_pos hi, Int.ofNat_eq_natCast]
      omega
    · simp only [reach, shift, if_neg hi, length_growRight, Int.ofNat_eq_natCast]
      omega
  | negSucc i =>
    have := t.length_pos
    simp only [reach, shift, length_growLeft]
    omega

theorem reach_inside (t : Tape) (i : Int) : (t.reach i).1 < (t.reach i).2.length := by
  have hp := t.reach_position i
  have hl := t.length_reach i
  omega

@[simp] theorem blank_reach (t : Tape) (i : Int) : (t.reach i).2.blank = t.blank := by
  cases i with
  | ofNat i =>
    by_cases hi : i < t.length <;> simp [reach, hi, growRight]
  | negSucc i => rfl

/-- Growing writes no symbol: every cell goes with the coordinates. -/
theorem look_reach (t : Tape) (i j : Int) : (t.reach i).2.look j = t.look (j - shift i) := by
  cases i with
  | ofNat i =>
    by_cases hi : i < t.length
    · simp [reach, shift, hi]
    · simp [reach, shift, hi, look_growRight]
  | negSucc i =>
    rw [reach, look_growLeft]
    congr 1

theorem reach_of_inside (h : index < t.length) : t.reach index = (index, t) := by
  change t.reach (.ofNat index) = _
  simp [reach, h]

theorem cells_reach_left (h : index < t.length) :
    (t.reach (index - 1)).2.cells = if index = 0 then t.blank :: t.cells else t.cells := by
  cases index with
  | zero => rfl
  | succ i =>
    have hi : ((i + 1 : Nat) : Int) - 1 = i := by omega
    rw [hi, reach_of_inside (by omega), if_neg (Nat.succ_ne_zero i)]

theorem cells_reach_right (h : index < t.length) :
    (t.reach (index + 1)).2.cells =
      if index + 1 = t.length then t.cells ++ [t.blank] else t.cells := by
  by_cases hl : index + 1 = t.length
  · have hn : ¬ index + 1 < t.length := by omega
    have hone : index + 1 + 1 - t.length = 1 := by omega
    change (t.reach (.ofNat (index + 1))).2.cells = _
    rw [if_pos hl, reach, if_neg hn, hone]
    rfl
  · have hlt : index + 1 < t.length := by omega
    have hr : t.reach (index + 1) = (index + 1, t) := reach_of_inside hlt
    rw [if_neg hl, hr]

end SingleTape.Tape

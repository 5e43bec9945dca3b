import SingleTape.Proofs.Instruction.Writing
import SingleTape.Proofs.Text.Pieces
import SingleTape.Record

/-!
The lines that show records. What stands in front of the first space is the request, the stretches
between the further ones are the cells, and the one in brackets is under the head; so a line shows
one record only.
-/

namespace SingleTape

namespace Text

theorem pieces_separated {sep : Char → Bool} {d : Char} {piece : List Char}
    {ps : List (List Char)} (h : ∀ p ∈ piece :: ps, ∀ c ∈ p, sep c = false) (hd : sep d = true) :
    pieces sep (piece ++ ps.flatMap (d :: ·)) = piece :: ps := by
  induction ps generalizing piece with
  | nil =>
    rw [List.flatMap_nil, List.append_nil]
    exact pieces_of_free (h piece List.mem_cons_self)
  | cons next ps ih =>
    obtain ⟨hp, hps⟩ := List.forall_mem_cons.mp h
    rw [List.flatMap_cons, List.cons_append, pieces_append_sep hp hd, ih hps]

end Text

open Grammar

variable {q q' : Request} {i j : Nat} {cell : Symbol} {cells cells' : List Symbol} {r s : Record}

def Request.heading (q : Request) : List Char := q.text.toList ++ [':']

def shownCell (index i : Nat) (cell : Symbol) : List Char :=
  if i = index then '[' :: (cell.toList ++ [']']) else cell.toList

theorem toList_markedCells (index : Nat) (cells : List Symbol) :
    (markedCells index cells).map String.toList =
      (cells.mapIdx (shownCell index)).map (' ' :: ·) := by
  simp only [markedCells, List.mapIdx_eq_zipIdx_map, List.map_map]
  refine List.map_congr_left fun ⟨cell, i⟩ _ => ?_
  by_cases hi : i = index <;> simp [shownCell, hi]

theorem Record.toList_line (r : Record) :
    r.line.toList =
      r.request.heading ++ (r.tape.mapIdx (shownCell r.index)).flatMap (' ' :: ·) := by
  simp [Record.line, Request.heading, String.toList_join, List.flatMap_def, toList_markedCells]

/-- A line can be taken apart: spaces stand between its cells only, and no cell has a bracket. -/
structure Record.Legible (r : Record) : Prop where
  inside : r.index < r.tape.length
  symbol : ' ' ∉ r.request.symbol.toList
  cells : ∀ cell ∈ r.tape, ' ' ∉ cell.toList ∧ '[' ∉ cell.toList ∧ ']' ∉ cell.toList

theorem numeral_spaceless {cs : List Char} {n : Int} (h : Numeral cs n) : ' ' ∉ cs := by
  have hdigits {ds : List Char} (hd : Digits ds) : ' ' ∉ ds := fun hc =>
    absurd (hd.2 ' ' hc) (by decide)
  cases h with
  | plain hd => exact hdigits hd
  | negative hd => simp [hdigits hd]

theorem Request.heading_spaceless (h : ' ' ∉ q.symbol.toList) : ' ' ∉ q.heading := by
  have hn := numeral_spaceless (numeral_integer q.state.toInt)
  simp [heading, toList_requestText, hn, h]

/-- The number in front of the first parenthesis is the state, whatever the symbol is. -/
theorem Request.heading_inj (h : q.heading = q'.heading) : q = q' := by
  have hread (p : Request) : readInteger p.heading =
      some (p.state.toInt, '(' :: (p.symbol.toList ++ [')', ':'])) := by
    have hform : p.heading =
        Decimal.integer p.state.toInt ++ '(' :: (p.symbol.toList ++ [')', ':']) := by
      simp [heading, toList_requestText]
    rw [hform]
    exact readInteger_numeral (numeral_integer _) (stops_cons rfl _)
  have hparts := (hread q).symm.trans (h ▸ hread q')
  simp only [Option.some.injEq, Prod.mk.injEq, List.cons.injEq, true_and,
    List.append_cancel_right_eq] at hparts
  cases q
  cases q'
  rw [Request.mk.injEq]
  exact ⟨Int64.toInt_inj.mp hparts.1, String.toList_inj.mp hparts.2⟩

theorem shownCell_spaceless (h : ' ' ∉ cell.toList) (i j : Nat) : ' ' ∉ shownCell i j cell := by
  rw [shownCell]
  split <;> simp [h]

theorem head_eq_of_shown (h : '[' ∉ cell.toList) {other : Symbol}
    (hs : shownCell i i other = shownCell j i cell) : i = j := by
  by_contra hij
  rw [shownCell, shownCell, if_pos rfl, if_neg hij] at hs
  exact h (hs ▸ List.mem_cons_self)

theorem shownCell_inj {other : Symbol} (h : shownCell i j cell = shownCell i j other) :
    cell = other := by
  unfold shownCell at h
  split at h <;> simpa [String.toList_inj] using h

/-- Cells that are shown alike are the same, with the head on the same one. -/
theorem cells_eq_of_shown (hin : i < cells.length)
    (hfree : ∀ cell ∈ cells', '[' ∉ cell.toList)
    (h : cells.mapIdx (shownCell i) = cells'.mapIdx (shownCell j)) : i = j ∧ cells = cells' := by
  have hlen : cells.length = cells'.length := by simpa using congrArg List.length h
  have hat (k : Nat) (hk : k < cells.length) (hk' : k < cells'.length) :
      shownCell i k cells[k] = shownCell j k cells'[k] := by
    simpa [hk, hk'] using congrArg (·[k]?) h
  have hin' : i < cells'.length := hlen ▸ hin
  have hij : i = j := head_eq_of_shown (hfree _ (List.getElem_mem hin')) (hat i hin hin')
  subst hij
  exact ⟨rfl, List.ext_getElem hlen fun k hk hk' => shownCell_inj (hat k hk hk')⟩

/-- The line of a record without spaces in its symbols and without brackets in its cells is the line
of no other such record. -/
theorem lines_tell_records_apart (hr : r.Legible) (hs : s.Legible) : r.line = s.line ↔ r = s := by
  refine ⟨fun h => ?_, congrArg Record.line⟩
  have hpieces {t : Record} (ht : t.Legible) : Text.pieces (· == ' ') t.line.toList =
      t.request.heading :: t.tape.mapIdx (shownCell t.index) := by
    rw [t.toList_line]
    refine Text.pieces_separated (List.forall_mem_cons.mpr ⟨?_, ?_⟩) rfl
    · intro c hc
      rw [beq_eq_false_iff_ne]
      rintro rfl
      exact Request.heading_spaceless ht.symbol hc
    · intro shown hshown c hc
      obtain ⟨k, hk, rfl⟩ := List.mem_mapIdx.mp hshown
      rw [beq_eq_false_iff_ne]
      rintro rfl
      exact shownCell_spaceless (ht.cells _ (List.getElem_mem _)).1 _ _ hc
  have hcut := (hpieces hr).symm.trans (h ▸ hpieces hs)
  obtain ⟨hheading, hcells⟩ := List.cons.inj hcut
  have hrequest := Request.heading_inj hheading
  obtain ⟨hindex, htape⟩ := cells_eq_of_shown hr.inside (fun c hc => (hs.cells c hc).2.1) hcells
  cases r
  cases s
  rw [Record.mk.injEq]
  exact ⟨hrequest, hindex, htape⟩

/-- Symbols that look like the end of a request, and empty cells. -/
theorem parenthesised_symbols_told_apart :
    Record.Legible ⟨⟨Int64.minValue, "):"⟩, 1, ["", "", "a:("]⟩ ∧
    Record.Legible ⟨⟨Int64.minValue, ")"⟩, 0, ["", "", "a:("]⟩ ∧
    Record.line ⟨⟨Int64.minValue, "):"⟩, 1, ["", "", "a:("]⟩ ≠
      Record.line ⟨⟨Int64.minValue, ")"⟩, 0, ["", "", "a:("]⟩ := by
  have hr : Record.Legible ⟨⟨Int64.minValue, "):"⟩, 1, ["", "", "a:("]⟩ :=
    ⟨by decide, by decide, by decide⟩
  have hs : Record.Legible ⟨⟨Int64.minValue, ")"⟩, 0, ["", "", "a:("]⟩ :=
    ⟨by decide, by decide, by decide⟩
  exact ⟨hr, hs, mt (lines_tell_records_apart hr hs).mp (by decide)⟩

/-- With a bracket in a cell, the place of the head can be lost. -/
example : Record.line ⟨⟨0, "a"⟩, 0, ["a", "[b]"]⟩ = Record.line ⟨⟨0, "a"⟩, 1, ["[a]", "b"]⟩ := by
  decide

end SingleTape

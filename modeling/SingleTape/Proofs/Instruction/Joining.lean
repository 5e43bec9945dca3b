import SingleTape.Proofs.Instruction.Blocks
import SingleTape.Proofs.Table.Loading

/-!
Blocks put together. A block behind another is read as if it stood alone, but for the numbers of its
lines, which count on; carriage returns in front of line feeds play no part.
-/

namespace SingleTape

def Error.later (n : Nat) : Error → Error
  | inLine line cause => inLine (line + n) cause
  | e => e

namespace Text

variable {a b : List Char}

/-- `b` is `a` with carriage returns put in front of some of its line feeds. -/
inductive ReturnsAdded : List Char → List Char → Prop where
  | nil : ReturnsAdded [] []
  | keep (c : Char) {a b : List Char} (h : ReturnsAdded a b) : ReturnsAdded (c :: a) (c :: b)
  | add {a b : List Char} (h : ReturnsAdded a b) :
      ReturnsAdded ('\n' :: a) ('\r' :: '\n' :: b)

theorem lines_append (a b : List Char) : lines (a ++ '\n' :: b) = lines a ++ lines b :=
  pieces_append rfl a b

theorem lines_cons_feed (cs : List Char) : lines ('\n' :: cs) = [] :: lines cs :=
  pieces_cons_sep rfl cs

theorem lines_cons_other {c : Char} (hc : c ≠ '\n') {cs line : List Char}
    {rest : List (List Char)} (h : lines cs = line :: rest) :
    lines (c :: cs) = (c :: line) :: rest :=
  @pieces_cons_other (· == '\n') c (beq_eq_false_iff_ne.mpr hc) cs line rest h

theorem exists_lines_eq_cons (cs : List Char) : ∃ line rest, lines cs = line :: rest :=
  List.exists_cons_of_ne_nil (pieces_ne_nil (· == '\n') cs)

theorem length_lines (a : List Char) : (lines a).length = a.count '\n' + 1 :=
  length_pieces (· == '\n') a

theorem trim_append_blank {c : Char} (hc : isBlank c = true) (line : List Char) :
    trim (line ++ [c]) = trim line := by
  have ht := trims_trim line
  obtain ⟨front, back, hsplit, hf, hb⟩ := ht.split
  symm
  apply trims_iff.mp
  refine ⟨⟨front, back ++ [c], ?_, hf, ?_⟩, ht.first, ht.last⟩
  · rw [← List.append_assoc, ← hsplit]
  · intro d hd
    rcases List.mem_append.mp hd with hd | hd
    · exact hb d hd
    · rwa [List.mem_singleton.mp hd]

theorem trim_trim (cs : List Char) : trim (trim cs) = trim cs := by
  have ht := trims_trim cs
  exact (trims_iff.mp (Bare.trims_self ⟨ht.first, ht.last⟩)).symm

theorem ReturnsAdded.lines (h : ReturnsAdded a b) :
    List.Forall₂ (fun line line' => line' = line ∨ line' = line ++ ['\r'])
      (lines a) (lines b) := by
  induction h with
  | nil => exact .cons (Or.inl rfl) .nil
  | @keep c a b _ ih =>
    by_cases hc : c = '\n'
    · rw [hc, lines_cons_feed, lines_cons_feed]
      exact .cons (Or.inl rfl) ih
    · obtain ⟨p, ps, hp⟩ := exists_lines_eq_cons a
      obtain ⟨q, qs, hq⟩ := exists_lines_eq_cons b
      rw [hp, hq, List.forall₂_cons] at ih
      rw [lines_cons_other hc hp, lines_cons_other hc hq]
      refine .cons ?_ ih.2
      rcases ih.1 with rfl | rfl
      · exact Or.inl rfl
      · exact Or.inr rfl
  | @add a b _ ih =>
    rw [lines_cons_feed, lines_cons_other (by decide) (lines_cons_feed b)]
    exact .cons (Or.inr rfl) ih

theorem ReturnsAdded.trim_lines (h : ReturnsAdded a b) :
    List.Forall₂ (fun line line' => trim line = trim line') (Text.lines a) (Text.lines b) := by
  refine h.lines.imp ?_
  rintro line line' (rfl | rfl)
  · rfl
  · exact (trim_append_blank rfl line).symm

end Text

namespace Instruction

variable {first : Nat} {lines lines' : List (List Char)}

def ofLines (first : Nat) (lines : List (List Char)) : Except Error (List Instruction) :=
  ((lines.zipIdx first).filter fun (line, _) => Text.trim line ≠ []).mapM fun (line, number) =>
    (ofChars line).mapError (Error.inLine number)

theorem block_eq (block : List Char) : Instruction.block block = ofLines 1 (Text.lines block) := rfl

theorem ofLines_cons (first : Nat) (line : List Char) (lines : List (List Char)) :
    ofLines first (line :: lines) =
      if Text.trim line = [] then ofLines (first + 1) lines
      else (do
        let i ← (ofChars line).mapError (Error.inLine first)
        let rest ← ofLines (first + 1) lines
        .ok (i :: rest)) := by
  by_cases hl : Text.trim line = []
  · simp [ofLines, hl]
  · simp [ofLines, hl, pure, Except.pure]

theorem ofLines_append (first : Nat) (lines lines' : List (List Char)) :
    ofLines first (lines ++ lines') = (do
      let front ← ofLines first lines
      let rest ← ofLines (first + lines.length) lines'
      .ok (front ++ rest)) := by
  simp [ofLines, List.zipIdx_append, pure, Except.pure]

/-- Lines with other numbers are read the same, but for the numbers in errors. -/
theorem ofLines_later (first n : Nat) (lines : List (List Char)) :
    ofLines (first + n) lines = (ofLines first lines).mapError (Error.later n) := by
  induction lines generalizing first with
  | nil => rfl
  | cons line lines ih =>
    have ih' := ih (first + 1)
    rw [Nat.add_right_comm] at ih'
    rw [ofLines_cons, ofLines_cons, ih']
    by_cases hl : Text.trim line = []
    · rw [if_pos hl, if_pos hl]
    · rw [if_neg hl, if_neg hl]
      cases ofChars line with
      | error e => rfl
      | ok i =>
        cases ofLines (first + 1) lines with
        | error e => rfl
        | ok is => rfl

theorem ofChars_trim (line : List Char) : ofChars (Text.trim line) = ofChars line := by
  rw [ofChars, ofChars, Text.trim_trim]

theorem ofLines_congr (h : List.Forall₂ (fun l l' => Text.trim l = Text.trim l') lines lines')
    (first : Nat) : ofLines first lines = ofLines first lines' := by
  induction h generalizing first with
  | nil => rfl
  | @cons l l' _ _ hl _ ih =>
    have hread : ofChars l = ofChars l' := by rw [← ofChars_trim, hl, ofChars_trim]
    rw [ofLines_cons, ofLines_cons, hl, hread, ih]

theorem ofLines_error {e : Error} (h : ofLines first lines = .error e) :
    ∃ line cause, e = .inLine line cause := by
  induction lines generalizing first with
  | nil => cases h
  | cons line lines ih =>
    rw [ofLines_cons] at h
    by_cases hl : Text.trim line = []
    · rw [if_pos hl] at h
      exact ih h
    · rw [if_neg hl] at h
      cases hi : ofChars line with
      | error cause =>
        rw [hi] at h
        cases h
        exact ⟨first, cause, rfl⟩
      | ok i =>
        cases hs : ofLines (first + 1) lines with
        | error e' =>
          rw [hi, hs] at h
          cases h
          exact ih hs
        | ok is =>
          rw [hi, hs] at h
          cases h

/-- The lines of a block that starts a new line behind another count on from it. -/
theorem block_append (a b : List Char) :
    Instruction.block (a ++ '\n' :: b) = (do
      let front ← Instruction.block a
      let rest ← (Instruction.block b).mapError (Error.later (a.count '\n' + 1))
      .ok (front ++ rest)) := by
  rw [block_eq, Text.lines_append, ofLines_append, Text.length_lines, ofLines_later]
  rfl

theorem block_of_returnsAdded {a b : List Char} (h : Text.ReturnsAdded a b) :
    Instruction.block b = Instruction.block a :=
  (ofLines_congr h.trim_lines 1).symm

end Instruction

variable {a b : String} {is js : List Instruction} {e : Error}

theorem readInstructions_append (a b : String) :
    readInstructions (a ++ "\n" ++ b) = (do
      let front ← readInstructions a
      let rest ← (readInstructions b).mapError (Error.later (a.toList.count '\n' + 1))
      .ok (front ++ rest)) := by
  have hlist : (a ++ "\n" ++ b).toList = a.toList ++ '\n' :: b.toList := by simp
  rw [readInstructions, hlist, Instruction.block_append]
  rfl

theorem readInstructions_append_ok (ha : readInstructions a = .ok is)
    (hb : readInstructions b = .ok js) : readInstructions (a ++ "\n" ++ b) = .ok (is ++ js) := by
  rw [readInstructions_append, ha, hb]
  rfl

/-- What reading and loading two blocks, the second one on new lines behind the first, has to do
with reading and loading each of them. -/
structure JoinLaws (a b : String) : Prop where
  first : ∀ e, readInstructions a = .error e → readInstructions (a ++ "\n" ++ b) = .error e
  second : ∀ is e, readInstructions a = .ok is → readInstructions b = .error e →
    ∃ line cause, e = .inLine line cause ∧
      readInstructions (a ++ "\n" ++ b) = .error (.inLine (line + 1 + a.toList.count '\n') cause)
  both : ∀ is js, readInstructions a = .ok is → readInstructions b = .ok js →
    readInstructions (a ++ "\n" ++ b) = .ok (is ++ js)
  tables : ∀ is js, readInstructions a = .ok is → readInstructions b = .ok js →
    ∀ t : Table, ∃ repeated u more v, t.load a = .ok (repeated, u) ∧ u.load b = .ok (more, v) ∧
      t.load (a ++ "\n" ++ b) = .ok (repeated ++ more, v)

/-- Blocks compose line by line, the first error of the first bad block being told with its line in
the whole, and it makes no difference which lines end with a carriage return. -/
theorem blocks_compose :
    (∀ a b, JoinLaws a b) ∧
      ∀ a b : String, Text.ReturnsAdded a.toList b.toList →
        readInstructions b = readInstructions a := by
  refine ⟨fun a b => ⟨?_, ?_, fun _ _ => readInstructions_append_ok, ?_⟩, ?_⟩
  · intro e he
    rw [readInstructions_append, he]
    rfl
  · intro is e hi he
    obtain ⟨line, cause, rfl⟩ := Instruction.ofLines_error he
    refine ⟨line, cause, rfl, ?_⟩
    rw [readInstructions_append, hi, he, Nat.add_assoc, Nat.add_comm 1]
    rfl
  · intro is js hi hj t
    have hab := Table.load_ok (readInstructions_append_ok hi hj) t
    rw [Table.setAll_append] at hab
    exact ⟨_, (t.setAll is).2, _, _, Table.load_ok hi t, Table.load_ok hj _, hab⟩
  · intro a b h
    exact Instruction.block_of_returnsAdded h

/-- A block with an empty line at its end in front of a bad one and of a good one, and the same block
with a carriage return. -/
theorem bad_line_counted_on :
    readInstructions ("0(a)=>1(a)R\n" ++ "\n" ++ "\n x \r\n") =
      .error (.inLine 4 (.malformed .line "x")) ∧
    readInstructions ("0(a)=>1(a)R\n" ++ "\n" ++ "0(a)=>0(b)S") =
      .ok [⟨⟨0, "a"⟩, ⟨1, "a", .right⟩⟩, ⟨⟨0, "a"⟩, ⟨0, "b", .stay⟩⟩] ∧
    readInstructions "0(a)=>1(a)R\r\n" = readInstructions "0(a)=>1(a)R\n" := by
  have ha : readInstructions "0(a)=>1(a)R\n" = .ok [⟨⟨0, "a"⟩, ⟨1, "a", .right⟩⟩] := rfl
  have hbad : readInstructions "\n x \r\n" = .error (.inLine 2 (.malformed .line "x")) := rfl
  have hgood : readInstructions "0(a)=>0(b)S" = .ok [⟨⟨0, "a"⟩, ⟨0, "b", .stay⟩⟩] := rfl
  refine ⟨?_, (blocks_compose.1 _ _).both _ _ ha hgood, ?_⟩
  · obtain ⟨line, cause, he, h⟩ := (blocks_compose.1 _ _).second _ _ ha hbad
    cases he
    exact h
  · apply blocks_compose.2
    exact .keep _ <| .keep _ <| .keep _ <| .keep _ <| .keep _ <| .keep _ <| .keep _ <| .keep _ <|
      .keep _ <| .keep _ <| .keep _ <| .add .nil

end SingleTape

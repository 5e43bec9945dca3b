import SingleTape.General.Lists
import SingleTape.General.Results
import SingleTape.Proofs.Instruction.Writing
import SingleTape.Proofs.Text.Pieces

/-!
Blocks of instructions: what their lines say, one by one. Instructions written one a line are the
block that is read back.
-/

namespace SingleTape

def inkedLines (block : List Char) : List (List Char) :=
  (Text.lines block).filter fun line => Text.trim line ≠ []

theorem map_fst_numberedLines (block : List Char) :
    (numberedLines block).map Prod.fst = inkedLines block := by
  have hz : ((Text.lines block).zipIdx 1).map Prod.fst = Text.lines block := by simp
  rw [inkedLines, ← hz, List.filter_map]
  rfl

theorem Instruction.block_ok_iff {block : List Char} {is : List Instruction} :
    Instruction.block block = .ok is ↔
      List.Forall₂ (fun line i => Instruction.ofChars line = .ok i) (inkedLines block) is := by
  rw [Instruction.block, mapM_ok_iff, ← map_fst_numberedLines, List.forall₂_map_left_iff]
  simp only [mapError_ok_iff]

namespace Grammar

variable {cs symbol code : List Char} {n : Int} {block : String} {is : List Instruction}

theorem RequestForm.word (h : RequestForm cs n symbol) : Word symbol := by
  obtain ⟨_, ⟨_, _, _, _, _, _, _, _, _, _, hw, _⟩, _⟩ := h
  exact hw

theorem ResponseForm.word (h : ResponseForm cs n symbol code) : Word symbol := by
  obtain ⟨_, _, ⟨_, _, _, _, _, _, _, _, _, _, hw, _⟩, _⟩ := h
  exact hw

theorem worded_of_ofChars {line : List Char} {i : Instruction}
    (h : Instruction.ofChars line = .ok i) : i.Worded := by
  have hr : Instruction.read (String.ofList line) = .ok i := by
    rw [Instruction.read, String.toList_ofList]
    exact h
  have laws := lineLaws (String.ofList line)
  have hn : ¬ Undivided (Text.trim (String.ofList line).toList) := by
    intro hu
    cases hr.symm.trans (laws.line.mpr hu)
  obtain ⟨a, b, hf, ha, hb⟩ := laws.divided hn
  have hs := laws.sides a b _ _ hf ha hb (Text.trims_trim a) (Text.trims_trim b)
  obtain ⟨hq, code, hform, -⟩ := (hs.success i).mp hr
  exact ⟨RequestForm.word hq, ResponseForm.word hform⟩

theorem worded_of_read (h : readInstructions block = .ok is) : ∀ i ∈ is, i.Worded := by
  have hf := Instruction.block_ok_iff.mp h
  clear h
  generalize inkedLines block.toList = lines at hf
  induction hf with
  | nil => simp
  | cons hl _ ih =>
    exact List.forall_mem_cons.mpr ⟨worded_of_ofChars hl, ih⟩

def blockText (is : List Instruction) : String := "\n".intercalate (is.map Instruction.text)

theorem text_ne_nil (i : Instruction) : i.text.toList ≠ [] := by
  simp [toList_instructionText]

theorem inkedLines_blockText (h : ∀ i ∈ is, i.Worded) :
    inkedLines (blockText is).toList = is.map (·.text.toList) := by
  have htext : (blockText is).toList = List.intercalate ['\n'] (is.map (·.text.toList)) := by
    simp [blockText, String.toList_intercalate, Function.comp_def]
  rw [inkedLines, htext, Text.lines]
  rcases eq_or_ne is [] with rfl | hne
  · simp [Text.trim]
  · have hlines : ∀ line ∈ is.map (·.text.toList), ∀ c ∈ line, (c == '\n') = false := by
      intro line hline c hc
      obtain ⟨i, hi, rfl⟩ := List.mem_map.mp hline
      exact beq_eq_false_iff_ne.mpr (newline_free_text (h i hi) c hc)
    rw [Text.pieces_intercalate (by simpa using hne) hlines rfl]
    apply List.filter_eq_self.mpr
    intro line hline
    obtain ⟨i, -, rfl⟩ := List.mem_map.mp hline
    rw [← Text.trims_iff.mp (bare_instructionText i).trims_self]
    simpa using text_ne_nil i

theorem read_blockText (h : ∀ i ∈ is, i.Worded) : readInstructions (blockText is) = .ok is := by
  apply Instruction.block_ok_iff.mpr
  rw [inkedLines_blockText h, List.forall₂_map_left_iff, List.forall₂_same]
  intro i hi
  exact read_text (h i hi)

end Grammar

end SingleTape

import SingleTape.Json.Trace
import SingleTape.Proofs.Instruction.Blocks
import SingleTape.Proofs.Json.Objects
import SingleTape.Proofs.Json.Printed

/-!
Requests, responses and records are read back from their JSON, and a trace is read back line by
line.
-/

namespace SingleTape

open Json

theorem reads_state (s : State) : stateReader.Reads (writeInteger s.toInt) s := by
  have h := (Reader.reads_signed64 s).map Int64.ofInt
  rwa [Int64.ofInt_toInt] at h

theorem Move.reads_json (m : Move) : Move.reader.Reads m.json m := by
  apply Reader.reads_variant
  cases m with
  | left => rfl
  | stay => rfl
  | right => rfl

theorem Request.reads_json (q : Request) : Request.shape.reader.Reads q.json q := by
  have hfills : Fills Request.shape {}
      [("state", writeInteger q.state.toInt), ("symbol", writeText q.symbol)]
      ⟨some q.state, some q.symbol⟩ := by
    refine .member rfl rfl (reads_state q.state) ?_
    refine .member rfl rfl (Reader.reads_text q.symbol) ?_
    exact .nil _
  exact hfills.reads_object rfl

theorem Response.reads_json (r : Response) : Response.shape.reader.Reads r.json r := by
  have hfills : Fills Response.shape {}
      [("state", writeInteger r.state.toInt), ("symbol", writeText r.symbol),
        ("direction", r.move.json)]
      ⟨some r.state, some r.symbol, some r.move⟩ := by
    refine .member rfl rfl (reads_state r.state) ?_
    refine .member rfl rfl (Reader.reads_text r.symbol) ?_
    refine .member rfl rfl r.move.reads_json ?_
    exact .nil _
  exact hfills.reads_object rfl

theorem reads_cells (cells : List Symbol) :
    (Reader.list Reader.text).Reads (writeList (cells.map writeText)) cells := by
  apply Reader.reads_list
  · rw [List.forall₂_map_left_iff, List.forall₂_same]
    intro cell _
    exact Reader.reads_text cell
  · intro text htext
    obtain ⟨cell, -, rfl⟩ := List.mem_map.mp htext
    exact valued_writeText cell

theorem Record.reads_json (r : Record) (h : r.index < UInt64.size) :
    Record.shape.reader.Reads r.json r := by
  have hfills : Fills Record.shape {}
      [("request", r.request.json), ("index", writeInteger r.index),
        ("tape", writeList (r.tape.map writeText))]
      ⟨some r.request, some r.index, some r.tape⟩ := by
    refine .member rfl rfl r.request.reads_json ?_
    refine .member rfl rfl (Reader.reads_unsigned64 h) ?_
    refine .member rfl rfl (reads_cells r.tape) ?_
    exact .nil _
  exact hfills.reads_object rfl

theorem Request.printed_json (q : Request) : Printed q.json := by
  apply printed_writeObject
  simp [printed_writeInteger, printed_writeText]

theorem Response.printed_json (r : Response) : Printed r.json := by
  apply printed_writeObject
  simp [printed_writeInteger, printed_writeText, Move.json]

theorem Record.printed_json (r : Record) : Printed r.json := by
  have hcells : Printed (writeList (r.tape.map writeText)) := by
    apply printed_writeList
    intro value hvalue
    obtain ⟨cell, -, rfl⟩ := List.mem_map.mp hvalue
    exact printed_writeText cell
  apply printed_writeObject
  simp [r.request.printed_json, printed_writeInteger, hcells]

theorem Record.json_ne_nil (r : Record) : r.json ≠ [] := List.cons_ne_nil _ _

/-- The lines of printed text. What is behind the last line feed is a line only if there is
something. -/
def printedLines (cs : List Char) : List (List Char) :=
  if (Text.lines cs).getLast? = some [] then (Text.lines cs).dropLast else Text.lines cs

variable {ls : List (List Char)}

theorem lines_joined (hne : ls ≠ []) (h : ∀ l ∈ ls, Printed l) :
    Text.lines (List.intercalate ['\n'] ls) = ls :=
  Text.pieces_intercalate hne (fun l hl => (h l hl).newline_free) rfl

theorem lines_ended (h : ∀ l ∈ ls, Printed l) :
    Text.lines (ls.flatMap (· ++ ['\n'])) = ls ++ [[]] := by
  induction ls with
  | nil => rfl
  | cons l ls ih =>
    obtain ⟨hl, hls⟩ := List.forall_mem_cons.mp h
    rw [List.flatMap_cons, List.append_assoc, List.singleton_append, Text.lines,
      Text.pieces_append_sep hl.newline_free rfl, ← Text.lines, ih hls]
    rfl

theorem printedLines_joined (h : ∀ l ∈ ls, Printed l) (hfull : ∀ l ∈ ls, l ≠ []) :
    printedLines (List.intercalate ['\n'] ls) = ls := by
  by_cases hne : ls = []
  · subst hne
    rfl
  · rw [printedLines, lines_joined hne h, if_neg]
    intro hlast
    exact hfull [] (List.mem_of_getLast? hlast) rfl

theorem printedLines_ended (h : ∀ l ∈ ls, Printed l) :
    printedLines (ls.flatMap (· ++ ['\n'])) = ls := by
  rw [printedLines, lines_ended h]
  simp

def readTrace (lines : List (List Char)) : Except Defect (List Record) :=
  lines.mapM fun line => Record.ofJson (String.ofList line)

variable {rs : List Record}

theorem readTrace_json (h : ∀ r ∈ rs, r.index < UInt64.size) :
    readTrace (rs.map Record.json) = .ok rs := by
  rw [readTrace, mapM_ok_iff, List.forall₂_map_left_iff, List.forall₂_same]
  intro r hr
  exact (r.reads_json (h r hr)).document

theorem printed_of_mem_json {l : List Char} (h : l ∈ rs.map Record.json) : Printed l := by
  obtain ⟨r, -, rfl⟩ := List.mem_map.mp h
  exact r.printed_json

theorem ne_nil_of_mem_json {l : List Char} (h : l ∈ rs.map Record.json) : l ≠ [] := by
  obtain ⟨r, -, rfl⟩ := List.mem_map.mp h
  exact r.json_ne_nil

/-- Traces in JSON lose nothing: every value is read back from its text, no control character is in
the text, and records joined by line feeds, or ended by one each, are read back line by line. -/
theorem traces_read_back (rs : List Record) (h : ∀ r ∈ rs, r.index < UInt64.size) :
    (∀ q : Request, Request.ofJson (String.ofList q.json) = .ok q ∧ Printed q.json) ∧
    (∀ r : Response, Response.ofJson (String.ofList r.json) = .ok r ∧ Printed r.json) ∧
    (∀ r ∈ rs, Record.ofJson (String.ofList r.json) = .ok r ∧ Printed r.json) ∧
    readTrace (printedLines (List.intercalate ['\n'] (rs.map Record.json))) = .ok rs ∧
    readTrace (printedLines ((rs.map Record.json).flatMap (· ++ ['\n']))) = .ok rs ∧
    (rs ≠ [] →
      readTrace (Text.lines (List.intercalate ['\n'] (rs.map Record.json))) = .ok rs) := by
  have hprinted : ∀ l ∈ rs.map Record.json, Printed l := fun l hl => printed_of_mem_json hl
  refine ⟨?_, ?_, ?_, ?_, ?_, ?_⟩
  · intro q
    exact ⟨q.reads_json.document, q.printed_json⟩
  · intro r
    exact ⟨r.reads_json.document, r.printed_json⟩
  · intro r hr
    exact ⟨(r.reads_json (h r hr)).document, r.printed_json⟩
  · rw [printedLines_joined hprinted fun l hl => ne_nil_of_mem_json hl]
    exact readTrace_json h
  · rw [printedLines_ended hprinted]
    exact readTrace_json h
  · intro hne
    have hne' : rs.map Record.json ≠ [] := by simpa using hne
    rw [lines_joined hne' hprinted]
    exact readTrace_json h

def extremeRecords : List Record :=
  [⟨⟨Int64.minValue, ""⟩, UInt64.size - 1, []⟩,
    ⟨⟨Int64.maxValue, "\"\\\n\x1f"⟩, 0, ["", "é\x00", "𝄞\t"]⟩]

theorem extreme_records_read_back :
    readTrace (printedLines (List.intercalate ['\n'] (extremeRecords.map Record.json))) =
      .ok extremeRecords ∧
    readTrace (Text.lines (List.intercalate ['\n'] (extremeRecords.map Record.json))) =
      .ok extremeRecords := by
  obtain ⟨-, -, -, hjoined, -, hlines⟩ := traces_read_back extremeRecords (by decide)
  exact ⟨hjoined, hlines (by decide)⟩

end SingleTape

import SingleTape.Proofs.Execution.Runs
import SingleTape.Proofs.Table.Written
import SingleTape.Settings.Basic

/-!
Tapes that can be written as a seed: no symbol on them is empty or has white space in it. A run from
a seed has such tapes only, for what it writes are words and what it grows by is a valid blank.
-/

namespace SingleTape

open Settings (isToken)

def Tokens (symbols : List Symbol) : Prop := ∀ symbol ∈ symbols, isToken symbol = true

variable {cells : List Symbol} {symbol : Symbol} {seed : String}

theorem isToken_iff :
    isToken symbol = true ↔ symbol.toList ≠ [] ∧ ∀ c ∈ symbol.toList, Text.isBlank c = false := by
  simp [isToken]

theorem isToken_of_word (h : Grammar.Word symbol.toList) : isToken symbol = true := by
  refine isToken_iff.mpr ⟨h.1, ?_⟩
  intro c hc
  -- Words lie between the blank characters below 0x21 and those above 0x84.
  have hrange : 0x30 ≤ c.toNat ∧ c.toNat ≤ 0x7A := by
    rcases h.2 c hc with ⟨hl, hu⟩ | ⟨hl, hu⟩ | ⟨hl, hu⟩ | rfl
    · exact ⟨Nat.le_trans (by decide) hl, Nat.le_trans hu (by decide)⟩
    · exact ⟨Nat.le_trans (by decide) hl, Nat.le_trans hu (by decide)⟩
    · exact ⟨Nat.le_trans (by decide) hl, Nat.le_trans hu (by decide)⟩
    · decide
  simp only [Text.isBlank, Bool.or_eq_false_iff, Bool.and_eq_false_iff, decide_eq_false_iff_not,
    beq_eq_false_iff_ne]
  omega

theorem tokens_of_readSeed (h : readSeed seed = .ok cells) : Tokens cells := by
  rw [readSeed] at h
  split at h
  · cases h
  · cases h
    intro symbol hs
    obtain ⟨word, hw, rfl⟩ := List.mem_map.mp hs
    obtain ⟨hp, hne⟩ := List.mem_filter.mp hw
    rw [isToken_iff, String.toList_ofList]
    exact ⟨by simpa using hne, Text.free_of_mem_pieces hp⟩

/-- Symbols joined by spaces are the seed of themselves. -/
theorem readSeed_join (hne : cells ≠ []) (h : Tokens cells) :
    readSeed (" ".intercalate cells) = .ok cells := by
  have htext : (" ".intercalate cells).toList =
      List.intercalate [' '] (cells.map String.toList) := by
    rw [String.toList_intercalate]
    rfl
  have hfree : ∀ word ∈ cells.map String.toList, ∀ c ∈ word, Text.isBlank c = false := by
    intro word hw
    obtain ⟨symbol, hs, rfl⟩ := List.mem_map.mp hw
    exact (isToken_iff.mp (h symbol hs)).2
  have hwords : Text.words (" ".intercalate cells).toList = cells.map String.toList := by
    rw [Text.words, htext, Text.pieces_intercalate (by simpa using hne) hfree rfl]
    apply List.filter_eq_self.mpr
    intro word hw
    obtain ⟨symbol, hs, rfl⟩ := List.mem_map.mp hw
    simpa using (isToken_iff.mp (h symbol hs)).1
  rw [readSeed, hwords]
  split
  · next hnil => exact absurd (List.map_eq_nil_iff.mp hnil) hne
  · rw [List.map_map]
    simp [Function.comp_def]

namespace Tape

variable {t : Tape}

theorem tokens_put (h : Tokens t.cells) (hs : isToken symbol = true) (index : Nat) :
    Tokens (t.put index symbol).cells := by
  intro s hmem
  rcases List.mem_or_eq_of_mem_set hmem with hmem | rfl
  · exact h s hmem
  · exact hs

theorem tokens_reach (h : Tokens t.cells) (hb : isToken t.blank = true) (i : Int) :
    Tokens (t.reach i).2.cells := by
  have hblank (n : Nat) : Tokens (List.replicate n t.blank) := by
    intro s hmem
    rw [List.eq_of_mem_replicate hmem]
    exact hb
  cases i with
  | ofNat i =>
    rw [reach]
    split
    · exact h
    · exact List.forall_mem_append.mpr ⟨h, hblank _⟩
  | negSucc i => exact List.forall_mem_append.mpr ⟨hblank _, h⟩

theorem isToken_look (h : Tokens t.cells) (hb : isToken t.blank = true) (i : Int) :
    isToken (t.look i) = true := by
  rw [look]
  split
  · cases hc : t.cells[i.toNat]? with
    | none => exact hb
    | some symbol => exact h symbol (List.mem_of_getElem? hc)
  · exact hb

end Tape

namespace Execution

variable {e : Execution}

/-- A run that has no symbol but tokens: on its tape, for growth and to write. -/
structure Tokened (e : Execution) : Prop where
  written : ∀ i ∈ e.table.entries.toList, isToken i.response.symbol = true
  blank : isToken e.tape.blank = true
  cells : Tokens e.tape.cells

theorem Tokened.isToken_response (h : e.Tokened) : isToken e.response.symbol = true := by
  rw [response]
  cases hs : e.table.stored? e.request with
  | none => exact e.tape.isToken_look h.cells h.blank e.cursor
  | some r =>
    obtain ⟨i, hi, rfl⟩ := Option.map_eq_some_iff.mp hs
    exact h.written i (List.mem_of_find?_eq_some hi)

theorem Tokened.successor (h : e.Tokened) : e.successor.Tokened := by
  refine ⟨h.written, ?_, ?_⟩
  · rw [blank_successor]
    exact h.blank
  · rw [tape_successor]
    exact Tape.tokens_reach (Tape.tokens_put h.cells h.isToken_response e.cursor) h.blank _

theorem start_tokened {table : Table} {tape : Tape} (ht : table.Worded)
    (hb : isToken tape.blank = true) (hc : Tokens tape.cells) : (start table tape).Tokened :=
  ⟨fun i hi => isToken_of_word (ht i hi).response, hb, hc⟩

end Execution

end SingleTape

import Mathlib.Order.Monotone.Basic
import SingleTape.Proofs.Execution.Halting

/-!
Blank cells at the end of a seed do not matter. A run finds them where it would have made them, so
it takes the same steps with them and without; they only are fewer and fewer that it has not made
anyway.
-/

namespace SingleTape

def Record.padded (blank : Symbol) (k : Nat) (r : Record) : Record :=
  { r with tape := r.tape ++ List.replicate k blank }

def Step.map (f : Record → Record) : Step → Step
  | moved record => moved (f record)
  | final record => final (f record)
  | halted => halted

namespace Tape

variable {t : Tape} {index : Nat}

@[simp] theorem growRight_zero (t : Tape) : t.growRight 0 = t := by
  simp [growRight]

theorem growRight_growRight (t : Tape) (j k : Nat) :
    (t.growRight j).growRight k = t.growRight (j + k) := by
  simp [growRight, List.append_assoc]

theorem growLeft_growRight (t : Tape) (j k : Nat) :
    (t.growRight k).growLeft j = (t.growLeft j).growRight k := by
  simp [growRight, growLeft, List.append_assoc]

theorem put_growRight (h : index < t.length) (symbol : Symbol) (k : Nat) :
    (t.growRight k).put index symbol = (t.put index symbol).growRight k := by
  simp [put, growRight, List.set_append_left _ _ h]

theorem reach_growRight (t : Tape) (k : Nat) (i : Int) :
    ∃ j ≤ k, (t.growRight k).reach i = ((t.reach i).1, (t.reach i).2.growRight j) := by
  cases i with
  | negSucc i =>
    refine ⟨k, Nat.le_refl k, ?_⟩
    simp only [reach, growLeft_growRight]
  | ofNat i =>
    by_cases hi : i < t.length
    · have hk : i < (t.growRight k).length := by
        rw [length_growRight]
        omega
      refine ⟨k, Nat.le_refl k, ?_⟩
      simp only [reach, if_pos hi, if_pos hk]
    · by_cases hk : i < (t.growRight k).length
      · rw [length_growRight] at hk
        have hsum : i + 1 - t.length + (k - (i + 1 - t.length)) = k := by omega
        refine ⟨k - (i + 1 - t.length), Nat.sub_le _ _, ?_⟩
        simp only [reach, length_growRight, if_neg hi, if_pos hk, growRight_growRight, hsum]
      · rw [length_growRight] at hk
        have hsum : k + (i + 1 - (t.length + k)) = i + 1 - t.length := by omega
        refine ⟨0, Nat.zero_le k, ?_⟩
        simp only [reach, length_growRight, if_neg hi, if_neg hk, growRight_growRight, hsum,
          growRight_zero]

end Tape

namespace Execution

/-- The run as it stands, with so many blank cells more at the end of its tape. -/
def padded (e : Execution) (k : Nat) : Execution := { e with tape := e.tape.growRight k }

variable {e : Execution} {j k n : Nat}

theorem response_padded (e : Execution) (k : Nat) : (e.padded k).response = e.response := by
  simp only [response, request, padded, Tape.look_growRight]

theorem record_padded (e : Execution) (k : Nat) :
    (e.padded k).record = e.record.padded e.tape.blank k := by
  simp only [record, request, padded, Tape.look_growRight]
  rfl

theorem length_padded (e : Execution) (k : Nat) :
    (e.padded k).tape.length = e.tape.length + k := Tape.length_growRight e.tape k

theorem Sound.padded (h : e.Sound) (k : Nat) : (e.padded k).Sound := by
  refine ⟨h.table, ?_, h.healthy⟩
  rw [length_padded]
  exact Nat.lt_add_right k h.inside

/-- A transition keeps the blank cells at the end, but for those it would have made itself. -/
theorem Sound.successor_padded (h : e.Sound) (k : Nat) :
    ∃ j ≤ k, (e.padded k).successor = e.successor.padded j := by
  obtain ⟨j, hj, hr⟩ := (e.tape.put e.cursor e.response.symbol).reach_growRight k
    (target e.cursor e.response.move)
  refine ⟨j, hj, ?_⟩
  have hp : (e.padded k).tape.put e.cursor e.response.symbol =
      (e.tape.put e.cursor e.response.symbol).growRight k := Tape.put_growRight h.inside _ k
  have hc : (e.padded k).cursor = e.cursor := rfl
  rw [Execution.successor, response_padded, hc, hp, hr]
  rfl

theorem Sound.after_padded (h : e.Sound) (k n : Nat) :
    ∃ j ≤ k, (e.padded k).after n = (e.after n).padded j := by
  induction n with
  | zero => exact ⟨k, Nat.le_refl k, rfl⟩
  | succ n ih =>
    obtain ⟨i, hi, hn⟩ := ih
    have hs := h.after n
    rcases hs.advance_cases with ⟨hh, ha⟩ | ⟨hh, ha⟩
    · rcases (hs.padded i).advance_cases with ⟨-, ha'⟩ | ⟨hh', -⟩
      · exact ⟨i, hi, by rw [Execution.after, hn, ha', Execution.after, ha]⟩
      · exact absurd hh hh'
    · rcases (hs.padded i).advance_cases with ⟨hh', -⟩ | ⟨-, ha'⟩
      · exact absurd hh' hh
      · obtain ⟨j, hj, hx⟩ := hs.successor_padded i
        exact ⟨j, Nat.le_trans hj hi, by rw [Execution.after, hn, ha', hx, Execution.after, ha]⟩

/-- How many of `k` blank cells at the end are left after `n` steps that the run without them has
not made. -/
def spare (e : Execution) (k n : Nat) : Nat :=
  ((e.padded k).after n).tape.length - (e.after n).tape.length

theorem Sound.after_spare (h : e.Sound) (k n : Nat) :
    e.spare k n ≤ k ∧ (e.padded k).after n = (e.after n).padded (e.spare k n) := by
  obtain ⟨j, hj, hn⟩ := h.after_padded k n
  have hs : e.spare k n = j := by
    rw [spare, hn, length_padded, Nat.add_sub_cancel_left]
  rw [hs]
  exact ⟨hj, hn⟩

theorem spare_zero (e : Execution) (k : Nat) : e.spare k 0 = k := by
  rw [spare, after_zero, after_zero, length_padded, Nat.add_sub_cancel_left]

theorem Sound.spare_antitone (h : e.Sound) (k : Nat) : Antitone (e.spare k) := by
  apply antitone_nat_of_succ_le
  intro n
  -- One more step is a step of the padded run that is there after `n`.
  have hn := (h.after_spare k n).2
  obtain ⟨hle, -⟩ := (h.after n).after_spare (e.spare k n) 1
  rw [spare, ← hn] at hle
  exact hle

theorem Sound.advance_spare (h : e.Sound) (k n : Nat) :
    ((e.padded k).after n).advance.1 =
      (e.after n).advance.1.map (Step.map (Record.padded e.tape.blank (e.spare k n))) := by
  have hn := (h.after_spare k n).2
  have hx := (h.after_spare k (n + 1)).2
  have hstate : ∀ m, ((e.padded k).after m).state = (e.after m).state := by
    intro m
    rw [(h.after_spare k m).2]
    rfl
  rw [h.advance_after, (h.padded k).advance_after, hstate, hstate, hn, record_padded, h.blank_after]
  simp only [Except.map]
  split
  · rfl
  · split <;> rfl

theorem Sound.records_spare (h : e.Sound) (k n : Nat) :
    (e.padded k).records n =
      (e.records n).mapIdx fun i r => r.padded e.tape.blank (e.spare k i) := by
  apply List.ext_getElem?
  intro i
  have hstate : ((e.after i).padded (e.spare k i)).state = (e.after i).state := rfl
  rw [List.getElem?_mapIdx, h.getElem?_records, (h.padded k).getElem?_records,
    (h.after_spare k i).2, hstate, record_padded, h.blank_after]
  split <;> rfl

/-- What two runs have in common after `n` steps, if the tape of the second one has blank cells more
at its end: `spare i` of them after `i` steps. -/
structure Trailing (e e' : Execution) (spare : Nat → Nat) (n : Nat) : Prop where
  state : (e'.after n).state = (e.after n).state
  cursor : (e'.after n).cursor = (e.after n).cursor
  stepCount : (e'.after n).stepCount = (e.after n).stepCount
  tape : (e'.after n).tape = (e.after n).tape.growRight (spare n)
  step : (e'.after n).advance.1 =
    (e.after n).advance.1.map (Step.map (Record.padded e.tape.blank (spare n)))
  records : (e'.run n).1 = (e.run n).1.map fun records =>
    records.mapIdx fun i r => r.padded e.tape.blank (spare i)

theorem Sound.trailing (h : e.Sound) (k n : Nat) : Trailing e (e.padded k) (e.spare k) n := by
  have hn := (h.after_spare k n).2
  constructor
  · rw [hn]
    rfl
  · rw [hn]
    rfl
  · rw [hn]
    rfl
  · rw [hn]
    rfl
  · exact h.advance_spare k n
  · rw [h.run, (h.padded k).run, h.records_spare]
    rfl

/-- Whatever was set, loaded and cleared, and on any tape: with more blank cells at the end of the
tape the run goes the same way. After `n` steps it still has `spare n` of them that the run without
them has not made; they never become more again. -/
theorem trailing_blanks_never_matter (ops : List Table.Operation) (tape : Tape) (k : Nat) :
    ∃ spare : Nat → Nat, spare 0 = k ∧ Antitone spare ∧ ∀ n,
      Trailing (start (Table.built ops) tape) (start (Table.built ops) (tape.growRight k))
        spare n := by
  have h := start_sound (Table.built_holds ops).sound tape
  exact ⟨(start (Table.built ops) tape).spare k, spare_zero _ k, h.spare_antitone k, h.trailing k⟩

end Execution

end SingleTape

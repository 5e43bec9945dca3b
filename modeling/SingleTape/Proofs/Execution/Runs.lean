import SingleTape.Proofs.Execution.Soundness

/-!
The records of a sound run and the ways to pull them. However many are asked for at once, they come
in the one order, and nothing comes once the run has halted.
-/

namespace SingleTape.Execution

def records : Execution → Nat → List Record
  | _, 0 => []
  | e, n + 1 => if e.state < 0 then [] else e.record :: records e.successor n

variable {e start : Execution} {rs : List Record}

@[simp] theorem records_zero (e : Execution) : e.records 0 = [] := rfl

theorem records_of_halted (hs : e.state < 0) (n : Nat) : e.records n = [] := by
  cases n with
  | zero => rfl
  | succ n => rw [records, if_pos hs]

theorem records_of_not_halted (hs : ¬ e.state < 0) (n : Nat) :
    e.records (n + 1) = e.record :: e.successor.records n := by
  rw [records, if_neg hs]

@[simp] theorem after_zero (e : Execution) : e.after 0 = e := rfl

theorem after_succ' (e : Execution) (n : Nat) : e.after (n + 1) = e.advance.2.after n := by
  induction n with
  | zero => rfl
  | succ n ih => rw [after, ih, after]

theorem Sound.after_of_halted (h : e.Sound) (hs : e.state < 0) (n : Nat) : e.after n = e := by
  induction n with
  | zero => rfl
  | succ n ih =>
    rcases h.advance_cases with ⟨-, ha⟩ | ⟨hn, -⟩
    · rw [Execution.after, ih, ha]
    · exact absurd hs hn

theorem Sound.after_of_not_halted (h : e.Sound) (hs : ¬ e.state < 0) (n : Nat) :
    e.after (n + 1) = e.successor.after n := by
  rcases h.advance_cases with ⟨hh, -⟩ | ⟨-, ha⟩
  · exact absurd hh hs
  · rw [after_succ', ha]

theorem outcome_record? (e : Execution) : e.outcome.record? = some e.record := by
  rw [outcome]
  split <;> rfl

theorem Sound.next_cases (h : e.Sound) :
    (e.state < 0 ∧ e.next = (none, e)) ∨
      (¬ e.state < 0 ∧ e.next = (some (.ok e.record), e.successor)) := by
  rcases h.advance_cases with ⟨hs, ha⟩ | ⟨hs, ha⟩
  · exact Or.inl ⟨hs, by simp [Execution.next, h.healthy, ha, Step.record?]⟩
  · exact Or.inr ⟨hs, by simp [Execution.next, h.healthy, ha, outcome_record?]⟩

theorem Sound.runOnto (h : e.Sound) (taken : List Record) (n : Nat) :
    runOnto taken n e = (.ok (taken.reverse ++ e.records n), e.after n) := by
  induction n generalizing e taken with
  | zero => simp [Execution.runOnto]
  | succ n ih =>
    rcases h.next_cases with ⟨hs, hn⟩ | ⟨hs, hn⟩
    · simp [Execution.runOnto, hn, records_of_halted hs, h.after_of_halted hs]
    · rw [Execution.runOnto, hn]
      simp only [ih h.successor, records_of_not_halted hs, h.after_of_not_halted hs]
      simp

theorem Sound.run (h : e.Sound) (n : Nat) : e.run n = (.ok (e.records n), e.after n) := by
  rw [Execution.run, h.runOnto, List.reverse_nil, List.nil_append]

theorem Sound.records_add (h : e.Sound) (m n : Nat) :
    e.records (m + n) = e.records m ++ (e.after m).records n := by
  induction m generalizing e with
  | zero => simp
  | succ m ih =>
    by_cases hs : e.state < 0
    · simp [records_of_halted hs, h.after_of_halted hs]
    · rw [Nat.add_right_comm, records_of_not_halted hs,
        records_of_not_halted hs, h.after_of_not_halted hs, ih h.successor, List.cons_append]

/-- The records are those of the steps that the run makes before it halts. -/
theorem Sound.getElem?_records (h : e.Sound) (n i : Nat) :
    (e.records n)[i]? =
      if i < n ∧ ¬ (e.after i).state < 0 then some (e.after i).record else none := by
  induction n generalizing e i with
  | zero => simp
  | succ n ih =>
    by_cases hs : e.state < 0
    · simp [records_of_halted hs, h.after_of_halted hs, hs]
    · rw [records_of_not_halted hs]
      cases i with
      | zero => simp [hs]
      | succ i =>
        rw [List.getElem?_cons_succ, ih h.successor, h.after_of_not_halted hs]
        simp only [Nat.add_lt_add_iff_right]

/-- What the step behind the first `n` brings, read off the run before and after it. -/
theorem Sound.advance_after (h : e.Sound) (n : Nat) :
    (e.after n).advance.1 = .ok
      (if (e.after n).state < 0 then .halted
      else if (e.after (n + 1)).state < 0 then .final (e.after n).record
      else .moved (e.after n).record) := by
  rcases (h.after n).advance_cases with ⟨hs, ha⟩ | ⟨hs, ha⟩
  · rw [ha, if_pos hs]
  · rw [Execution.after, ha, if_neg hs, outcome]
    simp only [isHalted, decide_eq_true_eq]

theorem after_add (e : Execution) (m n : Nat) : e.after (m + n) = (e.after m).after n := by
  induction n with
  | zero => rfl
  | succ n ih => rw [← Nat.add_assoc, after, after, ih]

theorem length_records_le (e : Execution) (n : Nat) : (e.records n).length ≤ n := by
  induction n generalizing e with
  | zero => exact Nat.le_refl 0
  | succ n ih =>
    by_cases hs : e.state < 0
    · simp [records_of_halted hs]
    · simpa [records_of_not_halted hs] using ih e.successor

theorem Sound.after_length_records (h : e.Sound) (n : Nat) :
    e.after (e.records n).length = e.after n := by
  induction n generalizing e with
  | zero => rfl
  | succ n ih =>
    by_cases hs : e.state < 0
    · rw [h.after_of_halted hs, h.after_of_halted hs]
    · rw [records_of_not_halted hs, List.length_cons, h.after_of_not_halted hs,
        h.after_of_not_halted hs, ih h.successor]

theorem records_length_records (e : Execution) (n : Nat) :
    e.records (e.records n).length = e.records n := by
  induction n generalizing e with
  | zero => rfl
  | succ n ih =>
    by_cases hs : e.state < 0
    · rw [records_of_halted hs, records_of_halted hs]
    · rw [records_of_not_halted hs, List.length_cons, records_of_not_halted hs, ih]

theorem Sound.halted_of_length_records_lt (h : e.Sound) {n : Nat}
    (hn : (e.records n).length < n) : (e.after n).state < 0 := by
  induction n generalizing e with
  | zero => exact absurd hn (Nat.not_lt_zero _)
  | succ n ih =>
    by_cases hs : e.state < 0
    · rwa [h.after_of_halted hs]
    · rw [h.after_of_not_halted hs]
      apply ih h.successor
      simpa [records_of_not_halted hs] using hn

/-- The run from `start` has brought these records and is now `e`. -/
def Brings (start : Execution) (rs : List Record) (e : Execution) : Prop :=
  start.run rs.length = (.ok rs, e)

theorem Sound.brings_iff (h : start.Sound) :
    start.Brings rs e ↔ start.records rs.length = rs ∧ start.after rs.length = e := by
  rw [Brings, h.run, Prod.mk.injEq, Except.ok.injEq]

theorem Sound.brings_nil (h : start.Sound) : start.Brings [] start :=
  h.brings_iff.mpr ⟨rfl, rfl⟩

theorem Brings.sound (hb : start.Brings rs e) (h : start.Sound) : e.Sound := by
  obtain ⟨-, rfl⟩ := h.brings_iff.mp hb
  exact h.after rs.length

theorem Brings.more (hb : start.Brings rs e) (h : start.Sound) (n : Nat) :
    start.Brings (rs ++ e.records n) (e.after n) := by
  obtain ⟨hr, rfl⟩ := h.brings_iff.mp hb
  have hs := h.after rs.length
  -- The next `n` steps may bring fewer than `n` records, so they are counted by the records.
  apply h.brings_iff.mpr
  constructor
  · rw [List.length_append, h.records_add, hr, records_length_records]
  · rw [List.length_append, after_add, hs.after_length_records]

end SingleTape.Execution

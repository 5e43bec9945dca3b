import SingleTape.Proofs.Execution.Calls

/-!
The ways to pull records from a run: step by step, one by one or many at once, in one piece or in
several. All of them take the same transitions, as many as asked for or as there are until the run
halts, the halting one included.
-/

namespace SingleTape.Execution

/-- The transitions that lead from one execution to another, none of them out of a halted one, with
the steps they make. -/
inductive Transitions : Execution → List Step → Execution → Prop where
  | nil (e : Execution) : Transitions e [] e
  | cons {e next last : Execution} {step : Step} {steps : List Step}
      (running : e.isHalted = false) (first : e.transition = .ok (step, next))
      (rest : Transitions next steps last) : Transitions e (step :: steps) last

def HaltsIn (e : Execution) (r : Nat) : Prop :=
  ∃ steps last, Transitions e steps last ∧ steps.length = r ∧ last.isHalted = true

def steps : Execution → Nat → List Step
  | _, 0 => []
  | e, n + 1 => if e.state < 0 then [] else e.outcome :: e.successor.steps n

variable {e last : Execution} {ss : List Step} {n : Nat}

theorem steps_of_halted (hs : e.state < 0) (n : Nat) : e.steps n = [] := by
  cases n with
  | zero => rfl
  | succ n => rw [steps, if_pos hs]

theorem steps_of_not_halted (hs : ¬ e.state < 0) (n : Nat) :
    e.steps (n + 1) = e.outcome :: e.successor.steps n := by
  rw [steps, if_neg hs]

theorem record?_steps (e : Execution) (n : Nat) :
    (e.steps n).map Step.record? = (e.records n).map some := by
  induction n generalizing e with
  | zero => rfl
  | succ n ih =>
    by_cases hs : e.state < 0
    · rw [steps_of_halted hs, records_of_halted hs]
      rfl
    · rw [steps_of_not_halted hs, records_of_not_halted hs, List.map_cons, List.map_cons, ih,
        outcome_record?]

theorem Sound.transitions (h : e.Sound) (n : Nat) : Transitions e (e.steps n) (e.after n) := by
  induction n generalizing e with
  | zero => exact .nil e
  | succ n ih =>
    by_cases hs : e.state < 0
    · rw [steps_of_halted hs, h.after_of_halted hs]
      exact .nil e
    · rw [steps_of_not_halted hs, h.after_of_not_halted hs]
      exact .cons (by simpa [isHalted] using hs) h.transition (ih h.successor)

theorem Transitions.length_records (ht : Transitions e ss last) (h : e.Sound)
    (hl : last.isHalted = true) (m : Nat) : (e.records m).length = min m ss.length := by
  induction ht generalizing m with
  | nil e =>
    rw [records_of_halted (by simpa [isHalted] using hl), List.length_nil, List.length_nil,
      Nat.min_zero]
  | @cons e next last step ss running first _ ih =>
    have hs : ¬ e.state < 0 := by simpa [isHalted] using running
    cases h.transition.symm.trans first
    cases m with
    | zero => rw [records_zero, List.length_nil, Nat.zero_min]
    | succ m =>
      rw [records_of_not_halted hs, List.length_cons, ih h.successor hl, List.length_cons]
      omega

theorem Transitions.final (ht : Transitions e ss last) (h : e.Sound)
    (he : e.isHalted = false) (hl : last.isHalted = true) :
    ∃ record, ss.getLast? = some (.final record) := by
  induction ht with
  | nil e => exact absurd (he.symm.trans hl) Bool.false_ne_true
  | @cons e next last step ss running first rest ih =>
    cases h.transition.symm.trans first
    cases hn : e.successor.isHalted with
    | false =>
      obtain ⟨record, hr⟩ := ih h.successor hn hl
      exact ⟨record, by rw [List.getLast?_cons, hr]; rfl⟩
    | true =>
      cases rest with
      | nil => exact ⟨e.record, by rw [outcome, if_pos hn]; rfl⟩
      | cons running' _ _ => exact absurd (running'.symm.trans hn) Bool.false_ne_true

/-- As many advances as there are steps make them; all others find the run halted. -/
theorem Sound.history_advances (h : e.Sound) (m : Nat) :
    e.history (List.replicate m .advance) =
      ((e.steps m).map (fun step => .stepped (.ok step)) ++
        List.replicate (m - (e.records m).length) (.stepped (.ok .halted)), e.after m) := by
  induction m generalizing e with
  | zero => rfl
  | succ m ih =>
    rw [List.replicate_succ, history, serve_cons, ← history, Execution.perform]
    rcases h.advance_cases with ⟨hs, ha⟩ | ⟨hs, ha⟩
    · rw [ha, ih h, steps_of_halted hs, steps_of_halted hs, records_of_halted hs,
        records_of_halted hs, h.after_of_halted hs, h.after_of_halted hs]
      rfl
    · rw [ha, ih h.successor, steps_of_not_halted hs, records_of_not_halted hs,
        h.after_of_not_halted hs, List.length_cons, Nat.add_sub_add_right]
      rfl

theorem Sound.history_nexts (h : e.Sound) (m : Nat) :
    e.history (List.replicate m .next) =
      ((e.records m).map (fun record => .pulled (some (.ok record))) ++
        List.replicate (m - (e.records m).length) (.pulled none), e.after m) := by
  induction m generalizing e with
  | zero => rfl
  | succ m ih =>
    rw [List.replicate_succ, history, serve_cons, ← history, Execution.perform]
    rcases h.next_cases with ⟨hs, hn⟩ | ⟨hs, hn⟩
    · rw [hn, ih h, records_of_halted hs, records_of_halted hs, h.after_of_halted hs,
        h.after_of_halted hs]
      rfl
    · rw [hn, ih h.successor, records_of_not_halted hs, h.after_of_not_halted hs,
        List.length_cons, Nat.add_sub_add_right]
      rfl

/-- What it is to pull up to `m` records from `e`: they come from these steps and leave the run at
`last`. -/
structure Pulled (e : Execution) (m : Nat) (records : List Record) (steps : List Step)
    (last : Execution) : Prop where
  run : e.run m = (.ok records, last)
  transitions : Transitions e steps last
  shown : steps.map Step.record? = records.map some
  count : last.stepCount = e.stepCount + records.length
  bound : records.length ≤ m
  halting : ∀ r, e.HaltsIn r → records.length = min m r
  endless : (∀ r, ¬ e.HaltsIn r) → records.length = m
  final : e.isHalted = false → last.isHalted = true →
    ∃ record, steps.getLast? = some (.final record) ∧ records.getLast? = some record
  advances : e.history (List.replicate m .advance) =
    (steps.map (fun step => .stepped (.ok step)) ++
      List.replicate (m - records.length) (.stepped (.ok .halted)), last)
  nexts : e.history (List.replicate m .next) =
    (records.map (fun record => .pulled (some (.ok record))) ++
      List.replicate (m - records.length) (.pulled none), last)

theorem Sound.pulled (h : e.Sound) (m : Nat) :
    Pulled e m (e.records m) (e.steps m) (e.after m) where
  run := h.run m
  transitions := h.transitions m
  shown := record?_steps e m
  count := h.stepCount_after m
  bound := length_records_le e m
  halting := by
    rintro r ⟨ss, last, ht, rfl, hl⟩
    exact ht.length_records h hl m
  endless := by
    intro hr
    by_contra hne
    have hlt : (e.records m).length < m := Nat.lt_of_le_of_ne (length_records_le e m) hne
    have hl : (e.after m).isHalted = true := by
      simpa [isHalted] using h.halted_of_length_records_lt hlt
    exact hr _ ⟨_, _, h.transitions m, rfl, hl⟩
  final := by
    intro he hl
    obtain ⟨record, hf⟩ := (h.transitions m).final h he hl
    refine ⟨record, hf, ?_⟩
    have hr := congrArg List.getLast? (record?_steps e m)
    rw [List.getLast?_map, List.getLast?_map, hf, Option.map_some] at hr
    cases hx : (e.records m).getLast? with
    | none => simp [hx, Step.record?] at hr
    | some r => simpa [hx, Step.record?, eq_comm] using hr
  advances := h.history_advances m
  nexts := h.history_nexts m

/-- The laws of pulling records from a run. -/
structure PullingLaws (e : Execution) : Prop where
  pulled : ∀ m, ∃ records steps last, Pulled e m records steps last
  pieces : ∀ m n, ∃ front back,
    (e.run m).1 = .ok front ∧ ((e.run m).2.run n).1 = .ok back ∧
      e.run (m + n) = (.ok (front ++ back), ((e.run m).2.run n).2)
  halted : e.isHalted = true → ∀ m, e.run m = (.ok [], e) ∧ e.next = (none, e)

/-- Whatever was set, loaded and cleared, on any tape and after any calls: it makes no difference
to a run in which pieces and by which calls its records are pulled. -/
theorem pieces_make_the_whole (ops : List Table.Operation) (tape : Tape)
    (calls : List Operation) :
    PullingLaws ((start (Table.built ops) tape).afterAll calls) := by
  have hstart := start_sound (Table.built_holds ops).sound tape
  have h := (history_brings hstart calls hstart.brings_nil).2.sound hstart
  constructor
  · intro m
    exact ⟨_, _, _, h.pulled m⟩
  · intro m n
    rw [h.run, h.run, (h.after m).run, h.records_add, after_add]
    exact ⟨_, _, rfl, rfl, rfl⟩
  · intro hh m
    have hs : ((start (Table.built ops) tape).afterAll calls).state < 0 := by
      simpa [isHalted] using hh
    constructor
    · rw [h.run, records_of_halted hs, h.after_of_halted hs]
    · rcases h.next_cases with ⟨-, hn⟩ | ⟨hn, -⟩
      · exact hn
      · exact absurd hs hn

end SingleTape.Execution

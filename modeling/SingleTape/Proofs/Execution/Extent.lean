import SingleTape.Proofs.Execution.Refinement

/-!
Which cells a run has made: those that were given and those its head has been on. The positions of
the head, counted from the first cell given, are the moves of the transitions added up. The length
of the tape and the place of the head on it follow from the least and the greatest of them.
-/

namespace SingleTape

namespace Line

variable {run : Nat → Line} {answer : Request → Response} {n : Nat} {q : Int}

theorem leftmost_le_start (run : Nat → Line) (n : Nat) : leftmost run n ≤ (run 0).head :=
  Finset.inf'_le _ (Finset.mem_range.mpr n.succ_pos)

theorem start_le_rightmost (run : Nat → Line) (n : Nat) : (run 0).head ≤ rightmost run n :=
  Finset.le_sup' (fun k => (run k).head) (Finset.mem_range.mpr n.succ_pos)

theorem head_step (answer : Request → Response) (c : Line) :
    c.head - 1 ≤ (step answer c).head ∧ (step answer c).head ≤ c.head + 1 := by
  rw [step]
  split
  · omega
  · simp only [apply]
    cases (answer ⟨c.state, c.cells c.head⟩).move <;> simp only [Move.offset] <;> omega

/-- A head that moves by one cell at most has been everywhere between the ends of its way. -/
theorem exists_head_eq
    (hr : ∀ k, (run k).head - 1 ≤ (run (k + 1)).head ∧ (run (k + 1)).head ≤ (run k).head + 1)
    (hl : leftmost run n ≤ q) (hq : q ≤ rightmost run n) : ∃ k ≤ n, (run k).head = q := by
  induction n with
  | zero =>
    rw [leftmost_zero] at hl
    rw [rightmost_zero] at hq
    exact ⟨0, Nat.le_refl 0, by omega⟩
  | succ n ih =>
    by_cases hin : leftmost run n ≤ q ∧ q ≤ rightmost run n
    · obtain ⟨k, hk, hkq⟩ := ih hin.1 hin.2
      exact ⟨k, Nat.le_succ_of_le hk, hkq⟩
    · -- Only the last move can have made the way longer, and by one cell at most.
      have hmove := hr n
      have hleft : leftmost run n ≤ (run n).head := leftmost_le n
      have hright : (run n).head ≤ rightmost run n := le_rightmost n
      rw [leftmost_succ] at hl
      rw [rightmost_succ] at hq
      exact ⟨n + 1, Nat.le_refl _, by omega⟩

end Line

namespace Execution

open Line (computation leftmost rightmost origin)

def stride (e : Execution) : Int :=
  if e.isHalted then 0
  else match e.table.respond e.request with
    | .ok response => response.move.offset
    | .error _ => 0

/-- The position of the head after `n` steps, counted from the cell it started on. -/
def place (e : Execution) : Nat → Int
  | 0 => 0
  | n + 1 => e.place n + (e.after n).stride

def lowest (p : Nat → Int) (n : Nat) : Int :=
  (Finset.range (n + 1)).inf' Finset.nonempty_range_add_one p

def highest (p : Nat → Int) (n : Nat) : Int :=
  (Finset.range (n + 1)).sup' Finset.nonempty_range_add_one p

/-- What a step does to the cells if it moves the head by `stride`. One cell may be overwritten. A
blank one comes in front if the head leaves the first cell to the left, and behind all others if it
leaves the last one to the right. -/
inductive Growth (e : Execution) (stride : Int) : Execution → Prop where
  | within {next : Execution} {symbol : Symbol}
      (h : next.tape.cells = e.tape.cells.set e.cursor symbol) : Growth e stride next
  | front {next : Execution} {symbol : Symbol} (hc : e.cursor = 0) (hs : stride = -1)
      (h : next.tape.cells = e.tape.blank :: e.tape.cells.set e.cursor symbol) :
      Growth e stride next
  | back {next : Execution} {symbol : Symbol} (hc : e.cursor + 1 = e.tape.length)
      (hs : stride = 1) (h : next.tape.cells = e.tape.cells.set e.cursor symbol ++ [e.tape.blank]) :
      Growth e stride next

variable {e next : Execution} {stride : Int} {table : Table} {log : List Instruction}

theorem Growth.length (h : Growth e stride next) :
    e.tape.length ≤ next.tape.length ∧ next.tape.length ≤ e.tape.length + 1 := by
  cases h with
  | within h => simp [Tape.length, h]
  | front _ _ h => simp [Tape.length, h]
  | back _ _ h => simp [Tape.length, h]

theorem stride_of_halted (hs : e.state < 0) : e.stride = 0 := by
  simp [Execution.stride, isHalted, hs]

theorem Sound.stride_of_not_halted (h : e.Sound) (hs : ¬ e.state < 0) :
    e.stride = e.response.move.offset := by
  have hr : e.table.respond e.request = .ok e.response := h.table.respond e.request
  simp [Execution.stride, isHalted, hs, hr]

theorem Sound.growth_successor (h : e.Sound) : Growth e e.response.move.offset e.successor := by
  have hin : e.cursor < (e.tape.put e.cursor e.response.symbol).length := by
    simpa using h.inside
  have hc := congrArg Tape.cells (tape_successor e)
  cases hm : e.response.move with
  | stay =>
    rw [hm, target, Tape.reach_of_inside hin] at hc
    exact .within hc
  | left =>
    rw [hm, target, Tape.cells_reach_left hin] at hc
    by_cases h0 : e.cursor = 0
    · rw [if_pos h0] at hc
      exact .front h0 rfl hc
    · rw [if_neg h0] at hc
      exact .within hc
  | right =>
    rw [hm, target, Tape.cells_reach_right hin, Tape.length_put] at hc
    by_cases hl : e.cursor + 1 = e.tape.length
    · rw [if_pos hl] at hc
      exact .back hl rfl hc
    · rw [if_neg hl] at hc
      exact .within hc

theorem Sound.growth_advance (h : e.Sound) : Growth e e.stride e.advance.2 := by
  rcases h.advance_cases with ⟨hs, ha⟩ | ⟨hs, ha⟩
  · have hc : e.cursor < e.tape.cells.length := h.inside
    rw [ha]
    exact .within (List.set_getElem_self hc).symm
  · rw [ha, h.stride_of_not_halted hs]
    exact h.growth_successor

/-- The moves of the run add up to the position of the head on the line. -/
theorem place_eq_head (ht : table.Holds log) (tape : Tape) (n : Nat) :
    (start table tape).place n =
      (computation (Table.answer log) tape.cells tape.blank n).head := by
  induction n with
  | zero => rfl
  | succ n ih =>
    have hsound := (start_sound ht.sound tape).after n
    have hf := (after_follows ht tape n).shows
    rw [place, ih, computation, Line.step]
    by_cases hs : ((start table tape).after n).state < 0
    · rw [if_pos (hf.state ▸ hs), stride_of_halted hs, Int.add_zero]
    · rw [if_neg (hf.state ▸ hs), hsound.stride_of_not_halted hs, hf.request,
        answer_request ht tape n, Line.apply]

theorem Follows.exists_head_eq {run : Nat → Line} {given n i : Nat} (h : Follows e run given n)
    (h0 : (run 0).head = 0)
    (hr : ∀ k, (run k).head - 1 ≤ (run (k + 1)).head ∧ (run (k + 1)).head ≤ (run k).head + 1)
    (hi : i < e.tape.length) (hout : ¬ (0 ≤ i - origin run n ∧ i - origin run n < given)) :
    ∃ k ≤ n, (run k).head = i - origin run n := by
  have hlen := h.length
  have hleft := Line.leftmost_le_start run n
  have hright := Line.start_le_rightmost run n
  have ho : origin run n = max 0 (-leftmost run n) := rfl
  apply Line.exists_head_eq hr <;> omega

/-- The extent of the tape of a run that is `e` after `n` steps and `next` after one more, if its
head was at the positions `p` and so many cells were given. -/
structure Extent (e next : Execution) (p : Nat → Int) (given n : Nat) : Prop where
  length : (e.tape.length : Int) = max (given : Int) (highest p n + 1) + max 0 (-lowest p n)
  cursor : (e.cursor : Int) = p n + max 0 (-lowest p n)
  growth : Growth e (p (n + 1) - p n) next
  grows : e.tape.length ≤ next.tape.length ∧ next.tape.length ≤ e.tape.length + 1
  visited : ∀ i : Nat, i < e.tape.length →
    ¬ (0 ≤ i - max 0 (-lowest p n) ∧ i - max 0 (-lowest p n) < given) →
      ∃ k ≤ n, p k = i - max 0 (-lowest p n)

/-- Whatever was set, loaded and cleared, and on any tape: a run has made the cells that were given
and those its head has been on, and no others. -/
theorem tape_spans_walk (ops : List Table.Operation) (tape : Tape) (n : Nat) :
    Extent ((start (Table.built ops) tape).after n) ((start (Table.built ops) tape).after (n + 1))
      (start (Table.built ops) tape).place tape.length n := by
  have ht := Table.built_holds ops
  have hf := after_follows ht tape n
  have hg := ((start_sound ht.sound tape).after n).growth_advance
  have hp : (start (Table.built ops) tape).place = fun k =>
      (computation (Table.answer (Table.inserted ops)) tape.cells tape.blank k).head :=
    funext (place_eq_head ht tape)
  have hstride : (start (Table.built ops) tape).place (n + 1) -
      (start (Table.built ops) tape).place n = ((start (Table.built ops) tape).after n).stride := by
    rw [place]
    omega
  refine ⟨?_, ?_, ?_, hg.length, ?_⟩
  · rw [hp]
    exact hf.length
  · rw [hp]
    exact hf.shows.cursor
  · rw [hstride]
    exact hg
  · intro i hi hout
    rw [hp] at hout ⊢
    exact hf.exists_head_eq rfl (fun k => Line.head_step _ _) hi hout

end Execution

end SingleTape

import SingleTape.Proofs.Execution.Calls

/-!
When a run halts: exactly when a request that it looks up has an entry whose response halts. A
request without entry leaves all as it is, so the run meets the same request for ever.
-/

namespace SingleTape

namespace Table

/-- There is an entry for this request, and its response halts. -/
def HaltsOn (t : Table) (q : Request) : Prop :=
  ∃ i ∈ t.entries, i.request = q ∧ i.response.halts = true

variable {t : Table} {q : Request}

theorem Sound.haltsOn_iff (h : t.Sound) :
    t.HaltsOn q ↔ ∃ r, t.stored? q = some r ∧ r.halts = true := by
  constructor
  · rintro ⟨⟨_, r⟩, hi, rfl, hr⟩
    exact ⟨r, (stored?_eq_some_iff h.nodup).mpr (Array.mem_iff_getElem?.mp hi), hr⟩
  · rintro ⟨r, hs, hr⟩
    exact ⟨⟨q, r⟩, Array.mem_iff_getElem?.mpr ((stored?_eq_some_iff h.nodup).mp hs), rfl, hr⟩

theorem not_haltsOn (h : t.hasHaltingResponse = false) (q : Request) : ¬ t.HaltsOn q := by
  rintro ⟨i, hi, -, hr⟩
  exact Array.any_eq_false'.mp h i hi hr

end Table

namespace Execution

/-- The request that is looked up by the step behind the first `n`, if the run has not halted. -/
def asked? (e : Execution) (n : Nat) : Option Request :=
  match (e.after n).advance.1 with
  | .ok step => step.record?.map (·.request)
  | .error _ => none

variable {e : Execution} {q : Request} {k n : Nat}

theorem start_running (table : Table) (tape : Tape) : ¬ (start table tape).state < 0 := by
  change ¬ initialState < 0
  decide

theorem Sound.asked?_eq_some_iff (h : e.Sound) :
    e.asked? n = some q ↔ ¬ (e.after n).state < 0 ∧ (e.after n).request = q := by
  rw [asked?]
  rcases (h.after n).advance_cases with ⟨hs, ha⟩ | ⟨hs, ha⟩
  · simp [ha, hs, Step.record?]
  · simp [ha, hs, outcome_record?, record]

theorem Sound.halted_successor_iff (h : e.Sound) (hs : ¬ e.state < 0) :
    e.successor.state < 0 ↔ e.table.HaltsOn e.request := by
  have hstate : e.successor.state = e.response.state := rfl
  rw [hstate, response, h.table.haltsOn_iff]
  cases e.table.stored? e.request with
  | none => simpa [Request.unanswered, request] using hs
  | some r => simp [Response.halts]

theorem Sound.halted_after_iff (h : e.Sound) (hs : ¬ e.state < 0) (n : Nat) :
    (e.after n).state < 0 ↔ ∃ k < n, ∃ q, e.asked? k = some q ∧ e.table.HaltsOn q := by
  induction n with
  | zero => simpa using hs
  | succ n ih =>
    rw [Nat.exists_lt_succ_right, ← ih, Execution.after]
    simp only [h.asked?_eq_some_iff]
    rcases (h.after n).advance_cases with ⟨hn, ha⟩ | ⟨hn, ha⟩
    · simp [ha, hn]
    · rw [ha, (h.after n).halted_successor_iff hn, h.table_after]
      simp [hn]

theorem Sound.length_records_of_not_halted (h : e.Sound) (hs : ¬ (e.after n).state < 0) :
    (e.records n).length = n := by
  have hle := length_records_le e n
  have hlt : ¬ (e.records n).length < n := mt h.halted_of_length_records_lt hs
  omega

theorem Sound.not_halted_before (h : e.Sound) (hs : ¬ (e.after n).state < 0) (hk : k ≤ n) :
    ¬ (e.after k).state < 0 := by
  obtain ⟨m, rfl⟩ := Nat.exists_eq_add_of_le hk
  intro hhalt
  rw [after_add, (h.after k).after_of_halted hhalt] at hs
  exact hs hhalt

theorem Sound.after_of_last (h : e.Sound) (hs : ¬ (e.after k).state < 0)
    (hx : (e.after (k + 1)).state < 0) (hn : k < n) :
    e.after n = e.after (k + 1) ∧ (e.after n).stepCount = e.stepCount + (k + 1) := by
  have hm : e.after n = e.after (k + 1) := by
    obtain ⟨m, rfl⟩ := Nat.exists_eq_add_of_le (Nat.succ_le_of_lt hn)
    rw [after_add, (h.after (k + 1)).after_of_halted hx]
  have hcount : (e.records (k + 1)).length = k + 1 := by
    rw [h.records_add, List.length_append, h.length_records_of_not_halted hs,
      records_of_not_halted hs]
    rfl
  refine ⟨hm, ?_⟩
  rw [hm, h.stepCount_after, hcount]

theorem Sound.last_of_haltsOn (h : e.Sound) (hq : e.asked? k = some q) (ht : e.table.HaltsOn q) :
    (e.after (k + 1)).state < 0 ∧ (e.after k).advance.1 = .ok (.final (e.after k).record) := by
  obtain ⟨hs, rfl⟩ := h.asked?_eq_some_iff.mp hq
  have hhalt : (e.after k).successor.state < 0 := by
    rw [(h.after k).halted_successor_iff hs, h.table_after]
    exact ht
  rcases (h.after k).advance_cases with ⟨hn, -⟩ | ⟨-, ha⟩
  · exact absurd hn hs
  · constructor
    · rwa [Execution.after, ha]
    · rw [ha, outcome, if_pos (by simpa [isHalted] using hhalt)]

theorem Sound.successor_of_missing (h : e.Sound) (hq : e.request ∉ e.table.keys) :
    e.successor = { e with stepCount := e.stepCount + 1 } := by
  have hr : e.response = ⟨e.state, e.tape.look e.cursor, .stay⟩ := by
    rw [response, Table.stored?_eq_none_iff.mpr hq]
    rfl
  simp only [Execution.successor, hr, Tape.put_look h.inside, target,
    Tape.reach_of_inside h.inside]

theorem Sound.after_of_missing (h : e.Sound) (hs : ¬ e.state < 0)
    (hq : e.request ∉ e.table.keys) (m : Nat) :
    e.after m = { e with stepCount := e.stepCount + m } := by
  induction m generalizing e with
  | zero => rfl
  | succ m ih =>
    have hx := h.successor_of_missing hq
    rw [h.after_of_not_halted hs, ih h.successor (hx ▸ hs) (hx ▸ hq), hx, Nat.add_assoc,
      Nat.add_comm 1]

/-- However many more steps are taken, each brings this record and the run stays as it is. -/
structure Stuck (e : Execution) (record : Record) : Prop where
  step : ∀ m, (e.after m).advance.1 = .ok (.moved record)
  state : ∀ m, (e.after m).state = e.state
  cursor : ∀ m, (e.after m).cursor = e.cursor
  tape : ∀ m, (e.after m).tape = e.tape
  running : ∀ m, (e.after m).isHalted = false

theorem Sound.stuck_of_missing (h : e.Sound) (hs : ¬ e.state < 0)
    (hq : e.request ∉ e.table.keys) : Stuck e e.record := by
  have hm := h.after_of_missing hs hq
  refine ⟨?_, ?_, ?_, ?_, ?_⟩
  · intro m
    have hr : (e.after m).record = e.record := by
      rw [hm]
      rfl
    have hnext : (e.after (m + 1)).state = e.state := by rw [hm]
    rcases (h.after m).advance_cases with ⟨hn, -⟩ | ⟨-, ha⟩
    · rw [hm] at hn
      exact absurd hn hs
    · have hx : (e.after m).successor = e.after (m + 1) := by rw [Execution.after, ha]
      have hrun : ¬ (e.after m).successor.isHalted = true := by
        simpa [isHalted, hx, hnext] using hs
      rw [ha, outcome, if_neg hrun, hr]
  · intro m
    rw [hm]
  · intro m
    rw [hm]
  · intro m
    rw [hm]
  · intro m
    rw [hm]
    simpa [isHalted] using hs

/-- How the run of a table on a tape may end, and how not. -/
structure HaltingLaws (e : Execution) : Prop where
  halted_iff : ∀ n, (e.after n).isHalted = true ↔
    ∃ k < n, ∃ q, e.asked? k = some q ∧ e.table.HaltsOn q
  last : ∀ k q, e.asked? k = some q → e.table.HaltsOn q →
    (∃ record, (e.after k).advance.1 = .ok (.final record)) ∧
      ∀ n, k < n → (e.after n).stepCount = k + 1 ∧ (e.after n).advance.1 = .ok .halted
  missing : ∀ k q, e.asked? k = some q → q ∉ e.table.keys →
    ∃ record, record.request = q ∧ Stuck (e.after k) record
  endless : e.table.hasHaltingResponse = false → ∀ n, ∃ records,
    e.run n = (.ok records, e.after n) ∧ records.length = n ∧ (e.after n).isHalted = false

/-- Whatever was set, loaded and cleared, and on any tape: a run halts by an entry that it looks up
and by nothing else, and a request without entry keeps it running for ever. -/
theorem runs_halt_by_entries (ops : List Table.Operation) (tape : Tape) :
    HaltingLaws (start (Table.built ops) tape) := by
  have h := start_sound (Table.built_holds ops).sound tape
  have hs : ¬ (start (Table.built ops) tape).state < 0 := start_running _ tape
  constructor
  · intro n
    rw [← h.halted_after_iff hs n]
    simp [isHalted]
  · intro k q hq ht
    obtain ⟨hhalt, hfinal⟩ := h.last_of_haltsOn hq ht
    obtain ⟨hrun, -⟩ := h.asked?_eq_some_iff.mp hq
    refine ⟨⟨_, hfinal⟩, ?_⟩
    intro n hn
    obtain ⟨hx, hcount⟩ := h.after_of_last hrun hhalt hn
    refine ⟨hcount.trans (Nat.zero_add _), ?_⟩
    rcases (h.after n).advance_cases with ⟨-, ha⟩ | ⟨hn, -⟩
    · rw [ha]
    · rw [hx] at hn
      exact absurd hhalt hn
  · intro k q hq hmissing
    obtain ⟨hrun, rfl⟩ := h.asked?_eq_some_iff.mp hq
    refine ⟨((start (Table.built ops) tape).after k).record, rfl, ?_⟩
    apply (h.after k).stuck_of_missing hrun
    rwa [h.table_after]
  · intro ht n
    have hrun : ¬ ((start (Table.built ops) tape).after n).state < 0 := by
      rw [h.halted_after_iff hs]
      rintro ⟨k, -, q, -, hq⟩
      exact Table.not_haltsOn ht q hq
    refine ⟨_, h.run n, h.length_records_of_not_halted hrun, ?_⟩
    simpa [isHalted] using hrun

end Execution

end SingleTape

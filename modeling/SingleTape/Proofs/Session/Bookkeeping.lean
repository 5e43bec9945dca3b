import SingleTape.Proofs.Session.Coherence

/-!
The parts of a session that are kept beside its run: the table of its machine, the last record and
whether the run is finished. After any operations they agree with the run and with what was pulled.
-/

namespace SingleTape

/-- The run is where the response to the request of a record leads from what the record shows. -/
def Execution.Succeeds (e : Execution) (r : Record) : Prop :=
  ∃ response shown written, e.table.respond r.request = .ok response ∧
    Tape.ofCells r.tape e.tape.blank = .ok shown ∧
    shown.write r.index response.symbol = .ok written ∧
    written.reach (Execution.target r.index response.move) = (e.cursor, e.tape) ∧
    e.state = response.state

theorem Tape.ofCells_cells (t : Tape) : Tape.ofCells t.cells t.blank = .ok t :=
  dif_neg t.cells_ne_nil

theorem Execution.Sound.succeeds {e : Execution} (h : e.Sound) : e.successor.Succeeds e.record := by
  refine ⟨e.response, e.tape, e.tape.put e.cursor e.response.symbol, ?_, ?_, ?_, rfl, rfl⟩
  · exact h.table.respond e.request
  · rw [Execution.blank_successor]
    exact e.tape.ofCells_cells
  · exact Tape.write_inside h.inside e.response.symbol

namespace Session

def Answer.extend (rs : List Record) : Answer → List Record
  | compiled (.ok _) => []
  | answer => rs ++ answer.records

variable {s t : Session} {e : Execution} {record : Record} {rs records : List Record}
  {blank : Symbol}

/-- A session keeps the run `e`, of which it has pulled these records. -/
structure Keeping (s : Session) (rs : List Record) (e : Execution) : Prop where
  table : e.table = s.machine.table
  count : e.stepCount = rs.length
  last : s.last = rs.getLast?
  succeeds : ∀ r, s.last = some r → e.Succeeds r

/-- The books of a session that has pulled these records since its last accepted compile. -/
structure Booked (s : Session) (rs : List Record) : Prop where
  coherent : s.Coherent
  idle : s.execution = none → s.machine.table = .empty ∧ s.last = none
  running : ∀ e, s.execution = some e → s.Keeping rs e

theorem booked_of_idle (he : s.execution = none) (ht : s.machine.table = .empty)
    (hl : s.last = none) (hf : s.finished = false) (rs : List Record) : s.Booked rs := by
  constructor
  · exact coherent_of_idle he hf
  · intro _
    exact ⟨ht, hl⟩
  · intro e hx
    cases he.symm.trans hx

theorem Booked.next (h : s.Booked rs) (hn : s.next = (.ok (some record), t)) :
    t.Booked (rs ++ [record]) := by
  have ht := h.coherent.of_next hn
  obtain ⟨e, he, hs, rfl, rfl⟩ := h.coherent.next_record hn
  have hk := h.running e he
  refine ⟨ht, ?_, ?_⟩
  · intro hnone
    cases hnone
  · intro x hx
    cases hx
    refine ⟨hk.table, ?_, List.getLast?_concat.symm, ?_⟩
    · rw [List.length_append, ← hk.count]
      rfl
    · intro r hr
      cases hr
      exact hs.succeeds

theorem Brings.booked (hb : s.Brings records t) (h : s.Booked rs) : t.Booked (rs ++ records) := by
  induction hb generalizing rs with
  | nil =>
    rw [List.append_nil]
    exact h
  | @cons s t u record records hn _ ih =>
    rw [List.append_cons]
    exact ih (h.next hn)

theorem compile_booked {instructions tape : String} {repeated : List Request}
    (h : s.compile instructions tape = .ok (repeated, t)) : t.Booked [] := by
  have ht := compile_coherent h
  obtain ⟨⟨is, hi⟩, cells, hc⟩ := exists_of_compile_ok h
  cases (compile_ok hi hc s).symm.trans h
  refine ⟨ht, ?_, ?_⟩
  · intro hnone
    cases hnone
  · intro e he
    cases he
    refine ⟨rfl, rfl, rfl, ?_⟩
    intro r hr
    cases hr

/-- What an operation does and answers: it starts another program, drops the one there is, or pulls
some records, which may be none, and may set the mode. -/
theorem Coherent.perform_cases (h : s.Coherent) (op : Operation) :
    (∃ instructions tape repeated t, s.compile instructions tape = .ok (repeated, t) ∧
      s.perform op = (.compiled (.ok repeated), t)) ∨
    s.perform op = (.silent, s.decompile) ∨
    ∃ answer t auto, s.perform op = (answer, t.setAuto auto) ∧ s.Brings answer.records t ∧
      ∀ rs, answer.extend rs = rs ++ answer.records := by
  cases op with
  | compile instructions tape =>
    cases hc : s.compile instructions tape with
    | error e => exact .inr (.inr ⟨_, s, s.auto, perform_refused hc, .nil s, fun _ => rfl⟩)
    | ok result =>
      obtain ⟨repeated, t⟩ := result
      refine .inl ⟨instructions, tape, repeated, t, hc, ?_⟩
      rw [Session.perform, hc]
  | decompile => exact .inr (.inl rfl)
  | next =>
    obtain ⟨pulled, t, hn, hb⟩ := h.pull
    refine .inr (.inr ⟨.pulled (.ok pulled), t, t.auto, ?_, hb, fun _ => rfl⟩)
    rw [Session.perform, hn]
    rfl
  | skip limit =>
    obtain ⟨records, t, hs, hb⟩ := h.skip_brings limit
    refine .inr (.inr ⟨.skipped (.ok records), t, t.auto, ?_, hb, fun _ => rfl⟩)
    rw [Session.perform, hs]
    rfl
  | handle event =>
    by_cases hq : event ≠ .render ∨ s.auto = false
    · refine .inr (.inr ⟨.pulled (.ok none), s, s.auto, ?_, .nil s, fun _ => rfl⟩)
      rw [Session.perform, handle_quiet hq]
      rfl
    · obtain ⟨rfl, ha⟩ : event = .render ∧ s.auto = true := by simpa using hq
      obtain ⟨pulled, t, hn, hb⟩ := h.pull
      refine .inr (.inr ⟨.pulled (.ok pulled), t, t.auto, ?_, hb, fun _ => rfl⟩)
      rw [Session.perform, handle_render ha, hn]
      rfl
  | setAuto auto => exact .inr (.inr ⟨.silent, s, auto, rfl, .nil s, fun _ => rfl⟩)

theorem Booked.setAuto (h : s.Booked rs) (auto : Bool) : (s.setAuto auto).Booked rs := by
  refine ⟨h.coherent.perform (.setAuto auto), h.idle, ?_⟩
  intro e he
  have hk := h.running e he
  exact ⟨hk.table, hk.count, hk.last, hk.succeeds⟩

theorem Booked.perform (h : s.Booked rs) (op : Operation) :
    (s.perform op).2.Booked ((s.perform op).1.extend rs) := by
  rcases h.coherent.perform_cases op with
    ⟨_, _, _, _, hc, hp⟩ | hp | ⟨_, _, auto, hp, hb, hx⟩
  · rw [hp]
    exact compile_booked hc
  · rw [hp]
    exact booked_of_idle rfl rfl rfl rfl _
  · rw [hp]
    exact hx rs ▸ (hb.booked h).setAuto auto

theorem Booked.afterAll (h : s.Booked rs) (ops : List Operation) :
    (s.afterAll ops).Booked ((s.history ops).1.foldl Answer.extend rs) := by
  induction ops generalizing s rs with
  | nil => exact h
  | cons op ops ih => exact ih (h.perform op)

inductive Begun : Symbol → Session → Prop where
  | new (blank : Symbol) : Begun blank (new blank)
  | ofSettings (settings : Settings) : Begun settings.blank (ofSettings settings)
  | default : Begun Machine.defaultBlank default

theorem Begun.booked (h : Begun blank s) : s.Booked [] := by
  cases h <;> exact booked_of_idle rfl rfl rfl rfl []

theorem Begun.blank_eq (h : Begun blank s) : s.machine.blank = blank := by
  cases h <;> rfl

end Session

end SingleTape

import SingleTape.Proofs.Session.Pulls

/-!
What the parts of a session have to do with each other, whatever was done to it, and what becomes of
it when records are pulled one after the other.
-/

namespace SingleTape.Session

variable {s t u : Session} {record : Record} {records more : List Record}

/-- A session keeps a run that meets no error, and is finished when that run has halted. -/
structure Coherent (s : Session) : Prop where
  sound : ∀ e, s.execution = some e → e.Sound
  finished : s.finished = true ↔ s.HasHalted

/-- There is no run, or its last record was pulled. -/
def Exhausted (s : Session) : Prop := s.isCompiled = false ∨ s.finished = true

theorem coherent_of_idle (he : s.execution = none) (hf : s.finished = false) : s.Coherent where
  sound e h := by cases he.symm.trans h
  finished := by simp [HasHalted, he, hf]

theorem coherent_of_compiled {e : Execution} (he : s.execution = some e) (hs : e.Sound)
    (hf : s.finished = e.isHalted) : s.Coherent where
  sound x hx := by
    cases he.symm.trans hx
    exact hs
  finished := by rw [hasHalted_iff he, hf, Execution.isHalted, decide_eq_true_iff]

theorem Coherent.next_cases (h : s.Coherent) :
    (s.Exhausted ∧ s.next = (.ok none, s)) ∨
      (¬ s.Exhausted ∧ ∃ record t, s.next = (.ok (some record), t) ∧ t.Coherent) := by
  cases he : s.execution with
  | none => exact Or.inl ⟨Or.inl (by simp [isCompiled, he]), by simp [next, he]⟩
  | some e =>
    have hs := h.sound e he
    have hf : s.finished = true ↔ e.state < 0 := h.finished.trans (hasHalted_iff he)
    rcases Session.next_cases he hs with ⟨hh, hn⟩ | ⟨hh, hn⟩
    · have hsame : { s with execution := some e, finished := true } = s := by
        have hfin := hf.mpr hh
        cases s
        simp_all
      rw [hsame] at hn
      exact Or.inl ⟨Or.inr (hf.mpr hh), hn⟩
    · have hfin : s.finished = false := by
        rw [← Bool.not_eq_true, hf]
        exact hh
      refine Or.inr ⟨by simp [Exhausted, isCompiled, he, hfin], _, _, hn, ?_⟩
      exact coherent_of_compiled rfl hs.successor (by simp [hfin])

theorem Coherent.next (h : s.Coherent) : s.next.2.Coherent := by
  rcases h.next_cases with ⟨-, hn⟩ | ⟨-, _, _, hn, ht⟩
  · rwa [hn]
  · rwa [hn]

theorem Coherent.of_next (h : s.Coherent) {pulled : Except Error (Option Record)}
    (hn : s.next = (pulled, t)) : t.Coherent := by
  have ht := h.next
  rwa [hn] at ht

/-- A record that is pulled is the one of the run's next step, and the session goes on behind it. -/
theorem Coherent.next_record (h : s.Coherent) (hn : s.next = (.ok (some record), t)) :
    ∃ e, s.execution = some e ∧ e.Sound ∧ record = e.record ∧ t =
      { s with
        execution := some e.successor
        last := some e.record
        finished := e.successor.isHalted || s.finished } := by
  cases he : s.execution with
  | none => simp [Session.next, he] at hn
  | some e =>
    have hs := h.sound e he
    rcases Session.next_cases he hs with ⟨-, hx⟩ | ⟨-, hx⟩
    · cases hn.symm.trans hx
    · cases hn.symm.trans hx
      exact ⟨e, rfl, hs, rfl, rfl⟩

theorem Coherent.skipOnto (h : s.Coherent) (taken : List Record) (limit : Nat) :
    (skipOnto taken limit s).2.Coherent := by
  induction limit generalizing s taken with
  | zero => exact h
  | succ limit ih =>
    rw [Session.skipOnto]
    rcases h.next_cases with ⟨-, hn⟩ | ⟨-, record, _, hn, ht⟩
    · rwa [hn]
    · rw [hn]
      exact ih ht (record :: taken)

theorem compile_coherent {instructions tape : String} {repeated : List Request}
    (h : s.compile instructions tape = .ok (repeated, t)) : t.Coherent := by
  obtain ⟨⟨is, hi⟩, cells, hc⟩ := exists_of_compile_ok h
  cases (compile_ok hi hc s).symm.trans h
  exact coherent_of_compiled rfl (Execution.start_sound (Table.Sound.empty.setAll is) _) rfl

theorem Coherent.perform (h : s.Coherent) (op : Operation) : (s.perform op).2.Coherent := by
  cases op with
  | compile instructions tape =>
    cases hc : s.compile instructions tape with
    | error e => rwa [perform_refused hc]
    | ok result =>
      simp only [Session.perform, hc]
      exact compile_coherent hc
  | decompile => exact coherent_of_idle rfl rfl
  | next => exact h.next
  | skip limit => exact h.skipOnto [] limit
  | handle event =>
    rw [Session.perform, handle]
    split
    · exact h.next
    · exact h
  | setAuto auto => exact ⟨h.sound, h.finished⟩

theorem Coherent.afterAll (h : s.Coherent) (ops : List Operation) : (s.afterAll ops).Coherent := by
  induction ops generalizing s with
  | nil => exact h
  | cons op ops ih => exact ih (h.perform op)

theorem coherent_afterAll (blank : Symbol) (ops : List Operation) :
    ((new blank).afterAll ops).Coherent :=
  Coherent.afterAll (coherent_of_idle rfl rfl) ops

inductive Brings : Session → List Record → Session → Prop where
  | nil (s : Session) : Brings s [] s
  | cons {s t u : Session} {record : Record} {records : List Record}
      (h : s.next = (.ok (some record), t)) (rest : Brings t records u) :
      Brings s (record :: records) u

theorem Brings.append (h : s.Brings records t) (h' : t.Brings more u) :
    s.Brings (records ++ more) u := by
  induction h with
  | nil => exact h'
  | cons hn _ ih => exact .cons hn (ih h')

theorem Brings.coherent (h : s.Brings records t) (hs : s.Coherent) : t.Coherent := by
  induction h with
  | nil => exact hs
  | cons hn _ ih => exact ih (hs.of_next hn)

theorem Brings.auto (h : s.Brings records t) : t.auto = s.auto := by
  induction h with
  | nil => rfl
  | @cons s t _ _ _ hn _ ih =>
    have ha := s.next_keeps.2
    rw [hn] at ha
    exact ih.trans ha

theorem Coherent.pull (h : s.Coherent) :
    ∃ pulled t, s.next = (.ok pulled, t) ∧ s.Brings pulled.toList t := by
  rcases h.next_cases with ⟨-, hn⟩ | ⟨-, record, t, hn, -⟩
  · exact ⟨none, s, hn, .nil s⟩
  · exact ⟨some record, t, hn, .cons hn (.nil t)⟩

theorem Coherent.skipOnto_brings (h : s.Coherent) (taken : List Record) (limit : Nat) :
    ∃ records t, Session.skipOnto taken limit s = (.ok (taken.reverse ++ records), t) ∧
      s.Brings records t := by
  induction limit generalizing s taken with
  | zero => exact ⟨[], s, by simp [Session.skipOnto], .nil s⟩
  | succ limit ih =>
    rcases h.next_cases with ⟨-, hn⟩ | ⟨-, record, u, hn, hu⟩
    · exact ⟨[], s, by simp [Session.skipOnto, hn], .nil s⟩
    · obtain ⟨records, t, hs, hb⟩ := ih hu (record :: taken)
      exact ⟨record :: records, t, by simp [Session.skipOnto, hn, hs], .cons hn hb⟩

theorem Coherent.skip_brings (h : s.Coherent) (limit : Nat) :
    ∃ records t, s.skip limit = (.ok records, t) ∧ s.Brings records t :=
  h.skipOnto_brings [] limit

theorem skipOnto_eq (taken : List Record) (limit : Nat) (s : Session) :
    skipOnto taken limit s = ((s.skip limit).1.map (taken.reverse ++ ·), (s.skip limit).2) := by
  induction limit generalizing s taken with
  | zero => simp [skip, skipOnto, Except.map]
  | succ limit ih =>
    rw [skip, skipOnto, skipOnto]
    split
    · rfl
    · simp [Except.map]
    · next record t _ =>
      rw [ih, ih [record]]
      cases (t.skip limit).1 <;> simp [Except.map]

/-- A bulk of records is what was pulled one by one and the bulk behind it. -/
theorem Brings.skip (h : s.Brings records t) (limit : Nat) :
    s.skip (records.length + limit) =
      ((t.skip limit).1.map (records ++ ·), (t.skip limit).2) := by
  induction h with
  | nil s =>
    rw [List.length_nil, Nat.zero_add]
    exact skipOnto_eq [] limit s
  | @cons s t u record records hn _ ih =>
    rw [List.length_cons, Nat.add_right_comm, Session.skip, skipOnto, hn]
    simp only [skipOnto_eq [record], ih]
    cases (u.skip limit).1 <;> simp [Except.map]

theorem Coherent.skip_exhausted (h : s.Coherent) (hx : s.Exhausted) (limit : Nat) :
    s.skip limit = (.ok [], s) := by
  cases limit with
  | zero => rfl
  | succ limit =>
    rcases h.next_cases with ⟨-, hn⟩ | ⟨hg, -⟩
    · simp [skip, Session.skipOnto, hn]
    · exact absurd hx hg

end SingleTape.Session

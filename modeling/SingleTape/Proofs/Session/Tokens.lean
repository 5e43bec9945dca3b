import SingleTape.Proofs.Execution.Tokens
import SingleTape.Proofs.Session.Bookkeeping

/-!
The tapes that a session shows, live and in records. If its blank symbol is a token, each of them is
the seed of itself.
-/

namespace SingleTape

/-- The displayed cells are a seed that stands for them. -/
structure Record.Reseeds (r : Record) : Prop where
  tokens : Tokens r.tape
  seed : readSeed (" ".intercalate r.tape) = .ok r.tape

/-- With this blank symbol, the displayed tape is a seed that stands for it. -/
structure Tape.Reseeds (t : Tape) (blank : Symbol) : Prop where
  tokens : Tokens t.cells
  seed : ofSeed t.text blank = .ok t

theorem Tape.reseeds {t : Tape} (h : Tokens t.cells) : t.Reseeds t.blank := by
  refine ⟨h, ?_⟩
  rw [text, ofSeed_ok (readSeed_join t.cells_ne_nil h)]

theorem Execution.Tokened.record_reseeds {e : Execution} (h : e.Tokened) : e.record.Reseeds :=
  ⟨h.cells, readSeed_join e.tape.cells_ne_nil h.cells⟩

namespace Session

variable {s t : Session} {record : Record} {records : List Record} {blank : Symbol}

/-- What an operation does to a session: it starts another program, drops the one there is, or pulls
some records and may set the mode. -/
inductive Effect (s : Session) : Answer → Session → Prop where
  | compiled {t : Session} {instructions tape : String} {repeated : List Request}
      (h : s.compile instructions tape = .ok (repeated, t)) : Effect s (.compiled (.ok repeated)) t
  | decompiled : Effect s .silent s.decompile
  | pulled {t : Session} {answer : Answer} (auto : Bool) (h : s.Brings answer.records t) :
      Effect s answer (t.setAuto auto)

theorem Coherent.perform_effect (h : s.Coherent) (op : Operation) :
    Effect s (s.perform op).1 (s.perform op).2 := by
  rcases h.perform_cases op with ⟨_, _, _, _, hc, hp⟩ | hp | ⟨_, _, auto, hp, hb, -⟩
  · rw [hp]
    exact .compiled hc
  · rw [hp]
    exact .decompiled
  · rw [hp]
    exact .pulled auto hb

/-- A session that has no symbol but tokens: for growth, in its run and in its last record. -/
structure Tokened (blank : Symbol) (s : Session) : Prop where
  coherent : s.Coherent
  token : Settings.isToken blank = true
  machine : s.machine.blank = blank
  run : ∀ e, s.execution = some e → e.Tokened ∧ e.tape.blank = blank
  last : ∀ r, s.last = some r → r.Reseeds

theorem Tokened.next (h : s.Tokened blank) (hn : s.next = (.ok (some record), t)) :
    record.Reseeds ∧ t.Tokened blank := by
  have ht := h.coherent.of_next hn
  obtain ⟨e, he, -, rfl, rfl⟩ := h.coherent.next_record hn
  obtain ⟨hk, hb⟩ := h.run e he
  refine ⟨hk.record_reseeds, ht, h.token, h.machine, ?_, ?_⟩
  · intro x hx
    cases hx
    exact ⟨hk.successor, (Execution.blank_successor e).trans hb⟩
  · intro r hr
    cases hr
    exact hk.record_reseeds

theorem Tokened.brings (h : s.Tokened blank) (hb : s.Brings records t) :
    (∀ r ∈ records, r.Reseeds) ∧ t.Tokened blank := by
  induction hb with
  | nil => exact ⟨by simp, h⟩
  | cons hn _ ih =>
    obtain ⟨hr, ht⟩ := h.next hn
    obtain ⟨hrs, hu⟩ := ih ht
    exact ⟨List.forall_mem_cons.mpr ⟨hr, hrs⟩, hu⟩

theorem Tokened.skip (h : s.Tokened blank) {limit : Nat}
    (hs : s.skip limit = (.ok records, t)) : t.Tokened blank := by
  obtain ⟨_, _, hpulled, hb⟩ := h.coherent.skip_brings limit
  cases hpulled.symm.trans hs
  exact (h.brings hb).2

theorem Tokened.compiled (h : s.Tokened blank) {instructions seed : String}
    {repeated : List Request} (hc : s.compile instructions seed = .ok (repeated, t)) :
    t.Tokened blank := by
  have ht := compile_coherent hc
  obtain ⟨⟨is, hi⟩, cells, hcells⟩ := exists_of_compile_ok hc
  cases (compile_ok hi hcells s).symm.trans hc
  have hw : (Table.empty.setAll is).2.Worded :=
    Table.Sound.empty.worded_setAll Table.worded_empty (Grammar.worded_of_read hi)
  refine ⟨ht, h.token, h.machine, ?_, ?_⟩
  · intro e he
    cases he
    exact ⟨Execution.start_tokened hw (h.machine ▸ h.token) (tokens_of_readSeed hcells),
      h.machine⟩
  · intro r hr
    cases hr

theorem Tokened.effect {answer : Answer} (h : s.Tokened blank) (hd : s.Effect answer t) :
    (∀ r ∈ answer.records, r.Reseeds) ∧ t.Tokened blank := by
  cases hd with
  | compiled hc => exact ⟨by simp [Answer.records], h.compiled hc⟩
  | decompiled =>
    refine ⟨by simp [Answer.records], coherent_of_idle rfl rfl, h.token, h.machine, ?_, ?_⟩
    · intro e he
      cases he
    · intro r hr
      cases hr
  | pulled auto hb =>
    obtain ⟨hr, ht⟩ := h.brings hb
    exact ⟨hr, ht.coherent.perform (.setAuto auto), ht.token, ht.machine, ht.run, ht.last⟩

/-- Whatever is done, all records that are given and the session in the end have tokens only. -/
theorem Tokened.history (h : s.Tokened blank) (ops : List Operation) :
    (∀ r ∈ s.pulled ops, r.Reseeds) ∧ (s.afterAll ops).Tokened blank := by
  induction ops generalizing s with
  | nil => exact ⟨by simp, h⟩
  | cons op ops ih =>
    obtain ⟨hr, ht⟩ := h.effect (h.coherent.perform_effect op)
    obtain ⟨hrs, hu⟩ := ih ht
    refine ⟨?_, hu⟩
    rw [pulled_cons]
    exact List.forall_mem_append.mpr ⟨hr, hrs⟩

theorem Begun.tokened (h : Begun blank s) (hb : Settings.isToken blank = true) :
    s.Tokened blank := by
  refine ⟨h.booked.coherent, hb, h.blank_eq, ?_, ?_⟩
  · intro e he
    cases h <;> cases he
  · intro r hr
    cases h <;> cases hr

end Session

end SingleTape

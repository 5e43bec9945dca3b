import SingleTape.Proofs.CommandLine.Transcripts
import SingleTape.Proofs.Session.Tokens

/-!
The last line of a run from the command line is its tape. Given as the tape of another run, it
stands for the same cells.
-/

namespace SingleTape.CommandLine

variable {o : Options} {inputs : Inputs} {settings : Settings} {job : Job} {e : Execution}
  {clock : List Duration} {seed : String} {cells : List Symbol}

theorem step_tape (h : o.tape = none) (value : String) :
    Progress.step (.ready o) ("--tape=" ++ value) =
      .ok (.ready { o with tape := some value }) := by
  have hchars : ("--tape=" ++ value).toList =
      '-' :: '-' :: 't' :: 'a' :: 'p' :: 'e' :: '=' :: value.toList := String.toList_append
  have hname : ('t' :: 'a' :: 'p' :: 'e' :: '=' :: value.toList).takeWhile (· ≠ '=') =
      ['t', 'a', 'p', 'e'] := rfl
  have hvalue : ('t' :: 'a' :: 'p' :: 'e' :: '=' :: value.toList).dropWhile (· ≠ '=') =
      '=' :: value.toList := rfl
  have hflag : Flag.named.find? (·.1.long == String.ofList ['t', 'a', 'p', 'e']) = none := by decide
  have hkey : Key.named.find? (·.1.long == String.ofList ['t', 'a', 'p', 'e']) =
      some (⟨"tape", 't'⟩, .tape) := by decide
  simp only [Progress.step, hchars, readLong, hname, hvalue, hflag, hkey, Options.put, h, once,
    String.ofList_toList, bind, Except.bind]

/-- Settings that were resolved are resolved again with any other tape that is a seed. -/
theorem resolve_tape (h : o.resolve inputs = .ok settings) (hseed : readSeed seed = .ok cells) :
    Options.resolve { o with tape := some seed } inputs = .ok { settings with tape := seed } := by
  have hv := Settings.validate_ok_iff.mp (validate_of_resolve h)
  have hvalid : Settings.validate { settings with tape := seed } = .ok () :=
    Settings.validate_ok_iff.mpr ⟨hv.rate, hv.blank, cells, hseed⟩
  simp only [Options.resolve] at h
  obtain ⟨base, hbase, h⟩ := exists_of_bind_eq_ok h
  obtain ⟨named, hnamed, h⟩ := exists_of_bind_eq_ok h
  obtain ⟨instructions, hinstructions, h⟩ := exists_of_bind_eq_ok h
  obtain ⟨_, -, h⟩ := exists_of_bind_eq_ok h
  cases h
  have hbase' : (Options.base { o with tape := some seed } inputs).mapError Failure.error =
      .ok base := hbase
  have hnamed' : (Options.withBuiltin { o with tape := some seed } base).mapError Failure.error =
      .ok named := hnamed
  have hinstructions' : Options.instructions { o with tape := some seed } inputs =
      .ok instructions := hinstructions
  have hover : Options.override { o with tape := some seed } instructions named =
      { o.override instructions named with tape := seed } := rfl
  simp only [Options.resolve, hbase', hnamed', hinstructions', hover, hvalid, bind, Except.bind]
  rfl

theorem getLast?_summary (ho : o.json = false) (he : job.session.execution = some e) :
    (o.summary job).getLast? = some e.tape.text := by
  simp [Options.summary, ho, he, Tape.text]

theorem printed_complete_iff {records : List Record} :
    (o.printed records job).ending = .complete ↔ job.goesOn o.stepLimit = false := by
  cases hg : job.goesOn o.stepLimit <;> simp [Options.printed, hg]

theorem getLast?_printed (ho : o.json = false) (he : job.session.execution = some e)
    (hg : job.goesOn o.stepLimit = false) (records : List Record) :
    (o.printed records job).lines.getLast? = some e.tape.text := by
  have hsummary := getLast?_summary ho he
  have hne : o.summary job ≠ [] := by
    intro hnil
    rw [hnil] at hsummary
    cases hsummary
  rw [Options.printed, Options.closing, hg]
  simp only [Bool.false_eq_true, if_false, Option.getD_some]
  rw [List.getLast?_append_of_ne_nil _ hne, hsummary]

/-- The end of a run with these settings that is complete: its last line is the tape of its session,
and that line is a tape for the same settings. -/
structure EndsInSeed (o : Options) (inputs : Inputs) (settings : Settings)
    (clock : List Duration) (s : Session) (e : Execution) : Prop where
  compiled : ∃ repeated start all,
    (Session.ofSettings settings).compile settings.instructions settings.tape =
      .ok (repeated, start) ∧ start.skip o.stepLimit = (.ok all, s)
  run : s.execution = some e
  line : (o.output settings clock).lines.getLast? = some e.tape.text
  reseeds : e.tape.Reseeds settings.blank
  argument : ∀ p : Options, p.tape = none →
    Progress.step (.ready p) ("--tape=" ++ e.tape.text) =
      .ok (.ready { p with tape := some e.tape.text })
  resolved : Options.resolve { o with tape := some e.tape.text } inputs =
    .ok { settings with tape := e.tape.text }

theorem exists_endsInSeed (hr : o.resolve inputs = .ok settings) (ho : o.json = false)
    (hend : (o.output settings clock).ending = .complete) :
    ∃ s e, EndsInSeed o inputs settings clock s e := by
  have hv := Settings.validate_ok_iff.mp (validate_of_resolve hr)
  cases hi : readInstructions settings.instructions with
  | error fault =>
    rw [output_refused hv hi] at hend
    cases hend
  | ok is =>
    obtain ⟨repeated, start, all, t, hc, hall, hclock, -⟩ := (outputLaws hv).accepted is hi
    obtain ⟨records, last, hout, -, -, hover⟩ := hclock clock
    -- A complete run is over, so it has come to the session that the whole run leaves.
    rw [hout, printed_complete_iff] at hend
    obtain ⟨-, hs⟩ := hover hend
    obtain ⟨first, -, hsound, hfirst, -, -⟩ := Session.compile_starts hc
    have hlast := (Session.execution_skip hfirst hsound o.stepLimit).2
    rw [hall] at hlast
    have hbegun : (Session.ofSettings settings).Tokened settings.blank :=
      (Session.Begun.ofSettings settings).tokened hv.blank
    obtain ⟨hk, hb⟩ := ((hbegun.compiled hc).skip hall).run _ hlast
    have hre : (first.after o.stepLimit).tape.Reseeds settings.blank :=
      hb ▸ Tape.reseeds hk.cells
    refine ⟨t, first.after o.stepLimit, ⟨repeated, start, all, hc, hall⟩, hlast, ?_, hre, ?_, ?_⟩
    · rw [hout]
      exact getLast?_printed ho (hs ▸ hlast) hend records
    · intro p hp
      exact step_tape hp _
    · exact resolve_tape hr (readSeed_join (Tape.cells_ne_nil _) hk.cells)

/-- Whatever was done to a session with a valid blank symbol, every tape it shows is a seed that
stands for the same cells; and so is the line in which a run from the command line ends. -/
theorem shown_tapes_are_seeds :
    (∀ (s : Session) (blank : Symbol), Session.Begun blank s → Settings.isToken blank = true →
      ∀ ops, (∀ r ∈ s.pulled ops, r.Reseeds) ∧
        (∀ r, (s.afterAll ops).last = some r → r.Reseeds) ∧
        ∀ e, (s.afterAll ops).execution = some e → e.tape.Reseeds blank) ∧
    ∀ (o : Options) (inputs : Inputs) (settings : Settings) (clock : List Duration),
      o.resolve inputs = .ok settings → o.json = false →
        (o.output settings clock).ending = .complete →
          ∃ s e, EndsInSeed o inputs settings clock s e := by
  constructor
  · intro s blank hs hb ops
    obtain ⟨hr, ht⟩ := (hs.tokened hb).history ops
    refine ⟨hr, ht.last, ?_⟩
    intro e he
    obtain ⟨hk, rfl⟩ := ht.run e he
    exact Tape.reseeds hk.cells
  · intro o inputs settings clock hr ho hend
    exact exists_endsInSeed hr ho hend

/-- A session that grows its tape on the left of a seed with other characters than those of words,
and a run with the default settings that is stopped by its limit. -/
theorem grown_tape_is_seed :
    (∃ e, ((Session.new "_").afterAll
        [.compile "0(1) => 1(x) L\n1(_) => -1(y) L" "1\té=>", .skip 5]).execution = some e ∧
      e.tape.Reseeds "_") ∧
    ∃ s e, EndsInSeed { limit := some 2 } ⟨fun _ => .error .notFound, none⟩ .default [⟨7⟩, ⟨5⟩]
      s e := by
  constructor
  · have hi : readInstructions "0(1) => 1(x) L\n1(_) => -1(y) L" =
        .ok [⟨⟨0, "1"⟩, ⟨1, "x", .left⟩⟩, ⟨⟨1, "_"⟩, ⟨-1, "y", .left⟩⟩] := rfl
    have hseed : readSeed "1\té=>" = .ok ["1", "é=>"] := rfl
    have hc := Session.compile_ok hi hseed (Session.new "_")
    obtain ⟨start, -, hsound, hstart, -, -⟩ := Session.compile_starts hc
    have he : ((Session.new "_").afterAll
        [.compile "0(1) => 1(x) L\n1(_) => -1(y) L" "1\té=>", .skip 5]).execution =
          some (start.after 5) := by
      simp only [Session.afterAll_cons, Session.afterAll_nil, Session.perform, hc]
      exact (Session.execution_skip hstart hsound 5).2
    exact ⟨_, he, (shown_tapes_are_seeds.1 _ "_" (.new "_") (by decide) _).2.2 _ he⟩
  · have hv : Settings.default.Valid :=
      ⟨by decide, by decide, List.replicate 8 "1", rfl⟩
    have hr : Options.resolve { limit := some 2 } ⟨fun _ => .error .notFound, none⟩ =
        .ok .default := by
      change (Settings.default.validate.mapError Failure.error >>= fun _ => .ok Settings.default) =
        Except.ok Settings.default
      rw [Settings.validate_ok_iff.mpr hv]
      rfl
    have hi : readInstructions Settings.default.instructions =
        .ok [⟨⟨0, "1"⟩, ⟨0, "1", .right⟩⟩, ⟨⟨0, "0"⟩, ⟨-1, "1", .stay⟩⟩] := rfl
    obtain ⟨_, _, _, _, -, -, -, hend⟩ :=
      (outputLaws (o := { limit := some 2 }) hv).accepted _ hi
    have hcomplete := congrArg Transcript.ending (hend rfl [⟨7⟩, ⟨5⟩] (by decide))
    exact shown_tapes_are_seeds.2 _ _ _ _ hr rfl hcomplete

end SingleTape.CommandLine

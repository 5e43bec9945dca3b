import SingleTape.Proofs.CommandLine.Pacing
import SingleTape.Proofs.Instruction.Blocks
import SingleTape.Proofs.Settings.Validity

/-!
What a run from the command line prints. With settings that were resolved it reports an error of the
instructions and nothing else, or it prints the records of the program and then the summary.
-/

namespace SingleTape.CommandLine

variable {o : Options} {inputs : Inputs} {settings : Settings} {job last : Job} {s : Session}
  {records : List Record} {clock : List Duration}

def Options.printed (o : Options) (records : List Record) (last : Job) : Transcript where
  lines := records.map o.recordLine ++ (o.closing last).getD []
  ending := if last.goesOn o.stepLimit then .running else .complete

theorem transcript_of_over (h : job.goesOn o.stepLimit = false) (clock : List Duration) :
    o.transcript clock job = o.printed [] job := by
  cases clock <;> simp [Options.transcript, Options.closing, Options.printed, h]

/-- The lines of a job are those of its records and of its end. -/
theorem transcript_of_run (h : job.run o.stepLimit clock = .ok (records, last)) :
    o.transcript clock job = o.printed records last := by
  induction clock generalizing job records with
  | nil =>
    cases h
    cases hg : last.goesOn o.stepLimit with
    | false => exact transcript_of_over hg []
    | true => simp [Options.transcript, Options.closing, Options.printed, hg]
  | cons now later ih =>
    cases hg : job.goesOn o.stepLimit with
    | false =>
      rw [Job.run, hg] at h
      cases h
      exact transcript_of_over hg (now :: later)
    | true =>
      rw [Job.run, hg, if_pos rfl] at h
      cases ht : job.turn now with
      | error fault => simp [ht, bind, Except.bind] at h
      | ok result =>
        obtain ⟨fresh, next⟩ := result
        cases hr : next.run o.stepLimit later with
        | error fault => simp [ht, hr, bind, Except.bind] at h
        | ok result =>
          obtain ⟨more, last'⟩ := result
          simp only [ht, hr, bind, Except.bind, Except.ok.injEq, Prod.mk.injEq] at h
          obtain ⟨rfl, rfl⟩ := h
          simp [Options.transcript, Options.closing, hg, Options.takeTurn, ht, bind, Except.bind,
            ih hr, Options.printed]

theorem validate_of_resolve (h : o.resolve inputs = .ok settings) :
    settings.validate = .ok () := by
  simp only [Options.resolve] at h
  obtain ⟨base, -, h⟩ := exists_of_bind_eq_ok h
  obtain ⟨named, -, h⟩ := exists_of_bind_eq_ok h
  obtain ⟨instructions, -, h⟩ := exists_of_bind_eq_ok h
  obtain ⟨_, hv, h⟩ := exists_of_bind_eq_ok h
  cases h
  exact mapError_ok_iff.mp hv

theorem start_of_compile (hv : settings.Valid) {repeated : List Request}
    (h : (Session.ofSettings settings).compile settings.instructions settings.tape =
      .ok (repeated, s)) :
    o.start settings = .ok (if o.isPaced settings then
      .paced (.start s ⟨settings.rateLimit, hv.rate⟩) else .stepped s 0) := by
  rw [Options.start, h]
  cases hp : o.isPaced settings <;>
    simp [bind, Except.bind, RateLimit.ofFloat_ok hv.rate]

theorem output_of_start (h : o.start settings = .ok job) (clock : List Duration) :
    o.output settings clock = o.transcript clock job := by
  rw [Options.output, h]

/-- What a run with these settings prints, whatever the clock shows: one error of the instructions,
or the first records of the program, then all of them and the summary when it is over. Without pace
it is over after as many turns as the limit says. -/
structure OutputLaws (o : Options) (settings : Settings) : Prop where
  refused : ∀ e, readInstructions settings.instructions = .error e →
    ∀ clock, o.output settings clock = ⟨[], .failed e⟩
  accepted : ∀ is, readInstructions settings.instructions = .ok is →
    ∃ repeated s all t,
      (Session.ofSettings settings).compile settings.instructions settings.tape =
        .ok (repeated, s) ∧
      s.skip o.stepLimit = (.ok all, t) ∧
      (∀ clock, ∃ records last, o.output settings clock = o.printed records last ∧
        last.steps = records.length ∧ records <+: all ∧
        (last.goesOn o.stepLimit = false → records = all ∧ last.session = t)) ∧
      (o.isPaced settings = false → ∀ clock, o.stepLimit ≤ clock.length →
        o.output settings clock =
          ⟨all.map o.recordLine ++ o.summary (.stepped t all.length), .complete⟩)

theorem output_refused (hv : settings.Valid) {e : Error}
    (h : readInstructions settings.instructions = .error e) (clock : List Duration) :
    o.output settings clock = ⟨[], .failed e⟩ := by
  have hc := (hv.compile_error_iff (Session.ofSettings settings) e).mpr h
  have hs : o.start settings = .error e := by
    rw [Options.start, hc]
    rfl
  rw [Options.output, hs]

theorem reached_start (rate : RateLimit) (ha : o.isPaced settings = true → s.auto = true) :
    Job.Reached s o.stepLimit (o.isPaced settings) 0 []
      (if o.isPaced settings then .paced (.start s rate) else .stepped s 0) := by
  cases hp : o.isPaced settings with
  | false => exact .stepped (.nil s) (Nat.zero_le _)
  | true => exact .paced (.nil s) (Nat.zero_le _) rfl (Paced.ready_start (ha hp) rate)

theorem output_accepted (hv : settings.Valid) {repeated : List Request} {all : List Record}
    {t : Session}
    (h : (Session.ofSettings settings).compile settings.instructions settings.tape =
      .ok (repeated, s))
    (hall : s.skip o.stepLimit = (.ok all, t)) (clock : List Duration) :
    ∃ records last, o.output settings clock = o.printed records last ∧
      last.steps = records.length ∧ records <+: all ∧
      (last.goesOn o.stepLimit = false → records = all ∧ last.session = t) := by
  have hs : s.Coherent := Session.compile_coherent h
  obtain ⟨-, -, -, -, -, hauto⟩ := Session.compile_starts h
  have ha : o.isPaced settings = true → s.auto = true := by
    intro hp
    rw [Options.isPaced, Bool.and_eq_true] at hp
    exact hauto.trans hp.2
  obtain ⟨_, records, last, hrun, hr, -⟩ :=
    (reached_start ⟨settings.rateLimit, hv.rate⟩ ha).run hs clock
  refine ⟨records, last, ?_, hr.steps, hr.isPrefix hall, fun hg => ?_⟩
  · rw [output_of_start (start_of_compile hv h), transcript_of_run hrun]
  · have heq := (hr.skip hs hg).symm.trans hall
    simpa using heq

theorem output_unpaced (hv : settings.Valid) {repeated : List Request} {all : List Record}
    {t : Session}
    (h : (Session.ofSettings settings).compile settings.instructions settings.tape =
      .ok (repeated, s))
    (hall : s.skip o.stepLimit = (.ok all, t)) (hp : o.isPaced settings = false)
    {clock : List Duration} (hc : o.stepLimit ≤ clock.length) :
    o.output settings clock =
      ⟨all.map o.recordLine ++ o.summary (.stepped t all.length), .complete⟩ := by
  obtain ⟨all', t', hrun, hg, hskip⟩ := Job.run_stepped (Session.compile_coherent h) hc
  cases hskip.symm.trans hall
  have hstart := start_of_compile (o := o) hv h
  rw [hp] at hstart
  rw [output_of_start hstart]
  refine (transcript_of_run hrun).trans ?_
  simp [Options.printed, Options.closing, hg]

theorem outputLaws (hv : settings.Valid) : OutputLaws o settings where
  refused e h clock := output_refused hv h clock
  accepted is hi := by
    obtain ⟨repeated, s, hc⟩ := hv.exists_compile hi (Session.ofSettings settings)
    obtain ⟨all, t, hall, -⟩ := (Session.compile_coherent hc).skip_brings o.stepLimit
    exact ⟨repeated, s, all, t, hc, hall, output_accepted hv hc hall,
      fun hp clock => output_unpaced hv hc hall hp⟩

end SingleTape.CommandLine

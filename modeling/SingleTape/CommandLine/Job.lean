import SingleTape.CommandLine.Resolution
import SingleTape.Json.Trace
import SingleTape.Session.Paced

/-!
Runs from the command line. A job is taken in turns, each of which prints the records it brings; at
the end a summary is printed.
-/

namespace SingleTape.CommandLine

inductive Job where
  | stepped (session : Session) (steps : Nat)
  | paced (paced : Paced)

def defaultLimit : Nat := 10000

def Options.stepLimit (o : Options) : Nat := o.limit.getD defaultLimit

/-- Compiles the settings. The first error is one of the instructions, of the tape or of the rate.
-/
def Options.start (o : Options) (settings : Settings) : Except Error Job := do
  let (_, session) ← (Session.ofSettings settings).compile settings.instructions settings.tape
  if o.isPaced settings then
    .ok (.paced (.start session (← RateLimit.ofFloat settings.rateLimit)))
  else .ok (.stepped session 0)

namespace Job

def session : Job → Session
  | stepped session _ => session
  | paced p => p.session

def steps : Job → Nat
  | stepped _ steps => steps
  | paced p => p.steps

def goesOn (limit : Nat) : Job → Bool
  | stepped session steps =>
    session.isCompiled && !session.finished && decide (steps < limit)
  | paced p => p.goesOn limit

def turn (now : Duration) : Job → Except Error (List Record × Job)
  | stepped session steps =>
    match session.next with
    | (.error fault, _) => .error fault
    | (.ok pulled, session) =>
      .ok (pulled.toList, stepped session (steps + pulled.toList.length))
  | paced p => do
    let (records, p) ← p.turn now
    .ok (records, paced p)

/-- Takes a turn at each reading of a clock, as long as the job goes on. -/
def run (limit : Nat) : List Duration → Job → Except Error (List Record × Job)
  | [], job => .ok ([], job)
  | now :: later, job =>
    if job.goesOn limit then do
      let (records, job) ← job.turn now
      let (more, job) ← run limit later job
      .ok (records ++ more, job)
    else .ok ([], job)

end Job

def Options.recordLine (o : Options) (r : Record) : String :=
  if o.json then String.ofList r.json else r.line

def Options.summary (o : Options) (job : Job) : List String :=
  let halted := job.session.execution.any (·.isHalted)
  let tape := match job.session.execution with
    | some execution => execution.tape.cells
    | none => []
  let count := Decimal.naturalText job.steps
  if o.json then
    [String.ofList <| Json.writeObject [("halted", Json.writeBool halted),
      ("steps", Json.writeInteger job.steps), ("tape", Json.writeList (tape.map Json.writeText))]]
  else
    ["",
      if halted then "Machine halted after " ++ count ++ " steps."
      else "Stopped after " ++ count ++ " steps without halting.",
      " ".intercalate tape]

def Options.closing (o : Options) (job : Job) : Option (List String) :=
  if job.goesOn o.stepLimit then none else some (o.summary job)

def Options.takeTurn (o : Options) (job : Job) (now : Duration) :
    Except Error (List String × Job) := do
  let (records, job) ← job.turn now
  .ok (records.map o.recordLine, job)

inductive Ending where
  | complete
  | failed (fault : Error)
  | running
  deriving DecidableEq, Repr

structure Transcript where
  lines : List String
  ending : Ending
  deriving DecidableEq, Repr

/-- What a job prints when the clock shows these readings, one for each turn. -/
def Options.transcript (o : Options) : List Duration → Job → Transcript
  | [], job =>
    match o.closing job with
    | some lines => ⟨lines, .complete⟩
    | none => ⟨[], .running⟩
  | now :: later, job =>
    match o.closing job with
    | some lines => ⟨lines, .complete⟩
    | none =>
      match o.takeTurn job now with
      | .error fault => ⟨[], .failed fault⟩
      | .ok (lines, job) =>
        let rest := o.transcript later job
        ⟨lines ++ rest.lines, rest.ending⟩

def Options.output (o : Options) (settings : Settings) (clock : List Duration) : Transcript :=
  match o.start settings with
  | .error fault => ⟨[], .failed fault⟩
  | .ok job => o.transcript clock job

end SingleTape.CommandLine

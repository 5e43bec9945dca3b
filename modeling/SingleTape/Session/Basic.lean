import SingleTape.Settings.Basic

/-!
A session: a machine, its current run, and whether records are pulled automatically. It is idle or
compiled; compiling loads a program and starts its run, and fails without any effect.
-/

namespace SingleTape

structure Session where
  machine : Machine
  execution : Option Execution
  last : Option Record
  finished : Bool
  auto : Bool

namespace Session

def new (blank : Symbol) : Session where
  machine := .withBlank blank
  execution := none
  last := none
  finished := false
  auto := false

def default : Session := new Machine.defaultBlank

def ofSettings (settings : Settings) : Session := { new settings.blank with auto := settings.auto }

def isCompiled (s : Session) : Bool := s.execution.isSome

/-- Loads a program and starts its run on the tape of a seed. The requests with more than one
instruction are given back. -/
def compile (s : Session) (instructions tape : String) :
    Except Error (List Request × Session) := do
  let (repeated, machine) ← (Machine.withBlank s.machine.blank).load instructions
  let execution ← machine.launchSeed tape
  .ok (repeated, { s with machine, execution := some execution, last := none, finished := false })

def decompile (s : Session) : Session :=
  { s with
    machine := { s.machine with table := .empty }
    execution := none
    last := none
    finished := false }

/-- Pulls the next record, if there is one. A run that meets an error is dropped. -/
def next (s : Session) : Except Error (Option Record) × Session :=
  match s.execution with
  | none => (.ok none, s)
  | some execution =>
    match execution.advance with
    | (.error fault, _) => (.error fault, { s with execution := none, finished := true })
    | (.ok (.moved record), execution) =>
      (.ok (some record), { s with execution := some execution, last := some record })
    | (.ok (.final record), execution) =>
      (.ok (some record),
        { s with execution := some execution, last := some record, finished := true })
    | (.ok .halted, execution) =>
      (.ok none, { s with execution := some execution, finished := true })

/-- Reacts to an event of the scheduler: in auto mode a render pulls a record. -/
def handle (s : Session) (event : Event) : Except Error (Option Record) × Session :=
  if event = .render ∧ s.auto then s.next else (.ok none, s)

def skipOnto (taken : List Record) : Nat → Session → Except Error (List Record) × Session
  | 0, s => (.ok taken.reverse, s)
  | limit + 1, s =>
    match s.next with
    | (.error fault, s) => (.error fault, s)
    | (.ok none, s) => (.ok taken.reverse, s)
    | (.ok (some record), s) => skipOnto (record :: taken) limit s

def skip (s : Session) (limit : Nat) : Except Error (List Record) × Session := skipOnto [] limit s

def status (s : Session) : Option String :=
  s.last.map fun record =>
    "state: " ++ stateText record.request.state ++ ", value: " ++ record.request.symbol

def setAuto (s : Session) (auto : Bool) : Session := { s with auto }

end Session

end SingleTape

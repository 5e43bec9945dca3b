import SingleTape.Catalogue
import SingleTape.CommandLine.Options
import SingleTape.Files.Loading

/-!
The settings of a run from the command line. A settings file or the defaults come first, then a
built-in program or a program file, then single options; instructions are read from standard input
if none of the first three is named.
-/

namespace SingleTape.CommandLine

structure Inputs where
  files : Files.Source
  piped : Option (Except Files.Fault ByteArray)

inductive Failure where
  | error (error : Error)
  | unreadableInput (fault : Files.Fault)
  deriving DecidableEq, Repr

def Failure.message : Failure → String
  | error e => e.message
  | unreadableInput fault => "Failed to read from stdin: " ++ fault.message

/-- Whether the instructions are to come from standard input. -/
def Options.readsInput (o : Options) : Bool :=
  o.program.isNone && o.builtin.isNone && o.settings.isNone

def Options.paths (o : Options) : List String := o.settings.toList ++ o.program.toList

def Options.base (o : Options) (inputs : Inputs) : Except Error Settings :=
  match o.settings with
  | some path => Files.loadSettings inputs.files path
  | none => .ok .default

def Options.withBuiltin (o : Options) (settings : Settings) : Except Error Settings :=
  match o.builtin with
  | some name => do .ok ((← Program.named name).settings settings)
  | none => .ok settings

def Inputs.text (inputs : Inputs) : Except Failure (Option String) :=
  match inputs.piped with
  | none => .ok none
  | some (.error fault) => .error (.unreadableInput fault)
  | some (.ok bytes) =>
    match String.fromUTF8? bytes with
    | some text => .ok (some text)
    | none => .error (.unreadableInput .notText)

def Options.instructions (o : Options) (inputs : Inputs) : Except Failure (Option String) :=
  match o.program with
  | some path => ((Files.readProgram inputs.files path).map some).mapError .error
  | none => if o.readsInput then inputs.text else .ok none

/-- The settings with instructions and single options put in. A given rate turns automatic pulling
on. -/
def Options.override (o : Options) (instructions : Option String) (settings : Settings) :
    Settings where
  instructions := instructions.getD settings.instructions
  tape := o.tape.getD settings.tape
  blank := o.blank.getD settings.blank
  rateLimit := o.rate.getD settings.rateLimit
  auto := o.rate.isSome || settings.auto

def Options.resolve (o : Options) (inputs : Inputs) : Except Failure Settings := do
  let settings ← (o.base inputs).mapError .error
  let settings ← (o.withBuiltin settings).mapError .error
  let instructions ← o.instructions inputs
  let settings := o.override instructions settings
  settings.validate.mapError .error
  .ok settings

/-- Runs are paced if a rate or a settings file is given, as long as records are pulled
automatically. -/
def Options.isPaced (o : Options) (settings : Settings) : Bool :=
  (o.rate.isSome || o.settings.isSome) && settings.auto

end SingleTape.CommandLine

import SingleTape.CommandLine.Help
import SingleTape.CommandLine.Job

/-!
The command line: reading what the options name, printing, and a clock.
-/

namespace SingleTape.CommandLine

def faultOf : IO.Error → Files.Fault
  | .noFileOrDirectory .. => .notFound
  | .inappropriateType _ 20 _ => .notDirectory
  | .inappropriateType _ 21 _ => .isDirectory
  | .invalidArgument _ 36 _ => .nameTooLong
  | e => .other (toString e)

def readFile (path : String) : IO (Except Files.Fault ByteArray) := do
  try
    return .ok (← IO.FS.readBinFile path)
  catch e =>
    return .error (faultOf e)

partial def readRest (stream : IO.FS.Stream) (taken : ByteArray) : IO ByteArray := do
  let piece ← stream.read 65536
  if piece.isEmpty then return taken
  readRest stream (taken ++ piece)

def readPiped (o : Options) : IO (Option (Except Files.Fault ByteArray)) := do
  let stream ← IO.getStdin
  if !o.readsInput || (← stream.isTty) then return none
  try
    return some (.ok (← readRest stream .empty))
  catch e =>
    return some (.error (faultOf e))

def readInputs (o : Options) : IO Inputs := do
  let files ← o.paths.mapM fun path => do return (path, ← readFile path)
  return {
    files := fun path => (files.lookup path).getD (.error .notFound)
    piped := ← readPiped o }

def cadence : UInt32 := 5

def fail (message : String) : IO UInt32 := do
  IO.eprintln ("Error: " ++ message)
  return 1

partial def takeTurns (o : Options) (start : Nat) (job : Job) : IO UInt32 := do
  match o.closing job with
  | some lines =>
    lines.forM IO.println
    return 0
  | none =>
    let now : Duration := ⟨(← IO.monoNanosNow) - start⟩
    match o.takeTurn job now with
    | .error fault => fail fault.message
    | .ok (lines, job) =>
      lines.forM IO.println
      if let .paced _ := job then IO.sleep cadence
      takeTurns o start job

def execute (o : Options) : IO UInt32 := do
  match o.resolve (← readInputs o) with
  | .error failure => fail failure.message
  | .ok settings =>
    match o.start settings with
    | .error fault => fail fault.message
    | .ok job => takeTurns o (← IO.monoNanosNow) job

/-- Answers the arguments. The exit code is one after a failure, and two if the arguments are not
understood. -/
def answer (arguments : List String) : IO UInt32 := do
  match Options.read arguments with
  | .error .misuse =>
    IO.eprintln usageLine
    return 2
  | .error .help =>
    helpLines.forM IO.println
    return 0
  | .error .version =>
    IO.println versionLine
    return 0
  | .ok o =>
    if o.list then
      catalogueLines.forM IO.println
      return 0
    else execute o

end SingleTape.CommandLine

def main (arguments : List String) : IO UInt32 := SingleTape.CommandLine.answer arguments

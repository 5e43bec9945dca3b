import SingleTape.Catalogue
import SingleTape.CommandLine.Job

/-!
What the command line tells about itself: its version, its options and the built-in programs.
-/

namespace SingleTape.CommandLine

def versionLine : String := "turtrace-cli 0.0.1"

def usageLine : String := "Usage: turtrace [OPTIONS]"

def Key.description : Key → String
  | program => "Instruction file to execute. Instructions are read from stdin when piped"
  | builtin => "Run a built-in program by name (see --list)"
  | settings => "JSON settings file providing instructions, tape, blank and rate limit"
  | tape => "Whitespace-separated tape seed"
  | blank => "Symbol used to extend the tape"
  | rate => "Pace the run through the scheduler at this many steps per second"
  | limit => "Stop after this many steps if the machine has not halted [default: " ++
      toString defaultLimit ++ "]"

def Flag.description : Flag → String
  | json => "Print records as JSON lines"
  | list => "List the built-in programs and exit"
  | verbose => "Increase log verbosity (-v info, -vv debug, -vvv trace)"
  | help => "Print help"
  | version => "Print version"

def Name.form (name : Name) : String := "-" ++ name.short.toString ++ ", --" ++ name.long

def Name.placeholder (name : Name) : String :=
  name.long.map fun c => if c = '-' then '_' else c.toUpper

/-- Each option with its description. Only the verbosity may be given more than once. -/
def optionRows : List (String × String) :=
  Key.named.map (fun (name, key) =>
      (name.form ++ " <" ++ name.placeholder ++ ">", key.description)) ++
    Flag.named.map fun (name, flag) =>
      (if flag = .verbose then name.form ++ "..." else name.form, flag.description)

def padded (width : Nat) (text : String) : String := text ++ "".pushn ' ' (width - text.length)

def helpLines : List String :=
  ["Command-line interface for the turtrace Turing machine simulator", "", usageLine, "",
    "Options:"] ++
  optionRows.map (fun (form, description) => "  " ++ padded 27 form ++ "  " ++ description) ++
  ["", "EXAMPLES:",
    "  turtrace --program programs/unary-fill.tm --tape \"1 1 0\"",
    "  turtrace --example binary-increment --fps 4",
    "  echo \"0(1) => -1(0) S\" | turtrace --tape 1"]

def catalogueLines : List String :=
  Program.catalogue.map fun program => padded 18 program.name ++ " " ++ program.description

end SingleTape.CommandLine

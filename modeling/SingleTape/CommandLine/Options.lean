import SingleTape.Decimal.Reading

/-!
The options of the command line. Arguments are read from left to right, and the first one that ends
the reading decides: a request for help or for the version, or anything that is not understood.
-/

namespace SingleTape.CommandLine

structure Options where
  program : Option String := none
  builtin : Option String := none
  settings : Option String := none
  tape : Option String := none
  blank : Option String := none
  rate : Option Float := none
  limit : Option Nat := none
  json : Bool := false
  list : Bool := false
  verbosity : Nat := 0
  deriving DecidableEq, Repr

inductive Flag where
  | json
  | list
  | verbose
  | help
  | version
  deriving DecidableEq, Repr

inductive Key where
  | program
  | builtin
  | settings
  | tape
  | blank
  | rate
  | limit
  deriving DecidableEq, Repr

structure Name where
  long : String
  short : Char
  deriving DecidableEq, Repr

def Flag.named : List (Name × Flag) :=
  [(⟨"json", 'j'⟩, .json), (⟨"list", 'l'⟩, .list), (⟨"verbose", 'v'⟩, .verbose),
    (⟨"help", 'h'⟩, .help), (⟨"version", 'V'⟩, .version)]

def Key.named : List (Name × Key) :=
  [(⟨"program", 'p'⟩, .program), (⟨"example", 'e'⟩, .builtin), (⟨"settings", 's'⟩, .settings),
    (⟨"tape", 't'⟩, .tape), (⟨"blank", 'b'⟩, .blank), (⟨"fps", 'f'⟩, .rate),
    (⟨"max-steps", 'm'⟩, .limit)]

inductive Stop where
  | help
  | version
  | misuse
  deriving DecidableEq, Repr

def once {α : Type} (held value : Option α) : Except Stop (Option α) :=
  match held, value with
  | none, some a => .ok (some a)
  | _, _ => .error .misuse

def path? (value : String) : Option String := if value = "" then none else some value

def Options.put (o : Options) (key : Key) (value : String) : Except Stop Options :=
  match key with
  | .program => do .ok { o with program := ← once o.program (path? value) }
  | .builtin => do .ok { o with builtin := ← once o.builtin (some value) }
  | .settings => do .ok { o with settings := ← once o.settings (path? value) }
  | .tape => do .ok { o with tape := ← once o.tape (some value) }
  | .blank => do .ok { o with blank := ← once o.blank (some value) }
  | .rate => do .ok { o with rate := ← once o.rate (Decimal.readDouble value.toList) }
  | .limit => do .ok { o with limit := ← once o.limit (Decimal.readCount value.toList) }

def Options.raise (o : Options) : Flag → Except Stop Options
  | .json => if o.json then .error .misuse else .ok { o with json := true }
  | .list => if o.list then .error .misuse else .ok { o with list := true }
  | .verbose => .ok { o with verbosity := o.verbosity + 1 }
  | .help => .error .help
  | .version => .error .version

inductive Progress where
  | ready (options : Options)
  | awaiting (options : Options) (key : Key)
  | closed (options : Options)
  deriving DecidableEq, Repr

/-- Letters behind one hyphen: any number of flags, and then perhaps an option with a value. The
value is what follows its letter, without an equals sign between them, or else the next argument. -/
def readLetters (o : Options) : List Char → Except Stop Progress
  | [] => .ok (.ready o)
  | c :: rest =>
    match Flag.named.find? (·.1.short == c), Key.named.find? (·.1.short == c), rest with
    | some (_, flag), _, _ => do readLetters (← o.raise flag) rest
    | none, some (_, key), [] => .ok (.awaiting o key)
    | none, some (_, key), '=' :: value => do .ok (.ready (← o.put key (String.ofList value)))
    | none, some (_, key), value => do .ok (.ready (← o.put key (String.ofList value)))
    | none, none, _ => .error .misuse

def readLong (o : Options) (cs : List Char) : Except Stop Progress :=
  let long := String.ofList (cs.takeWhile (· ≠ '='))
  match Flag.named.find? (·.1.long == long), Key.named.find? (·.1.long == long),
    cs.dropWhile (· ≠ '=') with
  | some (_, flag), _, [] => do .ok (.ready (← o.raise flag))
  | none, some (_, key), [] => .ok (.awaiting o key)
  | none, some (_, key), _ :: value => do .ok (.ready (← o.put key (String.ofList value)))
  | _, _, _ => .error .misuse

/-- One argument. A single hyphen may be a value, any other argument with a hyphen in front is none.
-/
def Progress.step : Progress → String → Except Stop Progress
  | .closed _, _ => .error .misuse
  | .awaiting o key, argument =>
    match argument.toList with
    | '-' :: _ :: _ => .error .misuse
    | _ => do .ok (.ready (← o.put key argument))
  | .ready o, argument =>
    match argument.toList with
    | ['-', '-'] => .ok (.closed o)
    | '-' :: '-' :: cs => readLong o cs
    | '-' :: c :: cs => readLetters o (c :: cs)
    | _ => .error .misuse

/-- The options behind the last argument. Instructions come from one place only: a file or the
built-in programs. -/
def Progress.finish : Progress → Except Stop Options
  | .awaiting _ _ => .error .misuse
  | .ready o | .closed o =>
    if o.program.isSome && o.builtin.isSome then .error .misuse else .ok o

def Options.read (arguments : List String) : Except Stop Options := do
  let progress ← arguments.foldlM Progress.step (.ready {})
  progress.finish

end SingleTape.CommandLine

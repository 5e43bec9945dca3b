import SingleTape.Machine
import SingleTape.Scheduler

/-!
The settings of a simulation and what is demanded of them before they can drive a run.
-/

namespace SingleTape

structure Settings where
  instructions : String
  tape : String
  blank : Symbol
  rateLimit : Float
  auto : Bool
  deriving DecidableEq, Repr

namespace Settings

def default : Settings where
  instructions := "0(1) => 0(1) R\n0(0) => -1(1) S"
  tape := "1 1 1 1 1 1 1 1"
  blank := Machine.defaultBlank
  rateLimit := 2.0
  auto := true

/-- Settings are the same if their fields are, rates being compared as numbers. -/
def same (s t : Settings) : Bool :=
  s.instructions == t.instructions && s.tape == t.tape && s.blank == t.blank &&
    s.rateLimit == t.rateLimit && s.auto == t.auto

def isToken (symbol : Symbol) : Bool :=
  !symbol.isEmpty && symbol.toList.all fun c => !Text.isBlank c

/-- The rate is checked first, then the blank symbol, then the tape. -/
def validate (s : Settings) : Except Error Unit := do
  let _ ← RateLimit.ofFloat s.rateLimit
  if isToken s.blank then
    let _ ← readSeed s.tape
    .ok ()
  else
    .error (.badSettings ("blank symbol '" ++ s.blank ++ "' must be a single non-empty token"))

end Settings

end SingleTape

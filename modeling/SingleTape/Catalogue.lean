import SingleTape.Machine
import SingleTape.Settings.Basic

/-!
The built-in programs.
-/

namespace SingleTape

structure Program where
  name : String
  description : String
  instructions : String
  tape : String
  blank : Symbol
  deriving DecidableEq, Repr

namespace Program

def unaryFill : Program where
  name := "unary-fill"
  description := "Walks right over 1s and turns the first 0 into a 1"
  instructions := "0(1) => 0(1) R\n0(0) => -1(1) S\n"
  tape := "1 1 1 1 1 1 1 1"
  blank := "0"

def binaryIncrement : Program where
  name := "binary-increment"
  description := "Adds one to a binary number, most significant bit first"
  instructions :=
    "0(0) => 0(0) R\n" ++
    "0(1) => 0(1) R\n" ++
    "0(_) => 1(_) L\n" ++
    "1(1) => 1(0) L\n" ++
    "1(0) => -1(1) S\n" ++
    "1(_) => -1(1) S\n"
  tape := "1 0 1 1"
  blank := "_"

def busyBeaver2 : Program where
  name := "busy-beaver-2"
  description := "Two-state busy beaver, writes four 1s in six steps"
  instructions :=
    "0(0) => 1(1) R\n" ++
    "0(1) => 1(1) L\n" ++
    "1(0) => 0(1) L\n" ++
    "1(1) => -1(1) R\n"
  tape := "0"
  blank := "0"

def catalogue : List Program := [unaryFill, binaryIncrement, busyBeaver2]

def atIndex (index : Nat) : Except Error Program :=
  match catalogue[index]? with
  | some program => .ok program
  | none => .error (.badFile ("Program index " ++ Decimal.naturalText index ++ " out of range"))

def named (name : String) : Except Error Program :=
  match catalogue.find? (·.name == name) with
  | some program => .ok program
  | none => .error (.badFile ("Program '" ++ name ++ "' not found"))

def machine (p : Program) : Except Error Machine := do
  let (_, machine) ← (Machine.withBlank p.blank).load p.instructions
  .ok machine

def launch (p : Program) : Except Error Execution := do
  (← p.machine).launchSeed p.tape

def settings (p : Program) (base : Settings) : Settings :=
  { base with instructions := p.instructions, tape := p.tape, blank := p.blank }

end Program

end SingleTape

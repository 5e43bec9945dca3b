import SingleTape.Json.Shape
import SingleTape.Json.Writer
import SingleTape.Settings.Basic

/-!
Settings as JSON. Importing takes defaults for absent fields; an unbounded rate is null.
-/

namespace SingleTape.Settings

open Json

structure Draft where
  instructions : Option String := none
  tape : Option String := none
  blank : Option Symbol := none
  rateLimit : Option Float := none
  auto : Option Bool := none

def Draft.complete (d : Draft) : Settings where
  instructions := d.instructions.getD default.instructions
  tape := d.tape.getD default.tape
  blank := d.blank.getD default.blank
  rateLimit := d.rateLimit.getD default.rateLimit
  auto := d.auto.getD default.auto

def rateReader : Reader Float := Reader.orNull (1.0 / 0.0) Reader.double

def shape : Shape Draft Settings where
  name := "Settings"
  start := {}
  mayEndEarly := true
  fields :=
    [{ name := "instructions"
       isRead := fun d => d.instructions.isSome
       reader := fun d => Reader.text.map fun s => { d with instructions := some s } },
     { name := "tape"
       isRead := fun d => d.tape.isSome
       reader := fun d => Reader.text.map fun s => { d with tape := some s } },
     { name := "blank"
       isRead := fun d => d.blank.isSome
       reader := fun d => Reader.text.map fun s => { d with blank := some s } },
     { name := "rateLimit"
       isRead := fun d => d.rateLimit.isSome
       reader := fun d => rateReader.map fun r => { d with rateLimit := some r } },
     { name := "auto"
       isRead := fun d => d.auto.isSome
       reader := fun d => Reader.bool.map fun b => { d with auto := some b } }]
  finish d := .ok d.complete

def ofJson (source : String) : Except Error Settings :=
  (shape.reader.document source).mapError fun defect => .badSettings defect.message

def json (s : Settings) : String :=
  String.ofList <| writeLines
    [("instructions", writeText s.instructions), ("tape", writeText s.tape),
      ("blank", writeText s.blank), ("rateLimit", writeDouble s.rateLimit),
      ("auto", writeBool s.auto)]

end SingleTape.Settings

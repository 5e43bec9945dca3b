import SingleTape.Json.Shape
import SingleTape.Json.Writer
import SingleTape.Record

/-!
Moves, requests, responses and records in JSON. They are written compactly, with the fields in the
order of their declaration.
-/

namespace SingleTape

open Json

def Move.named : List (String × Move) :=
  [("Left", .left), ("Stay", .stay), ("Right", .right)]

def Move.name : Move → String
  | left => "Left"
  | stay => "Stay"
  | right => "Right"

def Move.json (m : Move) : List Char := writeText m.name

def Move.reader : Reader Move := Reader.variant Move.named

/-- A state is a signed integer of 64 bits, so the conversion loses nothing. -/
def stateReader : Reader State := Reader.signed64.map Int64.ofInt

def required {α : Type} (name : String) : Option α → Except Defect α
  | some a => .ok a
  | none => .error (.missingField name)

def Request.json (q : Request) : List Char :=
  writeObject [("state", writeInteger q.state.toInt), ("symbol", writeText q.symbol)]

structure Request.Draft where
  state : Option State := none
  symbol : Option Symbol := none

def Request.shape : Shape Request.Draft Request where
  name := "Request"
  start := {}
  mayEndEarly := false
  fields :=
    [{ name := "state"
       isRead := fun d => d.state.isSome
       reader := fun d => stateReader.map fun s => { d with state := some s } },
     { name := "symbol"
       isRead := fun d => d.symbol.isSome
       reader := fun d => Reader.text.map fun s => { d with symbol := some s } }]
  finish d := do
    let state ← required "state" d.state
    let symbol ← required "symbol" d.symbol
    .ok ⟨state, symbol⟩

def Response.json (r : Response) : List Char :=
  writeObject [("state", writeInteger r.state.toInt), ("symbol", writeText r.symbol),
    ("direction", r.move.json)]

structure Response.Draft where
  state : Option State := none
  symbol : Option Symbol := none
  move : Option Move := none

def Response.shape : Shape Response.Draft Response where
  name := "Response"
  start := {}
  mayEndEarly := false
  fields :=
    [{ name := "state"
       isRead := fun d => d.state.isSome
       reader := fun d => stateReader.map fun s => { d with state := some s } },
     { name := "symbol"
       isRead := fun d => d.symbol.isSome
       reader := fun d => Reader.text.map fun s => { d with symbol := some s } },
     { name := "direction"
       isRead := fun d => d.move.isSome
       reader := fun d => Move.reader.map fun m => { d with move := some m } }]
  finish d := do
    let state ← required "state" d.state
    let symbol ← required "symbol" d.symbol
    let move ← required "direction" d.move
    .ok ⟨state, symbol, move⟩

def Record.json (r : Record) : List Char :=
  writeObject [("request", r.request.json), ("index", writeInteger r.index),
    ("tape", writeList (r.tape.map writeText))]

structure Record.Draft where
  request : Option Request := none
  index : Option Nat := none
  tape : Option (List Symbol) := none

def Record.shape : Shape Record.Draft Record where
  name := "TraceRecord"
  start := {}
  mayEndEarly := false
  fields :=
    [{ name := "request"
       isRead := fun d => d.request.isSome
       reader := fun d => Request.shape.reader.map fun q => { d with request := some q } },
     { name := "index"
       isRead := fun d => d.index.isSome
       reader := fun d => Reader.unsigned64.map fun n => { d with index := some n } },
     { name := "tape"
       isRead := fun d => d.tape.isSome
       reader := fun d => (Reader.list Reader.text).map fun t => { d with tape := some t } }]
  finish d := do
    let request ← required "request" d.request
    let index ← required "index" d.index
    let tape ← required "tape" d.tape
    .ok ⟨request, index, tape⟩

def Move.ofJson (source : String) : Except Defect Move := Move.reader.document source

def Request.ofJson (source : String) : Except Defect Request := Request.shape.reader.document source

def Response.ofJson (source : String) : Except Defect Response :=
  Response.shape.reader.document source

def Record.ofJson (source : String) : Except Defect Record := Record.shape.reader.document source

end SingleTape

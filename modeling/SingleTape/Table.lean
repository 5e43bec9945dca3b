import Std.Data.HashMap
import SingleTape.Instruction.Reader

/-!
The transition table. Its instructions stand in the order in which their requests first came in; an
index finds the one for a request. A request that comes in again keeps its place and gets the new
response. A request without instruction is answered by staying.
-/

namespace SingleTape

structure Table where
  entries : Array Instruction
  index : Std.HashMap Request Nat

namespace Table

def empty : Table := ⟨#[], ∅⟩

protected def beq (t u : Table) : Bool := t.entries == u.entries && t.index == u.index

instance : BEq Table := ⟨Table.beq⟩

def size (t : Table) : Nat := t.entries.size

def contains (t : Table) (q : Request) : Bool := t.index.contains q

def push (t : Table) (q : Request) (r : Response) : Table where
  entries := t.entries.push ⟨q, r⟩
  index := t.index.insert q t.entries.size

def set (t : Table) (q : Request) (r : Response) : Option Response × Table :=
  match t.index[q]? with
  | some slot =>
    if h : slot < t.entries.size then
      (some t.entries[slot].response,
        { t with entries := t.entries.set slot ⟨t.entries[slot].request, r⟩ })
    else (none, t.push q r)
  | none => (none, t.push q r)

/-- The response to a request. It is missing if the index names a place that holds another request.
-/
def respond (t : Table) (q : Request) : Except Error Response :=
  match t.index[q]? with
  | none => .ok q.unanswered
  | some slot =>
    match t.entries[slot]? with
    | some entry => if entry.request = q then .ok entry.response else .error (.missingResponse q)
    | none => .error (.missingResponse q)

/-- Sets one response after the other. The requests that had one already are given back in order. -/
def setAll (t : Table) (is : List Instruction) : List Request × Table :=
  let step (acc : List Request × Table) (i : Instruction) : List Request × Table :=
    match acc.2.set i.request i.response with
    | (some _, t) => (i.request :: acc.1, t)
    | (none, t) => (acc.1, t)
  let (repeated, t) := is.foldl step ([], t)
  (repeated.reverse, t)

/-- Adds the instructions of a block. One bad line, and the table stays as it is. -/
def load (t : Table) (block : String) : Except Error (List Request × Table) := do
  .ok (t.setAll (← readInstructions block))

def ofBlock (block : String) : Except Error Table := do
  .ok (← empty.load block).2

def hasHaltingResponse (t : Table) : Bool := t.entries.any (·.response.halts)

end Table

end SingleTape

/-!
A tree of files below one working directory, and how paths lead through it. A path is taken step by
step: every step but the last has to be a directory, and so has the last one if a slash follows it.
-/

namespace SingleTape.Files

inductive Fault where
  | notFound
  | notDirectory
  | isDirectory
  | nameTooLong
  | nullInPath
  | notText
  | other (reason : String)
  deriving DecidableEq, Repr

def Fault.message : Fault → String
  | notFound => "No such file or directory (os error 2)"
  | notDirectory => "Not a directory (os error 20)"
  | isDirectory => "Is a directory (os error 21)"
  | nameTooLong => "File name too long (os error 36)"
  | nullInPath => "file name contained an unexpected NUL byte"
  | notText => "stream did not contain valid UTF-8"
  | other reason => reason

inductive Node where
  | file (content : ByteArray)
  | directory

/-- Where something is: the names of the directories on the way to it, and its own. Nothing is known
above the working directory but that there are directories: such a place is made of two points only.
-/
abbrev Place := List String

def Place.isOuter (place : Place) : Bool := place.all (· == "..")

/-- The files and directories, each at its place. The working directory itself is not listed. -/
structure Tree where
  nodes : List (Place × Node)

namespace Tree

def empty : Tree := ⟨[]⟩

def node? (t : Tree) (place : Place) : Option Node :=
  if place.isOuter then some .directory else t.nodes.lookup place

def put (t : Tree) (place : Place) (node : Node) : Tree :=
  ⟨(place, node) :: t.nodes.filter (·.1 ≠ place)⟩

def putWithParents (t : Tree) (place : Place) (node : Node) : Tree :=
  let ways := (List.range place.length).map fun n => place.take n
  let t := ways.foldl (fun t way => if (t.node? way).isSome then t else t.put way .directory) t
  t.put place node

def stepLimit : Nat := 255

def pathLimit : Nat := 4095

/-- One step from a directory. An empty step and a point stay there, two points lead back. -/
def step (t : Tree) (place : Place) (name : String) : Except Fault Place :=
  match t.node? place with
  | none => .error .notFound
  | some (.file _) => .error .notDirectory
  | some .directory =>
    if name = "" ∨ name = "." then .ok place
    else if name = ".." then .ok (if place.isOuter then place ++ [name] else place.dropLast)
    else if stepLimit < name.utf8ByteSize then .error .nameTooLong
    else .ok (place ++ [name])

def walk (t : Tree) (path : String) : Except Fault Place :=
  (path.splitOn "/").foldlM t.step (if path.toList.head? = some '/' then [".."] else [])

def checkPath (path : String) : Except Fault Unit :=
  if path.toList.contains '\x00' then .error .nullInPath
  else if path = "" then .error .notFound
  else if pathLimit < path.utf8ByteSize then .error .nameTooLong
  else .ok ()

/-- The place that a path leads to. The last step may lead to nothing yet. -/
def follow (t : Tree) (path : String) : Except Fault Place := do
  checkPath path
  t.walk path

def find (t : Tree) (path : String) : Except Fault Node := do
  match t.node? (← t.follow path) with
  | some node => .ok node
  | none => .error .notFound

def read (t : Tree) (path : String) : Except Fault ByteArray := do
  match ← t.find path with
  | .file content => .ok content
  | .directory => .error .isDirectory

def list (t : Tree) (path : String) : Except Fault (List String) := do
  let place ← t.follow path
  match t.node? place with
  | none => .error .notFound
  | some (.file _) => .error .notDirectory
  | some .directory =>
    .ok (t.nodes.filterMap fun (other, _) =>
      if other.length = place.length + 1 ∧ other.dropLast = place then other.getLast? else none)

def withoutLastStep (path : String) : String :=
  String.ofList ((path.toList.reverse.dropWhile (· == '/')).dropWhile (· ≠ '/')).reverse

/-- Writes a file, new or not. A path with a slash at its end could only be a directory, and its
last step is not looked at. -/
def write (t : Tree) (path : String) (content : ByteArray) : Except Fault Tree := do
  checkPath path
  if path.toList.getLast? = some '/' then
    let _ ← t.walk (withoutLastStep path)
    .error .isDirectory
  else
    let place ← t.walk path
    match t.node? place with
    | some .directory => .error .isDirectory
    | _ => .ok (t.put place (.file content))

end Tree

end SingleTape.Files

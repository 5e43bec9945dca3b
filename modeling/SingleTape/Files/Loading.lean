import SingleTape.Files.Tree
import SingleTape.Session.Basic
import SingleTape.Settings.Json

/-!
Programs and settings in files. A program may have up to 65536 bytes.
-/

namespace SingleTape.Files

def programLimit : Nat := 65536

def programExtension : String := "tm"

/-- How files are read: the bytes at a path, or why there are none. -/
abbrev Source := String → Except Fault ByteArray

def readText (source : Source) (path : String) : Except Fault String := do
  match String.fromUTF8? (← source path) with
  | some text => .ok text
  | none => .error .notText

def failed (action path : String) (fault : Fault) : Error :=
  .badFile ("Failed to " ++ action ++ " " ++ path ++ ": " ++ fault.message)

def checkSize (program : String) : Except Error Unit :=
  if programLimit < program.utf8ByteSize then
    .error (.badFile ("Program is " ++ Decimal.naturalText program.utf8ByteSize ++
      " bytes, the limit is " ++ Decimal.naturalText programLimit ++ " bytes"))
  else .ok ()

def readProgram (source : Source) (path : String) : Except Error String := do
  let program ← (readText source path).mapError (failed "read file" path)
  checkSize program
  .ok program

def tableOfProgram (program : String) : Except Error Table := do
  checkSize program
  Table.ofBlock program

def loadProgram (source : Source) (path : String) : Except Error Table := do
  tableOfProgram (← readProgram source path)

def loadSettings (source : Source) (path : String) : Except Error Settings := do
  let text ← (readText source path).mapError (failed "read settings" path)
  let settings ← Settings.ofJson text
  settings.validate
  .ok settings

def saveSettings (tree : Tree) (path : String) (settings : Settings) : Except Error Tree :=
  (tree.write path settings.json.toUTF8).mapError (failed "write settings" path)

def extension? (name : String) : Option String :=
  let behind := name.toList.reverse.takeWhile (· ≠ '.')
  match name.toList.reverse.dropWhile (· ≠ '.') with
  | _ :: _ :: _ => some (String.ofList behind.reverse)
  | _ => none

def joined (directory name : String) : String :=
  if directory.toList.getLast? = some '/' then directory ++ name else directory ++ "/" ++ name

/-- Loads every program file in a directory. Directories and other files are passed over. A
directory that cannot be listed is the only error then. -/
def loadPrograms (tree : Tree) (directory : String) : List (Except Error (String × Table)) :=
  match tree.list directory with
  | .error fault => [.error (failed "read directory" directory fault)]
  | .ok names =>
    names.filterMap fun name =>
      let path := joined directory name
      let isDirectory := match tree.find path with
        | .ok .directory => true
        | _ => false
      if isDirectory || extension? name ≠ some programExtension then none
      else some ((loadProgram tree.read path).map fun table => (path, table))

end SingleTape.Files

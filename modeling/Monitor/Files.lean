import Monitor.Text.Split
import Std.Data.HashMap

namespace Monitor

/-- The files that the monitor can reach, and the directories besides the one that it works in and
those above it. All of them are kept by their plain paths. -/
structure Files where
  contents : Std.HashMap String ByteArray := ∅
  directories : List String := []

namespace Files

inductive Error
  | missing
  | isDirectory
  | notDirectory
  | nameTooLong
  /-- No path can hold the character zero. -/
  | zeroCharacter
  | notText
  deriving DecidableEq, Repr

def Error.message : Error → String
  | .missing => "No such file or directory (os error 2)"
  | .isDirectory => "Is a directory (os error 21)"
  | .notDirectory => "Not a directory (os error 20)"
  | .nameTooLong => "File name too long (os error 36)"
  | .zeroCharacter => "file name contained an unexpected NUL byte"
  | .notText => "stream did not contain valid UTF-8"

def maxNameSize : Nat := 255

def pathSizeLimit : Nat := 4096

def names (path : String) : List String :=
  ((Text.splitWhere (· == '/') path.toList).map String.ofList).filter (· != "")

def root (path : String) : String :=
  if path.toList.head? = some '/' then "/" else ""

/-- Goes one name further on a way, which is the list of the names that lead to a directory. One dot
stays there, and two dots go back. -/
def advance (way : List String) (name : String) : List String :=
  if name = "." then way
  else if name = ".." && way.getLast?.any (· != "..") then way.dropLast
  else way ++ [name]

def along (path : String) (way : List String) : String :=
  root path ++ "/".intercalate way

def plainPath (path : String) : String :=
  along path ((names path).foldl advance [])

def ancestors (path : String) : List String :=
  (List.range (names path).length).map fun n => along path (((names path).take n).foldl advance [])

def isDirectory (files : Files) (path : String) (way : List String) : Bool :=
  way.all (· == "..") || files.directories.contains (along path way)

def isTooLong (name : String) : Bool :=
  maxNameSize < name.utf8ByteSize

def enter (files : Files) (path : String) (way : List String) :
    List String → Except Error (List String)
  | [] => .ok way
  | name :: more =>
    let next := advance way name
    if isTooLong name then .error .nameTooLong
    else if files.isDirectory path next then files.enter path next more
    else if files.contents.contains (along path next) then .error .notDirectory
    else .error .missing

/-- A name in a directory. There may be a file with that name. -/
structure Entry where
  name : String
  path : String
  /-- A slash follows the name, as only that of a directory may have it. -/
  slash : Bool
  deriving DecidableEq, Repr

inductive Place
  | directory
  | entry (e : Entry)
  deriving DecidableEq, Repr

def locate (files : Files) (path : String) : Except Error Place :=
  if path.toList.contains '\x00' then .error .zeroCharacter
  else if path.isEmpty then .error .missing
  else if pathSizeLimit ≤ path.utf8ByteSize then .error .nameTooLong
  else do
    let way ← files.enter path [] (names path).dropLast
    match (names path).getLast? with
    | none => return .directory
    | some name =>
      let next := advance way name
      if files.isDirectory path next then return .directory
      else return .entry ⟨name, along path next, path.toList.getLast? == some '/'⟩

def bytesOf (files : Files) (e : Entry) : Except Error ByteArray :=
  if isTooLong e.name then .error .nameTooLong
  else
    match files.contents[e.path]? with
    | none => .error .missing
    | some bytes => if e.slash then .error .notDirectory else .ok bytes

def readBytes (files : Files) (path : String) : Except Error ByteArray := do
  match ← files.locate path with
  | .directory => throw .isDirectory
  | .entry e => files.bytesOf e

def hasPath (files : Files) (path : String) : Bool :=
  match files.locate path with
  | .ok .directory => true
  | .ok (.entry e) => (files.bytesOf e).isOk
  | .error _ => false

def readText (files : Files) (path : String) : Except Error String := do
  match String.fromUTF8? (← files.readBytes path) with
  | some text => return text
  | none => throw .notText

/-- Writes a file, which need not exist. A slash after its name makes it a directory, whether there
is one or not. -/
def write (files : Files) (path text : String) : Except Error Files := do
  match ← files.locate path with
  | .directory => throw .isDirectory
  | .entry e =>
    if e.slash then throw .isDirectory
    else if isTooLong e.name then throw .nameTooLong
    else return { files with contents := files.contents.insert e.path text.toUTF8 }

def remove (files : Files) (path : String) : Except Error Files := do
  match ← files.locate path with
  | .directory => throw .isDirectory
  | .entry e =>
    let _ ← files.bytesOf e
    return { files with contents := files.contents.erase e.path }

end Files

end Monitor

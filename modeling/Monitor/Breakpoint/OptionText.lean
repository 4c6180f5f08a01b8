import Monitor.Breakpoint.Options
import Monitor.Files
import Monitor.Text.Digits

namespace Monitor.Breakpoint

open Text

inductive OptionsError
  | unknownInfo (name : String)
  | missingFile (path : String)
  | invalidSkip (item : String)
  | unrecognized (item : String)
  deriving DecidableEq, Repr

def OptionsError.message : OptionsError → String
  | .unknownInfo name => s!"no info for '{name}'"
  | .missingFile path => s!"given file '{path}' doesn't exist"
  | .invalidSkip item => s!"invalid breakpoint skip count '{item}'"
  | .unrecognized item => s!"unrecognized breakpoint option '{item}'"

inductive OptionItem
  | once
  | quiet
  | trace
  | lock
  | noinit
  | info (name : List Char)
  | file (path : List Char)
  | skip (digits : List Char)
  deriving DecidableEq, Repr

def argument? (keyword : String) (item : List Char) : Option (List Char) :=
  let front := keyword.toList ++ [' ']
  if front.isPrefixOf item && front.length < item.length then
    some (trim (item.drop front.length))
  else none

/-- A count may have anything after its digits. -/
def OptionItem.read? (item : List Char) : Option OptionItem :=
  if item = "once".toList then some .once
  else if item = "quiet".toList then some .quiet
  else if item = "trace".toList then some .trace
  else if item = "lock".toList then some .lock
  else if item = "noinit".toList then some .noinit
  else
    match argument? "info" item, argument? "file" item, item.takeWhile isAsciiDigit with
    | some name, _, _ => some (.info name)
    | none, some path, _ => some (.file path)
    | none, none, [] => none
    | none, none, digits => some (.skip digits)

/-- Adds one option to others. Showing anything makes a breakpoint trace. -/
def Options.add (files : Files) (o : Options) (item : List Char) : Except OptionsError Options :=
  match OptionItem.read? item with
  | none => .error (.unrecognized (String.ofList item))
  | some .once => .ok { o with once := true }
  | some .quiet => .ok { o with quiet := true }
  | some .trace => .ok { o with trace := true }
  | some .lock => .ok { o with trace := true, lock := true }
  | some .noinit => .ok { o with trace := true, noinit := true }
  | some (.info name) =>
    match Info.ofName? (String.ofList name) with
    | some info => .ok { o with trace := true, info := some info }
    | none => .error (.unknownInfo (String.ofList name))
  | some (.file path) =>
    if files.hasPath (String.ofList path) then .ok { o with file := some (String.ofList path) }
    else .error (.missingFile (String.ofList path))
  | some (.skip digits) =>
    let count := ofDigits 10 digits
    if 2 ≤ count && count < UInt32.size then .ok { o with skip := count }
    else .error (.invalidSkip (String.ofList item))

/-- The pieces of a text between the places where a space and a colon come together. -/
def optionItems : List Char → List (List Char)
  | [] => [[]]
  | ' ' :: ':' :: cs => [] :: optionItems cs
  | c :: cs => consFirst c (optionItems cs)

def Options.read (files : Files) (cs : List Char) : Except OptionsError Options :=
  (optionItems cs).foldlM (fun o item => o.add files (trim item)) {}

def splitOptions (cs : List Char) : List Char × Option (List Char) :=
  match splitFirst ':' cs with
  | some (condition, options) => (condition, some options)
  | none => (cs, none)

end Monitor.Breakpoint

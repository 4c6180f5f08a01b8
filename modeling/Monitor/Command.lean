import Monitor.Breakpoint.Error
import Monitor.Expression.Range
import Monitor.Text.Identifier

namespace Monitor

open Text

inductive Command
  | breakpoint (processor : Processor) (args : Option String)
  | address (processor : Processor) (args : Option String)
  | evaluate (processor : Processor) (expression : String)
  | registers (processor : Processor) (assignment : Option (String × String))
  | write (address : String) (bytes : List String)
  /-- Dumps memory; without a range it goes on where the last dump ended. -/
  | memory (range : Option String)
  | scan
  | save (path : String)
  | variables
  | run (path : String)
  | help
  deriving DecidableEq, Repr

namespace Command

inductive Error
  | unknown (name : String)
  | missingArgument (name : String)
  | assignment (text : String)
  | unknownRegister (processor : Processor) (name : String)
  | byteValue (value : UInt32)
  | expression (text : String) (f : Expression.Failure)
  | range (e : AddressRange.Error)
  | breakpoint (e : Breakpoint.Error)
  | fileDepth (limit : Nat)
  | file (path : String) (e : Files.Error)
  deriving DecidableEq, Repr

namespace Error

def message : Error → String
  | .unknown name => s!"unknown command '{name}'"
  | .missingArgument name => s!"command '{name}' needs an argument"
  | .assignment text => s!"invalid register assignment '{text}'"
  | .unknownRegister processor name => s!"unknown {processor.name} register '{name}'"
  | .byteValue value =>
    let digits := hex value
    s!"value ${digits} doesn't fit into a byte"
  | .expression _ f => f.error.message
  | .range e => e.message
  | .breakpoint e => e.message
  | .fileDepth limit => s!"command files nested more than {limit} deep"
  | .file path e => s!"{path}: {e.message}"

/-- The error as it is shown, with a diagram if it has a place. -/
def report (e : Error) : String :=
  match e with
  | .breakpoint e => e.report
  | .expression text f => f.report "the expression" text
  | _ => s!"ERROR: {e.message}\n"

end Error

/-- The first word of a line and the text that follows it. Lines that are blank or a comment have
none. -/
def splitLine (line : List Char) : Option (List Char × List Char) :=
  match trimLeft line with
  | [] => none
  | '#' :: _ => none
  | cs => some (cs.takeWhile (!isBlank ·), trim (cs.dropWhile (!isBlank ·)))

def splitAssignment? (cs : List Char) : Option (String × String) := do
  let (name, rest) ← splitIdentifier (trimLeft cs)
  match trimLeft rest with
  | '=' :: c :: more => return (String.ofList name, String.ofList (trim (c :: more)))
  | _ => none

def readAssignment (args : List Char) : Except Error (Option (String × String)) :=
  if args.isEmpty then .ok none
  else
    match splitAssignment? args with
    | some assignment => .ok (some assignment)
    | none => .error (.assignment (String.ofList args))

def readWrite (name : String) (args : List Char) : Except Error Command :=
  match (fields args).map String.ofList with
  | target :: byte :: bytes => .ok (.write target (byte :: bytes))
  | _ => .error (.missingArgument name)

def ofName (name : String) (args : List Char) : Except Error Command :=
  let text := String.ofList args
  let text? := if args.isEmpty then none else some text
  let required : Except Error String :=
    if args.isEmpty then .error (.missingArgument name) else .ok text
  match name with
  | "b" | "breakpoint" => .ok (.breakpoint .cpu text?)
  | "db" | "dspbreak" => .ok (.breakpoint .dsp text?)
  | "a" | "address" => .ok (.address .cpu text?)
  | "da" | "dspaddress" => .ok (.address .dsp text?)
  | "e" | "evaluate" => required.map (.evaluate .cpu)
  | "de" => required.map (.evaluate .dsp)
  | "r" | "cpureg" => (readAssignment args).map (.registers .cpu)
  | "dr" | "dspreg" => (readAssignment args).map (.registers .dsp)
  | "w" | "memwrite" => readWrite name args
  | "m" | "memdump" => .ok (.memory text?)
  | "match" => .ok .scan
  | "save" => required.map .save
  | "vars" => .ok .variables
  | "f" | "file" => required.map .run
  | "h" | "help" | "?" => .ok .help
  | _ => .error (.unknown name)

def read (line : String) : Except Error (Option Command) :=
  match splitLine line.toList with
  | none => .ok none
  | some (name, args) => (ofName (String.ofList name) args).map some

end Command

end Monitor

import Monitor.Debugger
import Monitor.Invocation
import Monitor.Symbol.Listing
import Monitor.Text.Control

namespace Monitor.Program

inductive Error
  | settings (e : SettingsError)
  | address (e : Numeral.Error)
  | file (path : String) (e : Files.Error)
  | load (e : Memory.LoadError)
  deriving DecidableEq, Repr

def Error.message : Error → String
  | .settings e => e.message
  | .address e => e.message
  | .file path e => s!"{path}: {e.message}"
  | .load e => e.message

def splitLoad (radix : Radix) (load : String) : Except Error (String × UInt32) :=
  match Text.splitLast '@' load.toList with
  | none => .ok (load, 0)
  | some (path, address) =>
    ((Numeral.read radix.toNat address).mapError .address).map fun address =>
      (String.ofList path, address)

def loadFile (radix : Radix) (files : Files) (machine : Machine) (load : String) :
    Except Error Machine := do
  let (path, address) ← splitLoad radix load
  let bytes ← (files.readBytes path).mapError (.file path)
  (machine.load address bytes.toList).mapError .load

def loadSymbols (files : Files) (processor : Processor) (machine : Machine) :
    Option String → Attempt Error Machine
  | none => return machine
  | some path => do
    let text ← ExceptT.mk (pure ((files.readText path).mapError (.file path)))
    return machine.setSymbols (← SymbolTable.ofListing text) processor

def start (i : Invocation) (files : Files) : Attempt Error Debugger := do
  let settings ← ExceptT.mk (pure
    ((Settings.withRadix { dspEnabled := i.dspEnabled } i.radix).mapError .settings))
  let machine ← ExceptT.mk (pure
    (i.loads.foldlM (loadFile settings.radix files) (.ofRam (i.ram * 1024))))
  let machine ← loadSymbols files .cpu machine i.cpuSymbols
  let machine ← loadSymbols files .dsp machine i.dspSymbols
  return .ofMachine machine settings files

structure Output where
  shown : String := ""
  logged : String := ""
  deriving DecidableEq, Repr

namespace Output

def append (a b : Output) : Output :=
  ⟨a.shown ++ b.shown, a.logged ++ b.logged⟩

/-- Messages of the log are kept from commanding the terminal. -/
def ofEvents (events : List Event) : Output :=
  ⟨"", String.join (events.map fun e =>
    Text.padLeft 5 ' ' e.severity.label ++ " " ++ Text.escapeControls e.message ++ "\n")⟩

def ofResult : Except Command.Error String → Output
  | .ok text => ⟨text, ""⟩
  | .error e => ⟨"", e.report⟩

end Output

def perform (x : Execution String) (d : Debugger) : Output × Debugger :=
  let r := x.run d
  ((Output.ofEvents r.events).append (.ofResult r.value.1), r.value.2)

def performAll : List (Execution String) → Debugger → Output
  | [], _ => {}
  | x :: more, d =>
    let (output, d) := perform x d
    output.append (performAll more d)

/-- The commands of a program run: those of its script, or else the lines of its input. -/
def commands (i : Invocation) (input : String) : List (Execution String) :=
  match i.script with
  | some path => [Debugger.runFile path]
  | none => (Text.lines input.toList).map fun line => Debugger.executeLine (String.ofList line)

structure Outcome where
  exitCode : Nat
  output : Output
  deriving DecidableEq, Repr

/-- All of a program run: the arguments, the input and the files decide what it writes. -/
def run (args : List String) (input : String) (files : Files) : Outcome :=
  match Invocation.read? args with
  | none => ⟨2, {}⟩
  | some i =>
    let started := (start i files).run
    match started.value with
    | .error e => ⟨1, ⟨"", e.message ++ "\n"⟩⟩
    | .ok d => ⟨0, (Output.ofEvents started.events).append (performAll (commands i input) d)⟩

end Monitor.Program

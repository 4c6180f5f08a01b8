import Monitor.Breakpoint.Scan
import Monitor.Command
import Monitor.Dump
import Monitor.Session

namespace Monitor

structure Surroundings where
  settings : Settings := {}
  session : Session := {}
  files : Files := {}

abbrev Debugger := Scene Surroundings

/-- A part of a command that may change the debugger and log, and does not fail. -/
abbrev Action (α : Type) := StateT Debugger Logged α

/-- A part of a command that may fail. A failure takes nothing back. -/
abbrev Execution (α : Type) := Revision Debugger Command.Error α

namespace Debugger

def maxFileDepth : Nat := 8

def settings (d : Debugger) : Settings :=
  d.surroundings.settings

def session (d : Debugger) : Session :=
  d.surroundings.session

def files (d : Debugger) : Files :=
  d.surroundings.files

def mapSession (f : Session → Session) (d : Debugger) : Debugger :=
  { d with surroundings := { d.surroundings with session := f d.session } }

def setFiles (files : Files) (d : Debugger) : Debugger :=
  { d with surroundings := { d.surroundings with files } }

def ofMachine (machine : Machine) (settings : Settings) (files : Files) : Debugger :=
  { store := {}, machine, surroundings := { settings, files } }

def scope (d : Debugger) (processor : Processor) : Scope :=
  ⟨d.machine, processor, d.settings.radix⟩

def context (d : Debugger) : Store.Context :=
  ⟨d.machine, d.settings, d.files⟩

def attempt {ε α : Type} (cause : ε → Command.Error) (x : Attempt ε α) : Execution α :=
  ExceptT.mk fun d => return ((← x.run).mapError cause, d)

def evaluate (processor : Processor) (text : String) : Execution UInt32 := do
  let d ← get
  attempt (.expression text) (Expression.evaluate (d.scope processor) text)

def revise {ε α : Type} (cause : ε → Command.Error) (x : Debugger → Revised Store ε α) :
    Execution α :=
  (Revision.within (fun d store => { d with store }) x).adapt cause

def changeBreakpoints (processor : Processor) (args : Option String) : Execution String :=
  revise .breakpoint fun d => d.store.command processor args d.context

def breakAt (processor : Processor) : Option String → Execution String
  | none => return Help.addressUsage
  | some args => do
    let address ← revise .breakpoint fun d => d.store.addressCommand processor args d.context
    let digits := Text.hex address
    return s!"{processor.name} breakpoint at ${digits}\n"

def valueText (value : UInt32) : String :=
  let binary := Text.toDigits 2 value.toNat
  let hexadecimal := Text.hex value
  s!"= %{binary} (bin), #{value.toNat} (dec), ${hexadecimal} (hex)\n"

def infoText (d : Debugger) (info : Breakpoint.Info) : String :=
  info.text d.machine d.session

def registersInfo : Processor → Breakpoint.Info
  | .cpu => .registers
  | .dsp => .dspRegisters

def setRegister (value : UInt32) (r : Register) (m : Machine) : Machine :=
  match r with
  | .cpu r => m.setCpuRegister r value
  | .dsp r => m.setDspRegister r value

def assign (processor : Processor) (name expression : String) : Execution Unit := do
  let d ← get
  match (d.scope processor).register? name with
  | none => throw (.unknownRegister processor name)
  | some r =>
    let value ← evaluate processor expression
    modify fun d => { d with machine := setRegister value r d.machine }

def byteOf (text : String) : Execution UInt8 := do
  let value ← evaluate .cpu text
  if 0xff < value then throw (.byteValue value) else return value.toUInt8

def bytesOf : List String → Execution (List UInt8)
  | [] => return []
  | text :: more => return (← byteOf text) :: (← bytesOf more)

/-- All values are known before the first byte is written. -/
def write (address : String) (bytes : List String) : Execution Unit := do
  let address ← evaluate .cpu address
  let values ← bytesOf bytes
  modify fun d => { d with machine := d.machine.pokeAll address values }

def dumpRange (d : Debugger) : Option String → Except AddressRange.Error (UInt32 × UInt32)
  | none =>
    let start := d.session.nextDump.getD (d.machine.cpuRegister .pc)
    .ok (start, Dump.defaultEnd start)
  | some text =>
    (AddressRange.read (d.scope .cpu) text).map fun
      | .single start => (start, Dump.defaultEnd start)
      | .span lower upper => (lower, upper)

def dump (range : Option String) : Execution String := do
  let d ← get
  let (first, last) ← attempt .range (ExceptT.mk (pure (d.dumpRange range)))
  modify (mapSession fun s => { s with nextDump := some (last + 1) })
  return Dump.text d.machine first last

/-- What becomes of the files when breakpoints are saved. Without breakpoints no file is left. -/
def savedFiles (d : Debugger) (path : String) : Except Files.Error Files :=
  if d.store.cpu.items.isEmpty && d.store.dsp.items.isEmpty then
    if d.files.hasPath path then d.files.remove path else .ok d.files
  else d.files.write path d.store.dump

def reportSaved (d : Debugger) (path : String) : Logged Unit :=
  if d.store.cpu.items.isEmpty && d.store.dsp.items.isEmpty then return
  else Logged.info s!"Saving breakpoints to '{path}'..."

def save (path : String) : Execution Unit := do
  let d ← get
  d.reportSaved path
  let files ← attempt (.file path) (ExceptT.mk (pure (d.savedFiles path)))
  modify (setFiles files)

/-- An error in the log has no line end after it. -/
def logError (e : Command.Error) : Logged Unit :=
  Logged.error (String.ofList (Text.trimRight e.report.toList))

abbrev FileRunner := String → Execution String

/-- Keeps what a command file has printed, or logs why it did not run. -/
def keep (result : Except Command.Error String) (d : Debugger) : Logged Debugger :=
  match result with
  | .ok text => return d.mapSession (·.print text)
  | .error e => do
    logError e
    return d

/-- Carries out what firing breakpoints ask for. What they print is kept until a command shows
it. -/
def react (runFile : FileRunner) (reaction : Reaction) (d : Debugger) : Logged Debugger :=
  match reaction with
  | .remember processor index => return d.mapSession (·.remember processor index)
  | .reset => return d.mapSession (·.reset)
  | .inform info => return d.mapSession (·.print (d.infoText info))
  | .informLocked => return d.mapSession (·.print (d.infoText d.session.lockedInfo))
  | .run path resets => do
    let (result, d) ← (runFile path).run d
    let d ← keep result d
    return if resets then d.mapSession (·.reset) else d

def verdict (cpu dsp : Bool) : String :=
  match cpu, dsp with
  | false, false => "No breakpoint hit.\n"
  | true, false => "CPU breakpoint hit.\n"
  | false, true => "DSP breakpoint hit.\n"
  | true, true => "CPU and DSP breakpoints hit.\n"

/-- Tests the breakpoints of the CPU and then those of the DSP. Shows all that is kept for showing,
and then which processor has to stop. -/
def scanAll (runFile : FileRunner) : Action String := do
  let cpu ← Scene.scan (react runFile) .cpu
  let dsp ← if (← get).settings.dspEnabled then Scene.scan (react runFile) .dsp else pure false
  let kept := (← get).session.output
  modify (mapSession fun s => { s with output := "" })
  return kept ++ verdict cpu dsp

def execute (runFile : FileRunner) : Command → Execution String
  | .breakpoint processor args => changeBreakpoints processor args
  | .address processor args => breakAt processor args
  | .evaluate processor expression => return valueText (← evaluate processor expression)
  | .registers processor none => return (← get).infoText (registersInfo processor)
  | .registers processor (some (name, expression)) => do
    assign processor name expression
    return ""
  | .write address bytes => do
    write address bytes
    return ""
  | .memory range => dump range
  | .scan => scanAll runFile
  | .save path => do
    save path
    return ""
  | .variables => return Variable.listing (← get).machine
  | .run path => runFile path
  | .help => return Help.commandList

def executeIn (runFile : FileRunner) (line : String) : Execution String := do
  match Command.read line with
  | .error e => throw e
  | .ok none => return ""
  | .ok (some command) => execute runFile command

/-- Runs lines one after the other. A line that fails is logged and does not keep others from
running. -/
def runLines (runFile : FileRunner) : List String → Action String
  | [] => return ""
  | line :: more => do
    match ← (executeIn runFile line).run with
    | .ok text => return text ++ (← runLines runFile more)
    | .error e =>
      logError e
      runLines runFile more

/-- Runs a command file when so many command files may still run inside each other. -/
def runFileIn : Nat → FileRunner
  | 0, _ => throw (.fileDepth maxFileDepth)
  | room + 1, path => do
    let d ← get
    let text ← attempt (.file path) (ExceptT.mk (pure (d.files.readText path)))
    Logged.info s!"Reading debugger commands from '{path}'..."
    modify (mapSession fun s => { s with fileDepth := s.fileDepth + 1 })
    let printed ← runLines (runFileIn room) ((Text.lines text.toList).map String.ofList)
    modify (mapSession fun s => { s with fileDepth := s.fileDepth - 1 })
    return printed

def room (d : Debugger) : Nat :=
  maxFileDepth - d.session.fileDepth

def executeLine (line : String) : Execution String := do
  executeIn (runFileIn (← get).room) line

def runFile (path : String) : Execution String := do
  runFileIn (← get).room path

def matchBreakpoints : Action String := do
  scanAll (runFileIn (← get).room)

end Debugger

end Monitor

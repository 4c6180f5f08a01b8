import Monitor.Breakpoint.List
import Monitor.Help
import Monitor.Settings

namespace Monitor

structure Store where
  cpu : BreakpointList := { processor := .cpu }
  dsp : BreakpointList := { processor := .dsp }
  deriving DecidableEq, Repr

namespace Store

def list (s : Store) : Processor → BreakpointList
  | .cpu => s.cpu
  | .dsp => s.dsp

def setList (s : Store) (l : BreakpointList) : Processor → Store
  | .cpu => { s with cpu := l }
  | .dsp => { s with dsp := l }

def revise {ε α : Type} (processor : Processor) (x : BreakpointList → Revised BreakpointList ε α) :
    Revision Store ε α :=
  .within (·.setList · processor) fun s => x (s.list processor)

def add (s : Store) (processor : Processor) (text : String) (options : Breakpoint.Options)
    (machine : Machine) (radix : Radix) : Revised Store Condition.Error Nat :=
  .on s (revise processor (·.add text options machine radix))

def remove (s : Store) (processor : Processor) (index : Nat) :
    Attempt (Failed Store Breakpoint.Error) Store := do
  let (_, s) ← Revised.on s (revise processor (·.remove index))
  return s

def removeAll (s : Store) (processor : Processor) : Logged Store :=
  return s.setList (← (s.list processor).removeAll) processor

/-- The commands that set the breakpoints again, without their options. -/
def dump (s : Store) : String :=
  String.join (s.cpu.items.map fun b => s!"b {b.expression}\n") ++
    String.join (s.dsp.items.map fun b => s!"db {b.expression}\n")

structure Context where
  machine : Machine
  settings : Settings
  files : Files

/-- Sets a breakpoint, or removes one if the text is just its index. -/
def change (processor : Processor) (cs : List Char) (context : Context) :
    Revision Store Breakpoint.Error Unit := do
  let (front, tail?) := Breakpoint.splitOptions cs
  let options ← .aside (ExceptT.mk (pure
    (((tail?.map (Breakpoint.Options.read context.files)).getD (.ok {})).mapError .options)))
  let front := Text.trim front
  if !front.isEmpty && front.all Text.isAsciiDigit then
    revise processor (·.remove (Text.ofDigits 10 front))
  else
    let _ ← (revise processor (·.add (String.ofList front) options context.machine
      context.settings.radix)).adapt .condition

/-- Runs a breakpoint command: without arguments it lists, else it helps, removes or sets. Gives
what the command prints. -/
def command (s : Store) (processor : Processor) (args : Option String) (context : Context) :
    Revised Store Breakpoint.Error String :=
  .on s do
    match args with
    | none => return (s.list processor).listing
    | some args =>
      let cs := Text.trim args.toList
      if "help".toList.isPrefixOf cs then return Help.conditionForms
      else if cs = "all".toList then
        set (← s.removeAll processor)
        return ""
      else if processor = .dsp && !context.settings.dspEnabled then throw .dspDisabled
      else
        change processor cs context
        return ""

def addressOptionLength : Nat := 5

/-- Sets a breakpoint for the program counter of a processor, and gives its address. -/
def addressCommand (s : Store) (processor : Processor) (args : String) (context : Context) :
    Revised Store Breakpoint.Error UInt32 :=
  .on s do
    let (front, tail?) := Breakpoint.splitOptions args.toList
    let text := String.ofList front
    let scope : Scope := ⟨context.machine, processor, context.settings.radix⟩
    let address ← .aside ((Expression.evaluate scope text).adapt (.expression text))
    let option (tail : List Char) : String :=
      " :" ++ String.ofList ((Text.trim tail).take addressOptionLength)
    let condition := "pc=$" ++ Text.hex address ++ (tail?.map option).getD ""
    let _ ← .of (·.command processor (some condition) context)
    return address

end Store

end Monitor

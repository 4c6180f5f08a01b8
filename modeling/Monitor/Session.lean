import Monitor.Breakpoint.Options
import Monitor.Machine.State
import Monitor.Text.Digits
import Monitor.Variable

namespace Monitor

structure Session where
  /-- The breakpoints that fired last, the oldest first. -/
  history : List (Processor × Nat) := []
  lockedInfo : Breakpoint.Info := .registers
  nextDump : Option UInt32 := none
  fileDepth : Nat := 0
  /-- What breakpoints have printed and no command has shown yet. -/
  output : String := ""
  deriving DecidableEq, Repr

namespace Session

def historySize : Nat := 16

def remember (s : Session) (processor : Processor) (index : Nat) : Session :=
  let kept := if historySize ≤ s.history.length then s.history.drop 1 else s.history
  { s with history := kept ++ [(processor, index)] }

def reset (s : Session) : Session :=
  { s with nextDump := none }

def print (s : Session) (text : String) : Session :=
  { s with output := s.output ++ text }

end Session

namespace Breakpoint.Info

open Text

/-- Cells in rows of four. A last row that is not full ends with a line all the same. -/
def rows (cells : List String) : String :=
  let separate (cell : String × Nat) : String :=
    cell.1 ++ if cell.2 % 4 = 3 then "\n" else "  "
  String.join (cells.zipIdx.map separate) ++ if cells.length % 4 = 0 then "" else "\n"

def cpuCell (m : Machine) (r : CpuRegister) : String :=
  padRight 4 r.name ++ " $" ++ hexWide 8 (m.cpuRegister r)

def dspCell (m : Machine) (r : DspRegister) : String :=
  padRight 3 r.name ++ " $" ++ hexWide 6 (m.dspRegister r)

def historyText (s : Session) : String :=
  if s.history.isEmpty then "No breakpoint hits.\n"
  else String.join (s.history.map fun (processor, index) =>
    s!"{processor.name} breakpoint {index}\n")

def text (m : Machine) (s : Session) : Info → String
  | .registers => rows ((CpuRegister.all m.level).map (cpuCell m))
  | .dspRegisters => rows (DspRegister.all.map (dspCell m))
  | .variables => Variable.listing m
  | .history => historyText s

end Breakpoint.Info

end Monitor

import Monitor.Breakpoint.Basic
import Monitor.Breakpoint.Error
import Monitor.Condition.Parsed
import Monitor.Condition.Tracking

namespace Monitor

/-- The breakpoints of one processor. They are counted from one. -/
structure BreakpointList where
  processor : Processor
  items : List Breakpoint := []
  scanning : Bool := false
  capacity : Nat := 0
  deriving DecidableEq, Repr

namespace BreakpointList

def size (l : BreakpointList) : Nat :=
  l.items.length

def get? (l : BreakpointList) (index : Nat) : Option Breakpoint :=
  if index = 0 then none else l.items[index - 1]?

def firstCapacity : Nat := 16

/-- The room in a list that another breakpoint is to be put into: one place always stays free. -/
def nextCapacity (l : BreakpointList) : Nat :=
  if l.capacity ≤ l.size + 1 then
    if l.capacity = 0 then firstCapacity else 2 * l.capacity
  else l.capacity

def reportAdded (l : BreakpointList) (text : String) (count : Nat) (options : Breakpoint.Options) :
    Logged Unit :=
  if options.quiet then return
  else do
    let name := s!"{l.processor.name} condition breakpoint {l.size + 1}"
    Logged.info s!"{name} with {count} condition(s) added:\n\t{text}"
    options.notes.forM Logged.info

def reserve (l : BreakpointList) : BreakpointList :=
  { l with capacity := l.nextCapacity }

def push (l : BreakpointList) (b : Breakpoint) : BreakpointList :=
  { l with items := l.items ++ [b] }

/-- Appends a breakpoint for a condition text, and gives its index. Conditions that compare a value
with itself are frozen at once. -/
def add (l : BreakpointList) (text : String) (options : Breakpoint.Options) (machine : Machine)
    (radix : Radix) : Revised BreakpointList Condition.Error Nat :=
  .on l do
    let parsed ← .aside (Condition.parse ⟨machine, l.processor, radix⟩ text)
    modify reserve
    let l ← get
    l.reportAdded parsed.text parsed.conditions.length options
    let (_, conditions) ← Condition.freezeAll machine parsed.conditions
    modify (·.push { expression := parsed.text, options, conditions })
    return l.size + 1

def reportRemoved (l : BreakpointList) (index : Nat) (b : Breakpoint) : Logged Unit :=
  if b.options.quiet then return
  else Logged.info s!"Removed {l.processor.name} breakpoint {index}:\n{b.line}"

/-- Removes the breakpoint with an index. During a scan it is only marked. -/
def remove (l : BreakpointList) (index : Nat) : Revised BreakpointList Breakpoint.Error Unit :=
  .on l do
    if l.items.isEmpty then throw (.noBreakpoints l.processor)
    else
      match l.get? index with
      | none => throw (.noSuchBreakpoint l.processor)
      | some b =>
        if l.scanning then
          set { l with items := l.items.set (index - 1) { b with deleted := true } }
        else
          set { l with items := l.items.eraseIdx (index - 1) }
          l.reportRemoved index b

def discard (l : BreakpointList) (index : Nat) : Logged BreakpointList := do
  match ← (l.remove index).run with
  | .ok (_, l) => return l
  | .error f => return f.left

def discardFrom (l : BreakpointList) : Nat → Logged BreakpointList
  | 0 => return l
  | index + 1 => do (← l.discard (index + 1)).discardFrom index

def removeAll (l : BreakpointList) : Logged BreakpointList := do
  let l ← l.discardFrom l.size
  Logged.info s!"{l.processor.name} breakpoints: {l.size}"
  return l

def sweepAt (l : BreakpointList) (index : Nat) : Logged BreakpointList :=
  match l.get? index with
  | none => return l
  | some b =>
    if b.deleted then
      { l with items := l.items.set (index - 1) { b with deleted := false } }.discard index
    else return l

def sweepFrom (l : BreakpointList) : Nat → Logged BreakpointList
  | 0 => return l
  | index + 1 => do (← l.sweepAt (index + 1)).sweepFrom index

/-- Drops the breakpoints that were marked during a scan, the last one first. -/
def sweep (l : BreakpointList) : Logged BreakpointList :=
  l.sweepFrom l.size

def listing (l : BreakpointList) : String :=
  if l.items.isEmpty then s!"No conditional {l.processor.name} breakpoints.\n"
  else
    let line (b : Breakpoint × Nat) : String :=
      Text.padLeft 4 ' ' (toString b.2) ++ ":" ++ b.1.line ++ "\n"
    s!"{l.size} conditional {l.processor.name} breakpoints:\n" ++
      String.join ((l.items.zipIdx 1).map line)

def hasExpression (l : BreakpointList) (index : Nat) (text : String) : Bool :=
  (l.get? index).any (·.expression == text)

end BreakpointList

end Monitor

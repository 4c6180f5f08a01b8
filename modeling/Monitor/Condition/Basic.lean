import Monitor.Condition.Comparison
import Monitor.Log
import Monitor.Variable

namespace Monitor

inductive Source
  | literal (number : UInt32)
  | register (r : Register)
  | variable (v : Variable)
  deriving DecidableEq, Repr

def Source.read (m : Machine) : Source → UInt32
  | .literal number => number
  | .register r => m.register r
  | .variable v => v.read m

structure Value where
  source : Source
  /-- The source is the address of the value, not the value. -/
  indirect : Bool
  /-- The memory space of an address of the DSP. -/
  space : Option Space
  bits : Nat
  mask : UInt32
  deriving DecidableEq, Repr

namespace Value

def width (v : Value) : Width :=
  (Width.ofBits? v.bits).getD .long

def readRaw (m : Machine) (v : Value) : UInt32 :=
  let number := v.source.read m
  if v.indirect then m.readMemory number v.space v.width else number

def read (m : Machine) (v : Value) : UInt32 :=
  v.readRaw m &&& v.mask

/-- The number of a side that is just a number. -/
def number? (v : Value) : Option UInt32 :=
  match v.source, v.indirect with
  | .literal number, false => some number
  | _, _ => none

/-- The address of a side that reads memory at a fixed address. -/
def address? (v : Value) : Option UInt32 :=
  match v.source, v.indirect with
  | .literal address, true => some address
  | _, _ => none

end Value

structure Condition where
  left : Value
  comparison : Comparison
  right : Value
  /-- Whether the right side becomes the value of the left one each time the condition holds. -/
  tracks : Bool := false
  deriving DecidableEq, Repr

namespace Condition

def holds (m : Machine) (c : Condition) : Bool :=
  c.comparison.holds (c.left.read m) (c.right.read m)

def refresh (m : Machine) (c : Condition) : Condition :=
  if c.tracks then { c with right := { c.right with source := .literal (c.left.read m) } } else c

def report (m : Machine) (c : Condition) : Logged Unit :=
  if c.tracks then
    let value := Text.hex (c.left.read m)
    match c.left.address? with
    | some address =>
      let address := Text.hex address
      Logged.info s!"  ${address} = ${value}"
    | none => Logged.info s!"  ${value}"
  else return

def test (m : Machine) (c : Condition) : Logged (Bool × Condition) := do
  if c.holds m then
    c.report m
    return (true, c.refresh m)
  else return (false, c)

/-- Tests conditions up to the first that does not hold. -/
def testAll (m : Machine) : List Condition → Logged (Bool × List Condition)
  | [] => return (true, [])
  | c :: more => do
    let (held, c) ← c.test m
    if held then
      let (held, more) ← testAll m more
      return (held, c :: more)
    else return (false, c :: more)

end Condition

end Monitor

import Monitor.Machine.State
import Monitor.Text.Digits

namespace Monitor.Dump

open Text

def lineLength : Nat := 16

def defaultLength : Nat := 64

/-- The last address of a dump that is given no end; it stays in the address space. -/
def defaultEnd (start : UInt32) : UInt32 :=
  .ofNat (min (start.toNat + defaultLength - 1) (UInt32.size - 1))

def glyph (byte : UInt8) : Char :=
  if 0x21 ≤ byte && byte ≤ 0x7e then Char.ofNat byte.toNat else '.'

def bytes (m : Machine) (start : UInt32) : Nat → List UInt8
  | 0 => []
  | n + 1 => m.memory.peek start :: bytes m (start + 1) n

def line (m : Machine) (start : UInt32) (count : Nat) : String :=
  let shown := bytes m start count
  hexWide 8 start ++ ":" ++ String.join (shown.map fun b => " " ++ hexWide 2 b.toUInt32) ++
    "  " ++ String.ofList (shown.map glyph) ++ "\n"

def lines (m : Machine) (start : UInt32) (count : Nat) : List String :=
  if count ≤ lineLength then [line m start count]
  else line m start lineLength :: lines m (start + 16) (count - lineLength)
termination_by count
decreasing_by simp_all only [lineLength]; omega

def text (m : Machine) (first last : UInt32) : String :=
  String.join (lines m first (last.toNat - first.toNat + 1))

end Monitor.Dump

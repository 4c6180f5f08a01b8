import Monitor.Breakpoint.Options
import Monitor.Condition.Basic

namespace Monitor

/-- A counter of 32 bits. After the last number it starts over. -/
abbrev Counter := Fin UInt32.size

def Counter.zero : Counter :=
  ⟨0, by decide⟩

def Counter.next (n : Counter) : Counter :=
  ⟨(n.val + 1) % UInt32.size, Nat.mod_lt _ (by decide)⟩

structure Breakpoint where
  expression : String
  options : Breakpoint.Options
  conditions : List Condition
  hits : Counter := .zero
  /-- It was removed during a scan and goes when the scan ends. -/
  deleted : Bool := false
  deriving DecidableEq, Repr

namespace Breakpoint

def line (b : Breakpoint) : String :=
  "\t" ++ b.expression ++ b.options.text ++ if b.deleted then " (deleted)" else ""

def test (m : Machine) (b : Breakpoint) : Logged (Bool × Breakpoint) := do
  let (held, conditions) ← Condition.testAll m b.conditions
  return (held, { b with conditions, hits := if held then b.hits.next else b.hits })

end Breakpoint

end Monitor

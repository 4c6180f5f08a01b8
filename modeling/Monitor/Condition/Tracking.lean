import Monitor.Condition.Basic

namespace Monitor.Condition

def isReflexive (c : Condition) : Bool :=
  c.left == c.right

/-- Replaces the right side by its present value. All but equality then track the left side. -/
def freeze (m : Machine) (c : Condition) : Condition :=
  if c.isReflexive then
    { c with
      right := { c.right with source := .literal (c.right.read m), indirect := false }
      tracks := c.tracks || c.comparison != .equal }
  else c

def reportFrozen (m : Machine) (number : Nat) (c : Condition) : Logged Unit :=
  if c.isReflexive && c.comparison == .equal then
    let value := Text.hex (c.right.read m)
    Logged.info s!"\t{number}. condition: {c.comparison.symbol} ${value}"
  else return

def freezeFrom (m : Machine) (number : Nat) : List Condition → Logged (List Condition)
  | [] => return []
  | c :: more => do
    c.reportFrozen m number
    return c.freeze m :: (← freezeFrom m (number + 1) more)

/-- Freezes every condition that compares a value with itself, and tells whether any of those
tracks. -/
def freezeAll (m : Machine) (conditions : List Condition) : Logged (Bool × List Condition) := do
  let frozen ← freezeFrom m 1 conditions
  let tracks := conditions.any fun c => c.isReflexive && c.comparison != .equal
  if tracks then Logged.info "-> Track value changes, show value(s) when matched."
  return (tracks, frozen)

end Monitor.Condition

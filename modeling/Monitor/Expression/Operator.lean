namespace Monitor.Expression

inductive Operator
  | or
  | and
  | xor
  | shiftRight
  | shiftLeft
  | add
  | subtract
  | multiply
  | divide
  deriving DecidableEq, Repr

inductive Stack
  | operators
  | values
  | parentheses
  deriving DecidableEq, Repr

inductive Error
  | empty
  | malformed
  | unbalanced
  | undefined
  | full (stack : Stack)
  /-- A state that no expression leads to. -/
  | impossible
  deriving DecidableEq, Repr

def Error.message : Error → String
  | .empty => "No expression given"
  | .malformed => "Syntax error"
  | .unbalanced => "Mismatched parenthesis"
  | .undefined => "Undefined result (1/0)"
  | .full _ => "Operation/value stack full"
  | .impossible => "Internal program error"

namespace Operator

/-- Operators of a higher level bind tighter. -/
def level : Operator → Nat
  | .or | .and | .xor => 0
  | .shiftRight | .shiftLeft => 1
  | .add | .subtract => 2
  | .multiply | .divide => 3

def ofChar? : Char → Option Operator
  | '|' => some .or
  | '&' => some .and
  | '^' => some .xor
  | '+' => some .add
  | '-' => some .subtract
  | '*' => some .multiply
  | '/' => some .divide
  | _ => none

/-- Shifts all bits out when the amount is that large, and keeps the sign. -/
def shiftRightBy (a amount : Int64) : Int64 :=
  if 64 ≤ amount then (if a < 0 then -1 else 0) else a >>> amount

def shiftLeftBy (a amount : Int64) : Int64 :=
  if 64 ≤ amount then 0 else a <<< amount

/-- Signed arithmetic of 64 bits that wraps around; quotients are rounded toward zero. -/
def apply (op : Operator) (a b : Int64) : Except Error Int64 :=
  match op with
  | .or => .ok (a ||| b)
  | .and => .ok (a &&& b)
  | .xor => .ok (a ^^^ b)
  | .shiftRight => if b < 0 then .error .undefined else .ok (shiftRightBy a b)
  | .shiftLeft => if b < 0 then .error .undefined else .ok (shiftLeftBy a b)
  | .add => .ok (a + b)
  | .subtract => .ok (a - b)
  | .multiply => .ok (a * b)
  | .divide => if b = 0 then .error .undefined else .ok (a / b)

end Operator

/-- What may stand in front of the first operand of a level, besides plus signs. -/
inductive Sign
  | negate
  | complement
  deriving DecidableEq, Repr

def Sign.apply : Sign → Int64 → Int64
  | .negate, a => -a
  | .complement, a => ~~~a

structure Failure where
  error : Error
  offset : Nat
  deriving DecidableEq, Repr

end Monitor.Expression

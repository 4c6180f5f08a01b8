import Monitor.Expression.Token
import Monitor.Log
import Monitor.Text.Caret

namespace Monitor.Expression

def maxParentheses : Nat := 16

def maxOperators : Nat := 64

def maxValues : Nat := 64

/-- What waits inside one pair of parentheses, or outside of all: a sign for the first operand, or
operators with their left operands, last first. -/
structure Level where
  sign : Option Sign := none
  operators : List Operator := []
  values : List Int64 := []
  deriving DecidableEq, Repr

namespace Level

def operatorCount (level : Level) : Nat :=
  level.operators.length + level.sign.toList.length

/-- Applies the waiting operators that bind at least as tightly as a new one, and puts the new one
in their place. -/
def reduce (op : Operator) : List Operator → List Int64 → Except Error Level
  | [], values => .ok ⟨none, [op], values⟩
  | below :: more, values =>
    if below.level < op.level then .ok ⟨none, op :: below :: more, values⟩
    else
      match values with
      | b :: a :: rest => do reduce op more ((← below.apply a b) :: rest)
      | _ => .error .impossible

/-- Takes an operator and its left operand. The first operand takes the sign, if there is one. -/
def push (level : Level) (op : Operator) (value : Int64) : Except Error Level :=
  match level.sign with
  | some sign => .ok ⟨none, op :: level.operators, sign.apply value :: level.values⟩
  | none => reduce op level.operators (value :: level.values)

end Level

structure Progress where
  level : Level := {}
  outer : List Level := []
  operand : Option Int64 := none
  deriving DecidableEq, Repr

namespace Progress

def operatorCount (p : Progress) : Nat :=
  (p.level :: p.outer).foldr (fun level n => level.operatorCount + n) 0

def valueCount (p : Progress) : Nat :=
  (p.level :: p.outer).foldr (fun level n => level.values.length + n) 0

def putOperand (p : Progress) (value : Int64) : Progress :=
  { p with operand := some value }

def putOperator (p : Progress) (op : Operator) (value : Int64) : Except Error Progress :=
  if maxOperators ≤ p.operatorCount then .error (.full .operators)
  else if maxValues ≤ p.valueCount then .error (.full .values)
  else do return { p with level := ← p.level.push op value, operand := none }

/-- A sign has to be the first thing of its level. -/
def putSign (p : Progress) (sign : Sign) : Except Error Progress :=
  if p.operand.isSome || 0 < p.level.operatorCount then .error .malformed
  else if maxOperators ≤ p.operatorCount then .error (.full .operators)
  else .ok { p with level := { p.level with sign := some sign } }

def putPlus (p : Progress) : Except Error Progress :=
  if 0 < p.level.operatorCount then .error .malformed else .ok p

def operator (p : Progress) (op : Operator) : Except Error Progress :=
  match p.operand, op with
  | some value, op => p.putOperator op value
  | none, .subtract => p.putSign .negate
  | none, .add => p.putPlus
  | none, _ => .error .malformed

def openLevel (p : Progress) : Except Error Progress :=
  if p.operand.isSome then .error .malformed
  else if maxParentheses ≤ p.outer.length then .error (.full .parentheses)
  else .ok { level := {}, outer := p.level :: p.outer }

def total (p : Progress) (value : Int64) : Except Error Int64 := do
  let p ← p.putOperator .or value
  match p.level.values with
  | value :: _ => return value
  | [] => throw .impossible

end Progress

def ofExcept {α : Type} (x : Except Error α) : Attempt Error α :=
  ExceptT.mk (pure x)

/-- Replaces a level by the long that its value points to. -/
def closeLevel (machine : Machine) (p : Progress) : Attempt Error Progress :=
  match p.operand, p.outer with
  | none, _ => throw .malformed
  | some _, [] => throw .unbalanced
  | some value, level :: outer => do
    let address := (← ofExcept (p.total value)).toUInt64.toUInt32
    let value := machine.memory.read address .long
    let addressText := Text.hex address
    let valueText := Text.hex value
    Logged.info s!"  value in RAM at (${addressText}).l = ${valueText}"
    return { level, outer, operand := some value.toUInt64.toInt64 }

def step (machine : Machine) (p : Progress) : Token → Attempt Error Progress
  | .operator op => ofExcept (p.operator op)
  | .complement => ofExcept (p.putSign .complement)
  | .opening => ofExcept p.openLevel
  | .closing => closeLevel machine p
  | .operand value =>
    if p.operand.isSome then throw .malformed else return p.putOperand value.toUInt64.toInt64
  | .unreadable => throw .malformed

def run (machine : Machine) (p : Progress) : List Placed → Attempt Failure Progress
  | [] => return p
  | t :: more => do
    let p ← (step machine p t.token).adapt (⟨·, t.offset⟩)
    run machine p more

def finish (p : Progress) : Except Error Int64 :=
  match p.operand with
  | none => if p.operatorCount = 0 && p.valueCount = 0 then .error .empty else .error .malformed
  | some value => do
    let value ← p.total value
    if p.outer.isEmpty then return value else throw .unbalanced

/-- The low 32 bits of the value of an expression. -/
def evaluate (scope : Scope) (text : String) : Attempt Failure UInt32 := do
  let cs := text.toList
  let p ← run scope.machine {} (tokens scope 0 cs)
  let value ← (ofExcept (finish p)).adapt (⟨·, Text.size cs⟩)
  return value.toUInt64.toUInt32

def Failure.report (f : Failure) (heading text : String) : String :=
  Text.caretDiagram heading text f.offset f.error.message

end Monitor.Expression

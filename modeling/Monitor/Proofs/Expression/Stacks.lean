import Monitor.Expression.Evaluation

namespace Monitor.Expression

inductive Waiting
  | binary (op : Operator)
  | sign (sign : Sign)
  deriving DecidableEq, Repr

structure Mark where
  operators : Nat
  values : Nat
  deriving DecidableEq, Repr

/-- The state of an evaluation that has one stack of operators and one of values for all levels, and
a mark for each level. The last thing put on a stack comes first. -/
structure Stacks where
  operators : List Waiting := []
  values : List Int64 := []
  marks : List Mark := [⟨0, 0⟩]
  operand : Option Int64 := none
  deriving DecidableEq, Repr

/-- States in which an evaluation on stacks could not go on. -/
inductive Fault
  | markMissing
  | signCompared
  | signBetweenValues
  /-- A sign was to be applied, but the stacks do not reach down to it or to its operand. -/
  | signMissing
  | operatorAsSign
  | operandMissing
  | addressMissing
  | answerMissing
  deriving DecidableEq, Repr

inductive Stop
  | error (e : Error)
  | fault (f : Fault)
  deriving DecidableEq, Repr

namespace Waiting

def level : Waiting → Except Stop Nat
  | .binary op => .ok op.level
  | .sign _ => .error (.fault .signCompared)

def apply (w : Waiting) (a b : Int64) : Except Stop Int64 :=
  match w with
  | .binary op => (op.apply a b).mapError .error
  | .sign _ => .error (.fault .signBetweenValues)

/-- Applies the operators below the top one, down to a height of the stack, for as long as they bind
at least as tightly as the top one. -/
def fold (height : Nat) (top : Waiting) :
    List Waiting → List Int64 → Except Stop (List Waiting × List Int64)
  | [], values => .ok ([top], values)
  | below :: more, values =>
    if (below :: more).length ≤ height then .ok (top :: below :: more, values)
    else do
      if (← below.level) < (← top.level) then return (top :: below :: more, values)
      else
        match values with
        | b :: a :: rest => fold height top more ((← below.apply a b) :: rest)
        | _ => throw (.fault .operandMissing)

end Waiting

namespace Stacks

def mark (s : Stacks) : Except Stop Mark :=
  match s.marks with
  | mark :: _ => .ok mark
  | [] => .error (.fault .markMissing)

def pushOperator (s : Stacks) (w : Waiting) : Except Stop Stacks :=
  if maxOperators ≤ s.operators.length then .error (.error (.full .operators))
  else .ok { s with operators := w :: s.operators }

def pushValue (s : Stacks) (value : Int64) : Except Stop Stacks :=
  if maxValues ≤ s.values.length then .error (.error (.full .values))
  else .ok { s with values := value :: s.values }

def checkStart (s : Stacks) : Except Stop Unit :=
  if s.operand.isSome then .error (.error .malformed)
  else do
    let mark ← s.mark
    if mark.operators < s.operators.length then throw (.error .malformed)

def putSign (s : Stacks) (sign : Sign) : Except Stop Stacks := do
  s.checkStart
  s.pushOperator (.sign sign)

def applySign (s : Stacks) : Except Stop Stacks :=
  match s.operators, s.values with
  | top :: .sign sign :: operators, value :: values =>
    .ok { s with operators := top :: operators, values := sign.apply value :: values }
  | _ :: .binary _ :: _, _ :: _ => .error (.fault .operatorAsSign)
  | _, _ => .error (.fault .signMissing)

def applyOperators (s : Stacks) : Except Stop Stacks := do
  let mark ← s.mark
  match s.operators with
  | [] => return s
  | top :: more =>
    let (operators, values) ← top.fold mark.operators more s.values
    return { s with operators, values }

/-- Applies what the top operator leaves no reason to wait for. -/
def settle (s : Stacks) : Except Stop Stacks := do
  let mark ← s.mark
  if s.operators.length ≤ mark.operators + 1 then return s
  else if s.values.length = mark.values + 1 then s.applySign
  else s.applyOperators

def putOperator (s : Stacks) (op : Operator) (value : Int64) : Except Stop Stacks := do
  let s ← s.pushOperator (.binary op)
  let s ← s.pushValue value
  let s ← s.settle
  return { s with operand := none }

def operator (s : Stacks) (op : Operator) : Except Stop Stacks :=
  match s.operand, op with
  | some value, op => s.putOperator op value
  | none, .subtract => s.putSign .negate
  | none, .add => do
    s.checkStart
    return s
  | none, _ => do
    s.checkStart
    throw (.error .malformed)

def openLevel (s : Stacks) : Except Stop Stacks :=
  if s.operand.isSome then .error (.error .malformed)
  else if maxParentheses < s.marks.length then .error (.error (.full .parentheses))
  else .ok { s with marks := ⟨s.operators.length, s.values.length⟩ :: s.marks }

def last (s : Stacks) (missing : Fault) : Except Stop Int64 :=
  match s.values with
  | value :: _ => .ok value
  | [] => .error (.fault missing)

def dropLevel (s : Stacks) (operand : Int64) : Except Stop Stacks := do
  let mark ← s.mark
  return {
    operators := s.operators.drop (s.operators.length - mark.operators)
    values := s.values.drop (s.values.length - mark.values)
    marks := s.marks.tail
    operand := some operand }

def closeLevel (machine : Machine) (s : Stacks) : Attempt Stop Stacks :=
  match s.operand with
  | none => throw (.error .malformed)
  | some value =>
    if s.marks.length < 2 then throw (.error .unbalanced)
    else do
      let s ← ExceptT.mk (pure (s.putOperator .or value))
      let address := (← ExceptT.mk (pure (s.last .addressMissing))).toUInt64.toUInt32
      let value := machine.memory.read address .long
      let addressText := Text.hex address
      let valueText := Text.hex value
      Logged.info s!"  value in RAM at (${addressText}).l = ${valueText}"
      ExceptT.mk (pure (s.dropLevel value.toUInt64.toInt64))

def step (machine : Machine) (s : Stacks) : Token → Attempt Stop Stacks
  | .operator op => ExceptT.mk (pure (s.operator op))
  | .complement => ExceptT.mk (pure (s.putSign .complement))
  | .opening => ExceptT.mk (pure s.openLevel)
  | .closing => s.closeLevel machine
  | .operand value =>
    if s.operand.isSome then throw (.error .malformed)
    else return { s with operand := some value.toUInt64.toInt64 }
  | .unreadable => throw (.error .malformed)

def run (machine : Machine) (s : Stacks) : List Placed → Attempt (Stop × Nat) Stacks
  | [] => return s
  | t :: more => do
    let s ← (s.step machine t.token).adapt ((·, t.offset))
    run machine s more

def finish (s : Stacks) : Except Stop Int64 :=
  match s.operand with
  | none =>
    if s.operators.isEmpty && s.values.isEmpty then .error (.error .empty)
    else .error (.error .malformed)
  | some value => do
    let s ← s.putOperator .or value
    if 1 < s.marks.length then throw (.error .unbalanced)
    else s.last .answerMissing

def evaluate (scope : Scope) (text : String) : Attempt (Stop × Nat) UInt32 := do
  let cs := text.toList
  let s ← run scope.machine {} (tokens scope 0 cs)
  let value ← (ExceptT.mk (pure s.finish)).adapt ((·, Text.size cs))
  return value.toUInt64.toUInt32

end Stacks

end Monitor.Expression

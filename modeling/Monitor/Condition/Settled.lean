import Monitor.Condition.Written

namespace Monitor.Condition

/-- Settles the widths and masks of two sides. What one leaves open it takes from the other. -/
def settle (left right : Written) : Value × Value :=
  let default := if left.space.isSome then 24 else 32
  let leftBits := (left.bits.or right.bits).getD default
  let rightBits := right.bits.getD leftBits
  let leftMask := (left.mask.or right.mask).getD (lowBits leftBits)
  let rightMask := right.mask.getD leftMask
  (⟨left.source, left.indirect, left.space, leftBits, leftMask⟩,
    ⟨right.source, right.indirect, right.space, rightBits, rightMask⟩)

def visible (v : Value) : UInt32 :=
  lowBits v.bits &&& v.mask

def warnOfMask (v : Value) : Logged Unit :=
  if visible v = v.mask then return
  else
    let mask := Text.hex v.mask
    let bits := v.bits
    Logged.warn s!"mask 0x{mask} doesn't fit into {bits} address/register bits"

def warnOfOddAddress (v : Value) : Logged Unit :=
  match v.space, v.address? with
  | none, some address =>
    if address % 2 = 1 && 8 < v.bits then
      let address := Text.hex address
      Logged.warn s!"odd CPU address 0x{address} given without using byte (.b) width"
    else return
  | _, _ => return

/-- Refuses a side that has no bit in common with the other, or a number that does not fit in what
the other side shows. -/
def checkAgainst (v other : Value) : Option Fault :=
  if visible v &&& visible other = 0 then some .masksCancel
  else
    match other.number? with
    | some number => if number &&& visible v = number then none else some .numberDoesNotFit
    | none => none

def check (index : Nat) (v other : Value) : Attempt Failure Unit := do
  warnOfMask v
  warnOfOddAddress v
  match checkAgainst v other with
  | some fault => throw ⟨fault, index⟩
  | none => return

def readComparison : Cursor → Except Failure (Comparison × Cursor)
  | ⟨index, []⟩ => throw ⟨.comparisonExpected, index⟩
  | ⟨index, .compare comparison :: rest⟩ =>
    if rest.isEmpty then throw ⟨.rightSideMissing, index + 1⟩
    else return (comparison, ⟨index + 1, rest⟩)
  | ⟨index, _⟩ => throw ⟨.invalidComparison, index⟩

def readOne (scope : Scope) (cursor : Cursor) : Attempt Failure (Condition × Cursor) := do
  let (left, cursor) ← Written.read scope cursor
  let (comparison, cursor) ← ExceptT.mk (pure (readComparison cursor))
  let (right, cursor) ← Written.read scope cursor
  let (left, right) := settle left right
  check cursor.index left right
  check cursor.index right left
  return ({ left, comparison, right }, cursor)

/-- Reads conditions joined by `&&`, as many joints as there may be. -/
def readJoined (scope : Scope) : Nat → Cursor → Attempt Failure (List Condition)
  | 0, cursor => do
    let (last, cursor) ← readOne scope cursor
    if cursor.rest.isEmpty then return [last] else throw ⟨.trailingContent, cursor.index⟩
  | joints + 1, cursor => do
    let (first, cursor) ← readOne scope cursor
    match cursor.rest with
    | [] => return [first]
    | .and :: rest => return first :: (← readJoined scope joints ⟨cursor.index + 1, rest⟩)
    | _ => throw ⟨.trailingContent, cursor.index⟩

def ofTokens (scope : Scope) (tokens : List Token) : Attempt Failure (List Condition) :=
  readJoined scope (tokens.count .and) ⟨0, tokens⟩

end Monitor.Condition

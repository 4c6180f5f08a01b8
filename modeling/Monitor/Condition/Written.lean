import Monitor.Condition.Basic
import Monitor.Condition.Error
import Monitor.Condition.Token
import Monitor.Expression.Scope

namespace Monitor.Condition

/-- A side of a condition as it is written. Its width and mask may be left to the other side. -/
structure Written where
  source : Source
  indirect : Bool
  space : Option Space
  bits : Option Nat := none
  mask : Option UInt32 := none
  deriving DecidableEq, Repr

structure Cursor where
  index : Nat
  rest : List Token
  deriving DecidableEq, Repr

namespace Written

def number? (w : Written) : Option UInt32 :=
  match w.source, w.indirect with
  | .literal number, false => some number
  | _, _ => none

def isNumber (w : Written) : Bool :=
  w.number?.isSome

/-- Addresses of the DSP are in program memory as long as nothing else is said. -/
def defaultSpace (scope : Scope) : Option Space :=
  match scope.processor with
  | .cpu => none
  | .dsp => some .p

def plain (scope : Scope) (indirect : Bool) (source : Source) : Written :=
  { source, indirect, space := defaultSpace scope }

/-- Variables have no address, so they cannot be indirect. -/
def ofVariable? (scope : Scope) (indirect : Bool) (name : String) : Option Written :=
  if indirect then none
  else (Variable.ofName? name).map fun v =>
    { plain scope indirect (.variable v) with bits := v.bits }

def ofRegister? (scope : Scope) (indirect : Bool) (name : String) : Logged (Option Written) :=
  match scope.register? name with
  | none => return none
  | some (.cpu r) =>
    return some { plain scope indirect (.register (.cpu r)) with bits := some r.bits }
  | some (.dsp r) =>
    if indirect && !r.isAddress then do
      Logged.warn "only R0-R7 DSP registers can be used for indirect addressing"
      return none
    else
      return some { plain scope indirect (.register (.dsp r)) with
        bits := some 24, mask := if indirect then none else some r.mask }

def symbolBits (processor : Processor) (address : UInt32) : Nat :=
  match processor with
  | .dsp => 24
  | .cpu => if address % 2 = 1 then 8 else 32

def ofSymbol? (scope : Scope) (indirect : Bool) (name : String) : Option Written :=
  (scope.symbol? name (if indirect then .data else .all)).map fun address =>
    { plain scope indirect (.literal address) with
      bits := some (symbolBits scope.processor address) }

/-- A name means a variable, else a register, else a symbol. -/
def ofName? (scope : Scope) (indirect : Bool) (name : String) : Logged (Option Written) := do
  match ofVariable? scope indirect name with
  | some w => return some w
  | none =>
    match ← ofRegister? scope indirect name with
    | some w => return some w
    | none => return ofSymbol? scope indirect name

def startsName (letters : List Char) : Bool :=
  letters.head?.any fun c => Text.isAsciiLetter c || c == '_'

def isValidAddress (scope : Scope) (address : UInt32) : Bool :=
  match scope.processor with
  | .cpu => scope.machine.memory.isValid address 1
  | .dsp => address ≤ 0xffff

def ofWord (scope : Scope) (indirect : Bool) (index : Nat) (letters : List Char) :
    Attempt Failure Written := do
  if startsName letters then
    match ← ofName? scope indirect (String.ofList letters) with
    | some w => return w
    | none => throw ⟨if indirect then .invalidIndirectName else .invalidName, index⟩
  else
    match Numeral.read scope.radix.toNat letters with
    | .ok number => return plain scope indirect (.literal number)
    | .error _ => throw ⟨.invalidNumber, index⟩

def checkAddress (scope : Scope) (index : Nat) (w : Written) : Attempt Failure Unit :=
  match w.source, w.indirect with
  | .literal address, true =>
    if isValidAddress scope address then return else throw ⟨.invalidAddress, index⟩
  | _, _ => return

def ofToken (scope : Scope) (indirect : Bool) (index : Nat) : Token → Attempt Failure Written
  | .word letters => do
    let w ← ofWord scope indirect index letters
    checkAddress scope index w
    return w
  | _ => throw ⟨.invalidNumber, index⟩

def readSource (scope : Scope) : Cursor → Attempt Failure (Written × Cursor)
  | ⟨index, []⟩ => throw ⟨.valueMissing, index⟩
  | ⟨index, .opening :: token :: .closing :: rest⟩ =>
    return (← ofToken scope true (index + 1) token, ⟨index + 3, rest⟩)
  | ⟨index, token :: rest⟩ => return (← ofToken scope false index token, ⟨index + 1, rest⟩)

/-- Reads the letter after a dot: the space of an address of the DSP, the width of another. -/
def withModifier (w : Written) (index : Nat) : Token → Except Failure Written
  | .word letters =>
    let letter := letters.head?.getD ' '
    let changed : Except Failure Written :=
      if w.space.isSome then
        match Space.ofLetter? letter with
        | some space => .ok { w with space := some space }
        | none => .error ⟨.invalidSpace, index⟩
      else
        match Width.ofLetter? letter with
        | some width => .ok { w with bits := some width.bits }
        | none => .error ⟨.invalidWidth, index⟩
    changed.bind fun w => if 1 < letters.length then .error ⟨.invalidModifier, index⟩ else .ok w
  | _ => .error ⟨if w.space.isSome then .invalidSpace else .invalidWidth, index⟩

def readModifier (w : Written) : Cursor → Except Failure (Written × Cursor)
  | ⟨index, .dot :: token :: rest⟩ => do
    if w.indirect then
      return (← w.withModifier (index + 1) token, ⟨index + 2, rest⟩)
    else throw ⟨.modifierNeedsAddress, index⟩
  | cursor =>
    if w.space.isSome && w.indirect then throw ⟨.spaceRequired, cursor.index⟩
    else return (w, cursor)

def maskOf? (scope : Scope) : Token → Option UInt32
  | .word letters => (Numeral.read scope.radix.toNat letters).toOption
  | _ => none

/-- Whether a mask leaves nothing of a side, or of its number if that is known. -/
def isZeroedBy (w : Written) (mask : UInt32) : Bool :=
  mask == 0 || w.number?.any fun number => number != 0 && number &&& mask == 0

def withMask (scope : Scope) (w : Written) (index : Nat) (t : Token) : Attempt Failure Written := do
  if w.isNumber then Logged.warn "plain numbers shouldn't need masks"
  match maskOf? scope t with
  | none => throw ⟨.invalidNumber, index⟩
  | some mask =>
    if w.isZeroedBy mask then throw ⟨.maskZeroesValue, index⟩
    else return { w with mask := some mask }

def readMask (scope : Scope) (w : Written) : Cursor → Attempt Failure (Written × Cursor)
  | ⟨index, .mask :: token :: rest⟩ =>
    return (← w.withMask scope (index + 1) token, ⟨index + 2, rest⟩)
  | cursor => return (w, cursor)

def read (scope : Scope) (cursor : Cursor) : Attempt Failure (Written × Cursor) := do
  let (w, cursor) ← readSource scope cursor
  let (w, cursor) ← ExceptT.mk (pure (w.readModifier cursor))
  w.readMask scope cursor

end Written

end Monitor.Condition

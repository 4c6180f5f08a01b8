import Monitor.Text.Caret

namespace Monitor.Condition

inductive Fault
  | invalidCharacter
  | comparisonMissing
  | valueMissing
  | invalidNumber
  | invalidName
  | invalidIndirectName
  | invalidAddress
  | spaceRequired
  | modifierNeedsAddress
  | invalidSpace
  | invalidWidth
  | invalidModifier
  | maskZeroesValue
  | comparisonExpected
  | invalidComparison
  | rightSideMissing
  | masksCancel
  | numberDoesNotFit
  | trailingContent
  deriving DecidableEq, Repr

def Fault.message : Fault → String
  | .invalidCharacter => "invalid character"
  | .comparisonMissing => "condition comparison missing"
  | .valueMissing => "value missing"
  | .invalidNumber => "invalid dec/hex/bin value"
  | .invalidName => "invalid variable/register/symbol name"
  | .invalidIndirectName => "invalid register/symbol name for indirection"
  | .invalidAddress => "invalid address"
  | .spaceRequired => "DSP memory addresses need to specify address space"
  | .modifierNeedsAddress =>
    "space/width modifier can be used only with an (address) expression"
  | .invalidSpace => "invalid address space modifier"
  | .invalidWidth => "invalid address width modifier"
  | .invalidModifier => "invalid address space/width modifier"
  | .maskZeroesValue => "mask zeroes value"
  | .comparisonExpected => "breakpoint comparison missing"
  | .invalidComparison => "invalid comparison character"
  | .rightSideMissing => "right side missing"
  | .masksCancel => "values masks cancel each other"
  | .numberDoesNotFit => "number doesn't fit the other side address width&mask"
  | .trailingContent => "trailing content for breakpoint condition"

/-- A fault and the index of the token that was looked at. -/
structure Failure where
  fault : Fault
  index : Nat
  deriving DecidableEq, Repr

/-- Which text an offset belongs to: the one that was typed, or its tokens joined by spaces. -/
inductive Stage
  | typed
  | joined
  deriving DecidableEq, Repr

def Stage.heading : Stage → String
  | .typed => "parsed string"
  | .joined => "tokenized string"

structure Error where
  fault : Fault
  offset : Nat
  text : String
  stage : Stage
  deriving DecidableEq, Repr

namespace Error

def message (e : Error) : String :=
  e.fault.message

def report (e : Error) : String :=
  Text.caretDiagram e.stage.heading e.text e.offset e.message

end Error

end Monitor.Condition

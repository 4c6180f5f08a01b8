import Monitor.Expression.Operand
import Monitor.Text.Split

namespace Monitor

inductive AddressRange
  | single (address : UInt32)
  | span (lower upper : UInt32)
  deriving DecidableEq, Repr

namespace AddressRange

inductive Error
  | value (text : String) (cause : Numeral.Error)
  | inverted (lower upper : UInt32)
  deriving DecidableEq, Repr

def Error.message : Error → String
  | .value text cause =>
    let reason := cause.message
    s!"Invalid address value '{text}': {reason}"
  | .inverted lower upper =>
    let lower := Text.hex lower
    let upper := Text.hex upper
    s!"Invalid range (${lower} > ${upper})"

def readEnd (scope : Scope) (cs : List Char) : Except Error UInt32 :=
  (Operand.read scope cs).mapError (.value (String.ofList cs))

def read (scope : Scope) (text : String) : Except Error AddressRange :=
  match Text.splitFirst '-' text.toList with
  | none => return .single (← readEnd scope text.toList)
  | some (low, high) => do
    let lower ← readEnd scope low
    let upper ← readEnd scope high
    if upper < lower then throw (.inverted lower upper) else return .span lower upper

end AddressRange

end Monitor

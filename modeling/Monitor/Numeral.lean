import Monitor.Settings
import Monitor.Text.Digits

namespace Monitor.Numeral

open Text

inductive Error
  | missing
  | unknownMarker (text : String)
  | noDigits (text : String)
  | overflow (text : String)
  | trailing (radix : Nat) (text : String)
  | nameTooLong (name : String)
  | invalidName (text : String)
  deriving DecidableEq, Repr

def radixName (radix : Nat) : String :=
  ((Radix.ofNat? radix).map Radix.name).getD "unknown"

def Error.message : Error → String
  | .missing => "value missing"
  | .unknownMarker text => s!"unrecognized number prefix in '{text}'"
  | .noDigits text => s!"invalid value '{text}'"
  | .overflow text => s!"overflow with value '{text}'"
  | .trailing radix text =>
    let base := radixName radix
    s!"extra characters in {base} based number '{text}'"
  | .nameTooLong name => s!"name '{name}' is too long"
  | .invalidName text => s!"name '{text}' contains non-alphanumeric characters"

/-- A number at the front of a text: its value, its length with the marker, and its radix. -/
structure Reading where
  value : UInt32
  length : Nat
  radix : Nat
  deriving DecidableEq, Repr

/-- The radix that the front of a text asks for, and the length of the marker that says so. A text
without a marker has to begin with a digit of some radix up to sixteen. -/
def marker? (default : Nat) : List Char → Option (Nat × Nat)
  | '0' :: 'b' :: _ => some (2, 2)
  | '0' :: 'o' :: _ => some (8, 2)
  | '0' :: 'd' :: _ => some (10, 2)
  | '0' :: 'h' :: _ => some (16, 2)
  | '0' :: 'x' :: _ => some (16, 2)
  | '%' :: _ => some (2, 1)
  | '#' :: _ => some (10, 1)
  | '$' :: _ => some (16, 1)
  | c :: _ => if isDigit 16 c then some (default, 0) else none
  | [] => none

/-- Reads the longest number at the front of a text; what follows it is left alone. -/
def readFront (default : Nat) (cs : List Char) : Except Error Reading :=
  if cs.isEmpty then .error .missing
  else
    match marker? default cs with
    | none => .error (.unknownMarker (String.ofList cs))
    | some (radix, length) =>
      let digits := (cs.drop length).takeWhile (isDigit radix)
      let value := ofDigits radix digits
      if digits.isEmpty then .error (.noDigits (String.ofList cs))
      else if UInt32.size ≤ value then .error (.overflow (String.ofList cs))
      else .ok ⟨.ofNat value, length + digits.length, radix⟩

def read (default : Nat) (cs : List Char) : Except Error UInt32 :=
  match readFront default cs with
  | .error e => .error e
  | .ok r =>
    if r.length < cs.length then .error (.trailing r.radix (String.ofList cs)) else .ok r.value

end Monitor.Numeral

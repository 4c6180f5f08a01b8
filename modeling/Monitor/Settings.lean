namespace Monitor

inductive Radix
  | binary
  | octal
  | decimal
  | hexadecimal
  deriving DecidableEq, Repr

namespace Radix

def toNat : Radix → Nat
  | .binary => 2
  | .octal => 8
  | .decimal => 10
  | .hexadecimal => 16

def ofNat? : Nat → Option Radix
  | 2 => some .binary
  | 8 => some .octal
  | 10 => some .decimal
  | 16 => some .hexadecimal
  | _ => none

def name : Radix → String
  | .binary => "binary"
  | .octal => "octal"
  | .decimal => "decimal"
  | .hexadecimal => "hexadecimal"

theorem ofNat?_toNat (r : Radix) : ofNat? r.toNat = some r := by
  cases r <;> rfl

end Radix

inductive SettingsError
  | radix (value : Nat)
  deriving DecidableEq, Repr

def SettingsError.message : SettingsError → String
  | .radix value => s!"invalid number base {value} (should be 2, 8, 10 or 16)"

structure Settings where
  radix : Radix := .decimal
  dspEnabled : Bool := true
  deriving DecidableEq, Repr

def Settings.withRadix (settings : Settings) (value : Nat) : Except SettingsError Settings :=
  match Radix.ofNat? value with
  | some radix => .ok { settings with radix }
  | none => .error (.radix value)

end Monitor

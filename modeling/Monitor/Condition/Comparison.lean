namespace Monitor

inductive Comparison
  | less
  | greater
  | equal
  | different
  deriving DecidableEq, Repr

namespace Comparison

def symbol : Comparison → Char
  | .less => '<'
  | .greater => '>'
  | .equal => '='
  | .different => '!'

def ofChar? : Char → Option Comparison
  | '<' => some .less
  | '>' => some .greater
  | '=' => some .equal
  | '!' => some .different
  | _ => none

/-- Numbers are compared without a sign. -/
def holds (c : Comparison) (a b : UInt32) : Bool :=
  match c with
  | .less => a < b
  | .greater => b < a
  | .equal => a == b
  | .different => a != b

end Comparison

end Monitor

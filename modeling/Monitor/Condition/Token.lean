import Monitor.Condition.Comparison
import Monitor.Text.Caret
import Monitor.Text.Digits

namespace Monitor.Condition

inductive Token
  /-- A name or number. Blanks inside of it are gone. -/
  | word (letters : List Char)
  | compare (comparison : Comparison)
  | opening
  | closing
  | dot
  | mask
  | and
  /-- Three or more ampersands in a row. -/
  | ampersands (count : Nat)
  deriving DecidableEq, Repr

def isBlank (c : Char) : Bool :=
  c == ' ' || c == '\t' || c == '\r' || c == '\n' || c == '\x0c' || c == '\x0b'

def isWordChar (c : Char) : Bool :=
  Text.isAsciiLetter c || Text.isAsciiDigit c || c == '_' || c == '$' || c == '#' || c == '%'

namespace Token

def text : Token → List Char
  | .word letters => letters
  | .compare comparison => [comparison.symbol]
  | .opening => ['(']
  | .closing => [')']
  | .dot => ['.']
  | .mask => ['&']
  | .and => ['&', '&']
  | .ampersands count => List.replicate count '&'

def join : List Token → List Char
  | [] => []
  | [t] => t.text
  | t :: more => t.text ++ ' ' :: join more

/-- Where the token with an index starts in the joined text; where it ends if there are not so
many. -/
def offsetOf (tokens : List Token) (index : Nat) : Nat :=
  let before := (tokens.take index).flatMap fun t => t.text ++ [' ']
  min (Text.size before) (Text.size (join tokens))

def isCompare : Token → Bool
  | .compare _ => true
  | _ => false

end Token

end Monitor.Condition

import Monitor.Text.Digits

namespace Monitor.Text

/-- The number of UTF-8 bytes of a text, the measure of all offsets. -/
def size : List Char → Nat
  | [] => 0
  | c :: cs => c.utf8Size + size cs

/-- A quoted text with a caret under the character at `offset` and a message beside the caret. -/
def caretDiagram (heading text : String) (offset : Nat) (message : String) : String :=
  let margin := repeated (offset + 1) ' '
  s!"ERROR in {heading}:\n'{text}'\n{margin}^-{message}\n"

end Monitor.Text

import Monitor.Text.Digits

namespace Monitor.Text

/-- The control characters that a terminal may act on other than by moving on: bell, backspace, form
feed, escape, delete, and all from U+0080 to U+009F. -/
def isTerminalControl (c : Char) : Bool :=
  let n := c.toNat
  n == 0x07 || n == 0x08 || n == 0x0c || n == 0x1b || n == 0x7f || (0x80 ≤ n && n ≤ 0x9f)

def escapeControl (c : Char) : List Char :=
  if isTerminalControl c then
    if c.toNat < 0x80 then ['\\', 'x'] ++ (hexWide 2 c.val).toList
    else ['\\', 'u', '\x7b'] ++ (hex c.val).toList ++ ['\x7d']
  else [c]

def escapeControls (s : String) : String :=
  String.ofList (s.toList.flatMap escapeControl)

end Monitor.Text

import Monitor.Condition.Token

namespace Monitor.Condition

/-- What a lexer tells apart in a text. -/
inductive RawToken
  | word
  | ampersands
  | comparison
  | opening
  | closing
  | dot
  deriving DecidableEq, Repr

namespace RawToken

def ofChar? (c : Char) : Option RawToken :=
  if isWordChar c then some .word
  else if c = '&' then some .ampersands
  else if c = '(' then some .opening
  else if c = ')' then some .closing
  else if c = '.' then some .dot
  else (Comparison.ofChar? c).map fun _ => .comparison

def takes (raw : RawToken) (c : Char) : Bool :=
  match raw with
  | .word => isWordChar c
  | .ampersands => c == '&'
  | .comparison | .opening | .closing | .dot => false

end RawToken

/-- A piece of a text, and the offset at which it starts. -/
structure Slice where
  raw : RawToken
  start : Nat
  text : List Char

def Token.ofAmpersands : Nat → Token
  | 1 => .mask
  | 2 => .and
  | count => .ampersands count

def Slice.token? (s : Slice) : Option Token :=
  match s.raw with
  | .word => some (.word s.text)
  | .ampersands => some (.ofAmpersands s.text.length)
  | .comparison => (s.text.head?.bind Comparison.ofChar?).map .compare
  | .opening => some .opening
  | .closing => some .closing
  | .dot => some .dot

/-- Puts a token behind others. A word goes on with a word before it. -/
def Token.push (tokens : List Token) (t : Token) : List Token :=
  match tokens.getLast?, t with
  | some (.word front), .word back => tokens.dropLast ++ [.word (front ++ back)]
  | _, t => tokens ++ [t]

/-- What is left of a text, and its offset. -/
structure Lexer where
  offset : Nat
  rest : List Char

namespace Lexer

/-- Skips blanks and takes the longest slice that comes next. Fails with the offset of a character
that has no place in a condition. -/
def next? (l : Lexer) : Except Nat (Option (Slice × Lexer)) :=
  let start := l.offset + Text.size (l.rest.takeWhile isBlank)
  match l.rest.dropWhile isBlank with
  | [] => .ok none
  | c :: cs =>
    match RawToken.ofChar? c with
    | none => .error start
    | some raw =>
      let text := c :: cs.takeWhile raw.takes
      .ok (some (⟨raw, start, text⟩, ⟨start + Text.size text, cs.dropWhile raw.takes⟩))

theorem length_of_next? {l next : Lexer} {s : Slice} (h : l.next? = .ok (some (s, next))) :
    next.rest.length < l.rest.length := by
  unfold next? at h
  split at h
  · cases h
  · rename_i c cs hrest
    have hle : (c :: cs).length ≤ l.rest.length := hrest ▸ (List.dropWhile_suffix _).length_le
    split at h
    · cases h
    · cases h
      exact Nat.lt_of_lt_of_le
        (Nat.lt_succ_of_le (List.dropWhile_suffix _).length_le) hle

def collect (l : Lexer) (tokens : List Token) : Except Nat (List Token) :=
  match _h : l.next? with
  | .error start => .error start
  | .ok none => .ok tokens
  | .ok (some (s, next)) =>
    match s.token? with
    | none => .error s.start
    | some t => next.collect (Token.push tokens t)
termination_by l.rest.length
decreasing_by exact length_of_next? _h

end Lexer

end Monitor.Condition

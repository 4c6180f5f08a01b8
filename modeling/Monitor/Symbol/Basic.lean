namespace Monitor

inductive SymbolKind
  | text
  | weak
  | data
  | bss
  | absolute
  deriving DecidableEq, Repr

namespace SymbolKind

def ofLetter? (letter : Char) : Option SymbolKind :=
  match letter.toUpper with
  | 'T' => some .text
  | 'W' | 'V' => some .weak
  | 'D' | 'O' | 'R' => some .data
  | 'B' => some .bss
  | 'A' => some .absolute
  | _ => none

end SymbolKind

inductive SymbolFilter
  | text
  /-- Code, weak symbols included. -/
  | code
  /-- What can be pointed to: initialised and zeroed data. -/
  | data
  | all
  deriving DecidableEq, Repr

def SymbolFilter.accepts : SymbolFilter → SymbolKind → Bool
  | .text, kind => kind == .text
  | .code, kind => kind == .text || kind == .weak
  | .data, kind => kind == .data || kind == .bss
  | .all, _ => true

structure Symbol where
  name : String
  address : UInt32
  kind : SymbolKind
  deriving DecidableEq, Repr

end Monitor

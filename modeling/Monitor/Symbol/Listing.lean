import Monitor.Log
import Monitor.Symbol.Table
import Monitor.Text.Digits
import Monitor.Text.Split

namespace Monitor.Symbol

open Text

/-- A hexadecimal address of 32 bits, with or without a plus sign. -/
def readAddress? (field : List Char) : Option UInt32 :=
  let digits := match field with
    | '+' :: cs => cs
    | cs => cs
  if !digits.isEmpty && digits.all (isDigit 16) && ofDigits 16 digits < UInt32.size then
    some (.ofNat (ofDigits 16 digits))
  else none

def isNameChar (c : Char) : Bool :=
  isAsciiLetter c || isAsciiDigit c || c == '_' || c == '.' || c == '-'

def isName (name : List Char) : Bool :=
  name.length ≤ 32 && name.all isNameChar

def readKind? : List Char → Option SymbolKind
  | [letter] => SymbolKind.ofLetter? letter
  | _ => none

def readFields (number : Nat) (address letter name : List Char) : Logged (Option Symbol) :=
  match readAddress? address, readKind? letter with
  | none, _ => do
    Logged.warn s!"syntax error on line {number}, skipping."
    return none
  | some _, none => do
    let letter := String.ofList letter
    Logged.warn s!"unrecognized symbol type '{letter}' on line {number}, skipping."
    return none
  | some address, some kind => do
    let text := String.ofList name
    if isName name then
      return some ⟨text, address, kind⟩
    else
      Logged.warn s!"invalid symbol name '{text}' on line {number}, skipping."
      return none

/-- Reads one line of a symbol listing. Blank lines and lines that start with a mark of a comment
hold no symbol. -/
def readLine (number : Nat) (line : List Char) : Logged (Option Symbol) :=
  if line.head? = some '#' || line.head? = some '*' then return none
  else
    match fields line with
    | [] => return none
    | address :: letter :: name :: _ => readFields number address letter name
    | _ => do
      Logged.warn s!"syntax error on line {number}, skipping."
      return none

def readLines : Nat → List (List Char) → Logged (List Symbol)
  | _, [] => return []
  | number, line :: more => do
    let symbol? ← readLine number line
    let symbols ← readLines (number + 1) more
    return symbol?.toList ++ symbols

end Monitor.Symbol

namespace Monitor

def SymbolTable.ofListing (text : String) : Logged SymbolTable :=
  return .ofList (← Symbol.readLines 1 (Text.lines text.toList))

end Monitor

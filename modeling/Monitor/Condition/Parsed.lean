import Monitor.Condition.Lexer
import Monitor.Condition.Settled

namespace Monitor.Condition

/-- A text in tokens, joined by single spaces. Such a text has a comparison. -/
structure Tokenized where
  text : String
  tokens : List Token
  deriving DecidableEq, Repr

def tokenize (text : String) : Except Error Tokenized :=
  let cs := text.toList
  match Lexer.collect ⟨0, cs⟩ [] with
  | .error offset => .error ⟨.invalidCharacter, offset, text, .typed⟩
  | .ok tokens =>
    if tokens.any Token.isCompare then .ok ⟨String.ofList (Token.join tokens), tokens⟩
    else .error ⟨.comparisonMissing, Text.size cs / 2, text, .typed⟩

structure Parsed where
  text : String
  conditions : List Condition
  deriving DecidableEq, Repr

def parse (scope : Scope) (text : String) : Attempt Error Parsed := do
  let t ← ExceptT.mk (pure (tokenize text))
  let conditions ← (ofTokens scope t.tokens).adapt fun f =>
    ⟨f.fault, Token.offsetOf t.tokens f.index, t.text, .joined⟩
  return ⟨t.text, conditions⟩

end Monitor.Condition

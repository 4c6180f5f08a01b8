import Monitor.Expression.Operand
import Monitor.Expression.Operator

namespace Monitor.Expression

inductive Token
  | operator (op : Operator)
  | complement
  | opening
  | closing
  | operand (value : UInt32)
  /-- Text that is no token at all; nothing after it is looked at. -/
  | unreadable
  deriving DecidableEq, Repr

structure Placed where
  token : Token
  offset : Nat
  deriving DecidableEq, Repr

def Token.front? (scope : Scope) : List Char → Option (Token × Nat)
  | [] => none
  | '~' :: _ => some (.complement, 1)
  | '(' :: _ => some (.opening, 1)
  | ')' :: _ => some (.closing, 1)
  | '>' :: '>' :: _ => some (.operator .shiftRight, 2)
  | '<' :: '<' :: _ => some (.operator .shiftLeft, 2)
  | c :: cs =>
    match Operator.ofChar? c with
    | some op => some (.operator op, 1)
    | none =>
      match Operand.readFront scope (c :: cs) with
      | .ok r => some (.operand r.value, r.length)
      | .error _ => none

theorem Token.front?_length_pos {scope : Scope} {cs : List Char} {t : Token} {n : Nat}
    (h : Token.front? scope cs = some (t, n)) : 0 < n := by
  unfold Token.front? at h
  split at h
  case h_7 =>
    split at h
    · simp_all; omega
    · split at h
      · rename_i hr
        have := Operand.length_pos hr
        simp_all
      · simp at h
  all_goals simp_all <;> omega

/-- The tokens of a text that starts at the given offset. Spaces and tabs between them mean
nothing. -/
def tokens (scope : Scope) (offset : Nat) : List Char → List Placed
  | [] => []
  | c :: cs =>
    if c = ' ' ∨ c = '\t' then tokens scope (offset + 1) cs
    else
      match _h : Token.front? scope (c :: cs) with
      | none => [⟨.unreadable, offset⟩]
      | some (token, length) =>
        ⟨token, offset⟩ :: tokens scope (offset + length) ((c :: cs).drop length)
termination_by cs => cs.length
decreasing_by
  · simp
  · have := Token.front?_length_pos _h
    simp; omega

end Monitor.Expression

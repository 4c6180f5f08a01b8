import Monitor.Expression.Scope

namespace Monitor

open Text

structure Operand where
  value : UInt32
  length : Nat
  radix : Option Nat
  deriving DecidableEq, Repr

namespace Operand

def isNameChar (c : Char) : Bool :=
  isAsciiLetter c || isAsciiDigit c || c == '_'

def nameLimit : Nat := 64

/-- Reads the name or number at the front of a text. Letters and digits that mean nothing as a name
may still be a number. -/
def readFront (scope : Scope) (cs : List Char) : Except Numeral.Error Operand :=
  let name := cs.takeWhile isNameChar
  if nameLimit ≤ name.length then .error (.nameTooLong (String.ofList name))
  else
    match if name.isEmpty then none else scope.valueOf? (String.ofList name) with
    | some value => .ok ⟨value, name.length, none⟩
    | none =>
      (Numeral.readFront scope.radix.toNat cs).map fun r => ⟨r.value, r.length, some r.radix⟩

def read (scope : Scope) (cs : List Char) : Except Numeral.Error UInt32 := do
  let r ← readFront scope cs
  if r.length < cs.length then
    match r.radix with
    | none => throw (.invalidName (String.ofList cs))
    | some radix => throw (.trailing radix (String.ofList cs))
  else return r.value

end Operand

theorem Numeral.length_pos {default : Nat} {cs : List Char} {r : Numeral.Reading}
    (h : Numeral.readFront default cs = .ok r) : 0 < r.length := by
  simp only [Numeral.readFront] at h
  split at h
  · simp at h
  · split at h
    · simp at h
    · split at h
      · simp at h
      · split at h
        · simp at h
        · rename_i hd _
          simp only [Except.ok.injEq] at h
          subst h
          have := List.length_pos_iff.2 fun h => hd (List.isEmpty_iff.2 h)
          simp only
          omega

theorem Operand.length_pos {scope : Scope} {cs : List Char} {r : Operand}
    (h : Operand.readFront scope cs = .ok r) : 0 < r.length := by
  simp only [Operand.readFront] at h
  split at h
  · simp at h
  · split at h
    · rename_i hv
      simp only [Except.ok.injEq] at h
      subst h
      split at hv
      · simp at hv
      · rename_i hn
        exact List.length_pos_iff.2 fun h => hn (List.isEmpty_iff.2 h)
    · cases hr : Numeral.readFront scope.radix.toNat cs with
      | error e => simp [hr, Except.map] at h
      | ok n =>
        simp only [hr, Except.map, Except.ok.injEq] at h
        subst h
        exact Numeral.length_pos hr

end Monitor

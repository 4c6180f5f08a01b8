import Monitor.Proofs.Attempt
import Monitor.Proofs.Expression.Arithmetic
import Monitor.Proofs.Expression.Splitting

namespace Monitor.Expression

open Attempt

variable {m : Machine}

def advance (m : Machine) (p : Progress) (ts : List Token) : Except Error Progress :=
  ts.foldlM (fun p t => result (step m p t)) p

@[simp] theorem advance_nil (p : Progress) : advance m p [] = .ok p := rfl

@[simp] theorem advance_cons (p : Progress) (t : Token) (ts : List Token) :
    advance m p (t :: ts) = result (step m p t) >>= fun q => advance m q ts := rfl

theorem advance_append (p : Progress) (ts us : List Token) :
    advance m p (ts ++ us) = advance m p ts >>= fun q => advance m q us :=
  List.foldlM_append

theorem result_run (p : Progress) (ts : List Placed) :
    (result (run m p ts)).mapError Failure.error = advance m p (ts.map Placed.token) := by
  induction ts generalizing p with
  | nil => rfl
  | cons t ts ih =>
    rw [run, List.map_cons, advance_cons, result_bind, result_adapt]
    cases result (step m p t.token) with
    | error e => rfl
    | ok q => exact ih q

def outcome (scope : Scope) (text : String) : Except Error UInt32 :=
  (result (evaluate scope text)).mapError Failure.error

theorem outcome_eq (scope : Scope) (text : String) :
    outcome scope text = do
      let p ← advance scope.machine {} ((tokens scope 0 text.toList).map Placed.token)
      let value ← finish p
      return .ofInt value.toInt := by
  rw [outcome, evaluate, result_bind, ← result_run]
  cases result (run scope.machine {} (tokens scope 0 text.toList)) with
  | error e => rfl
  | ok p =>
    simp only [ofExcept, ok_bind, mapError_ok, result_bind, result_adapt, result_mk]
    cases finish p with
    | error e => rfl
    | ok value => simp [toUInt32_toUInt64]

namespace Level

/-- The operators that wait on a level bind tighter and tighter, but less tightly than `n`. -/
structure Accepts (level : Level) (n : Nat) : Prop where
  sign : level.sign = none
  loose : ∀ op ∈ level.operators.head?, op.level < n

theorem push_of_accepts {level : Level} {n : Nat} {op : Operator} {value : Int64}
    (h : level.Accepts n) (hn : n ≤ op.level) :
    level.push op value = .ok ⟨none, op :: level.operators, value :: level.values⟩ := by
  obtain ⟨sign, operators, values⟩ := level
  cases h.sign
  cases operators with
  | nil => rfl
  | cons below more =>
    have hb : below.level < op.level := Nat.lt_of_lt_of_le (h.loose below rfl) hn
    simp [push, reduce, hb]

/-- An operator that does not bind tighter than the last one makes that one apply. -/
theorem push_cons {operators : List Operator} {values : List Int64} {op below : Operator}
    {a b : Int64} (h : op.level ≤ below.level) :
    push ⟨none, below :: operators, a :: values⟩ op b =
      (below.meaning? a b).elim (.error .undefined) (push ⟨none, operators, values⟩ op) := by
  simp only [push, reduce, if_neg (Nat.not_lt.2 h), Operator.apply_eq_meaning]
  cases below.meaning? a b with
  | none => rfl
  | some c => rfl

end Level

theorem result_closeLevel {p : Progress} {value : Int64} {level : Level} {outer : List Level}
    (hv : p.operand = some value) (ho : p.outer = level :: outer) :
    result (closeLevel m p) = do
      let a ← p.total value
      return { level, outer, operand := some (.ofInt (longAt m.memory (.ofInt a.toInt))) } := by
  simp only [closeLevel, hv, ho, ofExcept, result_bind, result_mk]
  cases p.total value with
  | error e => rfl
  | ok a => simp [toUInt32_toUInt64, toInt64_toUInt64, read_long]

end Monitor.Expression

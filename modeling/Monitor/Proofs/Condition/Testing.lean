import Monitor.Condition.Tracking
import Monitor.Proofs.Attempt

namespace Monitor.Condition

variable (m : Machine)

@[simp] theorem value_test (c : Condition) :
    (c.test m).value = if c.holds m then (true, c.refresh m) else (false, c) := by
  unfold test
  split <;> rfl

theorem testAll_cons (c : Condition) (more : List Condition) :
    (testAll m (c :: more)).value =
      if c.holds m then ((testAll m more).value.1, c.refresh m :: (testAll m more).value.2)
      else (false, c :: more) := by
  rw [testAll, Logged.value_bind, value_test]
  cases c.holds m with
  | false => rfl
  | true => rfl

theorem testAll_fst (cs : List Condition) : (testAll m cs).value.1 = cs.all (·.holds m) := by
  induction cs with
  | nil => rfl
  | cons c more ih =>
    rw [testAll_cons, List.all_cons]
    cases c.holds m with
    | false => rfl
    | true => exact ih

/-- A condition is refreshed if it holds and so do all before it. -/
theorem testAll_getElem? (cs : List Condition) (place : Nat) :
    (testAll m cs).value.2[place]? = cs[place]?.map fun c =>
      if (cs.take place).all (·.holds m) && c.holds m then c.refresh m else c := by
  induction cs generalizing place with
  | nil => rfl
  | cons c more ih =>
    rw [testAll_cons]
    cases hc : c.holds m with
    | false =>
      cases place with
      | zero => simp [hc]
      | succ place => simp [hc]
    | true =>
      cases place with
      | zero => simp [hc]
      | succ place => simpa [hc] using ih place

theorem freezeFrom_value (number : Nat) (cs : List Condition) :
    (freezeFrom m number cs).value = cs.map (freeze m) := by
  induction cs generalizing number with
  | nil => rfl
  | cons c more ih => exact congrArg (freeze m c :: ·) (ih (number + 1))

theorem freezeAll_value (cs : List Condition) : (freezeAll m cs).value.2 = cs.map (freeze m) := by
  rw [freezeAll, Logged.value_bind, freezeFrom_value]
  dsimp only
  split <;> rfl

end Monitor.Condition

import Monitor.Breakpoint.List
import Monitor.Proofs.Condition.Parsing
import Monitor.Proofs.Condition.Testing
import Monitor.Proofs.Revision

namespace Monitor.BreakpointList

open Attempt Revision

variable {l next : BreakpointList} {text : String} {options : Breakpoint.Options} {m : Machine}
  {radix : Radix} {index : Nat}

def append (l : BreakpointList) (b : Breakpoint) : BreakpointList :=
  { l with items := l.items ++ [b], capacity := l.nextCapacity }

def newItem (m : Machine) (options : Breakpoint.Options) (parsed : Condition.Parsed) : Breakpoint :=
  { expression := parsed.text, options, conditions := parsed.conditions.map (·.freeze m) }

theorem add_of_parse {parsed : Condition.Parsed}
    (h : result (Condition.parse ⟨m, l.processor, radix⟩ text) = .ok parsed) :
    result (l.add text options m radix) =
      .ok (l.size + 1, l.append (newItem m options parsed)) := by
  rw [add, result_on_eq_ok, outcome_bind, outcome_aside, h]
  simp only [outcome_bind, outcome_modify, outcome_get, outcome_log, Condition.freezeAll_value,
    outcome_pure]
  rfl

theorem add_of_error {e : Condition.Error}
    (h : result (Condition.parse ⟨m, l.processor, radix⟩ text) = .error e) :
    result (l.add text options m radix) = .error ⟨e, l⟩ := by
  rw [add, result_on_eq_error, outcome_bind, outcome_aside, h]

theorem add_eq_ok : result (l.add text options m radix) = .ok (index, next) ↔
    ∃ parsed, result (Condition.parse ⟨m, l.processor, radix⟩ text) = .ok parsed ∧
      index = l.size + 1 ∧ next = l.append (newItem m options parsed) := by
  constructor
  · intro h
    cases hparse : result (Condition.parse ⟨m, l.processor, radix⟩ text) with
    | error e => cases h.symm.trans (add_of_error hparse)
    | ok parsed =>
      cases h.symm.trans (add_of_parse hparse)
      exact ⟨parsed, rfl, rfl, rfl⟩
  · rintro ⟨parsed, hparse, rfl, rfl⟩
    exact add_of_parse hparse

/-- A text that is no condition is found out before there is room made for a breakpoint. -/
theorem left_of_add {f : Failed BreakpointList Condition.Error}
    (h : result (l.add text options m radix) = .error f) : f.left = l := by
  cases hparse : result (Condition.parse ⟨m, l.processor, radix⟩ text) with
  | error e =>
    cases h.symm.trans (add_of_error hparse)
    rfl
  | ok parsed => cases h.symm.trans (add_of_parse hparse)

theorem size_append (b : Breakpoint) : (l.append b).size = l.size + 1 :=
  List.length_append

theorem get?_append_size (b : Breakpoint) : (l.append b).get? (l.size + 1) = some b := by
  simp [append, get?, size]

end Monitor.BreakpointList

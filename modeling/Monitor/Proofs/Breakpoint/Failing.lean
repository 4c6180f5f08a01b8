import Monitor.Breakpoint.Store
import Monitor.Proofs.Breakpoint.Adding
import Monitor.Proofs.Breakpoint.Removing

namespace Monitor.Store

open Attempt Revision

variable {ε α : Type} {s t : Store} {p : Processor} {index : Nat} {context : Context}

theorem setList_list (s : Store) (p : Processor) : s.setList (s.list p) p = s := by
  cases p <;> rfl

theorem failsEarly_revise {x : BreakpointList → Revised BreakpointList ε α}
    (hx : ∀ l f, result (x l) = .error f → f.left = l) : FailsEarly (revise p x) := by
  refine failsEarly_within fun s f hf => ?_
  rw [hx _ f hf, setList_list]

theorem left_of_add {text : String} {options : Breakpoint.Options} {m : Machine} {radix : Radix}
    {f : Failed Store Condition.Error} (h : result (s.add p text options m radix) = .error f) :
    f.left = s :=
  (failsEarly_revise fun _ _ => BreakpointList.left_of_add).left_eq h

theorem left_of_remove {f : Failed Store Breakpoint.Error}
    (h : result (s.remove p index) = .error f) : f.left = s := by
  rw [remove, result_bind, bind_eq_error] at h
  obtain h | ⟨_, _, ⟨⟩⟩ := h
  exact (failsEarly_revise fun _ _ => BreakpointList.left_of_remove).left_eq h

theorem failsEarly_change (p : Processor) (cs : List Char) (context : Context) :
    FailsEarly (change p cs context) := by
  unfold change
  generalize Breakpoint.splitOptions cs = parts
  refine (keeps_aside _).bind_failsEarly fun options => ?_
  dsimp only
  split
  · exact failsEarly_revise fun _ _ => BreakpointList.left_of_remove
  · exact ((failsEarly_revise fun _ _ => BreakpointList.left_of_add).adapt _).bind fun _ =>
      succeeds_pure _

/-- A command that fails leaves the breakpoints as they are. -/
theorem left_of_command {args : Option String} {f : Failed Store Breakpoint.Error}
    (h : result (s.command p args context) = .error f) : f.left = s := by
  refine FailsEarly.left_eq ?_ h
  cases args with
  | none => exact (succeeds_pure _).failsEarly
  | some args =>
    dsimp only
    split
    · exact (succeeds_pure _).failsEarly
    · split
      · exact ((succeeds_log _).bind fun _ => (succeeds_set _).bind fun _ =>
          succeeds_pure _).failsEarly
      · split
        · exact (keeps_throw _).failsEarly
        · exact (failsEarly_change p _ context).bind fun _ => succeeds_pure _

theorem left_of_addressCommand {args : String} {f : Failed Store Breakpoint.Error}
    (h : result (s.addressCommand p args context) = .error f) : f.left = s := by
  refine FailsEarly.left_eq ?_ h
  exact (keeps_aside _).bind_failsEarly fun _ =>
    (failsEarly_of fun _ _ => left_of_command).bind fun _ => succeeds_pure _

/-- An operation on a store fails, and leaves a store behind. -/
inductive Fails : Store → Store → Prop
  | add {s : Store} {p : Processor} {text : String} {options : Breakpoint.Options} {m : Machine}
      {radix : Radix} {f : Failed Store Condition.Error}
      (h : result (s.add p text options m radix) = .error f) : Fails s f.left
  | command {s : Store} {p : Processor} {args : Option String} {context : Context}
      {f : Failed Store Breakpoint.Error} (h : result (s.command p args context) = .error f) :
      Fails s f.left
  | addressCommand {s : Store} {p : Processor} {args : String} {context : Context}
      {f : Failed Store Breakpoint.Error} (h : result (s.addressCommand p args context) = .error f) :
      Fails s f.left
  | remove {s : Store} {p : Processor} {index : Nat} {f : Failed Store Breakpoint.Error}
      (h : result (s.remove p index) = .error f) : Fails s f.left

theorem Fails.eq (h : s.Fails t) : t = s := by
  cases h with
  | add h => exact left_of_add h
  | command h => exact left_of_command h
  | addressCommand h => exact left_of_addressCommand h
  | remove h => exact left_of_remove h

end Monitor.Store

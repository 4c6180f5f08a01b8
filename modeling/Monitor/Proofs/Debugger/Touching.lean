import Monitor.Proofs.Breakpoint.Reachability
import Monitor.Proofs.Breakpoint.Rereading
import Monitor.Proofs.Debugger.Failure

namespace Monitor

namespace Command

def RunsOthers : Command → Prop
  | .scan => True
  | .run _ => True
  | _ => False

end Command

namespace Debugger

open Attempt Revision

variable {α β ε : Type} {x : Execution α} {f : α → Execution β} {d d' : Debugger}
  {runFile : FileRunner}

/-- All that a command does to a debugger if it runs no other commands. -/
inductive Touches (d : Debugger) : Debugger → Prop
  | nothing : Touches d d
  | breakpoints {store : Store} (h : d.store.OperatesOn d.machine d.settings store) :
    Touches d { d with store }
  | machine {machine : Machine} (h : d.machine.Alike machine) : Touches d { d with machine }
  | nextDump (next : Option UInt32) :
    Touches d (d.mapSession fun s => { s with nextDump := next })
  | files (files : Files) : Touches d (d.setFiles files)

def TouchesOnce (x : Execution α) : Prop :=
  ∀ d : Debugger, d.Touches (outcome x d).2

theorem touchesOnce_of_keeps (hx : Keeps x) : TouchesOnce x := by
  intro d
  rw [hx d]
  exact .nothing

theorem touchesOnce_bind (hx : Keeps x) (hf : ∀ a, TouchesOnce (f a)) :
    TouchesOnce (x >>= f) := by
  intro d
  have hd := hx d
  cases h : outcome x d with
  | mk result d' =>
    rw [h] at hd
    subst hd
    cases result with
    | error e =>
      rw [outcome_bind_of_error h]
      exact .nothing
    | ok a =>
      rw [outcome_bind_of_ok h]
      exact hf a d'

theorem TouchesOnce.bind (hx : TouchesOnce x) (hf : ∀ a, Keeps (f a)) : TouchesOnce (x >>= f) := by
  intro d
  have hd := hx d
  cases h : outcome x d with
  | mk result d' =>
    rw [h] at hd
    cases result with
    | error e =>
      rw [outcome_bind_of_error h]
      exact hd
    | ok a =>
      rw [outcome_bind_of_ok h, hf a d']
      exact hd

theorem touchesOnce_modify {change : Debugger → Debugger}
    (h : ∀ d : Debugger, d.Touches (change d)) : TouchesOnce (modify change) :=
  h

theorem touchesOnce_revise {cause : ε → Command.Error} {x : Debugger → Revised Store ε α}
    (hok : ∀ d a store, result (x d) = .ok (a, store) →
      d.store.OperatesOn d.machine d.settings store)
    (herror : ∀ d f, result (x d) = .error f → d.store.Fails f.left) :
    TouchesOnce (revise cause x) := by
  intro d
  rw [outcome_revise]
  cases hresult : result (x d) with
  | error f => exact .breakpoints (.fail (herror d f hresult))
  | ok next => exact .breakpoints (hok d _ _ hresult)

theorem touchesOnce_breakAt (processor : Processor) (args : Option String) :
    TouchesOnce (breakAt processor args) := by
  cases args with
  | none => exact touchesOnce_of_keeps (keeps_pure _)
  | some args =>
    exact (touchesOnce_revise (fun _ _ _ h => .addressCommand (.refl _) h)
      fun _ _ h => .addressCommand h).bind fun _ => keeps_pure _

theorem alike_setRegister (value : UInt32) (r : Register) (m : Machine) :
    m.Alike (setRegister value r m) := by
  cases r with
  | cpu r => exact .setCpuRegister m r value
  | dsp r => exact .setDspRegister m r value

theorem touchesOnce_assign (processor : Processor) (name expression : String) :
    TouchesOnce (assign processor name expression) := by
  refine touchesOnce_bind keeps_get fun d => ?_
  cases (d.scope processor).register? name with
  | none => exact touchesOnce_of_keeps (keeps_throw _)
  | some r =>
    exact touchesOnce_bind (keeps_evaluate _ _) fun value =>
      touchesOnce_modify fun d => .machine (alike_setRegister value r d.machine)

/-- A command that runs no others touches the debugger once at most. -/
theorem touchesOnce_execute {command : Command} (h : ¬command.RunsOthers) :
    TouchesOnce (execute runFile command) := by
  cases command with
  | breakpoint processor args =>
    exact touchesOnce_revise (fun _ _ _ h => .command (.refl _) h) fun _ _ h => .command h
  | address processor args => exact touchesOnce_breakAt processor args
  | evaluate processor expression =>
    exact touchesOnce_of_keeps ((keeps_evaluate _ _).bind fun _ => keeps_pure _)
  | registers processor assignment =>
    cases assignment with
    | none => exact touchesOnce_of_keeps (keeps_get.bind fun _ => keeps_pure _)
    | some assignment => exact (touchesOnce_assign processor _ _).bind fun _ => keeps_pure _
  | write address bytes =>
    refine TouchesOnce.bind ?_ fun _ => keeps_pure _
    exact touchesOnce_bind (keeps_evaluate _ _) fun _ =>
      touchesOnce_bind (keeps_bytesOf bytes) fun _ =>
        touchesOnce_modify fun _ => .machine (.pokeAll _ _ _)
  | memory range =>
    exact touchesOnce_bind keeps_get fun _ => touchesOnce_bind (keeps_attempt _ _) fun _ =>
      (touchesOnce_modify fun _ => .nextDump _).bind fun _ => keeps_pure _
  | save path =>
    refine TouchesOnce.bind ?_ fun _ => keeps_pure _
    exact touchesOnce_bind keeps_get fun _ => touchesOnce_bind (keeps_log _) fun _ =>
      touchesOnce_bind (keeps_attempt _ _) fun _ => touchesOnce_modify fun _ => .files _
  | «variables» => exact touchesOnce_of_keeps (keeps_get.bind fun _ => keeps_pure _)
  | help => exact touchesOnce_of_keeps (keeps_pure _)
  | scan | run path => exact absurd trivial h

theorem execute_eq {command : Command} (h : ¬command.RunsOthers) (runFile runFile' : FileRunner) :
    execute runFile command = execute runFile' command := by
  cases command with
  | scan | run path => exact absurd trivial h
  | registers processor assignment => cases assignment <;> rfl
  | _ => rfl

theorem Touches.fileDepth (h : d.Touches d') : d'.session.fileDepth = d.session.fileDepth := by
  cases h <;> rfl

theorem Touches.output (h : d.Touches d') : d'.session.output = d.session.output := by
  cases h <;> rfl

theorem Touches.evolves (h : d.Touches d') : d.store.Evolves d'.store := by
  cases h with
  | breakpoints h => exact .operate h.operates
  | nothing | machine | nextDump | files => exact .refl d.store

theorem Touches.scanning (h : d.Touches d') (p : Processor) :
    (d'.list p).scanning = (d.list p).scanning := by
  cases h with
  | breakpoints h =>
    obtain ⟨q, hq⟩ := h.operates.editedAt
    obtain ⟨edits, hedits⟩ := hq.edited p
    exact hedits.scanning
  | nothing | machine | nextDump | files => rfl

/-- A debugger with breakpoints that came up while its machine ran. -/
structure Belongs (m : Machine) (settings : Settings) (d : Debugger) : Prop where
  alike : m.Alike d.machine
  settings_eq : d.settings = settings
  reachable : d.store.ReachableOn m settings

theorem Touches.belongs {m : Machine} {settings : Settings} (h : d.Touches d')
    (hd : d.Belongs m settings) : d'.Belongs m settings := by
  obtain ⟨halike, hsettings, hreach⟩ := hd
  cases h with
  | breakpoints h =>
    rw [hsettings] at h
    exact ⟨halike, hsettings, hreach.operate (h.congr halike)⟩
  | machine h => exact ⟨halike.trans h, hsettings, hreach⟩
  | nothing | nextDump | files => exact ⟨halike, hsettings, hreach⟩

theorem Touches.clean (h : d.Touches d') (hd : d.store.Clean) : d'.store.Clean :=
  h.evolves.clean hd

end Debugger

end Monitor

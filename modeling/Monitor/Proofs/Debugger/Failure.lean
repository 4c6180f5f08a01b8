import Mathlib.Control.Monad.Basic
import Monitor.Debugger
import Monitor.Proofs.Breakpoint.Failing

namespace Monitor.Debugger

open Attempt Revision

variable {α ε : Type} {d d' : Debugger}

theorem outcome_revise (cause : ε → Command.Error) (x : Debugger → Revised Store ε α)
    (d : Debugger) : outcome (revise cause x) d = match result (x d) with
      | .ok (a, store) => (.ok a, { d with store })
      | .error f => (.error (cause f.error), { d with store := f.left }) := by
  rw [revise, outcome_adapt, outcome_within]
  rcases result (x d) with _ | ⟨_, _⟩ <;> rfl

theorem keeps_attempt (cause : ε → Command.Error) (y : Attempt ε α) : Keeps (attempt cause y) :=
  fun _ => rfl

theorem succeeds_action (y : Action α) : Succeeds (liftM y : Execution α) :=
  fun d => ⟨(y.run d).value.1, (y.run d).value.2, rfl⟩

theorem keeps_evaluate (processor : Processor) (text : String) : Keeps (evaluate processor text) :=
  keeps_get.bind fun _ => keeps_attempt _ _

theorem failsEarly_revise {cause : ε → Command.Error} {x : Debugger → Revised Store ε α}
    (h : ∀ d f, result (x d) = .error f → f.left = d.store) : FailsEarly (revise cause x) := by
  refine (failsEarly_within fun d f hf => ?_).adapt cause
  rw [h d f hf]

theorem failsEarly_changeBreakpoints (processor : Processor) (args : Option String) :
    FailsEarly (changeBreakpoints processor args) :=
  failsEarly_revise fun _ _ => Store.left_of_command

theorem failsEarly_breakAt (processor : Processor) (args : Option String) :
    FailsEarly (breakAt processor args) := by
  cases args with
  | none => exact (succeeds_pure _).failsEarly
  | some args =>
    exact (failsEarly_revise fun _ _ => Store.left_of_addressCommand).bind fun _ =>
      succeeds_pure _

theorem failsEarly_assign (processor : Processor) (name expression : String) :
    FailsEarly (assign processor name expression) := by
  refine keeps_get.bind_failsEarly fun d => ?_
  cases (d.scope processor).register? name with
  | none => exact (keeps_throw _).failsEarly
  | some r => exact (keeps_evaluate _ _).failsEarly.bind fun _ => succeeds_modify _

theorem keeps_byteOf (text : String) : Keeps (byteOf text) := by
  refine (keeps_evaluate _ _).bind fun value => ?_
  by_cases hvalue : 0xff < value
  · rw [if_pos hvalue]
    exact keeps_throw _
  · rw [if_neg hvalue]
    exact keeps_pure _

theorem keeps_bytesOf (texts : List String) : Keeps (bytesOf texts) := by
  induction texts with
  | nil => exact keeps_pure []
  | cons text more ih =>
    exact (keeps_byteOf text).bind fun _ => ih.bind fun _ => keeps_pure _

theorem failsEarly_write (address : String) (bytes : List String) :
    FailsEarly (write address bytes) :=
  (keeps_evaluate _ _).bind_failsEarly fun _ => (keeps_bytesOf bytes).failsEarly.bind fun _ =>
    succeeds_modify _

theorem failsEarly_dump (range : Option String) : FailsEarly (dump range) :=
  keeps_get.bind_failsEarly fun _ => (keeps_attempt _ _).failsEarly.bind fun _ =>
    (succeeds_modify _).bind fun _ => succeeds_pure _

theorem failsEarly_save (path : String) : FailsEarly (save path) :=
  keeps_get.bind_failsEarly fun _ => (keeps_log _).bind_failsEarly fun _ =>
    (keeps_attempt _ _).failsEarly.bind fun _ => succeeds_modify _

/-- The lines of a command file may fail, but then only they do. -/
theorem failsEarly_runFileIn (room : Nat) (path : String) : FailsEarly (runFileIn room path) := by
  cases room with
  | zero => exact (keeps_throw _).failsEarly
  | succ room =>
    exact keeps_get.bind_failsEarly fun _ => (keeps_attempt _ _).failsEarly.bind fun _ =>
      (succeeds_log _).bind fun _ => (succeeds_modify _).bind fun _ =>
        (succeeds_action _).bind fun _ => (succeeds_modify _).bind fun _ => succeeds_pure _

theorem failsEarly_execute {runFile : FileRunner} (hrun : ∀ path, FailsEarly (runFile path))
    (command : Command) : FailsEarly (execute runFile command) := by
  cases command with
  | breakpoint processor args => exact failsEarly_changeBreakpoints processor args
  | address processor args => exact failsEarly_breakAt processor args
  | evaluate processor expression =>
    exact (keeps_evaluate processor expression).failsEarly.bind fun _ => succeeds_pure _
  | registers processor assignment =>
    cases assignment with
    | none => exact keeps_get.failsEarly.bind fun _ => succeeds_pure _
    | some assignment =>
      exact (failsEarly_assign processor _ _).bind fun _ => succeeds_pure _
  | write address bytes => exact (failsEarly_write address bytes).bind fun _ => succeeds_pure _
  | memory range => exact failsEarly_dump range
  | scan => exact (succeeds_action _).failsEarly
  | save path => exact (failsEarly_save path).bind fun _ => succeeds_pure _
  | «variables» => exact keeps_get.failsEarly.bind fun _ => succeeds_pure _
  | run path => exact hrun path
  | help => exact (succeeds_pure _).failsEarly

theorem failsEarly_executeIn {runFile : FileRunner} (hrun : ∀ path, FailsEarly (runFile path))
    (line : String) : FailsEarly (executeIn runFile line) := by
  unfold executeIn
  cases Command.read line with
  | error e => exact (keeps_throw e).failsEarly
  | ok command? =>
    cases command? with
    | none => exact (succeeds_pure "").failsEarly
    | some command => exact failsEarly_execute hrun command

theorem failsEarly_executeLine (line : String) : FailsEarly (executeLine line) :=
  keeps_get.bind_failsEarly fun d => failsEarly_executeIn (failsEarly_runFileIn d.room) line

/-- A line that fails changes nothing, be it typed or read from a command file. -/
theorem unchanged_of_error {line : String} {e : Command.Error}
    (h : outcome (executeLine line) d = (.error e, d') ∨
      ∃ room, outcome (executeIn (runFileIn room) line) d = (.error e, d')) : d' = d := by
  obtain h | ⟨room, h⟩ := h
  · exact failsEarly_executeLine line d e d' h
  · exact failsEarly_executeIn (failsEarly_runFileIn room) line d e d' h

def scanningDebugger : Debugger :=
  { ofMachine (.ofRam 16) {} {} with store := { cpu := { processor := .cpu, scanning := true } } }

/-- The third byte is too large, and so the first two are not written either. -/
theorem unchanged_of_large_byte :
    (outcome (executeLine "w 0 1 2 256") scanningDebugger).1 = .error (.byteValue 256) ∧
      (outcome (executeLine "w 0 1 2 256") scanningDebugger).2 = scanningDebugger := by
  have h : outcome (executeLine "w 0 1 2 256") scanningDebugger =
      (.error (.byteValue 256), (outcome (executeLine "w 0 1 2 256") scanningDebugger).2) :=
    Prod.ext (by decide +kernel) rfl
  exact ⟨congrArg Prod.fst h, unchanged_of_error (.inl h)⟩

end Monitor.Debugger

import Monitor.Breakpoint.OptionText
import Monitor.Condition.Error
import Monitor.Expression.Evaluation

namespace Monitor.Breakpoint

inductive Error
  | noBreakpoints (processor : Processor)
  | noSuchBreakpoint (processor : Processor)
  | condition (e : Condition.Error)
  | options (e : OptionsError)
  | expression (text : String) (f : Expression.Failure)
  | dspDisabled
  deriving DecidableEq, Repr

namespace Error

def message : Error → String
  | .noBreakpoints processor => s!"No (more) {processor.name} breakpoints to remove."
  | .noSuchBreakpoint processor => s!"No such {processor.name} breakpoint."
  | .condition e => e.message
  | .options e => e.message
  | .expression _ f => f.error.message
  | .dspDisabled => "DSP not enabled!"

def report (e : Error) : String :=
  match e with
  | .condition e => e.report
  | .expression text f => f.report "the address expression" text
  | .noBreakpoints _ => s!"{e.message}\n"
  | _ => s!"ERROR: {e.message}\n"

end Error

end Monitor.Breakpoint

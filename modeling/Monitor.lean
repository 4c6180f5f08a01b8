import Monitor.Main
import Monitor.Proofs.Breakpoint.OptionListing
import Monitor.Proofs.Breakpoint.Room
import Monitor.Proofs.Breakpoint.Silence
import Monitor.Proofs.Breakpoint.Tracking
import Monitor.Proofs.Condition.Blanks
import Monitor.Proofs.Condition.Pointing
import Monitor.Proofs.Condition.Swapping
import Monitor.Proofs.Condition.Words
import Monitor.Proofs.Debugger.Addressing
import Monitor.Proofs.Debugger.Dumping
import Monitor.Proofs.Debugger.Evolution
import Monitor.Proofs.Debugger.History
import Monitor.Proofs.Debugger.Permanence
import Monitor.Proofs.Debugger.Printing
import Monitor.Proofs.Debugger.Restoring
import Monitor.Proofs.Debugger.Termination
import Monitor.Proofs.Expression.Flattening
import Monitor.Proofs.Expression.Nesting
import Monitor.Proofs.Expression.Reference
import Monitor.Proofs.Machine.Writes
import Monitor.Proofs.Numeral.Decoding
import Monitor.Proofs.Symbol.Lookup

import Monitor.Numeral
import Monitor.Variable

namespace Monitor

structure Scope where
  machine : Machine
  processor : Processor
  radix : Radix

namespace Scope

def register? (s : Scope) (name : String) : Option Register :=
  match s.processor with
  | .cpu => (CpuRegister.ofName? name s.machine.level).map .cpu
  | .dsp => (DspRegister.ofName? name).map .dsp

def symbol? (s : Scope) (name : String) (filter : SymbolFilter) : Option UInt32 :=
  s.machine.symbol? s.processor name filter

/-- The present value of a name: of a variable, else of a register, else of a symbol. -/
def valueOf? (s : Scope) (name : String) : Option UInt32 :=
  (Variable.ofName? name).map (·.read s.machine) <|>
    (s.register? name).map s.machine.register <|> s.symbol? name .all

end Scope

end Monitor

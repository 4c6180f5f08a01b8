namespace Monitor.Breakpoint

inductive Info
  | registers
  | dspRegisters
  | variables
  | history
  deriving DecidableEq, Repr

namespace Info

def all : List Info :=
  [.registers, .dspRegisters, .variables, .history]

def name : Info → String
  | .registers => "regs"
  | .dspRegisters => "dspregs"
  | .variables => "vars"
  | .history => "history"

def ofName? (name : String) : Option Info :=
  all.find? (·.name == name)

end Info

structure Options where
  /-- It fires only each time this many hits have come together; zero stands for one. -/
  skip : Nat := 0
  once : Bool := false
  quiet : Bool := false
  /-- It reports without stopping. -/
  trace : Bool := false
  /-- It shows the info that is locked in the session. -/
  lock : Bool := false
  /-- It does not reset the session before it shows or runs anything. -/
  noinit : Bool := false
  info : Option Info := none
  file : Option String := none
  deriving DecidableEq, Repr

namespace Options

def hasSideEffects (o : Options) : Bool :=
  o.info.isSome || o.lock || o.file.isSome

def firesAt (o : Options) (hits : Nat) : Bool :=
  o.skip == 0 || hits % o.skip == 0

def keep (p : Bool) (s : String) : List String :=
  if p then [s] else []

def text (o : Options) : String :=
  let skip := keep (o.skip != 0) s!" :{o.skip}"
  let flags := keep o.once " :once" ++ keep o.quiet " :quiet"
  let trace := keep o.trace " :trace" ++ keep (o.trace && o.info.isSome) " :info" ++
    keep (o.trace && o.lock) " :lock" ++ keep (o.trace && o.noinit) " :noinit"
  let file := o.file.toList.map (" :file " ++ ·)
  String.join (skip ++ flags ++ trace ++ file)

def notes (o : Options) : List String :=
  keep (o.skip != 0) s!"-> Break only on every {o.skip} hit." ++
    keep o.once "-> Break only once, and delete breakpoint afterwards." ++
    keep o.trace
      "-> Trace (just show breakpoint info, instead of dropping to debugger)." ++
    keep (o.trace && o.info.isSome) "-> Call selected info command." ++
    keep (o.trace && o.lock) "-> Call locked info command." ++
    keep (o.trace && o.noinit) "-> Skip debugger initialization on hit." ++
    o.file.toList.map fun path => s!"-> Execute debugger commands from '{path}' file on hit."

end Options

end Monitor.Breakpoint

import Monitor.Breakpoint.Store

namespace Monitor

inductive Reaction
  | remember (processor : Processor) (index : Nat)
  | reset
  | inform (info : Breakpoint.Info)
  | informLocked
  /-- To run a command file, and to reset again after it. -/
  | run (path : String) (resets : Bool)
  deriving DecidableEq, Repr

/-- What a scan works on. Its surroundings are only known to reactions. -/
structure Scene (σ : Type) where
  store : Store
  machine : Machine
  surroundings : σ

/-- Carries out reactions. It may change breakpoints, even of the list that is being scanned. -/
abbrev Handler (σ : Type) := Reaction → Scene σ → Logged (Scene σ)

def Breakpoint.Options.reactions (o : Breakpoint.Options) (processor : Processor) (index : Nat) :
    List Reaction :=
  .remember processor index ::
    if o.hasSideEffects then
      (if o.noinit then [] else [.reset]) ++ o.info.toList.map .inform ++
        (if o.lock then [.informLocked] else []) ++ o.file.toList.map (.run · !o.noinit)
    else []

namespace Scene

variable {σ : Type}

def list (scene : Scene σ) (processor : Processor) : BreakpointList :=
  scene.store.list processor

def setList (scene : Scene σ) (processor : Processor) (l : BreakpointList) : Scene σ :=
  { scene with store := scene.store.setList l processor }

def react (handler : Handler σ) : List Reaction → Scene σ → Logged (Scene σ)
  | [], scene => return scene
  | r :: more, scene => do react handler more (← handler r scene)

def reportMatch (processor : Processor) (index : Nat) (b : Breakpoint) : Logged Unit :=
  if b.options.quiet then return
  else Logged.info
    s!"{index}. {processor.name} breakpoint condition(s) matched {b.hits} times.\n{b.line}"

def retire (processor : Processor) (index : Nat) (b : Breakpoint) (scene : Scene σ) :
    Logged (Scene σ) :=
  if b.options.once then
    return scene.setList processor (← (scene.list processor).discard index)
  else return scene

/-- Lets a breakpoint fire, and tells whether it stops the machine. -/
def fire (handler : Handler σ) (processor : Processor) (index : Nat) (b : Breakpoint)
    (scene : Scene σ) : Logged (Bool × Scene σ) := do
  reportMatch processor index b
  let scene ← react handler (b.options.reactions processor index) scene
  let scene ← retire processor index b scene
  return (!b.options.trace, scene)

def scanAt (handler : Handler σ) (processor : Processor) (index : Nat) (scene : Scene σ) :
    Logged (Bool × Scene σ) :=
  let l := scene.list processor
  match l.get? index with
  | none => return (false, scene)
  | some b =>
    if b.deleted then return (false, scene)
    else do
      let (held, b) ← b.test scene.machine
      let scene := scene.setList processor { l with items := l.items.set (index - 1) b }
      if held && b.options.firesAt b.hits then fire handler processor index b scene
      else return (false, scene)

/-- Tests as many breakpoints as are left to test, up to the one with the last index. -/
def scanFrom (handler : Handler σ) (processor : Processor) (last : Nat) :
    Nat → Scene σ → Logged (Bool × Scene σ)
  | 0, scene => return (false, scene)
  | left + 1, scene => do
    let (stops, scene) ← scanAt handler processor (last - left) scene
    let (stopsLater, scene) ← scanFrom handler processor last left scene
    return (stops || stopsLater, scene)

/-- Tests the breakpoints that a processor has now; those that are added meanwhile wait for the next
scan. Tells whether one of them stops the machine. -/
def scan (handler : Handler σ) (processor : Processor) (scene : Scene σ) :
    Logged (Bool × Scene σ) := do
  let l := scene.list processor
  if l.scanning then
    Logged.warn s!"{processor.name} breakpoints are already being matched"
    return (false, scene)
  else
    let scene := scene.setList processor { l with scanning := true }
    let (stops, scene) ← scanFrom handler processor l.size l.size scene
    let l ← { scene.list processor with scanning := false }.sweep
    return (stops, scene.setList processor l)

end Scene

end Monitor

import Monitor.Program

namespace Monitor.Program

def pathsOfOptions (args : String) : List String :=
  match (Breakpoint.splitOptions args.toList).2 with
  | none => []
  | some options => (Breakpoint.optionItems options).filterMap fun item =>
    match Breakpoint.OptionItem.read? (Text.trim item) with
    | some (.file path) => some (String.ofList path)
    | _ => none

def pathsOfCommand : Command → List String
  | .breakpoint _ (some args) => pathsOfOptions args
  | .save path => [path]
  | .run path => [path]
  | _ => []

def pathsOfText (text : String) : List String :=
  (Text.lines text.toList).flatMap fun line =>
    match Command.read (String.ofList line) with
    | .ok (some command) => pathsOfCommand command
    | _ => []

def pathsOfBreakpoints (s : Store) : List String :=
  (s.cpu.items ++ s.dsp.items).filterMap (·.options.file)

def pathsOfInvocation (i : Invocation) : List String :=
  let loads := i.loads.map fun load =>
    ((Text.splitLast '@' load.toList).map fun (path, _) => String.ofList path).getD load
  loads ++ i.cpuSymbols.toList ++ i.dspSymbols.toList ++ i.script.toList

end Monitor.Program

import Monitor.Program.Paths

namespace Monitor.Main

inductive Found
  | file (bytes : ByteArray)
  | directory
  | nothing

def look (path : String) : IO Found := do
  try
    return .file (← IO.FS.readBinFile path)
  catch
    | .inappropriateType _ 21 _ => return .directory
    | _ => return .nothing

def notePlain (files : Files) (path : String) : IO Files := do
  match ← look path with
  | .file bytes => return { files with contents := files.contents.insert path bytes }
  | .directory => return { files with directories := path :: files.directories }
  | .nothing => return { files with contents := files.contents.erase path }

def note (files : Files) (path : String) : IO Files :=
  (Files.ancestors path ++ [Files.plainPath path]).foldlM notePlain files

/-- Notes paths and those that their files name in turn. -/
partial def noteAll (files : Files) (seen : List String) : List String → IO (Files × List String)
  | [] => return (files, seen)
  | path :: more =>
    if path.isEmpty || seen.contains path then noteAll files seen more
    else do
      let files ← note files path
      let named := ((files.readText path).toOption.map Program.pathsOfText).getD []
      noteAll files (path :: seen) (named ++ more)

def settle (before after : Files) (paths : List String) : IO Unit :=
  paths.forM fun path => do
    let plain := Files.plainPath path
    match before.contents[plain]?, after.contents[plain]? with
    | some _, none => IO.FS.removeFile path
    | none, some bytes => IO.FS.writeBinFile path bytes
    | some old, some bytes => if old.data != bytes.data then IO.FS.writeBinFile path bytes
    | none, none => return

def put (output : Program.Output) : IO Unit := do
  IO.eprint output.logged
  IO.print output.shown
  (← IO.getStdout).flush

def perform (x : Execution String) (paths : List String) (d : Debugger) : IO Debugger := do
  let (files, seen) ← noteAll d.files [] (paths ++ Program.pathsOfBreakpoints d.store)
  let (output, d) := Program.perform x (d.setFiles files)
  settle files d.files seen
  put output
  return d

partial def converse (input : IO.FS.Stream) (d : Debugger) : IO Unit := do
  let line ← input.getLine
  if line.isEmpty then return
  let text := String.join ((Text.lines line.toList).map String.ofList)
  converse input (← perform (Debugger.executeLine text) (Program.pathsOfText text) d)

def usage : String :=
  "Usage: monitor [--base N] [--no-dsp] [--ram KIB] [--load FILE[@ADDR]]... [--symbols FILE]\n" ++
    "  [--dsp-symbols FILE] [-v]... [SCRIPT]\n"

def launch (i : Invocation) : IO UInt32 := do
  let (files, _) ← noteAll {} [] (Program.pathsOfInvocation i)
  let started := (Program.start i files).run
  put (.ofEvents started.events)
  match started.value, i.script with
  | .error e, _ =>
    IO.eprintln e.message
    return 1
  | .ok d, some path =>
    discard (perform (Debugger.runFile path) [path] d)
    return 0
  | .ok d, none =>
    converse (← IO.getStdin) d
    return 0

end Monitor.Main

def main (args : List String) : IO UInt32 :=
  match Monitor.Invocation.read? args with
  | some i => Monitor.Main.launch i
  | none => do
    IO.eprint Monitor.Main.usage
    return 2

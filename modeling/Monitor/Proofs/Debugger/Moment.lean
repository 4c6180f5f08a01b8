import Mathlib.Logic.Relation
import Monitor.Proofs.Breakpoint.Evolution
import Monitor.Proofs.Debugger.Touching

namespace Monitor

inductive Activity
  | file
  | matching
  | scan (p : Processor)
  deriving DecidableEq

/-- Something that is under way, and how many lines, processors or breakpoints it has yet to come
to. -/
structure Task where
  activity : Activity
  left : Nat

structure Matching where
  left : List Processor := [.cpu, .dsp]
  cpuStops : Bool := false
  dspStops : Bool := false

structure Scanning where
  processor : Processor
  last : Nat
  left : Nat
  stops : Bool := false
  matching : Matching

structure Reacting where
  index : Nat
  breakpoint : Breakpoint
  left : List Reaction

/-- What waits until something that it has started has an answer. -/
inductive Waiting
  | file (left : List String) (printed : String)
  | reacting (s : Scanning) (r : Reacting) (resets : Bool)

inductive Focus
  | answer (result : Except Command.Error String)
  | file (left : List String) (printed : String)
  | matching (found : Matching)
  | scan (s : Scanning)
  | reacting (s : Scanning) (r : Reacting)

/-- A moment in the course of a call: what goes on, what waits for it, the innermost first, and the
debugger as it is by then. -/
structure Moment where
  focus : Focus
  waiting : List Waiting
  debugger : Debugger

namespace Matching

def task (found : Matching) : Task :=
  ⟨.matching, found.left.length⟩

def after (found : Matching) (p : Processor) (stops : Bool) : Matching :=
  match p with
  | .cpu => { found with cpuStops := stops }
  | .dsp => { found with dspStops := stops }

end Matching

def Scanning.tasks (s : Scanning) : List Task :=
  [⟨.scan s.processor, s.left⟩, s.matching.task]

def Waiting.tasks : Waiting → List Task
  | .file left _ => [⟨.file, left.length⟩]
  | .reacting s _ _ => s.tasks

def Focus.tasks : Focus → List Task
  | .answer _ => []
  | .file left _ => [⟨.file, left.length⟩]
  | .matching found => [found.task]
  | .scan s => s.tasks
  | .reacting s _ => s.tasks

namespace Debugger

def openFile (d : Debugger) : Debugger :=
  d.mapSession fun s => { s with fileDepth := s.fileDepth + 1 }

def closeFile (d : Debugger) : Debugger :=
  d.mapSession fun s => { s with fileDepth := s.fileDepth - 1 }

def showOutput (d : Debugger) : Debugger :=
  d.mapSession fun s => { s with output := "" }

def enter (p : Processor) (d : Debugger) : Debugger :=
  d.setList p { d.list p with scanning := true }

def leave (p : Processor) (d : Debugger) : Debugger :=
  d.setList p { d.list p with scanning := false }.sweep.value

end Debugger

namespace Moment

open Debugger Revision

def tasks (m : Moment) : List Task :=
  m.focus.tasks ++ m.waiting.flatMap Waiting.tasks

def beginFile (path : String) (waiting : List Waiting) (d : Debugger) : Moment :=
  if maxFileDepth ≤ d.session.fileDepth then
    ⟨.answer (.error (.fileDepth maxFileDepth)), waiting, d⟩
  else
    match d.files.readText path with
    | .error e => ⟨.answer (.error (.file path e)), waiting, d⟩
    | .ok text =>
      ⟨.file ((Text.lines text.toList).map String.ofList) "", waiting, d.openFile⟩

def endFile (printed : String) (waiting : List Waiting) (d : Debugger) : Moment :=
  ⟨.answer (.ok printed), waiting, d.closeFile⟩

def beginMatch (waiting : List Waiting) (d : Debugger) : Moment :=
  ⟨.matching {}, waiting, d⟩

def endMatch (found : Matching) (waiting : List Waiting) (d : Debugger) : Moment :=
  ⟨.answer (.ok (d.session.output ++ verdict found.cpuStops found.dspStops)), waiting, d.showOutput⟩

def beginScan (p : Processor) (found : Matching) (waiting : List Waiting) (d : Debugger) : Moment :=
  ⟨.scan { processor := p, last := (d.list p).size, left := (d.list p).size, matching := found },
    waiting, d.enter p⟩

/-- It is the turn of a processor in a match. The DSP may not be there, and breakpoints that are
being tested already are not tested again. -/
def continueMatch (p : Processor) (found : Matching) (waiting : List Waiting) (d : Debugger) :
    Moment :=
  if (p = .cpu ∨ d.settings.dspEnabled = true) ∧ (d.list p).scanning = false then
    beginScan p found waiting d
  else ⟨.matching found, waiting, d⟩

def endScan (s : Scanning) (waiting : List Waiting) (d : Debugger) : Moment :=
  ⟨.matching (s.matching.after s.processor s.stops), waiting, d.leave s.processor⟩

def continueScan (s : Scanning) (left : Nat) (waiting : List Waiting) (d : Debugger) : Moment :=
  let index := s.last - left
  match (d.list s.processor).get? index with
  | none => ⟨.scan { s with left }, waiting, d⟩
  | some b =>
    if b.deleted then ⟨.scan { s with left }, waiting, d⟩
    else if b.fires d.machine then
      ⟨.reacting { s with left, stops := s.stops || !b.options.trace }
          ⟨index, (b.test d.machine).value.2, b.options.reactions s.processor index⟩,
        waiting, d.tested s.processor index b⟩
    else ⟨.scan { s with left }, waiting, d.tested s.processor index b⟩

def continueReacting (s : Scanning) (r : Reacting) (waiting : List Waiting) (d : Debugger) :
    Moment :=
  match r.left with
  | [] => ⟨.scan s, waiting, (Scene.retire s.processor r.index r.breakpoint d).value⟩
  | .run path resets :: left =>
    beginFile path (.reacting s { r with left } resets :: waiting) d
  | reaction :: left =>
    ⟨.reacting s { r with left }, waiting, (react (runFileIn 0) reaction d).value⟩

def perform (line : String) (waiting : List Waiting) (d : Debugger) : Moment :=
  match Command.read line with
  | .error e => ⟨.answer (.error e), waiting, d⟩
  | .ok none => ⟨.answer (.ok ""), waiting, d⟩
  | .ok (some .scan) => beginMatch waiting d
  | .ok (some (.run path)) => beginFile path waiting d
  | .ok (some command) =>
    ⟨.answer (outcome (execute (runFileIn 0) command) d).1, waiting,
      (outcome (execute (runFileIn 0) command) d).2⟩

def resume (result : Except Command.Error String) (waiting : List Waiting) (d : Debugger) :
    Waiting → Moment
  | .file left printed => ⟨.file left (printed ++ result.toOption.getD ""), waiting, d⟩
  | .reacting s r resets =>
    let d := (keep result d).value
    ⟨.reacting s r, waiting, if resets then d.mapSession (·.reset) else d⟩

/-- The next moment. A call is over when nothing waits for an answer. -/
def next (m : Moment) : Option Moment :=
  match m.focus, m.waiting with
  | .answer _, [] => none
  | .answer result, w :: waiting => some (resume result waiting m.debugger w)
  | .file [] printed, waiting => some (endFile printed waiting m.debugger)
  | .file (line :: left) printed, waiting =>
    some (perform line (.file left printed :: waiting) m.debugger)
  | .matching found, waiting =>
    match found.left with
    | [] => some (endMatch found waiting m.debugger)
    | p :: left => some (continueMatch p { found with left } waiting m.debugger)
  | .scan s, waiting =>
    match s.left with
    | 0 => some (endScan s waiting m.debugger)
    | left + 1 => some (continueScan s left waiting m.debugger)
  | .reacting s r, waiting => some (continueReacting s r waiting m.debugger)

/-- One moment comes after another in the course of a call. -/
def Leads : Moment → Moment → Prop :=
  Relation.ReflTransGen fun m later => m.next = some later

end Moment

end Monitor

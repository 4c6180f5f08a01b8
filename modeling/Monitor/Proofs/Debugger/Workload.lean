import Monitor.Proofs.Debugger.Course

namespace Monitor

def Task.take (t : Task) : Task :=
  { t with left := t.left - 1 }

structure Workload where
  tasks : List Task
  debugger : Debugger

namespace Workload

open Debugger

/-- What can happen to a workload, apart from a task coming to its next line, processor or
breakpoint. How much there is to come to is settled when a task begins, and it ends when nothing is
left of that. -/
inductive Change : Workload → Workload → Prop
  | touch (ts : List Task) {d d' : Debugger} (h : d.Touches d') : Change ⟨ts, d⟩ ⟨ts, d'⟩
  | beginFile (ts : List Task) {d : Debugger} {path text : String}
    (hroom : d.session.fileDepth < maxFileDepth) (htext : d.files.readText path = .ok text) :
    Change ⟨ts, d⟩ ⟨⟨.file, (Text.lines text.toList).length⟩ :: ts, d.openFile⟩
  | endFile (ts : List Task) (d : Debugger) : Change ⟨⟨.file, 0⟩ :: ts, d⟩ ⟨ts, d.closeFile⟩
  | beginMatch (ts : List Task) (d : Debugger) :
    Change ⟨ts, d⟩ ⟨⟨.matching, 2⟩ :: ts, d⟩
  | endMatch (ts : List Task) (d : Debugger) : Change ⟨⟨.matching, 0⟩ :: ts, d⟩ ⟨ts, d.showOutput⟩
  | beginScan (n : Nat) (ts : List Task) {d : Debugger} {p : Processor}
    (h : (d.list p).scanning = false) : Change ⟨⟨.matching, n⟩ :: ts, d⟩
      ⟨⟨.scan p, (d.list p).size⟩ :: ⟨.matching, n⟩ :: ts, d.enter p⟩
  | endScan (p : Processor) (n : Nat) (ts : List Task) (d : Debugger) :
    Change ⟨⟨.scan p, 0⟩ :: ⟨.matching, n⟩ :: ts, d⟩ ⟨⟨.matching, n⟩ :: ts, d.leave p⟩
  | scan (p : Processor) (n n' : Nat) (ts : List Task) {d : Debugger} {l : BreakpointList}
    (h : d.store.ScanStep p (d.store.setList l p)) (hscanning : l.scanning = (d.list p).scanning) :
    Change ⟨⟨.scan p, n⟩ :: ⟨.matching, n'⟩ :: ts, d⟩
      ⟨⟨.scan p, n⟩ :: ⟨.matching, n'⟩ :: ts, d.setList p l⟩
  | react (p : Processor) (n n' : Nat) (ts : List Task) {d : Debugger} {s : Session}
    (h : s.fileDepth = d.session.fileDepth) :
    Change ⟨⟨.scan p, n⟩ :: ⟨.matching, n'⟩ :: ts, d⟩
      ⟨⟨.scan p, n⟩ :: ⟨.matching, n'⟩ :: ts, d.mapSession fun _ => s⟩

theorem Change.nothing (w : Workload) : w.Change w :=
  .touch w.tasks .nothing

end Workload

namespace Moment

open Debugger Workload

variable {m m' : Moment} {p : Processor} {waiting : List Waiting} {d : Debugger}

def workload (m : Moment) : Workload :=
  ⟨m.tasks, m.debugger⟩

def takes (m : Moment) : Bool :=
  match m.focus with
  | .answer _ => false
  | .file left _ => !left.isEmpty
  | .matching found => !found.left.isEmpty
  | .scan s => s.left != 0
  | .reacting _ _ => false

def taken (m : Moment) : List Task :=
  if m.takes then m.tasks.modifyHead Task.take else m.tasks

theorem change_beginFile (path : String) (waiting : List Waiting) (d : Debugger) :
    Change ⟨waiting.flatMap Waiting.tasks, d⟩ (beginFile path waiting d).workload := by
  rw [beginFile]
  split
  · exact .nothing _
  · rename_i hroom
    split
    · exact .nothing _
    · rename_i text htext
      have hbegin := Change.beginFile (waiting.flatMap Waiting.tasks) (Nat.lt_of_not_le hroom) htext
      rw [← List.length_map (f := String.ofList)] at hbegin
      exact hbegin

theorem change_continueMatch (p : Processor) (found : Matching) (waiting : List Waiting)
    (d : Debugger) : Change ⟨found.task :: waiting.flatMap Waiting.tasks, d⟩
      (continueMatch p found waiting d).workload := by
  rw [continueMatch]
  split
  · rename_i hturn
    exact .beginScan _ _ hturn.2
  · exact .nothing _

theorem change_perform (line : String) (waiting : List Waiting) (d : Debugger) :
    Change ⟨waiting.flatMap Waiting.tasks, d⟩ (perform line waiting d).workload := by
  unfold perform
  split
  · exact .nothing _
  · exact .nothing _
  · exact .beginMatch _ d
  · exact change_beginFile _ waiting d
  · rename_i command hscan hrun _
    have hothers : ¬command.RunsOthers := by
      cases command <;> simp_all [Command.RunsOthers]
    exact .touch _ (touchesOnce_execute hothers d)

theorem change_endScan (s : Scanning) (waiting : List Waiting) (d : Debugger) :
    Change ⟨{ s with left := 0 }.tasks ++ waiting.flatMap Waiting.tasks, d⟩
      (endScan s waiting d).workload := by
  have hafter : (s.matching.after s.processor s.stops).task = s.matching.task := by
    cases s.processor <;> rfl
  have hend := Change.endScan s.processor s.matching.left.length (waiting.flatMap Waiting.tasks) d
  change Change _ ⟨[(s.matching.after s.processor s.stops).task] ++ _, _⟩
  rw [hafter]
  exact hend

theorem change_continueScan (s : Scanning) (left : Nat) (waiting : List Waiting) (d : Debugger) :
    Change ⟨{ s with left }.tasks ++ waiting.flatMap Waiting.tasks, d⟩
      (continueScan s left waiting d).workload := by
  rw [continueScan]
  cases hget : (d.list s.processor).get? (s.last - left) with
  | none => exact .nothing _
  | some b =>
    have htest : Change ⟨{ s with left }.tasks ++ waiting.flatMap Waiting.tasks, d⟩
        ⟨{ s with left }.tasks ++ waiting.flatMap Waiting.tasks,
          d.tested s.processor (s.last - left) b⟩ := .scan _ _ _ _ (.test hget d.machine) rfl
    dsimp only
    split
    · exact .nothing _
    · split
      · exact htest
      · exact htest

theorem change_continueReacting (s : Scanning) (r : Reacting) (waiting : List Waiting)
    (d : Debugger) : Change ⟨s.tasks ++ waiting.flatMap Waiting.tasks, d⟩
      (continueReacting s r waiting d).workload := by
  unfold continueReacting
  split
  · rw [Scene.retire]
    split
    · exact .scan _ _ _ _ (.retire d.store r.index) (BreakpointList.scanning_discard _ _)
    · exact .nothing _
  · rename_i path resets left _
    exact change_beginFile path (.reacting s { r with left } resets :: waiting) d
  · rename_i reaction left hrun _
    cases reaction with
    | run path resets => exact absurd rfl (hrun path resets)
    | remember | reset | inform | informLocked => exact .react _ _ _ _ rfl

theorem change_resume (result : Except Command.Error String) (w : Waiting) (waiting : List Waiting)
    (d : Debugger) : Change ⟨w.tasks ++ waiting.flatMap Waiting.tasks, d⟩
      (resume result waiting d w).workload := by
  cases w with
  | file left printed => exact .nothing _
  | reacting s r resets => cases result <;> cases resets <;> exact .react _ _ _ _ rfl

/-- From one moment to the next, at most one thing happens after the innermost task has come to
something. -/
theorem change_of_next (h : m.next = some m') : Change ⟨m.taken, m.debugger⟩ m'.workload := by
  obtain ⟨focus, waiting, d⟩ := m
  cases focus with
  | answer result =>
    cases waiting with
    | nil => cases h
    | cons w waiting =>
      cases h
      exact change_resume result w waiting d
  | file left printed =>
    cases left with
    | nil =>
      cases h
      exact .endFile _ d
    | cons line left =>
      cases h
      exact change_perform line (.file left printed :: waiting) d
  | matching found =>
    obtain ⟨left, cpuStops, dspStops⟩ := found
    cases left with
    | nil =>
      cases h
      exact .endMatch _ d
    | cons p left =>
      cases h
      exact change_continueMatch p ⟨left, cpuStops, dspStops⟩ waiting d
  | scan s =>
    obtain ⟨p, last, left, stops, found⟩ := s
    cases left with
    | zero =>
      cases h
      exact change_endScan ⟨p, last, 0, stops, found⟩ waiting d
    | succ left =>
      cases h
      exact change_continueScan ⟨p, last, left + 1, stops, found⟩ left waiting d
  | reacting s r =>
    cases h
    exact change_continueReacting s r waiting d

end Moment

end Monitor

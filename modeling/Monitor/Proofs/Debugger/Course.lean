import Monitor.Proofs.Breakpoint.Firing
import Monitor.Proofs.Debugger.Moment

namespace Monitor.Moment

open Debugger Revision

variable {runFile : FileRunner} {depth : Nat} {d d' : Debugger} {waiting : List Waiting}
  {m m' last : Moment}

theorem Leads.refl (m : Moment) : m.Leads m :=
  Relation.ReflTransGen.refl

theorem Leads.trans (h : m.Leads m') (h' : m'.Leads last) : m.Leads last :=
  Relation.ReflTransGen.trans h h'

theorem Leads.head (h : m.next = some m') (h' : m'.Leads last) : m.Leads last :=
  Relation.ReflTransGen.head h h'

theorem Leads.step (h : m.next = some m') : m.Leads m' :=
  .head h (.refl m')

/-- So many command files are open, as they were before something that is over by now. While it went
on, the course of the call was the given one. -/
structure Passes (depth : Nat) (d : Debugger) (course : List Waiting → Prop) : Prop where
  depth : d.session.fileDepth = depth
  course : ∀ waiting, course waiting

/-- With so many command files open, a course of a call runs a command file as a file runner does.
-/
def Serves (runFile : FileRunner) (depth : Nat) : Prop :=
  ∀ (path : String) (d : Debugger), d.session.fileDepth = depth →
    Passes depth (outcome (runFile path) d).2 fun waiting =>
      (beginFile path waiting d).Leads
        ⟨.answer (outcome (runFile path) d).1, waiting, (outcome (runFile path) d).2⟩

theorem fileDepth_keep (result : Except Command.Error String) (d : Debugger) :
    (keep result d).value.session.fileDepth = d.session.fileDepth := by
  cases result with
  | ok text => rfl
  | error e => rfl

theorem passes_reaction (h : Serves runFile depth) (hd : d.session.fileDepth = depth) (s : Scanning)
    (index : Nat) (b : Breakpoint) (r : Reaction) (left : List Reaction) :
    Passes depth (react runFile r d).value fun waiting =>
      Leads ⟨.reacting s ⟨index, b, r :: left⟩, waiting, d⟩
        ⟨.reacting s ⟨index, b, left⟩, waiting, (react runFile r d).value⟩ := by
  cases r with
  | run path resets =>
    obtain ⟨hdepth, hcourse⟩ := h path d hd
    have hkept := (fileDepth_keep (outcome (runFile path) d).1 (outcome (runFile path) d).2).trans
      hdepth
    have hvalue : (react runFile (.run path resets) d).value =
        if resets then
          (keep (outcome (runFile path) d).1 (outcome (runFile path) d).2).value.mapSession (·.reset)
        else (keep (outcome (runFile path) d).1 (outcome (runFile path) d).2).value := by
      cases resets <;> rfl
    rw [hvalue]
    refine ⟨by cases resets <;> exact hkept, fun waiting => ?_⟩
    exact .head rfl ((hcourse _).trans (.step rfl))
  | remember | reset | inform | informLocked => exact ⟨hd, fun waiting => .step rfl⟩

theorem passes_reactions (h : Serves runFile depth) (hd : d.session.fileDepth = depth)
    (s : Scanning) (index : Nat) (b : Breakpoint) (rs : List Reaction) :
    Passes depth (Scene.react (react runFile) rs d).value fun waiting =>
      Leads ⟨.reacting s ⟨index, b, rs⟩, waiting, d⟩
        ⟨.reacting s ⟨index, b, []⟩, waiting, (Scene.react (react runFile) rs d).value⟩ := by
  induction rs generalizing d with
  | nil => exact ⟨hd, fun waiting => .refl _⟩
  | cons r more ih =>
    obtain ⟨hdepth, hcourse⟩ := passes_reaction h hd s index b r more
    obtain ⟨hdepth', hcourse'⟩ := ih hdepth
    exact ⟨hdepth', fun waiting => (hcourse waiting).trans (hcourse' waiting)⟩

theorem surroundings_retire (p : Processor) (index : Nat) (b : Breakpoint) (d : Debugger) :
    (Scene.retire p index b d).value.surroundings = d.surroundings := by
  rw [Scene.retire]
  split <;> rfl

theorem passes_scanAt (h : Serves runFile depth) (hd : d.session.fileDepth = depth) (p : Processor)
    (last left : Nat) (stops : Bool) (found : Matching) :
    Passes depth (Scene.scanAt (react runFile) p (last - left) d).value.2 fun waiting =>
      Leads ⟨.scan ⟨p, last, left + 1, stops, found⟩, waiting, d⟩
        ⟨.scan ⟨p, last, left,
            stops || (Scene.scanAt (react runFile) p (last - left) d).value.1, found⟩,
          waiting, (Scene.scanAt (react runFile) p (last - left) d).value.2⟩ := by
  cases hget : (d.list p).get? (last - left) with
  | none =>
    have hvalue : (Scene.scanAt (react runFile) p (last - left) d).value = (false, d) := by
      rw [Scene.scanAt, hget]
      rfl
    rw [hvalue, Bool.or_false]
    refine ⟨hd, fun waiting => .head rfl ?_⟩
    rw [continueScan, hget]
    exact .refl _
  | some b =>
    have hverdict : (Scene.scanAt (react runFile) p (last - left) d).value.1 =
        (!b.deleted && (b.fires d.machine && !b.options.trace)) := Scene.verdict_scanAt hget
    by_cases hb : b.deleted = true
    · rw [hb, Bool.not_true, Bool.false_and] at hverdict
      rw [Scene.scanAt_of_deleted hget hb, hverdict, Bool.or_false]
      refine ⟨hd, fun waiting => .head rfl ?_⟩
      rw [continueScan, hget]
      dsimp only
      rw [if_pos hb]
      exact .refl _
    · have hlive := Bool.eq_false_iff.2 hb
      by_cases hfires : b.fires d.machine = true
      · rw [hlive, hfires, Bool.not_false, Bool.true_and, Bool.true_and] at hverdict
        obtain ⟨hdepth, hcourse⟩ := passes_reactions h (d := d.tested p (last - left) b) hd
          ⟨p, last, left, stops || !b.options.trace, found⟩ (last - left)
          (b.test d.machine).value.2 (b.options.reactions p (last - left))
        rw [Scene.scanAt_of_fires hget hlive hfires, hverdict]
        refine ⟨?_, fun waiting => .head rfl ?_⟩
        · rw [session, surroundings_retire]
          exact hdepth
        · rw [continueScan, hget]
          dsimp only
          rw [if_neg hb, if_pos hfires]
          exact (hcourse waiting).trans (.step rfl)
      · have hpasses := Bool.eq_false_iff.2 hfires
        rw [hpasses, Bool.false_and, Bool.and_false] at hverdict
        rw [Scene.scanAt_of_not_fires hget hlive hpasses, hverdict, Bool.or_false]
        refine ⟨hd, fun waiting => .head rfl ?_⟩
        rw [continueScan, hget]
        dsimp only
        rw [if_neg hb, if_neg hfires]
        exact .refl _

theorem passes_scanFrom (h : Serves runFile depth) (hd : d.session.fileDepth = depth)
    (p : Processor) (last left : Nat) (stops : Bool) (found : Matching) :
    Passes depth (Scene.scanFrom (react runFile) p last left d).value.2 fun waiting =>
      Leads ⟨.scan ⟨p, last, left, stops, found⟩, waiting, d⟩
        ⟨.scan ⟨p, last, 0,
            stops || (Scene.scanFrom (react runFile) p last left d).value.1, found⟩,
          waiting, (Scene.scanFrom (react runFile) p last left d).value.2⟩ := by
  induction left generalizing d stops with
  | zero =>
    have hvalue : (Scene.scanFrom (react runFile) p last 0 d).value = (false, d) := rfl
    rw [hvalue, Bool.or_false]
    exact ⟨hd, fun waiting => .refl _⟩
  | succ left ih =>
    obtain ⟨hdepth, hcourse⟩ := passes_scanAt h hd p last left stops found
    obtain ⟨hdepth', hcourse'⟩ := ih hdepth
      (stops || (Scene.scanAt (react runFile) p (last - left) d).value.1)
    refine ⟨hdepth', fun waiting => (hcourse waiting).trans ?_⟩
    have hmore := hcourse' waiting
    rw [Bool.or_assoc] at hmore
    exact hmore

theorem passes_scan (h : Serves runFile depth) (hd : d.session.fileDepth = depth) (p : Processor)
    (found : Matching) (hidle : (d.list p).scanning = false) :
    Passes depth (Scene.scan (react runFile) p d).value.2 fun waiting =>
      (beginScan p found waiting d).Leads
        ⟨.matching (found.after p (Scene.scan (react runFile) p d).value.1), waiting,
          (Scene.scan (react runFile) p d).value.2⟩ := by
  obtain ⟨hdepth, hcourse⟩ := passes_scanFrom h (d := d.enter p) hd p (d.list p).size
    (d.list p).size false found
  rw [Scene.scan]
  dsimp only
  rw [if_neg (Bool.eq_false_iff.1 hidle)]
  exact ⟨hdepth, fun waiting => (hcourse waiting).trans (.step rfl)⟩

def turn (runFile : FileRunner) (p : Processor) (d : Debugger) : Bool × Debugger :=
  if p = .cpu ∨ d.settings.dspEnabled = true then (Scene.scan (react runFile) p d).value
  else (false, d)

theorem turn_of_scanning {p : Processor} (h : (d.list p).scanning = true) :
    turn runFile p d = (false, d) := by
  have hvalue : (Scene.scan (react runFile) p d).value = (false, d) :=
    Prod.ext (Scene.verdict_of_scanning h) (Scene.scan_of_scanning h)
  rw [turn, hvalue, ite_self]

theorem turn_cpu : turn runFile .cpu d = (Scene.scan (react runFile) .cpu d).value :=
  if_pos (.inl rfl)

theorem value_scanAll (runFile : FileRunner) (d : Debugger) :
    let cpu := turn runFile .cpu d
    let dsp := turn runFile .dsp cpu.2
    ((scanAll runFile).run d).value = (dsp.2.session.output ++ verdict cpu.1 dsp.1,
      dsp.2.showOutput) := by
  have hcpu : (StateT.run (Scene.scan (react runFile) .cpu) d).value = turn runFile .cpu d :=
    turn_cpu.symm
  dsimp only
  rw [scanAll, StateT.run_bind, Logged.value_bind, hcpu, StateT.run_bind, Logged.value_bind]
  generalize turn runFile .cpu d = cpu
  have hget : (StateT.run (get : Action Debugger) cpu.2).value = (cpu.2, cpu.2) := rfl
  rw [hget]
  by_cases henabled : cpu.2.settings.dspEnabled = true
  · rw [turn, if_pos henabled, if_pos (.inr henabled)]
    rfl
  · rw [turn, if_neg henabled, if_neg (by simp [henabled])]
    rfl

theorem passes_turn (h : Serves runFile depth) (hd : d.session.fileDepth = depth) (p : Processor)
    (left : List Processor) (found : Matching) (hfound : found.after p false = found) :
    Passes depth (turn runFile p d).2 fun waiting =>
      Leads ⟨.matching { found with left := p :: left }, waiting, d⟩
        ⟨.matching ({ found with left }.after p (turn runFile p d).1), waiting,
          (turn runFile p d).2⟩ := by
  by_cases hturn : (p = .cpu ∨ d.settings.dspEnabled = true) ∧ (d.list p).scanning = false
  · obtain ⟨hdepth, hcourse⟩ := passes_scan h hd p { found with left } hturn.2
    rw [turn, if_pos hturn.1]
    refine ⟨hdepth, fun waiting => .head rfl ?_⟩
    rw [continueMatch, if_pos hturn]
    exact hcourse waiting
  · have hvalue : turn runFile p d = (false, d) := by
      by_cases henabled : p = .cpu ∨ d.settings.dspEnabled = true
      · exact turn_of_scanning (by simpa [henabled] using hturn)
      · exact if_neg henabled
    have hsame : { found with left }.after p false = { found with left } := by
      cases p with
      | cpu => exact congrArg (fun m : Matching => { m with left }) hfound
      | dsp => exact congrArg (fun m : Matching => { m with left }) hfound
    rw [hvalue, hsame]
    refine ⟨hd, fun waiting => .head rfl ?_⟩
    rw [continueMatch, if_neg hturn]
    exact .refl _

theorem passes_match (h : Serves runFile depth) (hd : d.session.fileDepth = depth) :
    Passes depth ((scanAll runFile).run d).value.2 fun waiting =>
      (beginMatch waiting d).Leads ⟨.answer (.ok ((scanAll runFile).run d).value.1), waiting,
        ((scanAll runFile).run d).value.2⟩ := by
  obtain ⟨hdepth, hcourse⟩ := passes_turn h hd .cpu [.dsp] {} rfl
  obtain ⟨hdepth', hcourse'⟩ := passes_turn h hdepth .dsp []
    { left := [.dsp], cpuStops := (turn runFile .cpu d).1 } rfl
  rw [value_scanAll]
  exact ⟨hdepth', fun waiting =>
    (hcourse waiting).trans ((hcourse' waiting).trans (.step rfl))⟩

theorem perform_of_read {line : String} {command : Command}
    (hread : Command.read line = .ok (some command)) (h : ¬command.RunsOthers) :
    perform line waiting d = ⟨.answer (outcome (execute (runFileIn 0) command) d).1, waiting,
      (outcome (execute (runFileIn 0) command) d).2⟩ := by
  rw [perform, hread]
  cases command with
  | scan | run => exact absurd trivial h
  | _ => rfl

theorem passes_line (h : Serves runFile depth) (hd : d.session.fileDepth = depth) (line : String) :
    Passes depth (outcome (executeIn runFile line) d).2 fun waiting =>
      (perform line waiting d).Leads ⟨.answer (outcome (executeIn runFile line) d).1, waiting,
        (outcome (executeIn runFile line) d).2⟩ := by
  unfold executeIn perform
  cases Command.read line with
  | error e => exact ⟨hd, fun waiting => .refl _⟩
  | ok command? =>
    cases command? with
    | none => exact ⟨hd, fun waiting => .refl _⟩
    | some command =>
      by_cases hothers : command.RunsOthers
      · cases command with
        | scan => exact passes_match h hd
        | run path => exact h path d hd
        | _ => cases hothers
      · have htouches : d.Touches (outcome (execute runFile command) d).2 :=
          touchesOnce_execute hothers d
        have heq := execute_eq hothers (runFileIn 0) runFile
        refine ⟨htouches.fileDepth.trans hd, fun waiting => ?_⟩
        cases command with
        | scan | run => exact absurd trivial hothers
        | _ =>
          dsimp only
          rw [heq]
          exact .refl _

theorem value_runLines_cons (line : String) (more : List String) (d : Debugger) :
    ((runLines runFile (line :: more)).run d).value =
      ((outcome (executeIn runFile line) d).1.toOption.getD "" ++
          ((runLines runFile more).run (outcome (executeIn runFile line) d).2).value.1,
        ((runLines runFile more).run (outcome (executeIn runFile line) d).2).value.2) := by
  have hrun : ((executeIn runFile line).run.run d).value = outcome (executeIn runFile line) d := rfl
  rw [runLines, StateT.run_bind, Logged.value_bind, hrun]
  cases (outcome (executeIn runFile line) d).1 with
  | ok text => rfl
  | error e => exact Prod.ext (String.empty_append ..).symm rfl

theorem passes_lines (h : Serves runFile depth) (hd : d.session.fileDepth = depth)
    (lines : List String) (printed : String) :
    Passes depth ((runLines runFile lines).run d).value.2 fun waiting =>
      Leads ⟨.file lines printed, waiting, d⟩
        ⟨.file [] (printed ++ ((runLines runFile lines).run d).value.1), waiting,
          ((runLines runFile lines).run d).value.2⟩ := by
  induction lines generalizing d printed with
  | nil =>
    refine ⟨hd, fun waiting => ?_⟩
    have hvalue : ((runLines runFile []).run d).value = ("", d) := rfl
    rw [hvalue, String.append_empty]
    exact .refl _
  | cons line more ih =>
    obtain ⟨hdepth, hcourse⟩ := passes_line h hd line
    obtain ⟨hdepth', hcourse'⟩ := ih hdepth
      (printed ++ (outcome (executeIn runFile line) d).1.toOption.getD "")
    rw [value_runLines_cons, ← String.append_assoc]
    exact ⟨hdepth', fun waiting =>
      .head rfl ((hcourse _).trans (.head rfl (hcourse' waiting)))⟩

theorem outcome_runFileIn_of_text {path text : String} (room : Nat)
    (h : d.files.readText path = .ok text) :
    let lines := (Text.lines text.toList).map String.ofList
    let r := ((runLines (runFileIn room) lines).run d.openFile).value
    outcome (runFileIn (room + 1) path) d = (.ok r.1, r.2.closeFile) := by
  have hread : outcome (attempt (.file path) (ExceptT.mk (pure (d.files.readText path)))) d =
      (.ok text, d) := by
    rw [h]
    rfl
  rw [runFileIn, outcome_bind_of_ok (outcome_get d), outcome_bind_of_ok hread]
  rfl

theorem outcome_runFileIn_of_error {path : String} {e : Files.Error} (room : Nat)
    (h : d.files.readText path = .error e) :
    outcome (runFileIn (room + 1) path) d = (.error (.file path e), d) := by
  have hread : outcome (attempt (.file path) (ExceptT.mk (pure (d.files.readText path)))) d =
      (.error (.file path e), d) := by
    rw [h]
    rfl
  rw [runFileIn, outcome_bind_of_ok (outcome_get d), outcome_bind_of_error hread]

/-- A course of a call does what a file runner does that is left as much room as there is. -/
theorem serves_runFileIn (room depth : Nat) (h : room = maxFileDepth - depth) :
    Serves (runFileIn room) depth := by
  induction room generalizing depth with
  | zero =>
    intro path d hd
    refine ⟨hd, fun waiting => ?_⟩
    rw [beginFile, if_pos (by omega)]
    exact .refl _
  | succ room ih =>
    intro path d hd
    have hroom : ¬maxFileDepth ≤ d.session.fileDepth := by omega
    cases hread : d.files.readText path with
    | error e =>
      rw [outcome_runFileIn_of_error room hread]
      refine ⟨hd, fun waiting => ?_⟩
      rw [beginFile, if_neg hroom, hread]
      exact .refl _
    | ok text =>
      obtain ⟨hdepth, hcourse⟩ := passes_lines (ih (depth + 1) (by omega))
        (d := d.openFile) (congrArg (· + 1) hd) ((Text.lines text.toList).map String.ofList) ""
      rw [outcome_runFileIn_of_text room hread]
      refine ⟨congrArg (· - 1) hdepth, fun waiting => ?_⟩
      rw [beginFile, if_neg hroom, hread]
      have hlines := hcourse waiting
      rw [String.empty_append] at hlines
      exact hlines.trans (.step rfl)

end Monitor.Moment

import Monitor.Proofs.Breakpoint.Accounting
import Monitor.Proofs.Debugger.Calls

namespace Monitor

open Debugger Revision

/-- What a focus is going to answer with, as far as it has been printed. A match answers with what
is kept, which is not part of it. -/
def Focus.text? : Focus → Option String
  | .answer result => some (result.toOption.getD "")
  | .file _ printed => some printed
  | .matching _ | .scan _ | .reacting _ _ => none

def Waiting.within : List Waiting → String
  | .file _ printed :: waiting => within waiting ++ printed
  | _ => ""

namespace Moment

/-- What a line of a command file prints. A match or another command file prints for itself. -/
def linePieces (line : String) (d : Debugger) : List String :=
  match Command.read line with
  | .error _ => []
  | .ok none => []
  | .ok (some .scan) => []
  | .ok (some (.run _)) => []
  | .ok (some command) => (outcome (execute (runFileIn 0) command) d).1.toOption.toList

def pieces (m : Moment) : List String :=
  match m.focus with
  | .file (line :: _) _ => linePieces line m.debugger
  | .matching ⟨[], cpuStops, dspStops⟩ => [verdict cpuStops dspStops]
  | .reacting _ ⟨_, _, .inform info :: _⟩ => [m.debugger.infoText info]
  | .reacting _ ⟨_, _, .informLocked :: _⟩ => [m.debugger.infoText m.debugger.session.lockedInfo]
  | _ => []

/-- What has been printed in the course of a call, in that order. -/
inductive Prints : Moment → List String → Moment → Prop
  | refl (m : Moment) : Prints m [] m
  | head {m m' last : Moment} {printed : List String} (h : m.next = some m')
    (h' : Prints m' printed last) : Prints m (m.pieces ++ printed) last

def Nests (m : Moment) : Prop :=
  ∃ line left printed, m.focus = .file (line :: left) printed ∧
    Command.read line = .ok (some .scan)

def script (m : Moment) : String :=
  match m.focus with
  | .file _ printed => Waiting.within m.waiting ++ printed
  | _ => ""

/-- What has been printed in the course of a call, and how it is going to be shown. The last piece
is shown last, but a match in a command file puts all that is kept behind what the command file has
printed. -/
inductive Shows (start : Moment) : List String → List String → Moment → Prop
  | start : Shows start [] [] start
  | step {m m' : Moment} {printed shown : List String} (h : Shows start printed shown m)
    (hnext : m.next = some m') (hm : ¬m.Nests) :
    Shows start (printed ++ m.pieces) (shown ++ m.pieces) m'
  | nest {m m' : Moment} {printed outer kept inner : List String}
    (h : Shows start printed (outer ++ kept ++ inner) m) (hnext : m.next = some m') (hm : m.Nests)
    (hkept : String.join kept = m.debugger.session.output)
    (hinner : String.join inner = m.script) : Shows start printed (outer ++ inner ++ kept) m'

variable {start m m' last : Moment} {printed shown outer inner kept here : List String}
  {waiting : List Waiting} {d : Debugger}

theorem linePieces_of_read {line : String} {command : Command}
    (hread : Command.read line = .ok (some command)) (h : ¬command.RunsOthers) :
    linePieces line d = (outcome (execute (runFileIn 0) command) d).1.toOption.toList := by
  rw [linePieces, hread]
  cases command with
  | scan | run => exact absurd trivial h
  | _ => rfl

theorem pieces_of_nests (h : m.Nests) : m.pieces = [] := by
  obtain ⟨line, left, text, hfocus, hread⟩ := h
  rw [pieces, hfocus]
  dsimp only
  rw [linePieces, hread]

def course : Nat → Moment → List String × Moment
  | 0, m => ([], m)
  | n + 1, m =>
    match m.next with
    | none => ([], m)
    | some later => (m.pieces ++ (course n later).1, (course n later).2)

theorem prints_course (n : Nat) (m : Moment) : m.Prints (course n m).1 (course n m).2 := by
  induction n generalizing m with
  | zero => exact .refl m
  | succ n ih =>
    rw [course]
    split
    · exact .refl m
    · rename_i later hnext
      exact .head hnext (ih later)

theorem Prints.trans {more : List String} (h : start.Prints printed m)
    (h' : m.Prints more last) : start.Prints (printed ++ more) last := by
  induction h with
  | refl m => exact h'
  | head hnext _ ih =>
    rw [List.append_assoc]
    exact .head hnext (ih h')

theorem prints_of_next (h : m.next = some m') : m.Prints m.pieces m' := by
  simpa only [List.append_nil] using Prints.head h (.refl m')

theorem prints_line {line text : String} {command : Command} {d' : Debugger}
    (hread : Command.read line = .ok (some command)) (h : ¬command.RunsOthers)
    (houtcome : outcome (execute (runFileIn 0) command) d = (.ok text, d')) (left : List String)
    (before : String) (waiting : List Waiting) :
    Prints ⟨.file (line :: left) before, waiting, d⟩ [text]
      ⟨.file left (before ++ text), waiting, d'⟩ := by
  have hpieces : pieces ⟨.file (line :: left) before, waiting, d⟩ = [text] := by
    have hline : linePieces line d = _ := linePieces_of_read hread h
    rw [houtcome] at hline
    exact hline
  have hanswer : next ⟨.file (line :: left) before, waiting, d⟩ =
      some ⟨.answer (.ok text), .file left before :: waiting, d'⟩ := by
    have hperform : perform line (.file left before :: waiting) d = _ := perform_of_read hread h
    rw [houtcome] at hperform
    exact congrArg some hperform
  have hline := (prints_of_next hanswer).trans (prints_of_next rfl)
  rw [hpieces] at hline
  exact hline

theorem Prints.leads (h : start.Prints printed m) : start.Leads m := by
  induction h with
  | refl m => exact .refl m
  | head hnext _ ih => exact .head hnext ih

theorem Prints.unique {printed' : List String} {last' : Moment} (h : start.Prints printed last)
    (h' : start.Prints printed' last') (hlast : last.next = none) (hlast' : last'.next = none) :
    printed = printed' ∧ last = last' := by
  induction h generalizing printed' with
  | refl m =>
    cases h' with
    | refl => exact ⟨rfl, rfl⟩
    | head hnext _ => rw [hlast] at hnext; cases hnext
  | head hnext _ ih =>
    cases h' with
    | refl => rw [hlast'] at hnext; cases hnext
    | head hnext' h' =>
      rw [hnext] at hnext'
      cases hnext'
      obtain ⟨rfl, rfl⟩ := ih h' hlast
      exact ⟨rfl, rfl⟩

theorem Shows.prints (h : start.Shows printed shown m) : start.Prints printed m := by
  induction h with
  | start => exact .refl start
  | step _ hnext _ ih => exact ih.trans (prints_of_next hnext)
  | nest _ hnext hm _ _ ih =>
    have hnothing := ih.trans (prints_of_next hnext)
    rwa [pieces_of_nests hm, List.append_nil] at hnothing

/-- Nothing that has been printed is lost, and nothing is shown twice. -/
theorem Shows.perm (h : start.Shows printed shown m) : shown.Perm printed := by
  induction h with
  | start => exact .refl []
  | step _ _ _ ih => exact ih.append_right _
  | @nest m m' printed outer kept inner _ _ _ _ _ ih =>
    have hmoved : (outer ++ inner ++ kept).Perm (outer ++ kept ++ inner) := by
      rw [List.append_assoc, List.append_assoc]
      exact List.perm_append_comm.append_left outer
    exact hmoved.trans ih

/-- Nothing is moved unless a match in a command file finds something kept, and the command file has
printed something before. -/
theorem Shows.join_eq (h : start.Shows printed shown m)
    (hstraight : ∀ m, start.Leads m → m.Nests → m.debugger.session.output = "" ∨ m.script = "") :
    String.join shown = String.join printed := by
  induction h with
  | start => rfl
  | step _ _ _ ih => rw [String.join_append, String.join_append, ih]
  | nest h _ hm hkept hinner ih =>
    rw [← ih]
    simp only [String.join_append]
    rw [hkept, hinner]
    rcases hstraight _ h.prints.leads hm with hempty | hempty
    · rw [hempty, String.append_empty, String.append_empty]
    · rw [hempty, String.append_empty, String.append_empty]

/-- The pieces that waiting command files hold: what those hold that had begun before the innermost
waiting breakpoint fired, and what those hold that have begun since. -/
inductive Laid : List Waiting → List String → List String → Prop
  | nil : Laid [] [] []
  | file {waiting : List Waiting} {outer inner : List String} (h : Laid waiting outer inner)
    (left here : List String) :
    Laid (.file left (String.join here) :: waiting) outer (inner ++ here)
  | reacting {waiting : List Waiting} {outer inner : List String} (h : Laid waiting outer inner)
    (s : Scanning) (r : Reacting) (resets : Bool) :
    Laid (.reacting s r resets :: waiting) (outer ++ inner) []

/-- The pieces that have been printed by a moment, in the order in which they are going to be shown.
What is kept comes before what the command files of the innermost breakpoint print. But a match that
they begin takes all that is kept, and so it comes after what they have printed by then. -/
inductive Lays (m : Moment) : List String → Prop
  | matching {outer inner kept : List String} (h : Laid m.waiting outer inner)
    (hfocus : m.focus.text? = none) (hkept : String.join kept = m.debugger.session.output) :
    Lays m (outer ++ inner ++ kept)
  | printing {outer inner kept here : List String} (h : Laid m.waiting outer inner)
    (hfocus : m.focus.text? = some (String.join here))
    (hkept : String.join kept = m.debugger.session.output) :
    Lays m (outer ++ kept ++ inner ++ here)

theorem Laid.join_inner (h : Laid waiting outer inner) :
    String.join inner = Waiting.within waiting := by
  induction h with
  | nil => rfl
  | file h left here ih => rw [String.join_append, ih, Waiting.within]
  | reacting => rfl

theorem Lays.keep (h : m.Lays shown) (hfocus : m.focus.text? = none)
    (hfocus' : m'.focus.text? = none) (hwaiting : m'.waiting = m.waiting)
    (houtput : m'.debugger.session.output = m.debugger.session.output ++ String.join here) :
    m'.Lays (shown ++ here) := by
  cases h with
  | @matching outer inner kept h _ hkept =>
    rw [List.append_assoc]
    refine .matching (hwaiting ▸ h) hfocus' ?_
    rw [String.join_append, hkept, houtput]
  | printing _ htext _ =>
    rw [hfocus] at htext
    cases htext

theorem Lays.stay (h : m.Lays shown) (hfocus : m.focus.text? = none)
    (hfocus' : m'.focus.text? = none) (hwaiting : m'.waiting = m.waiting)
    (houtput : m'.debugger.session.output = m.debugger.session.output) : m'.Lays shown := by
  have hnothing : m'.debugger.session.output = m.debugger.session.output ++ String.join [] :=
    houtput.trans (String.append_empty ..).symm
  simpa only [List.append_nil] using h.keep hfocus hfocus' hwaiting hnothing

theorem lays_beginFile (path : String) (h : Laid waiting outer inner)
    (hkept : String.join kept = d.session.output) :
    (beginFile path waiting d).Lays (outer ++ kept ++ inner) := by
  rw [← List.append_nil (outer ++ kept ++ inner), beginFile]
  split
  · exact .printing h rfl hkept
  · split
    · exact .printing h rfl hkept
    · exact .printing h rfl hkept

theorem lays_perform {line : String} (hline : Command.read line ≠ .ok (some .scan))
    (h : Laid waiting outer inner) (hkept : String.join kept = d.session.output) :
    (perform line waiting d).Lays (outer ++ kept ++ inner ++ linePieces line d) := by
  rcases hread : Command.read line with e | _ | command
  · rw [perform, linePieces, hread]
    exact .printing h rfl hkept
  · rw [perform, linePieces, hread]
    exact .printing h rfl hkept
  · by_cases hothers : command.RunsOthers
    · cases command with
      | scan => exact absurd hread hline
      | run path =>
        rw [perform, linePieces, hread, List.append_nil]
        exact lays_beginFile path h hkept
      | _ => cases hothers
    · rw [perform_of_read hread hothers, linePieces_of_read hread hothers]
      have houtput : (outcome (execute (runFileIn 0) command) d).2.session.output = _ :=
        (touchesOnce_execute hothers d).output
      refine .printing h ?_ (hkept.trans houtput.symm)
      cases (outcome (execute (runFileIn 0) command) d).1 with
      | error e => rfl
      | ok text => exact congrArg some (String.empty_append ..).symm

theorem Lays.waits {line text : String} {left : List String}
    (h : Lays ⟨.file (line :: left) text, waiting, d⟩ shown) :
    ∃ outer kept inner, shown = outer ++ kept ++ inner ∧
      String.join kept = d.session.output ∧ Laid (.file left text :: waiting) outer inner := by
  cases h with
  | matching _ hfocus _ => cases hfocus
  | @printing outer inner kept here h hfocus hkept =>
    have htext : text = String.join here := Option.some.inj hfocus
    exact ⟨outer, kept, inner ++ here, List.append_assoc .., hkept, htext ▸ h.file left here⟩

theorem output_resume (result : Except Command.Error String) (s : Scanning) (r : Reacting)
    (resets : Bool) : (resume result waiting d (.reacting s r resets)).debugger.session.output =
      d.session.output ++ result.toOption.getD "" := by
  cases result with
  | error e => cases resets <;> exact (String.append_empty ..).symm
  | ok text => cases resets <;> rfl

theorem lays_endFile {text : String} (h : Lays ⟨.file [] text, waiting, d⟩ shown) :
    (endFile text waiting d).Lays shown := by
  cases h with
  | matching _ hfocus _ => cases hfocus
  | printing h hfocus hkept => exact .printing h hfocus hkept

theorem lays_resume {result : Except Command.Error String} {w : Waiting}
    (h : Lays ⟨.answer result, w :: waiting, d⟩ shown) :
    (resume result waiting d w).Lays shown := by
  cases h with
  | matching _ hfocus _ => cases hfocus
  | @printing outer inner kept here h hfocus hkept =>
    have htext : result.toOption.getD "" = String.join here := Option.some.inj hfocus
    cases h with
    | @file _ _ inner h left before =>
      have hprinted : (resume result waiting d (.file left (String.join before))).focus.text? =
          some (String.join (before ++ here)) := by
        rw [String.join_append, ← htext]
        rfl
      simpa only [List.append_assoc] using Lays.printing h hprinted hkept
    | @reacting _ outer inner h s r resets =>
      -- The command file was all that the breakpoint ran, so nothing else is held for it.
      rw [List.append_nil, List.append_assoc]
      refine .matching h rfl ?_
      rw [String.join_append, hkept, ← htext]
      exact (output_resume result s r resets).symm

theorem lays_continueMatch {found : Matching} (p : Processor) (left : List Processor)
    (h : Lays ⟨.matching found, waiting, d⟩ shown) :
    (continueMatch p { found with left } waiting d).Lays shown := by
  rw [continueMatch]
  split
  · exact h.stay rfl rfl rfl rfl
  · exact h.stay rfl rfl rfl rfl

theorem lays_continueScan {s : Scanning} (left : Nat) (h : Lays ⟨.scan s, waiting, d⟩ shown) :
    (continueScan s left waiting d).Lays shown := by
  rw [continueScan]
  cases (d.list s.processor).get? (s.last - left) with
  | none => exact h.stay rfl rfl rfl rfl
  | some b =>
    dsimp only
    split
    · exact h.stay rfl rfl rfl rfl
    · split
      · exact h.stay rfl rfl rfl rfl
      · exact h.stay rfl rfl rfl rfl

theorem lays_endMatch {found : Matching} (h : Lays ⟨.matching found, waiting, d⟩ shown) :
    (endMatch found waiting d).Lays (shown ++ [verdict found.cpuStops found.dspStops]) := by
  cases h with
  | printing _ hfocus _ => cases hfocus
  | @matching outer inner kept h _ hkept =>
    have hanswer : (endMatch found waiting d).focus.text? =
        some (String.join (kept ++ [verdict found.cpuStops found.dspStops])) := by
      rw [String.join_append, hkept]
      rfl
    have hprinted := Lays.printing (m := endMatch found waiting d) h hanswer (String.join_nil)
    simpa using hprinted

theorem lays_continueReacting {s : Scanning} {r : Reacting}
    (h : Lays ⟨.reacting s r, waiting, d⟩ shown) :
    (continueReacting s r waiting d).Lays (shown ++ pieces ⟨.reacting s r, waiting, d⟩) := by
  obtain ⟨index, b, left⟩ := r
  cases left with
  | nil =>
    rw [pieces, List.append_nil]
    have houtput : (Scene.retire s.processor index b d).value.surroundings.session.output = _ :=
      congrArg (fun surroundings => surroundings.session.output)
        (surroundings_retire s.processor index b d)
    exact h.stay rfl rfl rfl houtput
  | cons reaction left =>
    cases reaction with
    | remember | reset =>
      rw [pieces, List.append_nil]
      exact h.stay rfl rfl rfl rfl
    | inform | informLocked =>
      refine h.keep rfl rfl rfl ?_
      rw [pieces, String.join_cons, String.join_nil, String.append_empty]
      rfl
    | run path resets =>
      cases h with
      | printing _ hfocus _ => cases hfocus
      | @matching outer inner kept h _ hkept =>
        have hwaits : Laid (.reacting s ⟨index, b, left⟩ resets :: waiting) (outer ++ inner) [] :=
          .reacting h ..
        exact lays_beginFile path hwaits hkept

theorem Lays.next (h : m.Lays shown) (hm : ¬m.Nests) (hnext : m.next = some m') :
    m'.Lays (shown ++ m.pieces) := by
  obtain ⟨focus, waiting, d⟩ := m
  cases focus with
  | answer result =>
    cases waiting with
    | nil => cases hnext
    | cons w waiting =>
      cases hnext
      rw [pieces, List.append_nil]
      exact lays_resume h
  | file left text =>
    cases left with
    | nil =>
      cases hnext
      rw [pieces, List.append_nil]
      exact lays_endFile h
    | cons line left =>
      cases hnext
      have hline : Command.read line ≠ .ok (some .scan) := fun hread =>
        hm ⟨line, left, text, rfl, hread⟩
      obtain ⟨outer, kept, inner, rfl, hkept, hwaits⟩ := h.waits
      exact lays_perform hline hwaits hkept
  | matching found =>
    obtain ⟨left, cpuStops, dspStops⟩ := found
    cases left with
    | nil =>
      cases hnext
      exact lays_endMatch h
    | cons p left =>
      cases hnext
      rw [pieces, List.append_nil]
      exact lays_continueMatch p left h
  | scan s =>
    rw [pieces, List.append_nil]
    obtain ⟨p, last, left, stops, found⟩ := s
    cases left with
    | zero =>
      cases hnext
      exact h.stay rfl rfl rfl rfl
    | succ left =>
      cases hnext
      exact lays_continueScan left h
  | reacting s r =>
    cases hnext
    exact lays_continueReacting h

/-- A match in a command file keeps what is kept already, so that it will be shown behind what the
command file has printed. -/
theorem Lays.nest (h : m.Lays shown) (hm : m.Nests) (hnext : m.next = some m') :
    ∃ outer kept inner, shown = outer ++ kept ++ inner ∧
      String.join kept = m.debugger.session.output ∧ String.join inner = m.script ∧
        m'.Lays (outer ++ inner ++ kept) := by
  obtain ⟨focus, waiting, d⟩ := m
  obtain ⟨line, left, text, hfocus, hread⟩ := hm
  dsimp only at hfocus
  subst hfocus
  cases hnext
  -- What the command files hold is given back to them when the match has answered, with all that is
  -- kept behind it.
  obtain ⟨outer, kept, inner, hshown, hkept, hwaits⟩ := h.waits
  refine ⟨outer, kept, inner, hshown, hkept, hwaits.join_inner, ?_⟩
  rw [perform, hread]
  exact .matching hwaits rfl hkept

theorem shows_of_leads (h : start.Leads m) (hstart : start.Lays []) :
    ∃ printed shown, start.Shows printed shown m ∧ m.Lays shown := by
  induction h with
  | refl => exact ⟨[], [], .start, hstart⟩
  | @tail m m' _ hnext ih =>
    obtain ⟨printed, shown, hshows, hlays⟩ := ih
    by_cases hm : m.Nests
    · obtain ⟨outer, kept, inner, rfl, hkept, hinner, hlays⟩ := hlays.nest hm hnext
      exact ⟨printed, _, hshows.nest hnext hm hkept hinner, hlays⟩
    · exact ⟨_, _, hshows.step hnext hm, hlays.next hm hnext⟩

theorem Lays.join_eq {text : String} (h : Lays ⟨.answer (.ok text), [], d⟩ shown)
    (houtput : d.session.output = "") : String.join shown = text := by
  cases h with
  | matching _ hfocus _ => cases hfocus
  | @printing outer inner kept here h hfocus hkept =>
    have htext : text = String.join here := Option.some.inj hfocus
    cases h
    simp only [String.join_append, String.join_nil]
    rw [hkept, houtput, ← htext]
    simp

end Moment

namespace Debugger

open Attempt Moment

variable {d : Debugger} {files : Files}

/-- A match shows all that has been printed in the course of it, and nothing twice. It shows that in
the order in which it has been printed, apart from what matches in command files move. -/
theorem shows_all_once (h : d.session.output = "") :
    ∃ printed shown, (Call.scan.begin d).Prints printed (Call.scan.finish d) ∧
      (Call.scan.begin d).Shows printed shown (Call.scan.finish d) ∧
      (matchBreakpoints.run d).value.1 = String.join shown ∧ shown.Perm printed ∧
      ((∀ m, (Call.scan.begin d).Leads m → m.Nests →
        m.debugger.session.output = "" ∨ m.script = "") →
          (matchBreakpoints.run d).value.1 = String.join printed) := by
  have hkept : String.join [] = d.session.output := h.symm
  have hbegin : (Call.scan.begin d).Lays ([] ++ [] ++ []) := .matching .nil rfl hkept
  obtain ⟨printed, shown, hshows, hlays⟩ := shows_of_leads (Call.scan.leads_finish d) hbegin
  have houtput : (Call.scan.outcome d).2.session.output = "" :=
    (Call.scan.orderly (Call.scan.leads_finish d)).shown h rfl
  have htext : String.join shown = (matchBreakpoints.run d).value.1 := hlays.join_eq houtput
  refine ⟨printed, shown, hshows.prints, hshows, htext.symm, hshows.perm, fun hstraight => ?_⟩
  exact htext.symm.trans (hshows.join_eq hstraight)

def nestingBreakpoint (hits : Counter) : Breakpoint :=
  ⟨"VBL = 0", { trace := true, info := some .history, file := some "s" },
    Scene.startCondition.conditions, hits, false⟩

def nestingDebugger (files : Files) (hits : Counter) (scanning : Bool) (session : Session) :
    Debugger where
  store := { cpu := { processor := .cpu, items := [nestingBreakpoint hits], scanning } }
  machine := .ofRam 16
  surroundings := { files, session }

def nestingFiles : Files :=
  { contents := Std.HashMap.ofList [("s", "e 1\nmatch\n".toUTF8)] }

theorem shows_all_once_nesting :
    let d := nestingDebugger nestingFiles .zero false {}
    d.session.output = "" ∧
      ∃ printed shown, (Call.scan.begin d).Prints printed (Call.scan.finish d) ∧
        (Call.scan.begin d).Shows printed shown (Call.scan.finish d) ∧
        (matchBreakpoints.run d).value.1 = String.join shown ∧ shown.Perm printed ∧
        ((∀ m, (Call.scan.begin d).Leads m → m.Nests →
          m.debugger.session.output = "" ∨ m.script = "") →
            (matchBreakpoints.run d).value.1 = String.join printed) :=
  ⟨rfl, shows_all_once rfl⟩

def nestingSession : Session :=
  { history := [(.cpu, 1)], output := "CPU breakpoint 1\n" }

def nestingScan : Scanning :=
  { processor := .cpu, last := 1, left := 0, matching := { left := [.dsp] } }

/-- The breakpoint is just about to be tested. -/
def beforeTest (files : Files) : Moment :=
  ⟨.scan { nestingScan with left := 1 }, [], nestingDebugger files .zero true {}⟩

/-- The breakpoint fires, with some of its reactions left. -/
def reactingWith (files : Files) (session : Session) (left : List Reaction) : Moment :=
  ⟨.reacting nestingScan ⟨1, nestingBreakpoint Counter.zero.next, left⟩, [],
    nestingDebugger files Counter.zero.next true session⟩

def beforeScript (files : Files) : Moment :=
  reactingWith files nestingSession [.run "s" true]

def inScript (files : Files) (left : List String) (printed : String) : Moment :=
  ⟨.file left printed, [.reacting nestingScan ⟨1, nestingBreakpoint Counter.zero.next, []⟩ true],
    (nestingDebugger files Counter.zero.next true nestingSession).openFile⟩

/-- What the breakpoint has shown stands behind what the command file has printed before its
match. -/
def afterScript (files : Files) : Moment :=
  ⟨.answer (.ok (valueText 1 ++ "CPU breakpoint 1\nNo breakpoint hit.\nNo breakpoint hit.\n")), [],
    nestingDebugger files Counter.zero.next false { nestingSession with output := "" }⟩

theorem test_nestingBreakpoint (memory : Memory) (hits : Counter) :
    (nestingBreakpoint hits).test { memory } = pure (true, nestingBreakpoint hits.next) := by
  have hnumber : (0 : UInt32) &&& 0xffffffff = 0 := by decide
  have hleft : Value.read { memory } ⟨.variable .vbl, false, none, 32, 0xffffffff⟩ = 0 := hnumber
  have hright : Value.read { memory } ⟨.literal 0, false, none, 32, 0xffffffff⟩ = 0 := hnumber
  have hconditions : Condition.testAll { memory } Scene.startCondition.conditions =
      pure (true, Scene.startCondition.conditions) := by
    rw [Scene.startCondition, Condition.testAll, Condition.test, Condition.holds, hleft, hright]
    rfl
  rw [Breakpoint.test, nestingBreakpoint, hconditions]
  rfl

theorem next_beforeTest (files : Files) : (beforeTest files).next =
    some (reactingWith files {} ((nestingBreakpoint .zero).options.reactions .cpu 1)) := by
  rw [beforeTest, reactingWith, nestingDebugger, nestingDebugger, Machine.ofRam]
  generalize Memory.ofRam 16 = memory
  have htest := test_nestingBreakpoint memory .zero
  have hfires : (nestingBreakpoint .zero).fires { memory } = true := by
    rw [Breakpoint.fires, htest]
    rfl
  change some (ite ((nestingBreakpoint .zero).fires { memory } = true) (Moment.mk
    (.reacting nestingScan ⟨1, ((nestingBreakpoint .zero).test { memory }).value.2, _⟩) []
      (Scene.tested .cpu 1 (nestingBreakpoint .zero) _)) _) = _
  rw [if_pos hfires, Scene.tested]
  dsimp only
  rw [htest]
  rfl

theorem course_reactingWith (files : Files) :
    course 3 (reactingWith files {} ((nestingBreakpoint .zero).options.reactions .cpu 1)) =
      (["CPU breakpoint 1\n"], beforeScript files) := by
  have htext : Breakpoint.Info.historyText { history := [(.cpu, 1)] } = "CPU breakpoint 1\n" := by
    decide +kernel
  have hcourse (text : String)
      (h : Breakpoint.Info.historyText { history := [(.cpu, 1)] } = text) :
      course 3 (reactingWith files {} ((nestingBreakpoint .zero).options.reactions .cpu 1)) =
        ([text], reactingWith files { nestingSession with output := "" ++ text }
          [.run "s" true]) := h ▸ rfl
  exact (hcourse _ htext).trans (String.empty_append ▸ rfl)

theorem course_afterScript (files : Files) : course 17 (inScript files ["match"] (valueText 1)) =
    (["No breakpoint hit.\n", "No breakpoint hit.\n"], afterScript files) := by
  rw [inScript, afterScript, nestingDebugger, nestingDebugger, Machine.ofRam]
  generalize Memory.ofRam 16 = memory
  rfl

theorem next_beforeScript (h : files.readText "s" = .ok "e 1\nmatch\n") :
    (beforeScript files).next = some (inScript files ["e 1", "match"] "") := by
  have hbegin : (beforeScript files).next = some (beginFile "s"
      [.reacting nestingScan ⟨1, nestingBreakpoint Counter.zero.next, []⟩ true]
        (nestingDebugger files Counter.zero.next true nestingSession)) := rfl
  have hroom : ¬maxFileDepth ≤
      (nestingDebugger files Counter.zero.next true nestingSession).session.fileDepth := by
    change ¬8 ≤ 0
    decide
  have hread : (nestingDebugger files Counter.zero.next true nestingSession).files.readText "s" =
      .ok "e 1\nmatch\n" := h
  have hlines : (Text.lines "e 1\nmatch\n".toList).map String.ofList = ["e 1", "match"] := by
    decide +kernel
  rw [hbegin, beginFile, if_neg hroom, hread]
  dsimp only
  rw [hlines]
  rfl

theorem outcome_evaluate {runFile : FileRunner} {p : Processor} {text : String} {value : UInt32}
    (h : result (Expression.evaluate (d.scope p) text) = .ok value) :
    outcome (execute runFile (.evaluate p text)) d = (.ok (valueText value), d) := by
  have hvalue : outcome (evaluate p text) d = (.ok value, d) := by
    have hresult : (outcome (evaluate p text) d).1 =
        (result (Expression.evaluate (d.scope p) text)).mapError (.expression text) := rfl
    rw [h] at hresult
    exact Prod.ext hresult (keeps_evaluate p text d)
  exact outcome_bind_of_ok hvalue

theorem prints_inScript (files : Files) :
    (inScript files ["e 1", "match"] "").Prints [valueText 1]
      (inScript files ["match"] (valueText 1)) := by
  have hread : Command.read "e 1" = .ok (some (.evaluate .cpu "1")) := by
    decide +kernel
  have hvalue : result (Expression.evaluate ⟨.ofRam 16, .cpu, .decimal⟩ "1") = .ok 1 := by
    decide +kernel
  have houtcome : outcome (execute (runFileIn 0) (.evaluate .cpu "1"))
      (inScript files ["e 1", "match"] "").debugger = _ := outcome_evaluate hvalue
  have hline := prints_line hread id houtcome ["match"] ""
    [.reacting nestingScan ⟨1, nestingBreakpoint Counter.zero.next, []⟩ true]
  rw [String.empty_append] at hline
  exact hline

theorem prints_nesting (h : files.readText "s" = .ok "e 1\nmatch\n") :
    (Call.scan.begin (nestingDebugger files .zero false {})).Prints
      ["CPU breakpoint 1\n", valueText 1, "No breakpoint hit.\n", "No breakpoint hit.\n"]
      (afterScript files) := by
  have hbegin : (Call.scan.begin (nestingDebugger files .zero false {})).next =
      some (beforeTest files) := rfl
  have hshow := prints_course 3
    (reactingWith files {} ((nestingBreakpoint .zero).options.reactions .cpu 1))
  have hend := prints_course 17 (inScript files ["match"] (valueText 1))
  rw [course_reactingWith] at hshow
  rw [course_afterScript] at hend
  have htest := (prints_of_next hbegin).trans (prints_of_next (next_beforeTest files))
  have hscript := (prints_of_next (next_beforeScript h)).trans (prints_inScript files)
  exact htest.trans (hshow.trans (hscript.trans hend))

theorem readText_of_readBytes {path text : String} (h : files.readBytes path = .ok text.toUTF8) :
    files.readText path = .ok text := by
  have hvalid : String.fromUTF8? text.toUTF8 = some text := dif_pos text.isValidUTF8
  rw [Files.readText, h]
  simp only [bind, Except.bind, hvalid]
  rfl

theorem readText_nestingFiles : nestingFiles.readText "s" = .ok "e 1\nmatch\n" := by
  have hlocate (contents : Std.HashMap String ByteArray) :
      (⟨contents, []⟩ : Files).locate "s" = .ok (.entry ⟨"s", "s", false⟩) := rfl
  have hname : Files.isTooLong "s" = false := by decide
  have hbytes : nestingFiles.contents["s"]? = some "e 1\nmatch\n".toUTF8 := by
    simp [nestingFiles]
  apply readText_of_readBytes
  rw [Files.readBytes, nestingFiles, hlocate]
  change nestingFiles.bytesOf ⟨"s", "s", false⟩ = _
  rw [Files.bytesOf, hname, hbytes]
  rfl

/-- A match does not always show what has been printed in that order. -/
theorem moves_nesting : ¬∀ d : Debugger, d.session.output = "" →
    ∃ printed, (Call.scan.begin d).Prints printed (Call.scan.finish d) ∧
      (matchBreakpoints.run d).value.1 = String.join printed := by
  intro h
  obtain ⟨printed, hprints, htext⟩ := h (nestingDebugger nestingFiles .zero false {}) rfl
  obtain ⟨rfl, hfinish⟩ := hprints.unique (prints_nesting readText_nestingFiles) rfl rfl
  have hanswer : some (matchBreakpoints.run (nestingDebugger nestingFiles .zero false {})).value.1 =
      (afterScript nestingFiles).focus.text? := congrArg (fun m => m.focus.text?) hfinish
  rw [htext] at hanswer
  have hmoved : (afterScript nestingFiles).focus.text? ≠ some (String.join
      ["CPU breakpoint 1\n", valueText 1, "No breakpoint hit.\n", "No breakpoint hit.\n"]) := by
    decide +kernel
  exact hmoved hanswer.symm

end Debugger

end Monitor

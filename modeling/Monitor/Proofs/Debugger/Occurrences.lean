import Monitor.Proofs.Debugger.Calls

namespace Monitor

/-- What happens in the course of calls, as far as a session keeps it in mind. -/
inductive Occurrence
  /-- The conditions of the breakpoint with an index hold, and its skip count lets it through. -/
  | fires (p : Processor) (index : Nat)
  | dumps (range : Option String) (first last : UInt32)
  | resets (b : Breakpoint)
  deriving DecidableEq, Repr

/-- What a session keeps in mind, and the firings that it is just about to remember. -/
structure Recollection where
  history : List (Processor × Nat)
  nextDump : Option UInt32
  due : List (Processor × Nat)

namespace Recollection

/-- How a recollection changes by what happens, and when a firing comes to be remembered. -/
inductive Changes : Recollection → List Occurrence → Recollection → Prop
  | nothing (r : Recollection) : Changes r [] r
  | fires (history : List (Processor × Nat)) (nextDump : Option UInt32) (p : Processor)
    (index : Nat) :
    Changes ⟨history, nextDump, []⟩ [.fires p index] ⟨history, nextDump, [(p, index)]⟩
  | remembers (s : Session) (p : Processor) (index : Nat) :
    Changes ⟨s.history, s.nextDump, [(p, index)]⟩ [] ⟨(s.remember p index).history, s.nextDump, []⟩
  | dumps (r : Recollection) {range : Option String} {first last : UInt32}
    (h : range = none →
      (∀ next, r.nextDump = some next → first = next) ∧ last = Dump.defaultEnd first) :
    Changes r [.dumps range first last] { r with nextDump := some (last + 1) }
  | resets (r : Recollection) {b : Breakpoint}
    (h : b.options.hasSideEffects = true ∧ b.options.noinit = false) :
    Changes r [.resets b] { r with nextDump := none }

inductive Passes (start : Recollection) : List Occurrence → Recollection → Prop
  | refl : Passes start [] start
  | step {r r' : Recollection} {seen more : List Occurrence} (h : Passes start seen r)
    (hchange : r.Changes more r') : Passes start (seen ++ more) r'

theorem Passes.trans {start r r' : Recollection} {seen more : List Occurrence}
    (h : start.Passes seen r) (hmore : r.Passes more r') : start.Passes (seen ++ more) r' := by
  induction hmore with
  | refl => rwa [List.append_nil]
  | step _ hchange ih =>
    rw [← List.append_assoc]
    exact ih.step hchange

end Recollection

namespace Reaction

def firing? : Reaction → Option (Processor × Nat)
  | .remember p index => some (p, index)
  | _ => none

end Reaction

namespace Breakpoint.Options

variable {o : Breakpoint.Options} {p : Processor} {index : Nat} {rs : List Reaction}

theorem firings_tail_reactions (o : Breakpoint.Options) (p : Processor) (index : Nat) :
    (o.reactions p index).tail.filterMap Reaction.firing? = [] := by
  rw [List.filterMap_eq_nil_iff, reactions, List.tail_cons]
  split
  · simp only [List.forall_mem_append]
    refine ⟨⟨⟨?_, ?_⟩, ?_⟩, ?_⟩
    · cases o.noinit <;> simp [Reaction.firing?]
    · simp [Reaction.firing?]
    · cases o.lock <;> simp [Reaction.firing?]
    · simp [Reaction.firing?]
  · exact List.forall_mem_nil _

theorem firings_of_suffix {r : Reaction} (h : r :: rs <:+ o.reactions p index) :
    rs.filterMap Reaction.firing? = [] := by
  have htail : rs <:+ (o.reactions p index).tail := by
    rcases List.suffix_cons_iff.1 h with hall | hmore
    · exact (List.cons.inj hall).2 ▸ List.suffix_refl rs
    · exact (List.suffix_cons r rs).trans hmore
  have hnone := htail.filterMap Reaction.firing?
  rw [firings_tail_reactions] at hnone
  exact List.suffix_nil.1 hnone

theorem resets_of_mem (h : .reset ∈ o.reactions p index ∨
    ∃ path, .run path true ∈ o.reactions p index) :
    o.hasSideEffects = true ∧ o.noinit = false := by
  by_cases heffects : o.hasSideEffects = true
  · refine ⟨heffects, Bool.eq_false_iff.2 fun hnoinit => ?_⟩
    simp [reactions, heffects, hnoinit] at h
  · simp [reactions, heffects] at h

end Breakpoint.Options

namespace Debugger

open Revision

variable {α β ε : Type} {x : Execution α} {f : α → Execution β} {d d' : Debugger}
  {runFile : FileRunner}

def recollection (d : Debugger) : Recollection :=
  ⟨d.session.history, d.session.nextDump, []⟩

/-- A breakpoint fires if a scan that comes to it finds that it has not been removed, that all its
conditions hold and that its skip count lets it through. -/
def firing (p : Processor) (index : Nat) (d : Debugger) : List Occurrence :=
  match (d.list p).get? index with
  | none => []
  | some b => if !b.deleted && b.fires d.machine then [.fires p index] else []

def dumping (line : String) (d : Debugger) : List Occurrence :=
  match Command.read line with
  | .ok (some (.memory range)) =>
    match d.dumpRange range with
    | .ok (first, last) => [.dumps range first last]
    | .error _ => []
  | _ => []

def KeepsSession (x : Execution α) : Prop :=
  ∀ d, (outcome x d).2.session = d.session

theorem keepsSession_of_keeps (hx : Keeps x) : KeepsSession x :=
  fun d => congrArg session (hx d)

theorem KeepsSession.bind (hx : KeepsSession x) (hf : ∀ a, KeepsSession (f a)) :
    KeepsSession (x >>= f) := by
  intro d
  have hd := hx d
  cases h : outcome x d with
  | mk result d' =>
    rw [h] at hd
    cases result with
    | error e =>
      rw [outcome_bind_of_error h]
      exact hd
    | ok a =>
      rw [outcome_bind_of_ok h]
      exact (hf a d').trans hd

theorem keepsSession_modify {change : Debugger → Debugger}
    (h : ∀ d : Debugger, (change d).session = d.session) : KeepsSession (modify change) :=
  h

theorem keepsSession_revise (cause : ε → Command.Error) (y : Debugger → Revised Store ε α) :
    KeepsSession (revise cause y) := by
  intro d
  rw [outcome_revise]
  rcases Attempt.result (y d) with _ | _ <;> rfl

theorem keepsSession_assign (processor : Processor) (name expression : String) :
    KeepsSession (assign processor name expression) := by
  refine (keepsSession_of_keeps keeps_get).bind fun d => ?_
  cases (d.scope processor).register? name with
  | none => exact keepsSession_of_keeps (keeps_throw _)
  | some r =>
    exact (keepsSession_of_keeps (keeps_evaluate _ _)).bind fun _ =>
      keepsSession_modify fun _ => rfl

theorem keepsSession_execute {command : Command} (h : ¬command.RunsOthers)
    (hdump : ∀ range, command ≠ .memory range) : KeepsSession (execute runFile command) := by
  cases command with
  | breakpoint processor args => exact keepsSession_revise _ _
  | address processor args =>
    cases args with
    | none => exact keepsSession_of_keeps (keeps_pure _)
    | some args =>
      exact (keepsSession_revise _ _).bind fun _ => keepsSession_of_keeps (keeps_pure _)
  | evaluate processor expression =>
    exact keepsSession_of_keeps ((keeps_evaluate _ _).bind fun _ => keeps_pure _)
  | registers processor assignment =>
    cases assignment with
    | none => exact keepsSession_of_keeps (keeps_get.bind fun _ => keeps_pure _)
    | some assignment =>
      exact (keepsSession_assign processor _ _).bind fun _ => keepsSession_of_keeps (keeps_pure _)
  | write address bytes =>
    refine KeepsSession.bind ?_ fun _ => keepsSession_of_keeps (keeps_pure _)
    exact (keepsSession_of_keeps (keeps_evaluate _ _)).bind fun _ =>
      (keepsSession_of_keeps (keeps_bytesOf bytes)).bind fun _ => keepsSession_modify fun _ => rfl
  | save path =>
    refine KeepsSession.bind ?_ fun _ => keepsSession_of_keeps (keeps_pure _)
    exact (keepsSession_of_keeps keeps_get).bind fun _ =>
      (keepsSession_of_keeps (keeps_log _)).bind fun _ =>
        (keepsSession_of_keeps (keeps_attempt _ _)).bind fun _ => keepsSession_modify fun _ => rfl
  | «variables» => exact keepsSession_of_keeps (keeps_get.bind fun _ => keeps_pure _)
  | help => exact keepsSession_of_keeps (keeps_pure _)
  | memory range => exact absurd rfl (hdump range)
  | scan | run path => exact absurd trivial h

theorem outcome_dump (range : Option String) (d : Debugger) : outcome (dump range) d =
    match d.dumpRange range with
    | .ok (first, last) => (.ok (Dump.text d.machine first last),
        d.mapSession fun s => { s with nextDump := some (last + 1) })
    | .error e => (.error (.range e), d) := by
  have hattempt : outcome (attempt .range (ExceptT.mk (pure (d.dumpRange range)))) d =
    ((d.dumpRange range).mapError .range, d) := rfl
  rw [dump, outcome_bind_of_ok (outcome_get d)]
  cases hresult : d.dumpRange range with
  | error e =>
    rw [hresult] at hattempt
    exact outcome_bind_of_error hattempt
  | ok ends =>
    rw [hresult] at hattempt
    exact outcome_bind_of_ok hattempt

theorem dumpRange_none {first last : UInt32} (h : d.dumpRange none = .ok (first, last)) :
    (∀ next, d.session.nextDump = some next → first = next) ∧ last = Dump.defaultEnd first := by
  cases h
  refine ⟨fun next hnext => ?_, rfl⟩
  rw [hnext, Option.getD_some]

end Debugger

def Focus.Proper : Focus → Prop
  | .reacting s r => r.left <:+ r.breakpoint.options.reactions s.processor r.index
  | _ => True

def Waiting.Proper : Waiting → Prop
  | .reacting s r resets =>
    ∃ path, .run path resets :: r.left <:+ r.breakpoint.options.reactions s.processor r.index
  | _ => True

namespace Moment

open Debugger Revision

variable {m m' last start : Moment} {waiting : List Waiting} {d : Debugger} {seen : List Occurrence}

def occurrences (m : Moment) : List Occurrence :=
  match m.focus, m.waiting with
  | .file (line :: _) _, _ => m.debugger.dumping line
  | .scan ⟨p, last, left + 1, _, _⟩, _ => m.debugger.firing p (last - left)
  | .reacting _ ⟨_, b, .reset :: _⟩, _ => [.resets b]
  | .answer _, .reacting _ ⟨_, b, _⟩ true :: _ => [.resets b]
  | _, _ => []

/-- What happens in the course of a call, in that order. -/
inductive Undergoes (start : Moment) : List Occurrence → Moment → Prop
  | refl : Undergoes start [] start
  | step {m m' : Moment} {seen : List Occurrence} (h : Undergoes start seen m)
    (hnext : m.next = some m') : Undergoes start (seen ++ m.occurrences) m'

def after (m : Moment) : Nat → Moment
  | 0 => m
  | n + 1 =>
    match m.next with
    | none => m
    | some m' => m'.after n

def happenings (m : Moment) : Nat → List Occurrence
  | 0 => []
  | n + 1 =>
    match m.next with
    | none => []
    | some m' => m.occurrences ++ m'.happenings n

theorem Undergoes.head (hnext : m.next = some m') (h : m'.Undergoes seen last) :
    m.Undergoes (m.occurrences ++ seen) last := by
  induction h with
  | refl =>
    rw [List.append_nil]
    exact Undergoes.refl.step hnext
  | step _ hlast ih =>
    rw [← List.append_assoc]
    exact ih.step hlast

theorem undergoes_happenings (n : Nat) (m : Moment) : m.Undergoes (m.happenings n) (m.after n) := by
  induction n generalizing m with
  | zero => exact .refl
  | succ n ih =>
    rw [happenings, after]
    cases hnext : m.next with
    | none => exact .refl
    | some m' => exact .head hnext (ih m')

theorem Undergoes.leads (h : start.Undergoes seen m) : start.Leads m := by
  induction h with
  | refl => exact .refl start
  | step _ hnext ih => exact ih.tail hnext

theorem Leads.unique (h : start.Leads m) (h' : start.Leads m') (hm : m.next = none)
    (hm' : m'.next = none) : m = m' := by
  have hsettled : Relator.RightUnique fun m later : Moment => m.next = some later :=
    fun _ _ _ hnext hnext' => Option.some.inj (hnext.symm.trans hnext')
  rcases Relation.ReflTransGen.total_of_right_unique hsettled h h' with hlater | hlater
  · obtain rfl | ⟨_, hnext, _⟩ := hlater.cases_head
    · rfl
    · exact absurd (hnext.symm.trans hm) (Option.some_ne_none _)
  · obtain rfl | ⟨_, hnext, _⟩ := hlater.cases_head
    · rfl
    · exact absurd (hnext.symm.trans hm') (Option.some_ne_none _)

theorem Leads.undergoes (h : start.Leads m) : ∃ seen, start.Undergoes seen m := by
  induction h with
  | refl => exact ⟨[], .refl⟩
  | tail _ hnext ih =>
    obtain ⟨seen, h⟩ := ih
    exact ⟨_, h.step hnext⟩

def recollection (m : Moment) : Recollection where
  history := m.debugger.session.history
  nextDump := m.debugger.session.nextDump
  due :=
    match m.focus with
    | .reacting _ r => r.left.filterMap Reaction.firing?
    | _ => []

/-- The reactions that are left of a breakpoint are the last ones that its options ask for. -/
structure Proper (m : Moment) : Prop where
  focus : m.focus.Proper
  waiting : ∀ w ∈ m.waiting, w.Proper

structure Follows (r : Recollection) (happened : List Occurrence) (m : Moment) : Prop where
  proper : m.Proper
  changes : r.Changes happened m.recollection

theorem follows_beginFile (path : String) (d : Debugger) (h : ∀ w ∈ waiting, w.Proper) :
    (beginFile path waiting d).Follows d.recollection [] := by
  rw [beginFile]
  split
  · exact ⟨⟨trivial, h⟩, .nothing _⟩
  · split
    · exact ⟨⟨trivial, h⟩, .nothing _⟩
    · exact ⟨⟨trivial, h⟩, .nothing _⟩

theorem changes_execute {line : String} {command : Command}
    (hread : Command.read line = .ok (some command)) (h : ¬command.RunsOthers) (d : Debugger) :
    d.recollection.Changes (d.dumping line)
      (outcome (execute (runFileIn 0) command) d).2.recollection := by
  rw [dumping, hread]
  by_cases hdump : ∃ range, command = .memory range
  · obtain ⟨range, rfl⟩ := hdump
    have houtcome : outcome (execute (runFileIn 0) (.memory range)) d = _ := outcome_dump range d
    rw [houtcome]
    dsimp only
    cases hrange : d.dumpRange range with
    | error e => exact .nothing _
    | ok ends => exact .dumps _ fun hnone => dumpRange_none (hnone ▸ hrange)
  · have hsession : (outcome (execute (runFileIn 0) command) d).2.session = d.session :=
      keepsSession_execute h (fun range heq => hdump ⟨range, heq⟩) d
    rw [Debugger.recollection, Debugger.recollection, hsession]
    cases command with
    | memory range => exact absurd ⟨range, rfl⟩ hdump
    | _ => exact .nothing _

theorem follows_perform (line : String) (d : Debugger) (h : ∀ w ∈ waiting, w.Proper) :
    (perform line waiting d).Follows d.recollection (d.dumping line) := by
  rcases hread : Command.read line with e | _ | command
  · rw [perform, dumping, hread]
    exact ⟨⟨trivial, h⟩, .nothing _⟩
  · rw [perform, dumping, hread]
    exact ⟨⟨trivial, h⟩, .nothing _⟩
  · by_cases hothers : command.RunsOthers
    · cases command with
      | scan =>
        rw [perform, dumping, hread]
        exact ⟨⟨trivial, h⟩, .nothing _⟩
      | run path =>
        rw [perform, dumping, hread]
        exact follows_beginFile path d h
      | _ => cases hothers
    · rw [perform_of_read hread hothers]
      exact ⟨⟨trivial, h⟩, changes_execute hread hothers d⟩

theorem follows_continueScan (s : Scanning) (left : Nat) (d : Debugger)
    (h : ∀ w ∈ waiting, w.Proper) :
    (continueScan s left waiting d).Follows d.recollection
      (d.firing s.processor (s.last - left)) := by
  rw [continueScan, firing]
  cases (d.list s.processor).get? (s.last - left) with
  | none => exact ⟨⟨trivial, h⟩, .nothing _⟩
  | some b =>
    dsimp only
    by_cases hb : b.deleted = true
    · rw [if_pos hb, if_neg (by simp [hb])]
      exact ⟨⟨trivial, h⟩, .nothing _⟩
    · rw [if_neg hb]
      by_cases hfires : b.fires d.machine = true
      · rw [if_pos hfires, if_pos (by simp [hb, hfires])]
        refine ⟨⟨List.suffix_refl _, h⟩, ?_⟩
        have hdue : (b.options.reactions s.processor (s.last - left)).filterMap
            Reaction.firing? = [(s.processor, s.last - left)] :=
          congrArg (_ :: ·) (b.options.firings_tail_reactions s.processor (s.last - left))
        rw [Moment.recollection]
        dsimp only
        rw [hdue]
        exact .fires ..
      · rw [if_neg hfires, if_neg (by simp [hfires])]
        exact ⟨⟨trivial, h⟩, .nothing _⟩

theorem follows_continueReacting {s : Scanning} {r : Reacting}
    (hr : (Focus.reacting s r).Proper) (d : Debugger) (h : ∀ w ∈ waiting, w.Proper) :
    (continueReacting s r waiting d).Follows (recollection ⟨.reacting s r, waiting, d⟩)
      (occurrences ⟨.reacting s r, waiting, d⟩) := by
  obtain ⟨index, b, left⟩ := r
  cases left with
  | nil =>
    have hafter : (continueReacting s ⟨index, b, []⟩ waiting d).recollection = d.recollection :=
      congrArg (fun o : Surroundings => Recollection.mk o.session.history o.session.nextDump [])
        (surroundings_retire s.processor index b d)
    refine ⟨⟨trivial, h⟩, ?_⟩
    rw [hafter]
    exact .nothing _
  | cons reaction left =>
    have hleft : (Focus.reacting s ⟨index, b, left⟩).Proper := (List.suffix_cons _ _).trans hr
    have hdue := Breakpoint.Options.firings_of_suffix hr
    cases reaction with
    | remember p' index' =>
      have hbefore : recollection ⟨.reacting s ⟨index, b, .remember p' index' :: left⟩, waiting, d⟩
          = ⟨d.session.history, d.session.nextDump, [(p', index')]⟩ :=
        congrArg (Recollection.mk _ _ <| (p', index') :: ·) hdue
      have hafter : (continueReacting s ⟨index, b, .remember p' index' :: left⟩ waiting
          d).recollection = ⟨(d.session.remember p' index').history, d.session.nextDump, []⟩ :=
        congrArg (Recollection.mk _ _) hdue
      refine ⟨⟨hleft, h⟩, ?_⟩
      rw [hbefore, hafter]
      exact .remembers ..
    | reset =>
      have hmem := hr.subset List.mem_cons_self
      exact ⟨⟨hleft, h⟩, .resets _ (Breakpoint.Options.resets_of_mem (.inl hmem))⟩
    | inform | informLocked => exact ⟨⟨hleft, h⟩, .nothing _⟩
    | run path resets =>
      have hbefore : recollection ⟨.reacting s ⟨index, b, .run path resets :: left⟩, waiting, d⟩ =
          d.recollection := congrArg (Recollection.mk _ _) hdue
      rw [hbefore]
      exact follows_beginFile path d (List.forall_mem_cons.2 ⟨⟨path, hr⟩, h⟩)

theorem follows_resume (result : Except Command.Error String) {w : Waiting} (hw : w.Proper)
    (d : Debugger) (h : ∀ w ∈ waiting, w.Proper) :
    (resume result waiting d w).Follows d.recollection
      (occurrences ⟨.answer result, w :: waiting, d⟩) := by
  cases w with
  | file left printed => exact ⟨⟨trivial, h⟩, .nothing _⟩
  | reacting s r resets =>
    obtain ⟨path, hleft⟩ := hw
    have hdue := Breakpoint.Options.firings_of_suffix hleft
    have hkept : (keep result d).value.recollection = d.recollection := by
      cases result with
      | error e => rfl
      | ok text => rfl
    refine ⟨⟨(List.suffix_cons _ _).trans hleft, h⟩, ?_⟩
    rw [← hkept]
    cases resets with
    | false =>
      have hafter : (resume result waiting d (.reacting s r false)).recollection =
          (keep result d).value.recollection := congrArg (Recollection.mk _ _) hdue
      rw [hafter]
      exact .nothing _
    | true =>
      have hafter : (resume result waiting d (.reacting s r true)).recollection =
          { (keep result d).value.recollection with nextDump := none } :=
        congrArg (Recollection.mk _ _) hdue
      have hmem := hleft.subset List.mem_cons_self
      rw [hafter]
      exact .resets _ (Breakpoint.Options.resets_of_mem (.inr ⟨path, hmem⟩))

theorem Proper.next (h : m.Proper) (hnext : m.next = some m') :
    m'.Follows m.recollection m.occurrences := by
  obtain ⟨focus, waiting, d⟩ := m
  obtain ⟨hfocus, hwaiting⟩ := h
  cases focus with
  | answer result =>
    cases waiting with
    | nil => cases hnext
    | cons w waiting =>
      cases hnext
      obtain ⟨hw, hwaiting⟩ := List.forall_mem_cons.1 hwaiting
      exact follows_resume result hw d hwaiting
  | file left printed =>
    cases left with
    | nil =>
      cases hnext
      exact ⟨⟨trivial, hwaiting⟩, .nothing _⟩
    | cons line left =>
      cases hnext
      exact follows_perform line d (List.forall_mem_cons.2 ⟨trivial, hwaiting⟩)
  | matching found =>
    obtain ⟨left, cpuStops, dspStops⟩ := found
    cases left with
    | nil =>
      cases hnext
      exact ⟨⟨trivial, hwaiting⟩, .nothing _⟩
    | cons p left =>
      cases hnext
      rw [continueMatch]
      split
      · exact ⟨⟨trivial, hwaiting⟩, .nothing _⟩
      · exact ⟨⟨trivial, hwaiting⟩, .nothing _⟩
  | scan s =>
    obtain ⟨p, last, left, stops, found⟩ := s
    cases left with
    | zero =>
      cases hnext
      exact ⟨⟨trivial, hwaiting⟩, .nothing _⟩
    | succ left =>
      cases hnext
      exact follows_continueScan ⟨p, last, left + 1, stops, found⟩ left d hwaiting
  | reacting s r =>
    cases hnext
    exact follows_continueReacting hfocus d hwaiting

/-- In the course of a call, what is kept in mind changes by what happens in it. -/
theorem Undergoes.passes (h : start.Undergoes seen m) (hstart : start.Proper) :
    m.Proper ∧ start.recollection.Passes seen m.recollection := by
  induction h with
  | refl => exact ⟨hstart, .refl⟩
  | step _ hnext ih =>
    obtain ⟨hproper, hpasses⟩ := ih
    obtain ⟨hproper', hchange⟩ := hproper.next hnext
    exact ⟨hproper', hpasses.step hchange⟩

end Moment

namespace Call

variable {call : Call} {d : Debugger} {seen : List Occurrence}

def occurrences (call : Call) (d : Debugger) : List Occurrence :=
  match call with
  | .line text => d.dumping text
  | .run _ | .scan => []

theorem follows_begin (call : Call) (d : Debugger) :
    (call.begin d).Follows d.recollection (call.occurrences d) := by
  cases call with
  | line text => exact Moment.follows_perform text d (List.forall_mem_nil _)
  | run path => exact Moment.follows_beginFile path d (List.forall_mem_nil _)
  | scan => exact ⟨⟨trivial, (List.forall_mem_nil _)⟩, .nothing _⟩

theorem exists_undergoes (call : Call) (d : Debugger) :
    ∃ seen, (call.begin d).Undergoes seen (call.finish d) :=
  (call.leads_finish d).undergoes

theorem undergoes_happenings {n : Nat} (h : ((call.begin d).after n).next = none) :
    (call.begin d).Undergoes ((call.begin d).happenings n) (call.finish d) := by
  have hall := Moment.undergoes_happenings n (call.begin d)
  rwa [hall.leads.unique (call.leads_finish d) h rfl] at hall

end Call

namespace Debugger

/-- What happens to a debugger call after call. In between its machine runs, files may change, and
another info may be locked. -/
inductive Undergoes (start : Debugger) : List Occurrence → Debugger → Prop
  | nothing : Undergoes start [] start
  | call {d : Debugger} {seen more : List Occurrence} (h : Undergoes start seen d) (call : Call)
    (hmore : (call.begin d).Undergoes more (call.finish d)) :
    Undergoes start (seen ++ (call.occurrences d ++ more)) (call.outcome d).2
  | machine {d : Debugger} {seen : List Occurrence} (h : Undergoes start seen d)
    (machine : Machine) : Undergoes start seen { d with machine }
  | files {d : Debugger} {seen : List Occurrence} (h : Undergoes start seen d) (files : Files) :
    Undergoes start seen (d.setFiles files)
  | lock {d : Debugger} {seen : List Occurrence} (h : Undergoes start seen d)
    (info : Breakpoint.Info) :
    Undergoes start seen (d.mapSession fun s => { s with lockedInfo := info })

variable {start d : Debugger} {seen : List Occurrence}

theorem Undergoes.goesOn {n : Nat} {more : List Occurrence} (h : start.Undergoes seen d)
    (call : Call) (hmore : call.occurrences d ++ (call.begin d).happenings n = more)
    (hends : ((call.begin d).after n).next.isNone = true) :
    start.Undergoes (seen ++ more) (call.outcome d).2 :=
  hmore ▸ h.call call (Call.undergoes_happenings (Option.isNone_iff_eq_none.1 hends))

theorem Undergoes.passes (h : start.Undergoes seen d) :
    start.recollection.Passes seen d.recollection := by
  induction h with
  | nothing => exact .refl
  | @call d seen more _ call hmore ih =>
    obtain ⟨hproper, hchange⟩ := call.follows_begin d
    exact ih.trans ((Recollection.Passes.refl.step hchange).trans (hmore.passes hproper).2)
  | machine _ _ ih | files _ _ ih | lock _ _ ih => exact ih

end Debugger

end Monitor

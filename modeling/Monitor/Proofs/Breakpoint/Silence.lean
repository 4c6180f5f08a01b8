import Monitor.Debugger
import Monitor.Proofs.Breakpoint.Pointwise
import Monitor.Proofs.Condition.Notices

namespace Monitor

open Attempt Revision

variable {σ : Type} {handler : Handler σ} {p : Processor} {l : BreakpointList} {b : Breakpoint}

structure Breakpoint.Quiet (b : Breakpoint) : Prop where
  quiet : b.options.quiet = true
  plain : b.options.hasSideEffects = false

theorem Breakpoint.Quiet.of_options {c : Breakpoint} (h : b.Quiet) (hc : c.options = b.options) :
    c.Quiet :=
  ⟨hc ▸ h.quiet, hc ▸ h.plain⟩

/-- The handler does nothing when a breakpoint has fired, nor shows anything. -/
structure Handler.Ignores (handler : Handler σ) (p : Processor) : Prop where
  idles : ∀ index, handler.Idles (.remember p index)
  silent : ∀ index scene, (handler (.remember p index) scene).notices = []

theorem Handler.Ignores.undisturbing {items : List Breakpoint} (h : handler.Ignores p)
    (hquiet : ∀ b ∈ items, b.Quiet) : handler.Undisturbing p items :=
  handler.undisturbing_of_plain h.idles fun b hb => (hquiet b hb).plain

theorem Debugger.ignores_react (runFile : FileRunner) (p : Processor) :
    Handler.Ignores (react runFile) p :=
  ⟨fun _ _ => ⟨rfl, rfl⟩, fun _ _ => rfl⟩

namespace BreakpointList

theorem notices_remove (h : ∀ b ∈ l.items, b.Quiet) (index : Nat) :
    Attempt.notices (l.remove index) = [] := by
  unfold remove
  split
  · rfl
  · split
    · rfl
    · rename_i b hb
      split
      · rfl
      · have hreport : l.reportRemoved index b = pure () :=
          if_pos (h b (mem_of_get? hb)).quiet
        rw [hreport]
        rfl

theorem notices_discard (h : ∀ b ∈ l.items, b.Quiet) (index : Nat) :
    (l.discard index).notices = [] := by
  have hrun : (l.remove index).run.notices = [] := notices_remove h index
  rw [discard, Logged.notices_bind, hrun, List.nil_append]
  split <;> rfl

/-- A list that is not being scanned, and all of whose breakpoints are quiet. -/
structure Hushed (l : BreakpointList) : Prop where
  idle : l.scanning = false
  quiet : ∀ b ∈ l.items, b.Quiet

theorem Hushed.discard (h : l.Hushed) (index : Nat) : (l.discard index).value.Hushed := by
  rw [value_discard]
  split
  · rename_i next hremove
    obtain ⟨-, rfl⟩ := remove_eq_ok.1 hremove
    refine ⟨scanning_without.trans h.idle, fun b hb => ?_⟩
    rw [without, if_neg (Bool.eq_false_iff.1 h.idle)] at hb
    exact h.quiet b (List.mem_of_mem_eraseIdx hb)
  · exact h

theorem Hushed.set (h : l.Hushed) (hb : b.Quiet) (place : Nat) :
    { l with items := l.items.set place b }.Hushed where
  idle := h.idle
  quiet := by
    intro c hc
    rcases List.mem_or_eq_of_mem_set hc with hc | rfl
    · exact h.quiet c hc
    · exact hb

theorem Hushed.sweepAt (h : l.Hushed) (index : Nat) :
    (l.sweepAt index).notices = [] ∧ (l.sweepAt index).value.Hushed := by
  rw [BreakpointList.sweepAt]
  split
  · exact ⟨rfl, h⟩
  · rename_i b hb
    have hpresent : Breakpoint.Quiet { b with deleted := false } :=
      (h.quiet b (mem_of_get? hb)).of_options rfl
    have hset := h.set hpresent (index - 1)
    split
    · exact ⟨notices_discard hset.quiet index, hset.discard index⟩
    · exact ⟨rfl, h⟩

theorem Hushed.notices_sweepFrom (h : l.Hushed) (index : Nat) :
    (l.sweepFrom index).notices = [] := by
  induction index generalizing l with
  | zero => rfl
  | succ index ih =>
    obtain ⟨hnotices, hnext⟩ := h.sweepAt (index + 1)
    rw [sweepFrom, Logged.notices_bind, hnotices, ih hnext]
    rfl

end BreakpointList

namespace Scene

variable {start scene : Scene σ} {front back items : List Breakpoint}

theorem notices_react (hignores : handler.Ignores p) (hb : b.Quiet) (index : Nat)
    (scene : Scene σ) : (react handler (b.options.reactions p index) scene).notices = [] := by
  rw [Breakpoint.Options.reactions, hb.plain, if_neg Bool.false_ne_true, react,
    Logged.notices_bind, hignores.silent]
  rfl

theorem notices_retire (h : ∀ b ∈ (scene.list p).items, b.Quiet) (index : Nat) :
    (retire p index b scene).notices = [] := by
  rw [retire]
  split
  · rw [Logged.notices_bind, BreakpointList.notices_discard h]
    rfl
  · rfl

theorem Midway.notices_fire (h : Midway p start front (b :: back) scene)
    (hignores : handler.Ignores p) (hquiet : ∀ c ∈ front ++ b :: back, c.Quiet) (index : Nat) :
    (fire handler p index b scene).notices = [] := by
  have hb : b.Quiet := hquiet b (List.mem_append_right front List.mem_cons_self)
  have hreport : reportMatch p index b = pure () := if_pos hb.quiet
  have hidles := hignores.undisturbing hquiet
  have hreact := h.react (hidles b (List.mem_append_right front List.mem_cons_self) index)
  have hretire : (Scene.retire p index b
      (Scene.react handler (b.options.reactions p index) scene).value).notices = [] := by
    refine notices_retire ?_ index
    rw [hreact.list]
    exact hquiet
  rw [fire, hreport, Logged.notices_bind, Logged.notices_bind, Logged.notices_bind,
    notices_react hignores hb, hretire]
  rfl

/-- Of a quiet breakpoint, a scan shows only what its conditions track. -/
theorem Midway.notices_scanAt (h : Midway p start front (b :: back) scene)
    (hlive : b.deleted = false) (hignores : handler.Ignores p)
    (hquiet : ∀ c ∈ front ++ b :: back, c.Quiet) :
    (Scene.scanAt handler p (front.length + 1) scene).notices =
      (Condition.testAll start.machine b.conditions).notices := by
  have hget : (scene.list p).get? (front.length + 1) = some b := by
    rw [h.list]
    exact BreakpointList.get?_append_cons { start.list p with scanning := true } front back b
  have htest : (b.test scene.machine).notices =
      (Condition.testAll start.machine b.conditions).notices := by
    rw [Breakpoint.test, Logged.notices_bind, h.machine]
    exact List.append_nil _
  obtain ⟨hfront, hmore⟩ := List.forall_mem_append.1 hquiet
  obtain ⟨hb, hback⟩ := List.forall_mem_cons.1 hmore
  have htested : ∀ c ∈ front ++ b.tally start.machine :: back, c.Quiet :=
    List.forall_mem_append.2 ⟨hfront, List.forall_mem_cons.2 ⟨hb.of_options rfl, hback⟩⟩
  have hfire := h.tested.notices_fire hignores htested (front.length + 1)
  rw [Scene.tested, h.machine, Breakpoint.test_snd] at hfire
  rw [Scene.scanAt, hget]
  dsimp only
  rw [if_neg (Bool.eq_false_iff.1 hlive), Logged.notices_bind, htest, h.machine, Breakpoint.test_snd]
  split
  · rw [hfire, List.append_nil]
  · exact List.append_nil _

theorem Midway.notices_scanFrom (h : Midway p start front back scene)
    (hlive : ∀ b ∈ back, b.deleted = false) (hignores : handler.Ignores p)
    (hquiet : ∀ b ∈ front ++ back, b.Quiet) :
    (Scene.scanFrom handler p (front.length + back.length) back.length scene).notices =
      back.flatMap fun b => (Condition.testAll start.machine b.conditions).notices := by
  induction back generalizing front scene with
  | nil => rfl
  | cons b back ih =>
    obtain ⟨hfront, hmore⟩ := List.forall_mem_append.1 hquiet
    obtain ⟨hb, hback⟩ := List.forall_mem_cons.1 hmore
    obtain ⟨hstep, -⟩ := h.scanAt (hlive b List.mem_cons_self)
      (hignores.undisturbing hmore b List.mem_cons_self)
    have hpassed : ∀ c ∈ front ++ [b.passed start.machine] ++ back, c.Quiet := by
      rw [List.append_assoc]
      exact List.forall_mem_append.2 ⟨hfront, List.forall_mem_cons.2 ⟨hb.of_options rfl, hback⟩⟩
    have hrest := ih hstep (fun c hc => hlive c (List.mem_cons_of_mem _ hc)) hpassed
    have hindex : front.length + (b :: back).length - back.length = front.length + 1 := by
      rw [List.length_cons]
      omega
    have hlast : front.length + (b :: back).length =
        (front ++ [b.passed start.machine]).length + back.length := by
      rw [List.length_cons, List.length_append, List.length_singleton]
      omega
    rw [List.length_cons, Scene.scanFrom, Logged.notices_bind, ← List.length_cons, hindex,
      h.notices_scanAt (hlive b List.mem_cons_self) hignores hquiet, Logged.notices_bind, hlast,
      hrest]
    exact congrArg _ (List.append_nil _)

structure Hushed (p : Processor) (scene : Scene σ) : Prop where
  list : (scene.list p).Hushed
  live : ∀ b ∈ (scene.list p).items, b.deleted = false

theorem Hushed.notices_scan (h : Hushed p scene) (hignores : handler.Ignores p) :
    (Scene.scan handler p scene).notices = (scene.list p).items.flatMap fun b =>
      (Condition.testAll scene.machine b.conditions).notices := by
  have hbegin : Midway p scene [] (scene.list p).items
      (scene.setList p { scene.list p with scanning := true }) := ⟨rfl, rfl⟩
  have hnotices := hbegin.notices_scanFrom h.live hignores h.list.quiet
  obtain ⟨hend, -⟩ := hbegin.scanFrom h.live (hignores.undisturbing h.list.quiet)
  rw [List.length_nil, Nat.zero_add] at hnotices hend
  have hlast := hend.list
  rw [List.nil_append, List.append_nil] at hlast
  have hpassed : ∀ b ∈ (scene.list p).items.map (Breakpoint.passed scene.machine), b.Quiet := by
    rw [List.forall_mem_map]
    exact fun b hb => (h.list.quiet b hb).of_options rfl
  have hsweep : BreakpointList.Hushed { (scanFrom handler p (scene.list p).size
      (scene.list p).size (scene.setList p { scene.list p with scanning := true })).value.2.list p
        with scanning := false } := by
    rw [BreakpointList.size, hlast]
    exact ⟨rfl, hpassed⟩
  rw [Scene.scan]
  dsimp only
  rw [if_neg (Bool.eq_false_iff.1 h.list.idle), Logged.notices_bind, Logged.notices_bind,
    BreakpointList.sweep, hsweep.notices_sweepFrom]
  exact (List.append_nil _).trans hnotices

theorem Hushed.scan (h : Hushed p scene) (hignores : handler.Ignores p) :
    Hushed p (Scene.scan handler p scene).value.2 := by
  have hpointwise := pointwise_scan h.list.idle h.live (hignores.undisturbing h.list.quiet)
  have hsteps : ∀ b ∈ (scene.list p).items.filterMap (Breakpoint.step? scene.machine),
      b.Quiet ∧ b.deleted = false := by
    intro b hb
    obtain ⟨c, hc, hstep⟩ := List.mem_filterMap.1 hb
    rw [Breakpoint.eq_tally_of_step? hstep]
    exact ⟨(h.list.quiet c hc).of_options rfl, h.live c hc⟩
  refine ⟨⟨?_, ?_⟩, ?_⟩ <;> rw [hpointwise.list]
  · exact h.list.idle
  · exact fun b hb => (hsteps b hb).1
  · exact fun b hb => (hsteps b hb).2

def scanEach (handler : Handler σ) (p : Processor) : List Machine → Scene σ → Logged (Scene σ)
  | [], scene => return scene
  | m :: more, scene => do
    let (_, scene) ← Scene.scan handler p { scene with machine := m }
    scanEach handler p more scene

def watched : List Machine → List Breakpoint → List Event
  | [], _ => []
  | m :: more, items =>
    items.flatMap (fun b => (Condition.testAll m b.conditions).notices) ++
      watched more (items.filterMap (Breakpoint.step? m))

theorem Hushed.scanEach (h : Hushed p scene) (hignores : handler.Ignores p)
    (machines : List Machine) :
    (Scene.scanEach handler p machines scene).notices = watched machines (scene.list p).items ∧
      Hushed p (Scene.scanEach handler p machines scene).value := by
  induction machines generalizing scene with
  | nil => exact ⟨rfl, h⟩
  | cons m more ih =>
    have hmoved : Hushed p { scene with machine := m } := ⟨h.list, h.live⟩
    have hpointwise := pointwise_scan hmoved.list.idle hmoved.live
      (hignores.undisturbing hmoved.list.quiet)
    obtain ⟨hnotices, hlast⟩ := ih (hmoved.scan hignores)
    refine ⟨?_, hlast⟩
    rw [hpointwise.list] at hnotices
    rw [Scene.scanEach, Logged.notices_bind, hmoved.notices_scan hignores]
    exact congrArg _ hnotices

/-- Adds a breakpoint, scans on some machines, and removes the breakpoint by its index. If there is
nothing to remove, nothing is removed. -/
def life (handler : Handler σ) (p : Processor) (text : String) (options : Breakpoint.Options)
    (radix : Radix) (machines : List Machine) (scene : Scene σ) : Logged (Scene σ) := do
  match ← (scene.store.add p text options scene.machine radix).run with
  | .error f => return { scene with store := f.left }
  | .ok (index, store) =>
    let scene ← Scene.scanEach handler p machines { scene with store }
    match ← (scene.store.remove p index).run with
    | .error f => return { scene with store := f.left }
    | .ok store => return { scene with store }

end Scene

theorem BreakpointList.notices_add {text : String} {options : Breakpoint.Options} {m : Machine}
    {radix : Radix} (hquiet : options.quiet = true) :
    Attempt.notices (l.add text options m radix) =
      match result (Condition.parse ⟨m, l.processor, radix⟩ text) with
      | .ok parsed => (Condition.freezeAll m parsed.conditions).notices
      | .error _ => [] := by
  rw [add, notices_on, Revision.notices_bind, notices_aside, Condition.notices_parse,
    List.nil_append, outcome_aside]
  cases result (Condition.parse ⟨m, l.processor, radix⟩ text) with
  | error e => rfl
  | ok parsed =>
    have hreport : l.reserve.reportAdded parsed.text parsed.conditions.length options = pure () :=
      if_pos hquiet
    simp only [Revision.notices_bind, notices_modify, outcome_modify, notices_get, outcome_get,
      hreport, notices_log, outcome_log, Logged.notices_pure, Revision.notices_pure,
      List.nil_append, List.append_nil]

theorem Store.notices_add {s : Store} {text : String} {options : Breakpoint.Options} {m : Machine}
    {radix : Radix} (hquiet : options.quiet = true) :
    Attempt.notices (s.add p text options m radix) =
      match result (Condition.parse ⟨m, (s.list p).processor, radix⟩ text) with
      | .ok parsed => (Condition.freezeAll m parsed.conditions).notices
      | .error _ => [] := by
  rw [add, notices_on, revise, notices_within, BreakpointList.notices_add hquiet]

theorem Store.notices_remove {s : Store} (h : ∀ b ∈ (s.list p).items, b.Quiet) (index : Nat) :
    Attempt.notices (s.remove p index) = [] :=
  notices_bind_eq_nil (by rw [notices_on, revise, notices_within, BreakpointList.notices_remove h])
    fun _ => rfl

theorem Condition.evaluated_of_untracked {m : Machine} {cs : List Condition}
    (h : ∀ c ∈ cs, c.tracks = false) : evaluated m cs = cs := by
  have hsame : (cs.takeWhile (·.holds m)).map (·.refresh m) = cs.takeWhile (·.holds m) := by
    refine (List.map_congr_left fun c hc => ?_).trans (List.map_id _)
    exact if_neg (Bool.eq_false_iff.1 (h c ((List.takeWhile_sublist _).subset hc)))
  rw [evaluated, hsame, List.takeWhile_append_dropWhile]

namespace Scene

variable {scene : Scene σ} {items : List Breakpoint} {options : Breakpoint.Options}

theorem watched_of_untracked (h : ∀ b ∈ items, ∀ c ∈ b.conditions, c.tracks = false)
    (machines : List Machine) : watched machines items = [] := by
  induction machines generalizing items with
  | nil => rfl
  | cons m more ih =>
    have hstays : ∀ b ∈ items.filterMap (Breakpoint.step? m), ∀ c ∈ b.conditions,
        c.tracks = false := by
      intro b hb
      obtain ⟨c, hc, hstep⟩ := List.mem_filterMap.1 hb
      rw [Breakpoint.eq_tally_of_step? hstep, Breakpoint.tally,
        Condition.evaluated_of_untracked (h c hc)]
      exact h c hc
    rw [watched, ih hstays, List.append_nil, List.flatMap_eq_nil_iff]
    exact fun b hb => Condition.notices_testAll_of_untracked m (h b hb)

/-- What is shown of a quiet breakpoint from its start to its end: what its conditions are frozen
at, and then what they track. -/
theorem notices_life (hquiet : options.quiet = true) (hplain : options.hasSideEffects = false)
    (hempty : (scene.list p).items = []) (hidle : (scene.list p).scanning = false)
    (hignores : handler.Ignores p) (text : String) (radix : Radix) (machines : List Machine) :
    (life handler p text options radix machines scene).notices =
      match result (Condition.parse ⟨scene.machine, (scene.list p).processor, radix⟩ text) with
      | .error _ => []
      | .ok parsed => (Condition.freezeAll scene.machine parsed.conditions).notices ++
          watched machines [BreakpointList.newItem scene.machine options parsed] := by
  have hadd : (scene.store.add p text options scene.machine radix).run.notices =
      match result (Condition.parse ⟨scene.machine, (scene.list p).processor, radix⟩ text) with
      | .ok parsed => (Condition.freezeAll scene.machine parsed.conditions).notices
      | .error _ => [] := Store.notices_add hquiet
  have hrun : (scene.store.add p text options scene.machine radix).run.value =
      result (scene.store.add p text options scene.machine radix) := rfl
  rw [life, Logged.notices_bind, hadd, hrun]
  cases hparse : result (Condition.parse
      ⟨scene.machine, (scene.list p).processor, radix⟩ text) with
  | error e =>
    rw [Store.add_of_parse_error hparse]
    rfl
  | ok parsed =>
    have hresult : result (scene.store.add p text options scene.machine radix) =
        .ok ((scene.list p).size + 1, scene.store.setList ((scene.list p).append
          (BreakpointList.newItem scene.machine options parsed)) p) :=
      Store.add_eq_ok.2 ⟨_, BreakpointList.add_eq_ok.2 ⟨parsed, hparse, rfl, rfl⟩, rfl⟩
    let started : Scene σ := { scene with store := scene.store.setList ((scene.list p).append
      (BreakpointList.newItem scene.machine options parsed)) p }
    have hlist : started.list p = (scene.list p).append
        (BreakpointList.newItem scene.machine options parsed) := Store.list_setList_self ..
    rw [BreakpointList.append, hempty, List.nil_append] at hlist
    have hstarted : Hushed p started := by
      refine ⟨⟨?_, ?_⟩, ?_⟩ <;> rw [hlist]
      · exact hidle
      · exact List.forall_mem_singleton.2 ⟨hquiet, hplain⟩
      · exact List.forall_mem_singleton.2 rfl
    obtain ⟨hnotices, hlast⟩ := hstarted.scanEach hignores machines
    rw [hlist] at hnotices
    have hremove : ((scanEach handler p machines started).value.store.remove p
        ((scene.list p).size + 1)).run.notices = [] := Store.notices_remove hlast.list.quiet _
    rw [hresult]
    dsimp only
    rw [Logged.notices_bind, hnotices, Logged.notices_bind, hremove, List.nil_append]
    split <;> exact congrArg _ (List.append_nil _)

/-- A quiet breakpoint without side effects is silent just if none of its conditions compares a
value with itself. Else, what is shown is what these are frozen at and then track. -/
theorem silent_life_iff (hquiet : options.quiet = true) (hplain : options.hasSideEffects = false)
    (hempty : (scene.list p).items = []) (hidle : (scene.list p).scanning = false)
    (hignores : handler.Ignores p) (text : String) (radix : Radix) (machines : List Machine) :
    ((life handler p text options radix machines scene).notices =
      match result (Condition.parse ⟨scene.machine, (scene.list p).processor, radix⟩ text) with
      | .error _ => []
      | .ok parsed => (Condition.freezeAll scene.machine parsed.conditions).notices ++
          watched machines [BreakpointList.newItem scene.machine options parsed]) ∧
    ((life handler p text options radix machines scene).notices = [] ↔ ∀ parsed,
      result (Condition.parse ⟨scene.machine, (scene.list p).processor, radix⟩ text) =
        .ok parsed → ∀ c ∈ parsed.conditions, c.isReflexive = false) := by
  have hnotices := notices_life hquiet hplain hempty hidle hignores text radix machines
  refine ⟨hnotices, ?_⟩
  rw [hnotices]
  split
  · rename_i e hparse
    exact iff_of_true rfl fun parsed hparsed => by cases hparse.symm.trans hparsed
  · rename_i parsed hparse
    rw [List.append_eq_nil_iff, Condition.notices_freezeAll_eq_nil_iff]
    constructor
    · rintro ⟨hplain, -⟩ parsed' hparsed'
      cases hparse.symm.trans hparsed'
      exact hplain
    · intro hplain
      have hreflexive := hplain parsed hparse
      refine ⟨hreflexive, watched_of_untracked (List.forall_mem_singleton.2 ?_) machines⟩
      rw [BreakpointList.newItem, List.forall_mem_map]
      intro c hc
      rw [Condition.freeze, hreflexive c hc]
      exact Condition.tracks_of_parse hparse c hc

/-- A quiet breakpoint that waits for a change of a counter tells of the change. -/
theorem tracking_life_speaks :
    (life idleHandler .cpu "HBL ! HBL" { quiet := true } .decimal
      [{ Machine.ofRam 16 with hbl := 6 }] ⟨{}, .ofRam 16, ()⟩).notices =
        [⟨.info, "-> Track value changes, show value(s) when matched."⟩, ⟨.info, "  $6"⟩] := by
  decide +kernel

theorem silent_life_counters :
    (life idleHandler .cpu "HBL > 3 && VBL = HBL" { quiet := true, once := true } .decimal
      [{ Machine.ofRam 16 with hbl := 6 }, { Machine.ofRam 16 with hbl := 6, vbl := 6 }]
        ⟨{}, .ofRam 16, ()⟩).notices = [] := by
  have hignores : idleHandler.Ignores .cpu := ⟨fun _ _ => ⟨rfl, rfl⟩, fun _ _ => rfl⟩
  have hparse : result (Condition.parse ⟨Machine.ofRam 16, .cpu, .decimal⟩
      "HBL > 3 && VBL = HBL") = .ok ⟨"HBL > 3 && VBL = HBL",
        [⟨⟨.variable .hbl, false, none, 32, 0xffffffff⟩, .greater,
          ⟨.literal 3, false, none, 32, 0xffffffff⟩, false⟩,
        ⟨⟨.variable .vbl, false, none, 32, 0xffffffff⟩, .equal,
          ⟨.variable .hbl, false, none, 32, 0xffffffff⟩, false⟩]⟩ := by decide +kernel
  refine (silent_life_iff rfl rfl rfl rfl hignores _ _ _).2.2 fun parsed hparsed => ?_
  cases hparse.symm.trans hparsed
  decide

end Scene

end Monitor

import Monitor.Proofs.Breakpoint.Chronicle

namespace Monitor

/-- Conditions after an evaluation from left to right, which ends with the first that does not
hold. -/
def Condition.evaluated (m : Machine) (cs : List Condition) : List Condition :=
  (cs.takeWhile (·.holds m)).map (·.refresh m) ++ cs.dropWhile (·.holds m)

theorem Condition.testAll_snd (m : Machine) (cs : List Condition) :
    (testAll m cs).value.2 = evaluated m cs := by
  induction cs with
  | nil => rfl
  | cons c more ih =>
    rw [testAll_cons, evaluated]
    cases hc : c.holds m with
    | false => simp [hc]
    | true =>
      have htaken : (c :: more).takeWhile (·.holds m) = c :: more.takeWhile (·.holds m) :=
        List.takeWhile_cons_of_pos hc
      have hdropped : (c :: more).dropWhile (·.holds m) = more.dropWhile (·.holds m) :=
        List.dropWhile_cons_of_pos hc
      rw [htaken, hdropped, if_pos rfl, ih]
      rfl

namespace Breakpoint

variable {m : Machine} {b : Breakpoint}

def holds (m : Machine) (b : Breakpoint) : Bool :=
  b.conditions.all (·.holds m)

def tally (m : Machine) (b : Breakpoint) : Breakpoint :=
  { b with
    conditions := Condition.evaluated m b.conditions
    hits := if b.holds m then b.hits.next else b.hits }

def isDue (m : Machine) (b : Breakpoint) : Bool :=
  b.holds m && (b.options.skip == 0 || decide (b.options.skip ∣ b.hits.next.val))

/-- What a scan makes of a breakpoint on its own, if it leaves it at all. -/
def step? (m : Machine) (b : Breakpoint) : Option Breakpoint :=
  if b.isDue m && b.options.once then none else some (b.tally m)

theorem eq_tally_of_step? {m : Machine} {b c : Breakpoint} (h : b.step? m = some c) :
    c = b.tally m := by
  rw [step?] at h
  split at h
  · cases h
  · exact (Option.some.inj h).symm

def stops (m : Machine) (b : Breakpoint) : Bool :=
  b.isDue m && !b.options.trace

def passed (m : Machine) (b : Breakpoint) : Breakpoint :=
  { b.tally m with deleted := b.isDue m && b.options.once }

theorem test_snd (m : Machine) (b : Breakpoint) : (b.test m).value.2 = b.tally m := by
  rw [value_test, Condition.testAll_snd]
  rfl

theorem fires_eq_isDue (m : Machine) (b : Breakpoint) : b.fires m = b.isDue m := by
  rw [Bool.eq_iff_iff, fires_iff, isDue, Bool.and_eq_true, Bool.or_eq_true, beq_iff_eq,
    decide_eq_true_iff]
  rfl

theorem passed_of_stays (hlive : b.deleted = false) (h : (b.isDue m && b.options.once) = false) :
    b.passed m = b.tally m := by
  have hdeleted : (b.tally m).deleted = false := hlive
  rw [passed, h, ← hdeleted]

theorem passed_of_goes (h : (b.isDue m && b.options.once) = true) :
    b.passed m = (b.tally m).marked := by
  rw [passed, h]
  rfl

theorem filter_passed (m : Machine) (items : List Breakpoint)
    (hlive : ∀ b ∈ items, b.deleted = false) :
    (items.map (passed m)).filter (!·.deleted) = items.filterMap (step? m) := by
  induction items with
  | nil => rfl
  | cons b more ih =>
    have hmore := ih fun b' hb' => hlive b' (List.mem_cons_of_mem _ hb')
    have hdeleted : (b.passed m).deleted = (b.isDue m && b.options.once) := rfl
    rw [List.map_cons, List.filter_cons, List.filterMap_cons, hdeleted, hmore, step?]
    cases h : b.isDue m && b.options.once with
    | false =>
      rw [passed_of_stays (hlive b List.mem_cons_self) h]
      rfl
    | true => rfl

end Breakpoint

variable {σ : Type} {handler : Handler σ} {p : Processor}

def Handler.Idles (handler : Handler σ) (r : Reaction) : Prop :=
  ∀ scene, (handler r scene).value.store = scene.store ∧
    (handler r scene).value.machine = scene.machine

/-- Whatever the breakpoints ask for when they fire, nothing comes of it for breakpoints and the
machine. -/
def Handler.Undisturbing (handler : Handler σ) (p : Processor) (items : List Breakpoint) : Prop :=
  ∀ b ∈ items, ∀ index, ∀ r ∈ b.options.reactions p index, handler.Idles r

theorem Handler.undisturbing_of_idles (h : ∀ r, handler.Idles r) (items : List Breakpoint) :
    handler.Undisturbing p items :=
  fun _ _ _ r _ => h r

theorem Handler.undisturbing_of_plain {items : List Breakpoint}
    (hremember : ∀ index, handler.Idles (.remember p index))
    (hplain : ∀ b ∈ items, b.options.hasSideEffects = false) : handler.Undisturbing p items := by
  intro b hb index r hr
  rw [Breakpoint.Options.reactions, hplain b hb, if_neg Bool.false_ne_true,
    List.mem_singleton] at hr
  rw [hr]
  exact hremember index

theorem Store.setList_setList (s : Store) (l l' : BreakpointList) (p : Processor) :
    (s.setList l p).setList l' p = s.setList l' p := by
  cases p <;> rfl

namespace Scene

variable {start scene : Scene σ} {front back items : List Breakpoint} {b : Breakpoint}

/-- A scene in the middle of a scan that started with another: some breakpoints have been passed,
and others are still to come. -/
structure Midway (p : Processor) (start : Scene σ) (front back : List Breakpoint)
    (scene : Scene σ) : Prop where
  store : scene.store =
    start.store.setList { start.list p with items := front ++ back, scanning := true } p
  machine : scene.machine = start.machine

theorem Midway.list (h : Midway p start front back scene) :
    scene.list p = { start.list p with items := front ++ back, scanning := true } := by
  rw [Scene.list, h.store, Store.list_setList_self]

theorem Midway.setList {front' back' : List Breakpoint} (h : Midway p start front back scene) :
    Midway p start front' back'
      (scene.setList p { scene.list p with items := front' ++ back' }) where
  store := by
    rw [h.list, Scene.setList, h.store]
    exact Store.setList_setList ..
  machine := h.machine

theorem Midway.react {rs : List Reaction} (h : Midway p start front back scene)
    (hidles : ∀ r ∈ rs, handler.Idles r) :
    Midway p start front back (react handler rs scene).value := by
  induction rs generalizing scene with
  | nil => exact h
  | cons r more ih =>
    obtain ⟨hstore, hmachine⟩ := hidles r List.mem_cons_self scene
    exact ih ⟨hstore.trans h.store, hmachine.trans h.machine⟩
      fun r' hr' => hidles r' (List.mem_cons_of_mem _ hr')

theorem Midway.tested (h : Midway p start front (b :: back) scene) :
    Midway p start front (b.tally start.machine :: back)
      (scene.tested p (front.length + 1) b) := by
  have hset : (scene.list p).items.set (front.length + 1 - 1) (b.tally start.machine) =
      front ++ b.tally start.machine :: back := by
    rw [h.list]
    simp
  rw [Scene.tested, Breakpoint.test_snd, h.machine, hset]
  exact h.setList

theorem Midway.retire (h : Midway p start front (b :: back) scene) :
    Midway p start front ((if b.options.once then b.marked else b) :: back)
      (retire p (front.length + 1) b scene).value := by
  rw [Scene.retire]
  cases honce : b.options.once with
  | false => exact h
  | true =>
    have hget : (scene.list p).get? (front.length + 1) = some b := by
      rw [h.list]
      exact BreakpointList.get?_append_cons { start.list p with scanning := true } front back b
    have hwithout : (scene.list p).without (front.length + 1) =
        { scene.list p with items := front ++ b.marked :: back } := by
      rw [h.list]
      exact BreakpointList.without_append_cons { start.list p with scanning := true } front back b
    rw [if_pos rfl, if_pos rfl, Logged.value_bind, BreakpointList.discard_of_get? hget, hwithout]
    exact h.setList

theorem Midway.scanAt (h : Midway p start front (b :: back) scene) (hlive : b.deleted = false)
    (hquiet : ∀ index, ∀ r ∈ b.options.reactions p index, handler.Idles r) :
    Midway p start (front ++ [b.passed start.machine]) back
        (scanAt handler p (front.length + 1) scene).value.2 ∧
      (scanAt handler p (front.length + 1) scene).value.1 = b.stops start.machine := by
  have hget : (scene.list p).get? (front.length + 1) = some b := by
    rw [h.list]
    exact BreakpointList.get?_append_cons { start.list p with scanning := true } front back b
  have hfires : b.fires scene.machine = b.isDue start.machine := by
    rw [Breakpoint.fires_eq_isDue, h.machine]
  constructor
  · suffices hpassed : Midway p start front (b.passed start.machine :: back)
        (Scene.scanAt handler p (front.length + 1) scene).value.2 by
      refine ⟨?_, hpassed.machine⟩
      rw [List.append_assoc, List.singleton_append]
      exact hpassed.store
    cases hdue : b.isDue start.machine with
    | false =>
      rw [scanAt_of_not_fires hget hlive (hfires.trans hdue),
        Breakpoint.passed_of_stays hlive (by rw [hdue, Bool.false_and])]
      exact h.tested
    | true =>
      have hretired := (h.tested.react (hquiet (front.length + 1))).retire
      have htally : (b.test scene.machine).value.2 = b.tally start.machine := by
        rw [Breakpoint.test_snd, h.machine]
      rw [scanAt_of_fires hget hlive (hfires.trans hdue), fired, htally]
      have honce : (b.tally start.machine).options.once = b.options.once := rfl
      have hpassed : b.passed start.machine =
          if (b.tally start.machine).options.once then (b.tally start.machine).marked
          else b.tally start.machine := by
        cases ho : b.options.once with
        | false =>
          rw [honce, ho, Breakpoint.passed_of_stays hlive (by rw [ho, Bool.and_false])]
          rfl
        | true =>
          rw [honce, ho, Breakpoint.passed_of_goes (by rw [hdue, ho]; rfl)]
          rfl
      rw [hpassed]
      exact hretired
  · rw [verdict_scanAt hget, hlive, hfires]
    rfl

theorem Midway.scanFrom (h : Midway p start front back scene)
    (hlive : ∀ b ∈ back, b.deleted = false) (hquiet : handler.Undisturbing p back) :
    Midway p start (front ++ back.map (Breakpoint.passed start.machine)) []
        (scanFrom handler p (front.length + back.length) back.length scene).value.2 ∧
      (scanFrom handler p (front.length + back.length) back.length scene).value.1 =
        back.any (Breakpoint.stops start.machine) := by
  induction back generalizing front scene with
  | nil =>
    rw [List.map_nil, List.append_nil]
    exact ⟨h, rfl⟩
  | cons b back ih =>
    obtain ⟨hstep, hverdict⟩ := h.scanAt (hlive b List.mem_cons_self)
      (hquiet b List.mem_cons_self)
    obtain ⟨hmore, hverdicts⟩ := ih hstep (fun b' hb' => hlive b' (List.mem_cons_of_mem _ hb'))
      fun b' hb' => hquiet b' (List.mem_cons_of_mem _ hb')
    have hindex : front.length + (b :: back).length - back.length = front.length + 1 := by
      rw [List.length_cons]
      omega
    have hlast : front.length + (b :: back).length =
        (front ++ [b.passed start.machine]).length + back.length := by
      rw [List.length_cons, List.length_append, List.length_singleton]
      omega
    rw [List.length_cons, Scene.scanFrom, Logged.value_bind, ← List.length_cons, hindex]
    dsimp only
    rw [Logged.value_bind, hlast, List.map_cons, ← List.singleton_append, ← List.append_assoc,
      List.any_cons, ← hverdict, ← hverdicts]
    exact ⟨hmore, rfl⟩

/-- A scan takes every breakpoint on its own. -/
structure Pointwise (p : Processor) (scene : Scene σ) (outcome : Bool × Scene σ) : Prop where
  verdict : outcome.1 = (scene.list p).items.any (Breakpoint.stops scene.machine)
  machine : outcome.2.machine = scene.machine
  others : ∀ q, q ≠ p → outcome.2.list q = scene.list q
  list : outcome.2.list p = { scene.list p with
    items := (scene.list p).items.filterMap (Breakpoint.step? scene.machine) }

theorem pointwise_scan (hidle : (scene.list p).scanning = false)
    (hlive : ∀ b ∈ (scene.list p).items, b.deleted = false)
    (hquiet : handler.Undisturbing p (scene.list p).items) :
    Pointwise p scene (scan handler p scene).value := by
  have hbegin : Midway p scene [] (scene.list p).items
      (scene.setList p { scene.list p with scanning := true }) := ⟨rfl, rfl⟩
  obtain ⟨hend, hverdict⟩ := hbegin.scanFrom hlive hquiet
  rw [List.nil_append] at hend
  rw [List.length_nil, Nat.zero_add] at hend hverdict
  have hlist := hend.list
  rw [List.append_nil] at hlist
  have hsweep := BreakpointList.value_sweep (l := { scene.list p with
    items := (scene.list p).items.map (Breakpoint.passed scene.machine), scanning := false }) rfl
  rw [Breakpoint.filter_passed scene.machine _ hlive] at hsweep
  rw [value_scan hidle]
  refine ⟨hverdict, hend.machine, fun q hq => ?_, ?_⟩
  · have hlast := congrArg (Store.list · q) hend.store
    rw [Store.list_setList_of_ne hq] at hlast
    exact (Store.list_setList_of_ne hq).trans hlast
  · dsimp only
    rw [list_setList_self, BreakpointList.size, hlist, hsweep, hidle]

/-- Two scans differ in nothing but the order of the breakpoints they leave. -/
structure Rearranged (p : Processor) (outcome outcome' : Bool × Scene σ) : Prop where
  verdict : outcome'.1 = outcome.1
  machine : outcome'.2.machine = outcome.2.machine
  others : ∀ q, q ≠ p → outcome'.2.list q = outcome.2.list q
  list : ∃ items, items.Perm (outcome.2.list p).items ∧
    outcome'.2.list p = { outcome.2.list p with items }

theorem Pointwise.rearranged {outcome outcome' : Bool × Scene σ}
    (hperm : items.Perm (scene.list p).items) (h : Pointwise p scene outcome)
    (h' : Pointwise p (scene.setList p { scene.list p with items }) outcome') :
    Rearranged p outcome outcome' where
  verdict := by
    rw [h.verdict, h'.verdict, list_setList_self]
    exact hperm.any_eq
  machine := h'.machine.trans h.machine.symm
  others := fun q hq =>
    ((h'.others q hq).trans (Store.list_setList_of_ne hq)).trans (h.others q hq).symm
  list := by
    refine ⟨items.filterMap (Breakpoint.step? scene.machine), ?_, ?_⟩
    · rw [h.list]
      exact hperm.filterMap _
    · rw [h'.list, h.list, list_setList_self]
      rfl

/-- When nothing comes of what the breakpoints ask for, a scan is one step for each of them, which
depends on that breakpoint and the machine alone. So their order matters only for the order of what
is left. -/
theorem scan_pointwise (hidle : (scene.list p).scanning = false)
    (hlive : ∀ b ∈ (scene.list p).items, b.deleted = false)
    (hquiet : (∀ r, handler.Idles r) ∨ (∀ index, handler.Idles (.remember p index)) ∧
      ∀ b ∈ (scene.list p).items, b.options.hasSideEffects = false) :
    Pointwise p scene (scan handler p scene).value ∧
      ∀ items, items.Perm (scene.list p).items →
        Rearranged p (scan handler p scene).value
          (scan handler p (scene.setList p { scene.list p with items })).value := by
  have hundisturbing : handler.Undisturbing p (scene.list p).items := by
    rcases hquiet with h | ⟨hremember, hplain⟩
    · exact handler.undisturbing_of_idles h _
    · exact handler.undisturbing_of_plain hremember hplain
  have hpointwise := pointwise_scan hidle hlive hundisturbing
  refine ⟨hpointwise, fun items hperm => hpointwise.rearranged hperm ?_⟩
  refine pointwise_scan ?_ ?_ ?_
  · rw [list_setList_self]
    exact hidle
  · rw [list_setList_self]
    exact fun b hb => hlive b (hperm.mem_iff.1 hb)
  · rw [list_setList_self]
    exact fun b hb => hundisturbing b (hperm.mem_iff.1 hb)

def leaving : Breakpoint :=
  ⟨"VBL = 0", { once := true, trace := true }, startCondition.conditions, 0, false⟩

def watching (seen : UInt32) : Breakpoint where
  expression := "VBL ! VBL && VBL = 1"
  options := {}
  conditions :=
    [{  left := ⟨.variable .vbl, false, none, 32, 0xffffffff⟩
        comparison := .different
        right := ⟨.literal seen, false, none, 32, 0xffffffff⟩
        tracks := true },
      { left := ⟨.variable .vbl, false, none, 32, 0xffffffff⟩
        comparison := .equal
        right := ⟨.literal 1, false, none, 32, 0xffffffff⟩ }]

def waiting (hits : Counter) : Breakpoint :=
  ⟨"VBL = 0", { skip := 2 }, startCondition.conditions, hits, false⟩

def mixedScene : Scene Unit :=
  ⟨{ cpu := { processor := .cpu, items := [leaving, watching 7, waiting Counter.zero.next] } },
    .ofRam 16, ()⟩

theorem scan_pointwise_mixedScene :
    (scan idleHandler .cpu mixedScene).value.1 = true ∧
      ((scan idleHandler .cpu mixedScene).value.2.list .cpu).items =
        [watching 0, waiting Counter.zero.next.next] ∧
      Rearranged .cpu (scan idleHandler .cpu mixedScene).value
        (scan idleHandler .cpu (mixedScene.setList .cpu { mixedScene.list .cpu with
          items := [waiting Counter.zero.next, leaving, watching 7] })).value := by
  have hidle : (mixedScene.list .cpu).scanning = false := rfl
  have hlive : ∀ b ∈ (mixedScene.list .cpu).items, b.deleted = false := by decide
  have hidles : ∀ r, idleHandler.Idles r := fun _ _ => ⟨rfl, rfl⟩
  obtain ⟨hpointwise, hrearranged⟩ := scan_pointwise hidle hlive (.inl hidles)
  refine ⟨hpointwise.verdict.trans (by decide), ?_, hrearranged _ (by decide)⟩
  rw [hpointwise.list]
  decide

end Scene

end Monitor

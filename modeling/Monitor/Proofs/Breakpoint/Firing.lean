import Monitor.Proofs.Breakpoint.Accounting

namespace Monitor

namespace Entry

def Timely (e : Entry) : Prop :=
  e.fired = true ↔ ∃ m, e.tested = some m ∧ e.original.fires m = true

def stops (e : Entry) : Bool :=
  e.fired && !e.original.options.trace

variable {e : Entry} {m : Machine}

theorem Untouched.timely (h : e.Untouched) : e.Timely := by
  rw [Timely, h.fired, h.tested]
  simp

theorem Untouched.timely_test (h : e.Untouched) (hfires : e.original.fires m = false) :
    (e.test m).Timely := by
  have hfired : (e.test m).fired = false := h.fired
  rw [Timely, hfired]
  simp [test, hfires]

theorem timely_fire (hfires : e.original.fires m = true) : (e.test m).fire.Timely :=
  ⟨fun _ => ⟨m, rfl, hfires⟩, fun _ => rfl⟩

end Entry

namespace Ledger

variable {ledger : Ledger} {place : Nat} {e : Entry} {f : Entry → Entry} {l : BreakpointList}

def stops (ledger : Ledger) : Bool :=
  ledger.any Entry.stops

theorem stops_modify (hf : ∀ e, (f e).stops = e.stops) (ledger : Ledger) (place : Nat) :
    stops (ledger.modify place f) = ledger.stops := by
  induction ledger generalizing place with
  | nil => rw [List.modify_nil]
  | cons e more ih =>
    cases place with
    | zero => exact congrArg (· || stops more) (hf e)
    | succ place => exact congrArg (e.stops || ·) (ih place)

theorem stops_fire (he : ledger[place]? = some e) :
    stops (ledger.modify place Entry.fire) = (ledger.stops || !e.original.options.trace) := by
  induction ledger generalizing place with
  | nil => cases he
  | cons e' more ih =>
    cases place with
    | zero =>
      cases he
      have hfire : e.fire.stops = (e.stops || !e.original.options.trace) := by
        simp [Entry.stops, Entry.fire]
      have hcons : stops (e.fire :: more) = (e.fire.stops || stops more) := rfl
      rw [List.modify_zero_cons, hcons, hfire, Bool.or_right_comm]
      rfl
    | succ place =>
      have hmore := ih he
      have hcons (more : Ledger) : stops (e' :: more) = (e'.stops || stops more) := rfl
      rw [List.modify_succ_cons, hcons, hmore, hcons, Bool.or_assoc]

theorem stops_edits (edits : List BreakpointList.Edit) (ledger : Ledger) :
    (ledger.replay (edits.map .edit)).stops = ledger.stops := by
  induction edits generalizing ledger with
  | nil => rfl
  | cons edit more ih =>
    refine (ih (ledger.record (.edit edit))).trans ?_
    cases edit with
    | append b => simp [record, stops, Entry.stops]
    | remove index => exact stops_modify (f := Entry.drop) (fun _ => rfl) ledger (index - 1)
    | clear =>
      rw [record, stops, List.any_map]
      rfl

theorem shown_eq_original (h : ledger.Represents l) (hplace : ledger[place]? = some e)
    (hgone : e.gone = false) (htested : e.tested = none) : e.shown = e.original := by
  have hlive := (h.unmarked e (List.mem_of_getElem? hplace)).trans hgone.symm
  rw [Entry.shown_eq_present hlive, Entry.present, htested]

end Ledger

namespace Scene

variable {σ : Type} {handler : Handler σ} {p : Processor} {scene next : Scene σ}
  {trace : List Incident} {index count last left : Nat} {b : Breakpoint} {ledger : Ledger}
  {edits : List BreakpointList.Edit} {m : Machine}

theorem verdict_scanAt (h : (scene.list p).get? index = some b) :
    (scanAt handler p index scene).value.1 =
      (!b.deleted && (b.fires scene.machine && !b.options.trace)) := by
  cases hb : b.deleted with
  | true => simp only [scanAt, h, hb, if_true, Logged.value_pure, Bool.not_true, Bool.false_and]
  | false =>
    cases hfires : b.fires scene.machine with
    | false =>
      unfold Breakpoint.fires at hfires
      simp only [scanAt, h, hb, Bool.false_eq_true, if_false, Logged.value_bind, hfires,
        Logged.value_pure, Bool.false_and, Bool.and_false]
    | true =>
      unfold Breakpoint.fires at hfires
      simp only [scanAt, h, hb, Bool.false_eq_true, if_false, Logged.value_bind, hfires, if_true,
        fire, Logged.value_pure, Bool.not_false, Bool.true_and]
      rfl

theorem timely_edits (h : ledger.Meets fun _ e => e.Timely) (edits : List BreakpointList.Edit) :
    (ledger.replay (edits.map .edit)).Meets fun _ e => e.Timely :=
  h.edits (fun _ _ => id) (fun _ _ _ => Entry.Untouched.timely ⟨rfl, rfl⟩) edits

theorem timely_fired (h : ledger.Meets fun _ e => e.Timely)
    (hfires : ∀ e, ledger[count]? = some e → e.original.fires m = true)
    (edits : List BreakpointList.Edit) :
    (ledger.replay (.test (count + 1) m :: .fire (count + 1) :: edits.map .edit)).Meets
      fun _ e => e.Timely := by
  have hmodify : (ledger.record (.test (count + 1) m)).record (.fire (count + 1)) =
      ledger.modify count (Entry.fire ∘ Entry.test m) := List.modify_modify_eq ..
  have hfired : ((ledger.record (.test (count + 1) m)).record (.fire (count + 1))).Meets
      fun _ e => e.Timely := by
    rw [hmodify]
    exact h.modify (fun e he _ => Entry.timely_fire (hfires e he)) fun _ _ _ => id
  exact timely_edits hfired edits

theorem original_of_entry (hrep : ledger.Represents (scene.list p)) (hseen : ledger.Seen count)
    (hb : (scene.list p).get? (count + 1) = some b) (hlive : b.deleted = false) :
    ∀ e, ledger[count]? = some e → e.original = b ∧ e.Untouched := by
  intro e' he'
  obtain ⟨e, _, hplace, rfl⟩ := exists_entry hrep hb
  cases hplace.symm.trans he'
  have huntouched := hseen.untouched hplace
  exact ⟨(Ledger.shown_eq_original hrep hplace hlive huntouched.tested).symm, huntouched⟩

theorem StepTrace.timely (h : StepTrace handler p (count + 1) scene trace next)
    (hrep : ledger.Represents (scene.list p)) (hseen : ledger.Seen count)
    (htimely : ledger.Meets fun _ e => e.Timely) :
    (ledger.replay trace).Meets fun _ e => e.Timely := by
  cases h with
  | skip => exact htimely
  | pass hb hlive hfires =>
    refine htimely.modify (fun e he _ => ?_) fun _ _ _ => id
    obtain ⟨rfl, huntouched⟩ := original_of_entry hrep hseen hb hlive e he
    exact huntouched.timely_test hfires
  | fire hb hlive hfires honce hedits =>
    refine timely_fired htimely (fun e he => ?_) _
    obtain ⟨rfl, -⟩ := original_of_entry hrep hseen hb hlive e he
    exact hfires
  | @fireOnce _ edits _ hb hlive hfires honce hedits hremove =>
    have htime : ∀ e, ledger[count]? = some e → e.original.fires scene.machine = true := by
      intro e he
      obtain ⟨rfl, -⟩ := original_of_entry hrep hseen hb hlive e he
      exact hfires
    rw [← List.cons_append, ← List.cons_append, Ledger.replay_append]
    exact (timely_fired htimely htime edits).modify (f := Entry.drop) (fun _ _ => id)
      fun _ _ _ => id

theorem stops_fired (hb : (scene.list p).get? (count + 1) = some b)
    (hrep : ledger.Represents (scene.list p)) (edits : List BreakpointList.Edit) :
    (ledger.replay (.test (count + 1) m :: .fire (count + 1) :: edits.map .edit)).stops =
      (ledger.stops || !b.options.trace) := by
  obtain ⟨e, _, hplace, rfl⟩ := exists_entry hrep hb
  have htested : (ledger.record (.test (count + 1) m))[count]? = some (e.test m) := by
    rw [Ledger.record, Nat.add_sub_cancel, List.getElem?_modify_eq, hplace]
    rfl
  have htest : (ledger.record (.test (count + 1) m)).stops = ledger.stops :=
    Ledger.stops_modify (f := Entry.test m) (fun _ => rfl) ledger count
  have hfire := Ledger.stops_fire htested
  rw [Entry.options_shown, ← htest]
  exact (Ledger.stops_edits edits _).trans hfire

theorem StepTrace.stops (h : StepTrace handler p (count + 1) scene trace next)
    (hrep : ledger.Represents (scene.list p)) : (ledger.replay trace).stops =
      (ledger.stops || (scanAt handler p (count + 1) scene).value.1) := by
  cases h with
  | skip hb hdeleted =>
    rw [verdict_scanAt hb, hdeleted]
    exact (Bool.or_false _).symm
  | pass hb hlive hfires =>
    rw [verdict_scanAt hb, hfires, Bool.false_and, Bool.and_false, Bool.or_false]
    exact Ledger.stops_modify (f := Entry.test _) (fun _ => rfl) ledger count
  | fire hb hlive hfires honce hedits =>
    rw [verdict_scanAt hb, hlive, hfires, stops_fired hb hrep]
    rfl
  | fireOnce hb hlive hfires honce hedits hremove =>
    rw [verdict_scanAt hb, hlive, hfires, ← List.cons_append, ← List.cons_append,
      Ledger.replay_append, Bool.not_false, Bool.true_and, Bool.true_and,
      ← stops_fired hb hrep]
    exact Ledger.stops_modify (f := Entry.drop) (fun _ => rfl) _ count

/-- A scan tells to stop if a breakpoint fires in it that does not only trace; and it lets those
fire that it tests at the time. -/
theorem LoopTrace.fired (h : LoopTrace handler p last left scene trace next) (hleft : left ≤ last)
    (hrep : ledger.Represents (scene.list p)) (hseen : ledger.Seen (last - left))
    (htimely : ledger.Meets fun _ e => e.Timely) :
    ((ledger.replay trace).Meets fun _ e => e.Timely) ∧
      (ledger.replay trace).stops =
        (ledger.stops || (scanFrom handler p last left scene).value.1) := by
  induction h generalizing ledger with
  | done => exact ⟨htimely, (Bool.or_false _).symm⟩
  | @step left scene next _ trace more hstep _ ih =>
    have hindex : last - left = last - (left + 1) + 1 := by omega
    have hnext := hstep.eq
    rw [hindex] at hstep
    obtain ⟨hrep', -, hseen'⟩ := hstep.account hrep hseen
    rw [← hindex] at hseen'
    obtain ⟨hmeets, hstops⟩ := ih (Nat.le_of_succ_le hleft) hrep' hseen'
      (hstep.timely hrep hseen htimely)
    have hverdict : (scanFrom handler p last (left + 1) scene).value.1 =
        ((scanAt handler p (last - left) scene).value.1 ||
          (scanFrom handler p last left next).value.1) := by
      rw [hnext]
      rfl
    refine ⟨by rwa [Ledger.replay_append], ?_⟩
    rw [Ledger.replay_append, hstops, hstep.stops hrep, hverdict, hindex, Bool.or_assoc]

theorem seen_begin (items : List Breakpoint) (size : Nat) :
    (Ledger.ofItems items).Seen (size - size) := by
  rw [Nat.sub_self]
  exact Ledger.seen_ofItems items

theorem stops_ofItems (items : List Breakpoint) : (Ledger.ofItems items).stops = false := by
  rw [Ledger.stops, Ledger.ofItems, List.any_map]
  exact List.any_eq_false.2 fun _ _ => Bool.false_ne_true

theorem timely_ofItems (items : List Breakpoint) :
    (Ledger.ofItems items).Meets fun _ e => e.Timely := by
  intro i e he
  obtain ⟨b, _, rfl⟩ := List.mem_map.1 (List.mem_of_getElem? he)
  exact Entry.Untouched.timely ⟨rfl, rfl⟩

theorem Traced.fired (hclean : scene.store.Clean) (h : Traced handler p scene trace next) :
    (∀ e ∈ (Ledger.ofItems (scene.list p).items).replay trace, e.Timely) ∧
      (scan handler p scene).value.1 =
        ((Ledger.ofItems (scene.list p).items).replay trace).stops := by
  cases h with
  | intro hidle hloop hsweep =>
    have hrep : (Ledger.ofItems (scene.list p).items).Represents
        ((scene.setList p { scene.list p with scanning := true }).list p) := by
      rw [list_setList_self]
      exact Ledger.represents_ofItems hidle (hclean p)
    obtain ⟨hmeets, hstops⟩ := hloop.fired (Nat.le_refl _) hrep
      (seen_begin (scene.list p).items (scene.list p).size) (timely_ofItems _)
    rw [stops_ofItems, Bool.false_or] at hstops
    refine ⟨fun e he => ?_, ?_⟩
    · obtain ⟨i, hi⟩ := List.getElem?_of_mem he
      exact hmeets i e hi
    · rw [hstops, scan]
      dsimp only
      rw [if_neg (Bool.eq_false_iff.1 hidle)]
      rfl

theorem verdict_of_scanning (h : (scene.list p).scanning = true) :
    (scan handler p scene).value.1 = false := by
  simp only [scan, h, if_true, Logged.value_bind, Logged.value_pure]

end Scene

end Monitor

import Monitor.Proofs.Breakpoint.Tracing

namespace Monitor

open Attempt

namespace Scene

variable {σ : Type} {handler : Handler σ} {p : Processor} {scene next : Scene σ}
  {trace : List Incident} {count last left : Nat} {b : Breakpoint} {e : Entry} {ledger : Ledger}
  {edits : List BreakpointList.Edit}

theorem exists_entry (h : ledger.Represents (scene.list p))
    (hb : (scene.list p).get? (count + 1) = some b) :
    ∃ e, ledger.at? (count + 1) = some e ∧ ledger[count]? = some e ∧ e.shown = b := by
  rw [Ledger.get?_of_represents h] at hb
  obtain ⟨e, he, hshown⟩ := Option.map_eq_some_iff.1 hb
  exact ⟨e, he, Ledger.getElem?_of_at? he, hshown⟩

theorem represents_tested (h : ledger.Represents (scene.list p)) (hseen : ledger.Seen count)
    (he : ledger.at? (count + 1) = some e) (hgone : e.gone = false) :
    (ledger.record (.test (count + 1) scene.machine)).Represents
      ((scene.tested p (count + 1) e.shown).list p) := by
  have huntouched := hseen.untouched (Ledger.getElem?_of_at? he)
  have hrep := Ledger.represents_test h he hgone huntouched.tested scene.machine
  rw [list_tested]
  exact hrep

structure Firing (original : Breakpoint) (e : Entry) : Prop where
  original : e.original = original
  tested : e.tested ≠ none
  fired : e.fired = true

theorem represents_fired (h : ledger.Represents (scene.list p)) (hseen : ledger.Seen count)
    (he : ledger.at? (count + 1) = some e) (hgone : e.gone = false)
    (hedits : ((scene.tested p (count + 1) e.shown).list p).Edited edits
      ((scene.fired handler p (count + 1) e.shown).list p)) :
    let trace := .test (count + 1) scene.machine :: .fire (count + 1) :: edits.map .edit
    (ledger.replay trace).Represents ((scene.fired handler p (count + 1) e.shown).list p) ∧
      ledger.AllowsAll trace ∧
      (ledger.replay trace).Meets (Ledger.Stage count (Firing e.original)) := by
  have hplace : ledger[count]? = some e := Ledger.getElem?_of_at? he
  have huntouched := hseen.untouched hplace
  have htested := represents_tested h hseen he hgone
  obtain ⟨hrep, hallows⟩ := Ledger.represents_edited (Ledger.represents_fire htested (count + 1))
    hedits
  have hat : (ledger.record (.test (count + 1) scene.machine)).at? (count + 1) =
      some (e.test scene.machine) := by
    rw [Ledger.at?, if_neg (Nat.succ_ne_zero count), Ledger.record, Nat.add_sub_cancel,
      List.getElem?_modify_eq, hplace]
    rfl
  have htest : (ledger.record (.test (count + 1) scene.machine)).Meets
      (Ledger.Stage count fun e' => e'.original = e.original ∧ e'.tested ≠ none) := by
    refine hseen.progress ?_
    intro e' he' _
    cases hplace.symm.trans he'
    exact ⟨rfl, Option.some_ne_none _⟩
  have hfire : ((ledger.record (.test (count + 1) scene.machine)).record
      (.fire (count + 1))).Meets (Ledger.Stage count (Firing e.original)) :=
    htest.progress fun e' _ h' => ⟨h'.1, h'.2, rfl⟩
  have hlt : count < ((ledger.record (.test (count + 1) scene.machine)).record
      (.fire (count + 1))).length :=
    calc count < ledger.length := (List.getElem?_eq_some_iff.1 hplace).1
      _ ≤ (ledger.record (.test (count + 1) scene.machine)).length := Ledger.length_le_record _ _
      _ ≤ _ := Ledger.length_le_record _ _
  refine ⟨hrep, ⟨⟨e, he, hgone, huntouched.tested⟩, ⟨_, hat, hgone, Option.some_ne_none _⟩,
    hallows⟩, ?_⟩
  -- The reactions may remove the breakpoint itself, but do not make it one that has not fired.
  exact hfire.edits_stage (fun e' h' => ⟨h'.original, h'.tested, h'.fired⟩) hlt edits

/-- What one step of a scan does, the ledger accounts for. -/
theorem StepTrace.account (h : StepTrace handler p (count + 1) scene trace next)
    (hrep : ledger.Represents (scene.list p)) (hseen : ledger.Seen count) :
    (ledger.replay trace).Represents (next.list p) ∧ ledger.AllowsAll trace ∧
      (ledger.replay trace).Seen (count + 1) := by
  cases h with
  | skip hb hdeleted =>
    obtain ⟨e, he, hplace, rfl⟩ := exists_entry hrep hb
    refine ⟨hrep, trivial, Ledger.seen_succ fun i e' he' => ?_⟩
    have hstage := hseen i e' he'
    refine ⟨hstage.before, fun hi => ?_, hstage.after⟩
    subst hi
    cases hplace.symm.trans he'
    exact ⟨fun _ => hdeleted, fun _ _ => hdeleted⟩
  | pass hb hdeleted hfires =>
    obtain ⟨e, he, hplace, rfl⟩ := exists_entry hrep hb
    have huntouched := hseen.untouched hplace
    refine ⟨represents_tested hrep hseen he hdeleted,
      ⟨⟨e, he, hdeleted, huntouched.tested⟩, trivial⟩, Ledger.seen_succ (hseen.progress ?_)⟩
    intro e' _ huntouched
    exact ⟨fun hnone => absurd hnone (Option.some_ne_none _),
      fun hfired => absurd (huntouched.fired.symm.trans hfired) Bool.false_ne_true⟩
  | fire hb hdeleted hfires honce hedits =>
    obtain ⟨e, he, hplace, rfl⟩ := exists_entry hrep hb
    obtain ⟨hrep', hallows, hstage⟩ := represents_fired hrep hseen he hdeleted hedits
    rw [Entry.options_shown] at honce
    refine ⟨hrep', hallows, Ledger.seen_succ (hstage.imp fun i e' he' => ?_)⟩
    refine ⟨he'.before, fun hi => ?_, he'.after⟩
    have hfiring := he'.here hi
    rw [← hfiring.original] at honce
    exact ⟨fun hnone => absurd hnone hfiring.tested,
      fun _ htrue => absurd (honce.symm.trans htrue) Bool.false_ne_true⟩
  | @fireOnce _ edits _ hb hdeleted hfires honce hedits hremove =>
    obtain ⟨e, he, hplace, rfl⟩ := exists_entry hrep hb
    obtain ⟨hrep', hallows, hstage⟩ := represents_fired hrep hseen he hdeleted hedits
    rw [Entry.options_shown] at honce
    -- The entry is looked up again: its breakpoint may have been removed since it fired.
    obtain ⟨⟨b, hb'⟩, rfl⟩ := BreakpointList.remove_eq_ok.1 hremove
    obtain ⟨last, hlast, hplace', _⟩ := exists_entry hrep' hb'
    have hfiring := (hstage count last hplace').here rfl
    rw [← hfiring.original] at honce
    have htrace : (.test (count + 1) scene.machine :: .fire (count + 1) ::
        (edits.map .edit ++ [.retire (count + 1)]) : List Incident) =
      (.test (count + 1) scene.machine :: .fire (count + 1) :: edits.map .edit) ++
        [.retire (count + 1)] := rfl
    rw [htrace, Ledger.replay_append, Ledger.allowsAll_append]
    refine ⟨?_, ⟨hallows, ⟨last, hlast, hfiring.fired, honce⟩, trivial⟩, Ledger.seen_succ ?_⟩
    · rw [list_setList_self]
      exact Ledger.represents_without hrep' (count + 1)
    · exact hstage.progress fun _ _ _ => ⟨fun _ => rfl, fun _ _ => rfl⟩

theorem LoopTrace.account (h : LoopTrace handler p last left scene trace next)
    (hleft : left ≤ last) (hrep : ledger.Represents (scene.list p))
    (hseen : ledger.Seen (last - left)) :
    (ledger.replay trace).Represents (next.list p) ∧ ledger.AllowsAll trace ∧
      (ledger.replay trace).Seen last := by
  induction h generalizing ledger with
  | done => exact ⟨hrep, trivial, hseen⟩
  | @step left _ _ _ _ _ hstep _ ih =>
    have hindex : last - left = last - (left + 1) + 1 := by omega
    rw [hindex] at hstep
    obtain ⟨hrep', hallows, hseen'⟩ := hstep.account hrep hseen
    rw [← hindex] at hseen'
    obtain ⟨hlast, hmore, hend⟩ := ih (Nat.le_of_succ_le hleft) hrep' hseen'
    rw [Ledger.replay_append, Ledger.allowsAll_append]
    exact ⟨hlast, ⟨hallows, hmore⟩, hend⟩

/-- A ledger of some breakpoints and of all that has happened to them accounts for what is left
after a scan. -/
structure Accounted (p : Processor) (items : List Breakpoint) (trace : List Incident)
    (next : Scene σ) : Prop where
  /-- Nothing happens to a breakpoint that is not there, and what is gone does not fire. -/
  allowed : (Ledger.ofItems items).AllowsAll trace
  originals : ((Ledger.ofItems items).replay trace).map Entry.original =
    items ++ Ledger.appended trace
  /-- The breakpoints that were there first have been tested, or were gone before. -/
  settled : ∀ i e, ((Ledger.ofItems items).replay trace)[i]? = some e → i < items.length →
    e.Settled
  untouched : ∀ i e, ((Ledger.ofItems items).replay trace)[i]? = some e → items.length ≤ i →
    e.Untouched ∧ e.present.hits = .zero
  survivors : (next.list p).items = ((Ledger.ofItems items).replay trace).survivors
  idle : (next.list p).scanning = false
  unmarked : ∀ b ∈ (next.list p).items, b.deleted = false

theorem Traced.accounted (hclean : scene.store.Clean) (h : Traced handler p scene trace next) :
    Accounted p (scene.list p).items trace next := by
  cases h with
  | @intro last _ _ hidle hloop hsweep =>
    have hrep : (Ledger.ofItems (scene.list p).items).Represents
        ((scene.setList p { scene.list p with scanning := true }).list p) := by
      rw [list_setList_self]
      exact Ledger.represents_ofItems hidle (hclean p)
    have hseen : (Ledger.ofItems (scene.list p).items).Seen
        ((scene.list p).size - (scene.list p).size) := by
      rw [Nat.sub_self]
      exact Ledger.seen_ofItems _
    obtain ⟨hrep', hallows, hseen'⟩ := hloop.account (Nat.le_refl _) hrep hseen
    have horiginals := Ledger.map_original_replay (Ledger.ofItems (scene.list p).items) trace
    rw [Ledger.map_original_ofItems] at horiginals
    have hsurvivors := Ledger.items_sweep hrep'
    have hidle' := BreakpointList.value_sweep (l := { last.list p with scanning := false }) rfl
    have hunmarked := BreakpointList.clean_sweep (last.list p)
    rw [hsweep.eq]
    refine ⟨hallows, horiginals, ?_, ?_, ?_, ?_, ?_⟩
    · intro i e he hi
      exact (hseen' i e he).before hi
    · intro i e he hi
      have huntouched : e.Untouched := by
        rcases Nat.lt_or_eq_of_le hi with hi | hi
        · exact (hseen' i e he).after hi
        · exact (hseen' i e he).here hi.symm
      have horiginal := congrArg (Option.map Entry.original) he
      rw [← List.getElem?_map, horiginals, List.getElem?_append_right hi] at horiginal
      rw [Entry.present, huntouched.tested]
      exact ⟨huntouched, Ledger.hits_of_appended hallows _ (List.mem_of_getElem? horiginal)⟩
    · rw [list_setList_self]
      exact hsurvivors
    · rw [list_setList_self]
      exact congrArg BreakpointList.scanning hidle'
    · rw [list_setList_self]
      exact hunmarked (congrArg BreakpointList.scanning hidle')

/-- A scan loses and duplicates nothing, whatever operations its reactions use on the store: each
course that it can take accounts for what it leaves, and there is such a course. -/
theorem scan_accounted (hreach : scene.store.Reachable) (hidle : (scene.list p).scanning = false)
    (hreact : ∀ r (scene : Scene σ), scene.store.Evolves (handler r scene).value.store) :
    (∃ trace, Traced handler p scene trace (scan handler p scene).value.2) ∧
      ∀ trace next, Traced handler p scene trace next →
        next = (scan handler p scene).value.2 ∧ Accounted p (scene.list p).items trace next :=
  ⟨exists_traced hreact hidle, fun _ _ h => ⟨h.eq, h.accounted hreach.clean⟩⟩

def settingHandler : Handler Unit := fun _ scene =>
  match result (scene.store.add .cpu "VBL = 1" {} scene.machine .decimal) with
  | .ok (_, store) => return { scene with store }
  | .error f => return { scene with store := f.left }

theorem evolves_settingHandler (r : Reaction) (scene : Scene Unit) :
    scene.store.Evolves (settingHandler r scene).value.store := by
  unfold settingHandler
  cases h : result (scene.store.add .cpu "VBL = 1" {} scene.machine .decimal) with
  | ok next => exact .operate (.add h)
  | error f => exact .operate (.fail (.add h))

def startCondition : Condition.Parsed where
  text := "VBL = 0"
  conditions := [{
    left := ⟨.variable .vbl, false, none, 32, 0xffffffff⟩
    comparison := .equal
    right := ⟨.literal 0, false, none, 32, 0xffffffff⟩ }]

def onceList : BreakpointList :=
  BreakpointList.append { processor := .cpu }
    (BreakpointList.newItem (.ofRam 16) { once := true } startCondition)

def onceScene : Scene Unit :=
  ⟨{ cpu := onceList }, .ofRam 16, ()⟩

theorem reachable_onceScene : onceScene.store.Reachable := by
  have hparse : result (Condition.parse ⟨.ofRam 16, .cpu, .decimal⟩ "VBL = 0") =
      .ok startCondition := by
    decide +kernel
  have hadd : result (Store.add {} .cpu "VBL = 0" { once := true } (.ofRam 16) .decimal) =
      .ok (1, onceScene.store) := by
    have hlist : result (({ processor := .cpu } : BreakpointList).add "VBL = 0" { once := true }
        (.ofRam 16) .decimal) = .ok (1, onceList) :=
      BreakpointList.add_eq_ok.2 ⟨startCondition, hparse, rfl, rfl⟩
    exact Store.add_eq_ok.2 ⟨onceList, hlist, rfl⟩
  exact .evolve .initial (.operate (.add hadd))

theorem scan_accounted_onceScene :
    ((scan settingHandler .cpu onceScene).value.2.list .cpu).items.map (·.expression) =
        ["VBL = 1"] ∧
      ∃ trace, Accounted .cpu (onceScene.list .cpu).items trace
        (scan settingHandler .cpu onceScene).value.2 := by
  obtain ⟨⟨trace, htrace⟩, haccounted⟩ :=
    scan_accounted (p := .cpu) reachable_onceScene rfl evolves_settingHandler
  refine ⟨by decide +kernel, trace, (haccounted trace _ htrace).2⟩

end Scene

end Monitor

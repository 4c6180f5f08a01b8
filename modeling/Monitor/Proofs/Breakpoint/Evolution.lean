import Monitor.Breakpoint.Scan
import Monitor.Proofs.Breakpoint.Failing
import Monitor.Proofs.Text

namespace Monitor

open Attempt Revision

namespace BreakpointList

inductive Edit
  | append (b : Breakpoint)
  | remove (index : Nat)
  | clear

inductive Edited : BreakpointList → List Edit → BreakpointList → Prop
  | nil (l : BreakpointList) : Edited l [] l
  | append {l next last : BreakpointList} {text : String} {options : Breakpoint.Options}
      {m : Machine} {radix : Radix} {index : Nat} {b : Breakpoint} {edits : List Edit}
      (hadd : result (l.add text options m radix) = .ok (index, next))
      (hb : next.get? index = some b) (hmore : Edited next edits last) :
      Edited l (.append b :: edits) last
  | remove {l next last : BreakpointList} {index : Nat} {edits : List Edit}
      (hremove : result (l.remove index) = .ok ((), next)) (hmore : Edited next edits last) :
      Edited l (.remove index :: edits) last
  | clear {l last : BreakpointList} {edits : List Edit}
      (hmore : Edited l.removeAll.value edits last) : Edited l (.clear :: edits) last

variable {l next last : BreakpointList} {edits more : List Edit} {index : Nat}

theorem Edited.trans (h : Edited l edits next) (hmore : Edited next more last) :
    Edited l (edits ++ more) last := by
  induction h with
  | nil => exact hmore
  | append hadd hb _ ih => exact .append hadd hb (ih hmore)
  | remove hremove _ ih => exact .remove hremove (ih hmore)
  | clear _ ih => exact .clear (ih hmore)

theorem scanning_without : (l.without index).scanning = l.scanning := by
  rw [without]
  split <;> rfl

theorem scanning_discard (l : BreakpointList) (index : Nat) :
    (l.discard index).value.scanning = l.scanning := by
  rw [value_discard]
  split
  · rename_i next h
    obtain ⟨_, rfl⟩ := remove_eq_ok.1 h
    exact scanning_without
  · rfl

theorem Edited.scanning (h : Edited l edits next) : next.scanning = l.scanning := by
  induction h with
  | nil => rfl
  | append hadd _ _ ih =>
    obtain ⟨_, _, _, rfl⟩ := add_eq_ok.1 hadd
    exact ih
  | remove hremove _ ih =>
    obtain ⟨_, rfl⟩ := remove_eq_ok.1 hremove
    exact ih.trans scanning_without
  | clear _ ih =>
    rw [value_removeAll] at ih
    exact ih

end BreakpointList

namespace Store

variable {s t u : Store} {p q : Processor} {l : BreakpointList}

@[simp] theorem list_setList_self (s : Store) (l : BreakpointList) (p : Processor) :
    (s.setList l p).list p = l := by
  cases p <;> rfl

theorem list_setList_of_ne (h : p ≠ q) : (s.setList l q).list p = s.list p := by
  cases p <;> cases q <;> first | rfl | exact absurd rfl h

/-- A store is changed by one of its operations other than a scan. -/
inductive Operates : Store → Store → Prop
  | add {s t : Store} {p : Processor} {text : String} {options : Breakpoint.Options} {m : Machine}
      {radix : Radix} {index : Nat} (h : result (s.add p text options m radix) = .ok (index, t)) :
      Operates s t
  | command {s t : Store} {p : Processor} {args : Option String} {context : Context} {text : String}
      (h : result (s.command p args context) = .ok (text, t)) : Operates s t
  | addressCommand {s t : Store} {p : Processor} {args : String} {context : Context}
      {address : UInt32} (h : result (s.addressCommand p args context) = .ok (address, t)) :
      Operates s t
  | remove {s t : Store} {p : Processor} {index : Nat} (h : result (s.remove p index) = .ok t) :
      Operates s t
  | removeAll (s : Store) (p : Processor) : Operates s (s.removeAll p).value
  | fail {s t : Store} (h : s.Fails t) : Operates s t

/-- A store is changed by any of its operations, one after the other. What a scan makes of it is up
to the handler of the scan, which may again use any of them. -/
inductive Evolves : Store → Store → Prop
  | refl (s : Store) : Evolves s s
  | trans {s t u : Store} (h : Evolves s t) (h' : Evolves t u) : Evolves s u
  | operate {s t : Store} (h : Operates s t) : Evolves s t
  | scan {σ : Type} (handler : Handler σ) (p : Processor) (scene : Scene σ)
      (hreact : ∀ r scene, Evolves scene.store (handler r scene).value.store) :
      Evolves scene.store (scene.scan handler p).value.2.store

/-- What a scan itself does to a store, before, between and after reactions. -/
inductive ScanStep (p : Processor) : Store → Store → Prop
  | begin {s : Store} (h : (s.list p).scanning = false) :
      ScanStep p s (s.setList { s.list p with scanning := true } p)
  | test {s : Store} {index : Nat} {b : Breakpoint} (h : (s.list p).get? index = some b)
      (m : Machine) : ScanStep p s (s.setList { s.list p with
        items := (s.list p).items.set (index - 1) (b.test m).value.2 } p)
  | retire (s : Store) (index : Nat) :
      ScanStep p s (s.setList ((s.list p).discard index).value p)
  | finish (s : Store) :
      ScanStep p s (s.setList { s.list p with scanning := false }.sweep.value p)

/-- Stores that can come up, also while breakpoints are scanned. -/
inductive Reachable : Store → Prop
  | initial : Reachable {}
  | evolve {s t : Store} (hs : Reachable s) (h : Evolves s t) : Reachable t
  | scanStep {s t : Store} {p : Processor} (hs : Reachable s) (h : ScanStep p s t) : Reachable t

def EditedAt (p : Processor) (s t : Store) : Prop :=
  ∃ edits l, (s.list p).Edited edits l ∧ t = s.setList l p

theorem editedAt_refl (p : Processor) (s : Store) : EditedAt p s s :=
  ⟨[], s.list p, .nil _, by cases p <;> rfl⟩

theorem add_eq_ok {text : String} {options : Breakpoint.Options} {m : Machine} {radix : Radix}
    {index : Nat} : result (s.add p text options m radix) = .ok (index, t) ↔
      ∃ l, result ((s.list p).add text options m radix) = .ok (index, l) ∧ t = s.setList l p := by
  rw [add, result_on_eq_ok, revise, outcome_within_eq_ok]

theorem add_of_parse_error {text : String} {options : Breakpoint.Options} {m : Machine}
    {radix : Radix} {e : Condition.Error}
    (h : result (Condition.parse ⟨m, (s.list p).processor, radix⟩ text) = .error e) :
    result (s.add p text options m radix) = .error ⟨e, s⟩ := by
  rw [add, result_on_eq_error, revise, outcome_within, BreakpointList.add_of_error h]
  exact congrArg (Prod.mk _) (setList_list s p)

theorem remove_eq_ok {index : Nat} : result (s.remove p index) = .ok t ↔
    ∃ l, result ((s.list p).remove index) = .ok ((), l) ∧ t = s.setList l p := by
  rw [remove, result_bind, bind_eq_ok]
  constructor
  · rintro ⟨⟨_, t⟩, h, ⟨⟩⟩
    exact outcome_within_eq_ok.1 (result_on_eq_ok.1 h)
  · intro h
    exact ⟨((), t), result_on_eq_ok.2 (outcome_within_eq_ok.2 h), rfl⟩

theorem editedAt_of_add {text : String} {options : Breakpoint.Options} {m : Machine} {radix : Radix}
    {index : Nat} (h : result (s.add p text options m radix) = .ok (index, t)) : EditedAt p s t := by
  obtain ⟨l, hadd, rfl⟩ := add_eq_ok.1 h
  obtain ⟨parsed, _, hindex, hl⟩ := BreakpointList.add_eq_ok.1 hadd
  have hb : l.get? index = some (BreakpointList.newItem m options parsed) := by
    rw [hindex, hl, BreakpointList.get?_append_size]
  exact ⟨_, l, .append hadd hb (.nil l), rfl⟩

theorem editedAt_of_remove {index : Nat} (h : result (s.remove p index) = .ok t) :
    EditedAt p s t := by
  obtain ⟨l, hremove, rfl⟩ := remove_eq_ok.1 h
  exact ⟨_, l, .remove hremove (.nil l), rfl⟩

theorem editedAt_removeAll (s : Store) (p : Processor) : EditedAt p s (s.removeAll p).value :=
  ⟨_, _, .clear (.nil _), rfl⟩

theorem change_cases {cs : List Char} {context : Context}
    (h : outcome (change p cs context) s = (.ok (), t)) :
    (∃ index, result (s.remove p index) = .ok t) ∨ ∃ text options index,
      result (s.add p text options context.machine context.settings.radix) = .ok (index, t) := by
  unfold change at h
  generalize Breakpoint.splitOptions cs = parts at h
  obtain ⟨options, u, hoptions, h⟩ := outcome_bind_eq_ok.1 h
  cases congrArg Prod.snd hoptions
  dsimp only at h
  split at h
  · exact .inl ⟨_, remove_eq_ok.2 (outcome_within_eq_ok.1 h)⟩
  · obtain ⟨index, next, hadd, h⟩ := outcome_bind_eq_ok.1 h
    cases h
    exact .inr ⟨_, options, index, result_on_eq_ok.2 (outcome_adapt_eq_ok.1 hadd)⟩

/-- A breakpoint command changes nothing, or it does one thing to one list. -/
theorem command_cases {args : Option String} {context : Context} {text : String}
    (h : result (s.command p args context) = .ok (text, t)) :
    t = s ∨ t = (s.removeAll p).value ∨ (∃ index, result (s.remove p index) = .ok t) ∨
      ∃ text options index,
        result (s.add p text options context.machine context.settings.radix) = .ok (index, t) := by
  replace h := result_on_eq_ok.1 h
  cases args with
  | none =>
    cases h
    exact .inl rfl
  | some args =>
    dsimp only at h
    split at h
    · cases h
      exact .inl rfl
    · split at h
      · cases h
        exact .inr (.inl rfl)
      · split at h
        · cases h
        · obtain ⟨_, next, hchange, h⟩ := outcome_bind_eq_ok.1 h
          cases h
          exact .inr (.inr (change_cases hchange))

/-- Arguments of a breakpoint command that are just a condition. -/
structure IsCondition (cs : List Char) : Prop where
  solid : Text.Solid cs
  colon : ':' ∉ cs
  help : "help".toList.isPrefixOf cs = false
  all : cs ≠ "all".toList
  digits : cs.all Text.isAsciiDigit = false

theorem command_of_isCondition {args : String} {context : Context} (h : IsCondition args.toList)
    (hdsp : p = .dsp → context.settings.dspEnabled = true) :
    result (s.command p (some args) context) =
      ((result (s.add p args {} context.machine context.settings.radix)).mapError
        fun f => ⟨.condition f.error, f.left⟩).map fun r => ("", r.2) := by
  have hrefused : ¬(p = .dsp && !context.settings.dspEnabled) = true := by
    simpa using hdsp
  have hsplit : Breakpoint.splitOptions args.toList = (args.toList, none) := by
    rw [Breakpoint.splitOptions, Text.splitFirst_of_not_mem h.colon]
  have hdigits : ¬(!args.toList.isEmpty && args.toList.all Text.isAsciiDigit) = true := by
    rw [h.digits, Bool.and_false]
    exact Bool.false_ne_true
  have hchange : outcome (change p args.toList context) s =
      match result (s.add p args {} context.machine context.settings.radix) with
      | .ok (_, t) => (.ok (), t)
      | .error f => (.error (.condition f.error), f.left) := by
    unfold change
    dsimp only
    rw [hsplit, outcome_bind, outcome_aside]
    dsimp only [result_mk, Option.map_none, Option.getD_none, mapError_ok]
    rw [h.solid.trim_eq, String.ofList_toList, if_neg hdigits, outcome_bind, outcome_adapt, add,
      result_on]
    rcases outcome (revise p _) s with ⟨_ | _, _⟩ <;> rfl
  rw [command, result_on]
  dsimp only
  rw [h.solid.trim_eq, if_neg (Bool.eq_false_iff.1 h.help), if_neg h.all, if_neg hrefused,
    outcome_bind, hchange]
  cases result (s.add p args {} context.machine context.settings.radix) <;> rfl

theorem command_of_addressCommand {args : String} {context : Context} {address : UInt32}
    (h : result (s.addressCommand p args context) = .ok (address, t)) :
    ∃ args text, result (s.command p args context) = .ok (text, t) := by
  obtain ⟨_, u, haddress, h⟩ := outcome_bind_eq_ok.1 (result_on_eq_ok.1 h)
  cases congrArg Prod.snd haddress
  obtain ⟨text, next, hcommand, h⟩ := outcome_bind_eq_ok.1 h
  cases h
  exact ⟨_, text, outcome_of_eq_ok.1 hcommand⟩

theorem editedAt_of_command {args : Option String} {context : Context} {text : String}
    (h : result (s.command p args context) = .ok (text, t)) : EditedAt p s t := by
  obtain rfl | rfl | ⟨_, hremove⟩ | ⟨_, _, _, hadd⟩ := command_cases h
  · exact editedAt_refl p t
  · exact editedAt_removeAll s p
  · exact editedAt_of_remove hremove
  · exact editedAt_of_add hadd

theorem EditedAt.edited (h : EditedAt q s t) (p : Processor) :
    ∃ edits, (s.list p).Edited edits (t.list p) := by
  obtain ⟨edits, l, hl, rfl⟩ := h
  by_cases hp : p = q
  · subst hp
    rw [list_setList_self]
    exact ⟨edits, hl⟩
  · rw [list_setList_of_ne hp]
    exact ⟨[], .nil _⟩

theorem ScanStep.list_of_ne (h : ScanStep q s t) (hp : p ≠ q) : t.list p = s.list p := by
  cases h <;> exact list_setList_of_ne hp

theorem Operates.editedAt (h : Operates s t) : ∃ p, EditedAt p s t := by
  cases h with
  | add h => exact ⟨_, editedAt_of_add h⟩
  | command h => exact ⟨_, editedAt_of_command h⟩
  | addressCommand h =>
    obtain ⟨_, _, hcommand⟩ := command_of_addressCommand h
    exact ⟨_, editedAt_of_command hcommand⟩
  | remove h => exact ⟨_, editedAt_of_remove h⟩
  | removeAll => exact ⟨_, editedAt_removeAll s _⟩
  | fail h =>
    obtain rfl := h.eq
    exact ⟨.cpu, editedAt_refl .cpu _⟩

end Store

def Breakpoint.fires (m : Machine) (b : Breakpoint) : Bool :=
  (b.test m).value.1 && (b.test m).value.2.options.firesAt (b.test m).value.2.hits

namespace Scene

variable {σ : Type} {handler : Handler σ} {p : Processor} {R : Store → Store → Prop}

@[simp] theorem list_setList_self (scene : Scene σ) (p : Processor) (l : BreakpointList) :
    (scene.setList p l).list p = l :=
  Store.list_setList_self _ _ _

def tested (p : Processor) (index : Nat) (b : Breakpoint) (scene : Scene σ) : Scene σ :=
  scene.setList p { scene.list p with
    items := (scene.list p).items.set (index - 1) (b.test scene.machine).value.2 }

def fired (handler : Handler σ) (p : Processor) (index : Nat) (b : Breakpoint) (scene : Scene σ) :
    Scene σ :=
  (react handler ((b.test scene.machine).value.2.options.reactions p index)
    (scene.tested p index b)).value

variable {scene : Scene σ} {index : Nat} {b : Breakpoint}

theorem scanAt_of_none (h : (scene.list p).get? index = none) :
    (scanAt handler p index scene).value.2 = scene := by
  rw [scanAt, h]
  rfl

theorem scanAt_of_deleted (h : (scene.list p).get? index = some b) (hb : b.deleted = true) :
    (scanAt handler p index scene).value.2 = scene := by
  simp only [scanAt, h, if_pos hb, Logged.value_pure]

theorem scanAt_of_not_fires (h : (scene.list p).get? index = some b) (hb : b.deleted = false)
    (hfires : b.fires scene.machine = false) :
    (scanAt handler p index scene).value.2 = scene.tested p index b := by
  unfold Breakpoint.fires at hfires
  simp only [scanAt, h, hb, Bool.false_eq_true, if_false, Logged.value_bind, hfires,
    Logged.value_pure, tested]

theorem scanAt_of_fires (h : (scene.list p).get? index = some b) (hb : b.deleted = false)
    (hfires : b.fires scene.machine = true) :
    (scanAt handler p index scene).value.2 = (retire p index (b.test scene.machine).value.2
      (scene.fired handler p index b)).value := by
  unfold Breakpoint.fires at hfires
  simp only [scanAt, h, hb, Bool.false_eq_true, if_false, Logged.value_bind, hfires, if_true, fire,
    Logged.value_pure, fired, tested]

theorem scan_of_scanning (h : (scene.list p).scanning = true) :
    (scan handler p scene).value.2 = scene := by
  simp only [scan, h, if_true, Logged.value_bind, Logged.value_pure]

theorem value_scan (hidle : (scene.list p).scanning = false) :
    let started := scene.setList p { scene.list p with scanning := true }
    let (stops, last) := (scanFrom handler p (scene.list p).size (scene.list p).size started).value
    (scan handler p scene).value =
      (stops, last.setList p { last.list p with scanning := false }.sweep.value) := by
  rw [scan]
  dsimp only
  rw [if_neg (Bool.eq_false_iff.1 hidle)]
  rfl

section Invariant

variable {I : Scene σ → Prop}
  (hstep : ∀ {scene : Scene σ} {t : Store}, Store.ScanStep p scene.store t → I scene →
    I { scene with store := t })
  (hreact : ∀ r scene, I scene → I (handler r scene).value)

include hstep in
theorem retire_invariant (index : Nat) (b : Breakpoint) (h : I scene) :
    I (retire p index b scene).value := by
  rw [retire]
  split
  · exact hstep (.retire scene.store index) h
  · exact h

include hreact

theorem react_invariant (rs : List Reaction) (h : I scene) : I (react handler rs scene).value := by
  induction rs generalizing scene with
  | nil => exact h
  | cons r more ih => exact ih (hreact r scene h)

include hstep

theorem scanAt_invariant (index : Nat) (h : I scene) :
    I (scanAt handler p index scene).value.2 := by
  cases hget : (scene.list p).get? index with
  | none =>
    rw [scanAt_of_none hget]
    exact h
  | some b =>
    by_cases hb : b.deleted = true
    · rw [scanAt_of_deleted hget hb]
      exact h
    · have htest : I (scene.tested p index b) := hstep (.test hget scene.machine) h
      have hlive := Bool.eq_false_iff.2 hb
      by_cases hfires : b.fires scene.machine = true
      · have hreactions := react_invariant hreact
          ((b.test scene.machine).value.2.options.reactions p index) htest
        rw [scanAt_of_fires hget hlive hfires]
        exact retire_invariant hstep index _ hreactions
      · rw [scanAt_of_not_fires hget hlive (Bool.eq_false_iff.2 hfires)]
        exact htest

theorem scanFrom_invariant (last left : Nat) (h : I scene) :
    I (scanFrom handler p last left scene).value.2 := by
  induction left generalizing scene with
  | zero => exact h
  | succ left ih => exact ih (scanAt_invariant hstep hreact (last - left) h)

/-- What the steps and the reactions of a scan keep, the scan keeps. -/
theorem scan_invariant (h : I scene) : I (scan handler p scene).value.2 := by
  by_cases hscanning : (scene.list p).scanning = true
  · rw [scan_of_scanning hscanning]
    exact h
  · have hidle := Bool.eq_false_iff.2 hscanning
    rw [value_scan hidle]
    have hbegin := hstep (.begin hidle) h
    have hloop := scanFrom_invariant hstep hreact (scene.list p).size (scene.list p).size hbegin
    exact hstep (.finish _) hloop

end Invariant

section Across

variable (hrefl : ∀ s, R s s) (htrans : ∀ {s t u}, R s t → R t u → R s u)
  (hstep : ∀ {s t}, Store.ScanStep p s t → R s t)
  (hreact : ∀ r scene, R scene.store (handler r scene).value.store)

include hrefl htrans hreact

theorem react_rel (rs : List Reaction) (scene : Scene σ) :
    R scene.store (react handler rs scene).value.store :=
  react_invariant (I := fun next => R scene.store next.store)
    (fun r next h => htrans h (hreact r next)) rs (hrefl scene.store)

include hstep

theorem scan_rel (scene : Scene σ) :
    R scene.store (scan handler p scene).value.2.store :=
  scan_invariant (I := fun next => R scene.store next.store)
    (fun hnext h => htrans h (hstep hnext)) (fun r next h => htrans h (hreact r next))
    (hrefl scene.store)

end Across

end Scene

end Monitor

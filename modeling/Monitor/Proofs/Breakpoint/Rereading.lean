import Monitor.Proofs.Breakpoint.Evolution
import Monitor.Proofs.Condition.Dependence
import Monitor.Proofs.Condition.Spelling

namespace Monitor

open Attempt

namespace Condition

def ReadsBack (scope : Scope) (text : String) : Prop :=
  ∃ parsed, result (parse scope text) = .ok parsed ∧ parsed.text = text

theorem readsBack_shown {scope : Scope} {text : String} {parsed : Parsed}
    (h : result (parse scope text) = .ok parsed) : ReadsBack scope parsed.text :=
  ⟨parsed, parse_shown h, rfl⟩

theorem ReadsBack.congr {m m' : Machine} {p : Processor} {radix : Radix} {text : String}
    (h : ReadsBack ⟨m, p, radix⟩ text) (hm : m.Alike m') : ReadsBack ⟨m', p, radix⟩ text := by
  obtain ⟨parsed, hparse, htext⟩ := h
  rw [parse_congr hm] at hparse
  exact ⟨parsed, hparse, htext⟩

end Condition

namespace BreakpointList

structure Worded (p : Processor) (P : String → Prop) (l : BreakpointList) : Prop where
  processor : l.processor = p
  expressions : ∀ b ∈ l.items, P b.expression

variable {p : Processor} {P : String → Prop} {l : BreakpointList} {b : Breakpoint} {index : Nat}

theorem Worded.append (h : l.Worded p P) (hb : P b.expression) : (l.append b).Worded p P where
  processor := h.processor
  expressions := List.forall_mem_append.2 ⟨h.expressions, List.forall_mem_singleton.2 hb⟩

theorem Worded.of_map (h : l.Worded p P) {next : BreakpointList}
    (hprocessor : next.processor = l.processor)
    (hitems : ∀ b ∈ next.items, ∃ c ∈ l.items, b.expression = c.expression) : next.Worded p P where
  processor := hprocessor.trans h.processor
  expressions := by
    intro b hb
    obtain ⟨c, hc, heq⟩ := hitems b hb
    rw [heq]
    exact h.expressions c hc

theorem Worded.without (h : l.Worded p P) : (l.without index).Worded p P := by
  rw [BreakpointList.without]
  split
  · refine h.of_map rfl fun b hb => ?_
    obtain ⟨i, hi⟩ := List.mem_iff_getElem?.1 hb
    rw [List.getElem?_modify, Option.map_eq_map, Option.map_eq_some_iff] at hi
    obtain ⟨c, hc, rfl⟩ := hi
    refine ⟨c, List.mem_of_getElem? hc, ?_⟩
    split <;> rfl
  · exact h.of_map rfl fun b hb => ⟨b, List.mem_of_mem_eraseIdx hb, rfl⟩

theorem Worded.discard (h : l.Worded p P) : (l.discard index).value.Worded p P := by
  rw [value_discard]
  split
  · rename_i next hnext
    obtain ⟨_, rfl⟩ := remove_eq_ok.1 hnext
    exact h.without
  · exact h

theorem Worded.removeAll (h : l.Worded p P) : l.removeAll.value.Worded p P := by
  rw [value_removeAll]
  refine h.of_map rfl fun b hb => ?_
  dsimp only at hb
  split at hb
  · obtain ⟨c, hc, rfl⟩ := List.mem_map.1 hb
    exact ⟨c, hc, rfl⟩
  · cases hb

theorem Worded.test (h : l.Worded p P) (hb : l.get? index = some b) (m : Machine) :
    { l with items := l.items.set (index - 1) (b.test m).value.2 }.Worded p P := by
  refine h.of_map rfl fun c hc => ?_
  rcases List.mem_or_eq_of_mem_set hc with hc | rfl
  · exact ⟨c, hc, rfl⟩
  · exact ⟨b, mem_of_get? hb, rfl⟩

theorem Worded.sweep (h : l.Worded p P) : { l with scanning := false }.sweep.value.Worded p P := by
  rw [value_sweep rfl]
  exact h.of_map rfl fun b hb => ⟨b, List.mem_of_mem_filter hb, rfl⟩

end BreakpointList

namespace Store

variable {m m' : Machine} {settings : Settings} {s t : Store} {p q : Processor}

/-- A store is changed by one of its operations other than a scan. Meanwhile the machine may run,
and nothing else happens to it; the settings stay as they are. -/
inductive OperatesOn (m : Machine) (settings : Settings) : Store → Store → Prop
  | add {s t : Store} {p : Processor} {text : String} {options : Breakpoint.Options} {m' : Machine}
      {index : Nat} (hm : m.Alike m')
      (h : result (s.add p text options m' settings.radix) = .ok (index, t)) :
      OperatesOn m settings s t
  | command {s t : Store} {p : Processor} {args : Option String} {m' : Machine} {files : Files}
      {text : String} (hm : m.Alike m')
      (h : result (s.command p args ⟨m', settings, files⟩) = .ok (text, t)) :
      OperatesOn m settings s t
  | addressCommand {s t : Store} {p : Processor} {args : String} {m' : Machine} {files : Files}
      {address : UInt32} (hm : m.Alike m')
      (h : result (s.addressCommand p args ⟨m', settings, files⟩) = .ok (address, t)) :
      OperatesOn m settings s t
  | remove {s t : Store} {p : Processor} {index : Nat} (h : result (s.remove p index) = .ok t) :
      OperatesOn m settings s t
  | removeAll (s : Store) (p : Processor) : OperatesOn m settings s (s.removeAll p).value
  | fail {s t : Store} (h : s.Fails t) : OperatesOn m settings s t

theorem OperatesOn.operates (h : OperatesOn m settings s t) : Operates s t := by
  cases h with
  | add _ h => exact .add h
  | command _ h => exact .command h
  | addressCommand _ h => exact .addressCommand h
  | remove h => exact .remove h
  | removeAll p => exact .removeAll s p
  | fail h => exact .fail h

theorem OperatesOn.congr (h : OperatesOn m' settings s t) (hm : m.Alike m') :
    OperatesOn m settings s t := by
  cases h with
  | add h h' => exact .add (hm.trans h) h'
  | command h h' => exact .command (hm.trans h) h'
  | addressCommand h h' => exact .addressCommand (hm.trans h) h'
  | remove h => exact .remove h
  | removeAll p => exact .removeAll s p
  | fail h => exact .fail h

/-- Stores that come up while a machine runs. A scan takes steps of its own, with operations between
them where breakpoints react; so stores in the middle of a scan count too. -/
inductive ReachableOn (m : Machine) (settings : Settings) : Store → Prop
  | initial : ReachableOn m settings {}
  | operate {s t : Store} (hs : ReachableOn m settings s) (h : OperatesOn m settings s t) :
      ReachableOn m settings t
  | scanStep {s t : Store} {p : Processor} (hs : ReachableOn m settings s) (h : ScanStep p s t) :
      ReachableOn m settings t

theorem ReachableOn.scan {σ : Type} {handler : Handler σ} {scene : Scene σ}
    {P : Machine → σ → Prop} (hscene : scene.store.ReachableOn m settings)
    (hP : P scene.machine scene.surroundings)
    (hreact : ∀ r (scene : Scene σ), scene.store.ReachableOn m settings →
      P scene.machine scene.surroundings → (handler r scene).value.store.ReachableOn m settings ∧
        P (handler r scene).value.machine (handler r scene).value.surroundings) :
    (scene.scan handler p).value.2.store.ReachableOn m settings := by
  have h := Scene.scan_invariant (p := p)
    (I := fun scene => scene.store.ReachableOn m settings ∧ P scene.machine scene.surroundings)
    (fun hstep h => ⟨h.1.scanStep hstep, h.2⟩) (fun r scene h => hreact r scene h.1 h.2)
    ⟨hscene, hP⟩
  exact h.1

/-- Every breakpoint would be read again from its expression. -/
def Rereads (m : Machine) (settings : Settings) (s : Store) : Prop :=
  ∀ p, (s.list p).Worded p (Condition.ReadsBack ⟨m, p, settings.radix⟩)

theorem Rereads.setList {l : BreakpointList} (h : s.Rereads m settings)
    (hl : l.Worded p (Condition.ReadsBack ⟨m, p, settings.radix⟩)) :
    (s.setList l p).Rereads m settings := by
  intro q
  by_cases hq : q = p
  · subst hq
    rw [list_setList_self]
    exact hl
  · rw [list_setList_of_ne hq]
    exact h q

theorem Rereads.add (h : s.Rereads m settings) (hm : m.Alike m') {text : String}
    {options : Breakpoint.Options} {index : Nat}
    (hadd : result (s.add p text options m' settings.radix) = .ok (index, t)) :
    t.Rereads m settings := by
  obtain ⟨l, hl, rfl⟩ := add_eq_ok.1 hadd
  obtain ⟨parsed, hparse, -, rfl⟩ := BreakpointList.add_eq_ok.1 hl
  rw [(h p).processor] at hparse
  exact h.setList ((h p).append ((Condition.readsBack_shown hparse).congr hm.symm))

theorem Rereads.remove (h : s.Rereads m settings) {index : Nat}
    (hremove : result (s.remove p index) = .ok t) : t.Rereads m settings := by
  obtain ⟨l, hl, rfl⟩ := remove_eq_ok.1 hremove
  obtain ⟨-, rfl⟩ := BreakpointList.remove_eq_ok.1 hl
  exact h.setList (h p).without

theorem Rereads.command (h : s.Rereads m settings) (hm : m.Alike m') {args : Option String}
    {files : Files} {text : String}
    (hcommand : result (s.command p args ⟨m', settings, files⟩) = .ok (text, t)) :
    t.Rereads m settings := by
  obtain rfl | rfl | ⟨_, hremove⟩ | ⟨_, _, _, hadd⟩ := command_cases hcommand
  · exact h
  · exact h.setList (h p).removeAll
  · exact h.remove hremove
  · exact h.add hm hadd

theorem OperatesOn.rereads (h : OperatesOn m settings s t) (hs : s.Rereads m settings) :
    t.Rereads m settings := by
  cases h with
  | add hm h => exact hs.add hm h
  | command hm h => exact hs.command hm h
  | addressCommand hm h =>
    obtain ⟨_, _, hcommand⟩ := command_of_addressCommand h
    exact hs.command hm hcommand
  | remove h => exact hs.remove h
  | removeAll p => exact hs.setList (hs p).removeAll
  | fail h =>
    rw [h.eq]
    exact hs

theorem ScanStep.rereads (h : ScanStep p s t) (hs : s.Rereads m settings) :
    t.Rereads m settings := by
  cases h with
  | begin => exact hs.setList ⟨(hs p).processor, (hs p).expressions⟩
  | test h m => exact hs.setList ((hs p).test h m)
  | retire index => exact hs.setList (hs p).discard
  | finish => exact hs.setList (hs p).sweep

theorem ReachableOn.rereads (h : s.ReachableOn m settings) : s.Rereads m settings := by
  induction h with
  | initial =>
    intro p
    have hempty : (({} : Store).list p).items = [] := by cases p <;> rfl
    refine ⟨by cases p <;> rfl, fun b hb => ?_⟩
    rw [hempty] at hb
    cases hb
  | operate _ h ih => exact h.rereads ih
  | scanStep _ h ih => exact h.rereads ih

end Store

end Monitor

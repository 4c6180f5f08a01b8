import Monitor.Proofs.Breakpoint.Chronicle
import Monitor.Proofs.Debugger.Occurrences

namespace Monitor

def Occurrence.firing? : Occurrence → Option (Processor × Nat)
  | .fires p index => some (p, index)
  | .dumps _ _ _ | .resets _ => none

/-- A history holds the last of all firings, as many as there is room for. -/
structure Session.Remembers (history fired : List (Processor × Nat)) : Prop where
  suffix : history <:+ fired
  length : history.length = min historySize fired.length

namespace Recollection

variable {start r r' : Recollection} {seen more : List Occurrence}
  {fired : List (Processor × Nat)}

theorem remembers_remember {s : Session} (h : Session.Remembers s.history fired) (p : Processor)
    (index : Nat) :
    Session.Remembers (s.remember p index).history (fired ++ [(p, index)]) := by
  obtain ⟨⟨older, rfl⟩, hlength⟩ := h
  rw [List.length_append] at hlength
  constructor
  · rw [Session.remember]
    dsimp only
    split
    · refine ⟨older ++ s.history.take 1, ?_⟩
      rw [← List.append_assoc, List.append_assoc older, List.take_append_drop]
    · exact ⟨older, (List.append_assoc ..).symm⟩
  · rw [Session.remember]
    simp only [List.length_append, List.length_singleton]
    have hroom : 0 < Session.historySize := by decide
    split
    · rw [List.length_drop]
      omega
    · omega

def Recalls (seen : List Occurrence) (r : Recollection) : Prop :=
  ∃ fired, seen.filterMap Occurrence.firing? = fired ++ r.due ∧ Session.Remembers r.history fired

theorem Changes.recalls (hchange : r.Changes more r') (h : r.Recalls seen) :
    r'.Recalls (seen ++ more) := by
  obtain ⟨fired, hfired, hkept⟩ := h
  rw [Recalls, List.filterMap_append, hfired]
  -- A firing is due when it happens, and moves over to the history when it is remembered.
  cases hchange with
  | nothing => exact ⟨fired, List.append_nil _, hkept⟩
  | fires history nextDump p index => exact ⟨fired, by simp [Occurrence.firing?], hkept⟩
  | remembers s p index =>
    exact ⟨fired ++ [(p, index)], (List.append_nil _).trans (List.append_nil _).symm,
      remembers_remember hkept p index⟩
  | dumps | resets => exact ⟨fired, List.append_nil _, hkept⟩

theorem Passes.recalls (hpasses : start.Passes seen r) (h : start.Recalls []) :
    r.Recalls seen := by
  induction hpasses with
  | refl => exact h
  | step _ hchange ih => exact hchange.recalls ih

end Recollection

namespace Debugger

variable {d : Debugger} {p q : Processor} {index index' : Nat}

/-- There is a breakpoint with the index that has not been removed, all its conditions hold, and its
skip count lets it through. Whether it is quiet, only traces or is to fire once makes no
difference. -/
def LetsFire (p : Processor) (index : Nat) (d : Debugger) : Prop :=
  ∃ b, (d.list p).get? index = some b ∧ b.deleted = false ∧
    b.conditions.all (·.holds d.machine) = true ∧
    (b.options.skip = 0 ∨ b.options.skip ∣ b.hits.next.val)

theorem fires_mem_firing_iff : .fires q index' ∈ d.firing p index ↔
    p = q ∧ index = index' ∧ d.LetsFire q index' := by
  rw [firing]
  constructor
  · intro h
    cases hb : (d.list p).get? index with
    | none =>
      rw [hb] at h
      cases h
    | some b =>
      rw [hb] at h
      dsimp only at h
      by_cases hfires : (!b.deleted && b.fires d.machine) = true
      · rw [if_pos hfires, List.mem_singleton] at h
        cases h
        rw [Bool.and_eq_true, Bool.not_eq_true', Breakpoint.fires_iff] at hfires
        exact ⟨rfl, rfl, b, hb, hfires⟩
      · rw [if_neg hfires] at h
        cases h
  · rintro ⟨rfl, rfl, b, hb, hlive, hdue⟩
    have hfires : b.fires d.machine = true := Breakpoint.fires_iff.2 hdue
    rw [hb]
    dsimp only
    rw [if_pos (by rw [hlive, hfires]; rfl)]
    exact List.mem_singleton_self _

theorem fires_not_mem_dumping (line : String) (d : Debugger) :
    .fires p index ∉ d.dumping line := by
  intro h
  rw [dumping] at h
  split at h
  · split at h
    · cases List.mem_singleton.1 h
    · cases h
  · cases h

end Debugger

namespace Moment

open Debugger

variable {m : Moment} {p : Processor} {index : Nat}

/-- A breakpoint fires at the moment at which a scan comes to it, and only then. -/
theorem fires_mem_occurrences_iff : .fires p index ∈ m.occurrences ↔
    ∃ s left, m.focus = .scan s ∧ s.left = left + 1 ∧ s.processor = p ∧ s.last - left = index ∧
      m.debugger.LetsFire p index := by
  constructor
  · intro h
    obtain ⟨focus, waiting, d⟩ := m
    unfold occurrences at h
    split at h
    · exact absurd h (fires_not_mem_dumping _ d)
    · rename_i q last left stops found hfocus
      obtain ⟨rfl, rfl, hfire⟩ := fires_mem_firing_iff.1 h
      exact ⟨_, left, hfocus, rfl, rfl, rfl, hfire⟩
    · cases List.mem_singleton.1 h
    · cases List.mem_singleton.1 h
    · cases h
  · obtain ⟨focus, waiting, d⟩ := m
    rintro ⟨⟨q, last, _, stops, found⟩, left, rfl, rfl, rfl, rfl, hfire⟩
    exact fires_mem_firing_iff.2 ⟨rfl, rfl, hfire⟩

end Moment

namespace Debugger

open Moment

/-- Whatever is called, the history of a debugger that has begun without one holds the last firings,
sixteen at most. A breakpoint fires exactly when a scan comes to it and it is let, and what happens
in a call can always be told. -/
theorem history_remembers_last :
    (∀ (call : Call) (d : Debugger), ∃ seen, (call.begin d).Undergoes seen (call.finish d)) ∧
      (∀ (m : Moment) (p : Processor) (index : Nat), .fires p index ∈ m.occurrences ↔
        ∃ s left, m.focus = .scan s ∧ s.left = left + 1 ∧ s.processor = p ∧
          s.last - left = index ∧ m.debugger.LetsFire p index) ∧
      ∀ (start d : Debugger) (seen : List Occurrence), start.session.history = [] →
        start.Undergoes seen d →
          d.session.history <:+ seen.filterMap Occurrence.firing? ∧
            d.session.history.length = min 16 (seen.filterMap Occurrence.firing?).length := by
  refine ⟨Call.exists_undergoes, fun _ _ _ => fires_mem_occurrences_iff,
    fun start d seen hempty h => ?_⟩
  have hnothing : start.recollection.Recalls [] := by
    refine ⟨[], rfl, ?_⟩
    rw [recollection, hempty]
    exact ⟨List.suffix_refl [], rfl⟩
  obtain ⟨fired, hfired, hkept⟩ := h.passes.recalls hnothing
  rw [hfired, recollection, List.append_nil]
  exact ⟨hkept.suffix, hkept.length⟩

def crowdedDebugger : Debugger where
  store := {
    cpu := {
      processor := .cpu
      items := List.replicate 9 ⟨"VBL = 0", { once := true, quiet := true },
        Scene.startCondition.conditions, .zero, false⟩ }
    dsp := {
      processor := .dsp
      items := List.replicate 8 ⟨"VBL = 0", { trace := true },
        Scene.startCondition.conditions, .zero, false⟩ } }
  machine := .ofRam 16
  surroundings := { files := {}, session := {} }

def crowdedFirings : List (Processor × Nat) :=
  (List.range' 1 9).map (.cpu, ·) ++ (List.range' 1 8).map (.dsp, ·)

theorem history_remembers_last_crowded :
    crowdedDebugger.session.history = [] ∧
      ∃ seen, crowdedDebugger.Undergoes seen (Call.scan.outcome crowdedDebugger).2 ∧
        seen.filterMap Occurrence.firing? = crowdedFirings ∧
        (Call.scan.outcome crowdedDebugger).2.session.history = crowdedFirings.drop 1 := by
  have hcall : crowdedDebugger.Undergoes ((Call.scan.begin crowdedDebugger).happenings 60)
      (Call.scan.outcome crowdedDebugger).2 :=
    Undergoes.nothing.goesOn (n := 60) .scan rfl (by decide +kernel)
  have hfirings : ((Call.scan.begin crowdedDebugger).happenings 60).filterMap
      Occurrence.firing? = crowdedFirings := by
    decide +kernel
  obtain ⟨hsuffix, hlength⟩ := history_remembers_last.2.2 _ _ _ rfl hcall
  rw [hfirings] at hsuffix hlength
  refine ⟨rfl, _, hcall, hfirings, ?_⟩
  have hdrop := List.suffix_iff_eq_drop.1 hsuffix
  rwa [hlength] at hdrop

end Debugger

end Monitor

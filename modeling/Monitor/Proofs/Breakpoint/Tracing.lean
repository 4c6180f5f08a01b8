import Monitor.Proofs.Breakpoint.Ledger

namespace Monitor

open Attempt

namespace BreakpointList

variable {l next : BreakpointList} {index : Nat}

/-- A sweep drops the marked breakpoints from an index down to the first. There is a breakpoint at
each index that it looks at. -/
inductive Swept : Nat → BreakpointList → BreakpointList → Prop
  | done (l : BreakpointList) : Swept 0 l l
  | keep {index : Nat} {l last : BreakpointList} {b : Breakpoint}
      (h : l.get? (index + 1) = some b) (hb : b.deleted = false) (hmore : Swept index l last) :
      Swept (index + 1) l last
  | drop {index : Nat} {l next last : BreakpointList} {b : Breakpoint}
      (h : l.get? (index + 1) = some b) (hb : b.deleted = true)
      (hremove : result ({ l with items := l.items.set index { b with deleted := false } }.remove
        (index + 1)) = .ok ((), next)) (hmore : Swept index next last) : Swept (index + 1) l last

theorem exists_get? : (∃ b, l.get? index = some b) ↔ index ≠ 0 ∧ index ≤ l.size := by
  rw [get?, size]
  split
  · rename_i h
    constructor
    · rintro ⟨b, hb⟩
      cases hb
    · intro hindex
      exact absurd h hindex.1
  · rename_i h
    constructor
    · rintro ⟨b, hb⟩
      have hlt := (List.getElem?_eq_some_iff.1 hb).1
      exact ⟨h, by omega⟩
    · rintro ⟨_, hle⟩
      have hlt : index - 1 < l.items.length := by omega
      exact ⟨_, List.getElem?_eq_getElem hlt⟩

theorem size_without (h : l.scanning = true) : (l.without index).size = l.size := by
  rw [without, if_pos h]
  exact List.length_modify _ _ _

theorem Edited.size_le {edits : List Edit} (h : Edited l edits next) (hscanning : l.scanning = true) :
    l.size ≤ next.size := by
  induction h with
  | nil => exact Nat.le_refl _
  | append hadd _ _ ih =>
    obtain ⟨_, _, _, rfl⟩ := add_eq_ok.1 hadd
    have hmore := ih hscanning
    rw [size_append] at hmore
    exact Nat.le_of_succ_le hmore
  | remove hremove _ ih =>
    obtain ⟨_, rfl⟩ := remove_eq_ok.1 hremove
    have hmore := ih (scanning_without.trans hscanning)
    rwa [size_without hscanning] at hmore
  | clear _ ih =>
    rw [value_removeAll, if_pos hscanning] at ih
    have hmore := ih hscanning
    rwa [size, List.length_map] at hmore

theorem Swept.eq (h : Swept index l next) : next = (l.sweepFrom index).value := by
  induction h with
  | done => rfl
  | keep h hb _ ih =>
    rw [sweepFrom, Logged.value_bind, sweepAt, h]
    simp only [hb, Bool.false_eq_true, if_false, Logged.value_pure]
    exact ih
  | drop h hb hremove _ ih =>
    rw [sweepFrom, Logged.value_bind, sweepAt, h]
    simp only [hb, if_true, Nat.add_sub_cancel]
    rw [value_discard, hremove]
    exact ih

theorem swept_append (l : BreakpointList) (hidle : l.scanning = false)
    (front back : List Breakpoint) :
    ∃ next, Swept front.length { l with items := front ++ back } next := by
  induction front using List.reverseRecOn generalizing back with
  | nil => exact ⟨_, .done _⟩
  | append_singleton front b ih =>
    rw [List.length_append, List.length_singleton, List.append_assoc, List.singleton_append]
    have hget := get?_append_cons l front back b
    by_cases hb : b.deleted = true
    · obtain ⟨next, hnext⟩ := ih back
      have hset : (front ++ b :: back).set front.length { b with deleted := false } =
          front ++ { b with deleted := false } :: back := by simp
      have hremove := remove_of_get? (get?_append_cons l front back { b with deleted := false })
      rw [without_append_cons, if_neg (Bool.eq_false_iff.1 hidle), List.nil_append] at hremove
      refine ⟨next, .drop hget hb ?_ hnext⟩
      rw [hset]
      exact hremove
    · obtain ⟨next, hnext⟩ := ih (b :: back)
      exact ⟨next, .keep hget (Bool.eq_false_iff.2 hb) hnext⟩

theorem swept_sweep (hidle : l.scanning = false) : Swept l.size l l.sweep.value := by
  obtain ⟨next, hnext⟩ := swept_append l hidle l.items []
  rw [List.append_nil] at hnext
  have heq := hnext.eq
  subst heq
  exact hnext

end BreakpointList

namespace Scene

variable {σ : Type} {handler : Handler σ} {p : Processor} {scene next : Scene σ}
  {trace : List Incident} {index last left count : Nat}

/-- A scan comes to an index. There is no rule for an index without a breakpoint. -/
inductive StepTrace (handler : Handler σ) (p : Processor) (index : Nat) (scene : Scene σ) :
    List Incident → Scene σ → Prop
  | skip {b : Breakpoint} (h : (scene.list p).get? index = some b) (hb : b.deleted = true) :
      StepTrace handler p index scene [] scene
  | pass {b : Breakpoint} (h : (scene.list p).get? index = some b) (hb : b.deleted = false)
      (hfires : b.fires scene.machine = false) :
      StepTrace handler p index scene [.test index scene.machine] (scene.tested p index b)
  | fire {b : Breakpoint} {edits : List BreakpointList.Edit}
      (h : (scene.list p).get? index = some b) (hb : b.deleted = false)
      (hfires : b.fires scene.machine = true) (honce : b.options.once = false)
      (hedits : ((scene.tested p index b).list p).Edited edits
        ((scene.fired handler p index b).list p)) :
      StepTrace handler p index scene
        (.test index scene.machine :: .fire index :: edits.map .edit)
        (scene.fired handler p index b)
  | fireOnce {b : Breakpoint} {edits : List BreakpointList.Edit} {l : BreakpointList}
      (h : (scene.list p).get? index = some b) (hb : b.deleted = false)
      (hfires : b.fires scene.machine = true) (honce : b.options.once = true)
      (hedits : ((scene.tested p index b).list p).Edited edits
        ((scene.fired handler p index b).list p))
      (hremove : result (((scene.fired handler p index b).list p).remove index) = .ok ((), l)) :
      StepTrace handler p index scene
        (.test index scene.machine :: .fire index :: (edits.map .edit ++ [.retire index]))
        ((scene.fired handler p index b).setList p l)

inductive LoopTrace (handler : Handler σ) (p : Processor) (last : Nat) :
    Nat → Scene σ → List Incident → Scene σ → Prop
  | done (scene : Scene σ) : LoopTrace handler p last 0 scene [] scene
  | step {left : Nat} {scene next final : Scene σ} {trace more : List Incident}
      (hstep : StepTrace handler p (last - left) scene trace next)
      (hmore : LoopTrace handler p last left next more final) :
      LoopTrace handler p last (left + 1) scene (trace ++ more) final

inductive Traced (handler : Handler σ) (p : Processor) (scene : Scene σ) :
    List Incident → Scene σ → Prop
  | intro {last : Scene σ} {trace : List Incident} {l : BreakpointList}
      (hidle : (scene.list p).scanning = false)
      (hloop : LoopTrace handler p (scene.list p).size (scene.list p).size
        (scene.setList p { scene.list p with scanning := true }) trace last)
      (hsweep : BreakpointList.Swept (last.list p).size { last.list p with scanning := false } l) :
      Traced handler p scene trace (last.setList p l)

theorem StepTrace.eq (h : StepTrace handler p index scene trace next) :
    next = (scanAt handler p index scene).value.2 := by
  cases h with
  | skip h hb => exact (scanAt_of_deleted h hb).symm
  | pass h hb hfires => exact (scanAt_of_not_fires h hb hfires).symm
  | @fire b _ h hb hfires honce =>
    have hkept : (b.test scene.machine).value.2.options.once = false := honce
    rw [scanAt_of_fires h hb hfires, retire, if_neg (Bool.eq_false_iff.1 hkept)]
    rfl
  | @fireOnce b _ l h hb hfires honce _ hremove =>
    have hkept : (b.test scene.machine).value.2.options.once = true := honce
    rw [scanAt_of_fires h hb hfires, retire, if_pos hkept, Logged.value_bind,
      BreakpointList.value_discard, hremove]
    rfl

theorem LoopTrace.eq (h : LoopTrace handler p last left scene trace next) :
    next = (scanFrom handler p last left scene).value.2 := by
  induction h with
  | done => rfl
  | step hstep _ ih =>
    rw [ih, hstep.eq]
    rfl

theorem Traced.eq (h : Traced handler p scene trace next) :
    next = (scan handler p scene).value.2 := by
  cases h with
  | intro hidle hloop hsweep =>
    rw [scan]
    dsimp only
    rw [if_neg (Bool.eq_false_iff.1 hidle), hsweep.eq, hloop.eq]
    rfl

def Open (p : Processor) (last : Nat) (scene : Scene σ) : Prop :=
  (scene.list p).scanning = true ∧ last ≤ (scene.list p).size

theorem list_tested (index : Nat) (b : Breakpoint) (scene : Scene σ) :
    (scene.tested p index b).list p = { scene.list p with
      items := (scene.list p).items.set (index - 1) (b.test scene.machine).value.2 } :=
  list_setList_self _ _ _

theorem open_tested (h : scene.Open p last) (index : Nat) (b : Breakpoint) :
    (scene.tested p index b).Open p last := by
  rw [Open, list_tested, BreakpointList.size, List.length_set]
  exact h

theorem Open.edited {edits : List BreakpointList.Edit} (h : scene.Open p last)
    (hedits : (scene.list p).Edited edits (next.list p)) : next.Open p last :=
  ⟨hedits.scanning.trans h.1, Nat.le_trans h.2 (hedits.size_le h.1)⟩

theorem StepTrace.stays_open (h : StepTrace handler p index scene trace next)
    (hopen : scene.Open p last) : next.Open p last := by
  cases h with
  | skip => exact hopen
  | pass => exact open_tested hopen _ _
  | fire _ _ _ _ hedits => exact (open_tested hopen _ _).edited hedits
  | fireOnce _ _ _ _ hedits hremove =>
    have hfired := (open_tested hopen _ _).edited hedits
    obtain ⟨_, rfl⟩ := BreakpointList.remove_eq_ok.1 hremove
    rw [Open, list_setList_self]
    exact ⟨BreakpointList.scanning_without.trans hfired.1,
      (BreakpointList.size_without hfired.1).symm ▸ hfired.2⟩

variable (hreact : ∀ r (scene : Scene σ), scene.store.Evolves (handler r scene).value.store)

include hreact

theorem exists_stepTrace (hopen : scene.Open p last) (h0 : index ≠ 0) (hle : index ≤ last) :
    ∃ trace next, StepTrace handler p index scene trace next := by
  obtain ⟨b, h⟩ := BreakpointList.exists_get?.2 ⟨h0, Nat.le_trans hle hopen.2⟩
  by_cases hb : b.deleted = true
  · exact ⟨_, _, .skip h hb⟩
  have hlive := Bool.eq_false_iff.2 hb
  by_cases hfires : b.fires scene.machine = true
  · have htested := open_tested hopen index b
    have hevolves : (scene.tested p index b).store.Evolves (scene.fired handler p index b).store :=
      react_rel .refl .trans hreact _ _
    obtain ⟨edits, hedits⟩ := hevolves.edited htested.1
    by_cases honce : b.options.once = true
    · have hfired := htested.edited hedits
      have hremove := BreakpointList.remove_eq_ok.2
        ⟨BreakpointList.exists_get?.2 ⟨h0, Nat.le_trans hle hfired.2⟩, rfl⟩
      exact ⟨_, _, .fireOnce h hlive hfires honce hedits hremove⟩
    · exact ⟨_, _, .fire h hlive hfires (Bool.eq_false_iff.2 honce) hedits⟩
  · exact ⟨_, _, .pass h hlive (Bool.eq_false_iff.2 hfires)⟩

theorem exists_loopTrace (hopen : scene.Open p last) (hleft : left ≤ last) :
    ∃ trace next, LoopTrace handler p last left scene trace next := by
  induction left generalizing scene with
  | zero => exact ⟨_, _, .done scene⟩
  | succ left ih =>
    have h0 : last - left ≠ 0 := by omega
    obtain ⟨trace, next, hstep⟩ := exists_stepTrace hreact hopen h0 (Nat.sub_le last left)
    obtain ⟨more, final, hmore⟩ := ih (hstep.stays_open hopen) (Nat.le_of_succ_le hleft)
    exact ⟨trace ++ more, final, .step hstep hmore⟩

/-- All indices that a scan uses have a breakpoint, as long as its reactions keep to the operations
of the store. -/
theorem exists_traced (hidle : (scene.list p).scanning = false) :
    ∃ trace, Traced handler p scene trace (scan handler p scene).value.2 := by
  have hopen : (scene.setList p { scene.list p with scanning := true }).Open p
      (scene.list p).size := by
    rw [Open, list_setList_self]
    exact ⟨rfl, Nat.le_refl _⟩
  obtain ⟨trace, last, hloop⟩ := exists_loopTrace hreact hopen (Nat.le_refl _)
  have hsweep := BreakpointList.swept_sweep (l := { last.list p with scanning := false }) rfl
  have htraced := Traced.intro hidle hloop hsweep
  have heq := htraced.eq
  rw [heq] at htraced
  exact ⟨trace, htraced⟩

end Scene

end Monitor

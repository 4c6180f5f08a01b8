import Monitor.Proofs.Breakpoint.Evolution

namespace Monitor

open Attempt

namespace BreakpointList

variable {l next : BreakpointList} {edits : List Edit} {index : Nat} {b : Breakpoint}

/-- Only during a scan can there be marked breakpoints. -/
def Clean (l : BreakpointList) : Prop :=
  l.scanning = false → ∀ b ∈ l.items, b.deleted = false

theorem clean_append (h : l.Clean) (hb : b.deleted = false) : (l.append b).Clean := by
  intro hidle c hc
  rcases List.mem_append.1 hc with hc | hc
  · exact h hidle c hc
  · rw [List.mem_singleton.1 hc]
    exact hb

theorem clean_without (h : l.Clean) : (l.without index).Clean := by
  intro hidle b hb
  rw [scanning_without] at hidle
  rw [without, if_neg (by simp [hidle])] at hb
  exact h hidle b (List.mem_of_mem_eraseIdx hb)

theorem clean_removeAll (l : BreakpointList) : l.removeAll.value.Clean := by
  rw [value_removeAll]
  intro hidle b hb
  dsimp only at hidle hb
  rw [hidle] at hb
  cases hb

theorem Edited.clean (h : Edited l edits next) (hl : l.Clean) : next.Clean := by
  induction h with
  | nil => exact hl
  | append hadd _ _ ih =>
    obtain ⟨parsed, _, _, rfl⟩ := add_eq_ok.1 hadd
    exact ih (clean_append hl rfl)
  | remove hremove _ ih =>
    obtain ⟨_, rfl⟩ := remove_eq_ok.1 hremove
    exact ih (clean_without hl)
  | clear _ ih => exact ih (clean_removeAll _)

theorem clean_discard (hl : l.Clean) : (l.discard index).value.Clean := by
  rw [value_discard]
  split
  · rename_i next h
    obtain ⟨_, rfl⟩ := remove_eq_ok.1 h
    exact clean_without hl
  · exact hl

theorem clean_test (hl : l.Clean) (h : l.get? index = some b) (m : Machine) :
    { l with items := l.items.set (index - 1) (b.test m).value.2 }.Clean := by
  intro hidle c hc
  rcases List.mem_or_eq_of_mem_set hc with hc | rfl
  · exact hl hidle c hc
  · exact hl hidle b (mem_of_get? h)

theorem clean_sweep (l : BreakpointList) : { l with scanning := false }.sweep.value.Clean := by
  rw [value_sweep rfl]
  intro _ b hb
  simpa using (List.mem_filter.1 hb).2

end BreakpointList

namespace Store

variable {s t : Store} {p q : Processor}

def Clean (s : Store) : Prop :=
  ∀ p, (s.list p).Clean

theorem clean_setList {l : BreakpointList} (hs : s.Clean) (hl : l.Clean) :
    (s.setList l q).Clean := by
  intro p
  by_cases hp : p = q
  · subst hp
    rw [list_setList_self]
    exact hl
  · rw [list_setList_of_ne hp]
    exact hs p

theorem ScanStep.clean (h : ScanStep q s t) (hs : s.Clean) : t.Clean := by
  cases h with
  | begin => exact clean_setList hs nofun
  | test h m => exact clean_setList hs (BreakpointList.clean_test (hs q) h m)
  | retire index => exact clean_setList hs (BreakpointList.clean_discard (hs q))
  | finish => exact clean_setList hs (BreakpointList.clean_sweep _)

theorem Operates.clean (h : Operates s t) (hs : s.Clean) : t.Clean := by
  obtain ⟨p, edits, l, hl, rfl⟩ := h.editedAt
  exact clean_setList hs (hl.clean (hs p))

theorem Evolves.clean (h : Evolves s t) (hs : s.Clean) : t.Clean := by
  induction h with
  | refl => exact hs
  | trans _ _ ih ih' => exact ih' (ih hs)
  | operate h => exact h.clean hs
  | scan handler p scene _ ih =>
    exact Scene.scan_rel (R := fun s t => s.Clean → t.Clean) (fun _ => id)
      (fun h h' hs => h' (h hs)) ScanStep.clean ih scene hs

theorem Reachable.clean (h : Reachable s) : s.Clean := by
  induction h with
  | initial => intro p _ b hb; cases p <;> cases hb
  | evolve _ h ih => exact h.clean ih
  | scanStep _ h ih => exact h.clean ih

theorem Evolves.edited (h : Evolves s t) (hscanning : (s.list p).scanning = true) :
    ∃ edits, (s.list p).Edited edits (t.list p) := by
  induction h with
  | refl => exact ⟨[], .nil _⟩
  | trans _ _ ih ih' =>
    obtain ⟨edits, hedits⟩ := ih hscanning
    obtain ⟨more, hmore⟩ := ih' (hedits.scanning.trans hscanning)
    exact ⟨edits ++ more, hedits.trans hmore⟩
  | operate h =>
    obtain ⟨q, hq⟩ := h.editedAt
    exact hq.edited p
  | scan handler q scene _ ih =>
    -- A second scan of a list is refused, and that of the other list leaves this one to its reactions.
    by_cases hp : p = q
    · subst hp
      rw [Scene.scan_of_scanning hscanning]
      exact ⟨[], .nil _⟩
    · refine Scene.scan_rel (R := fun s t => (s.list p).scanning = true →
        ∃ edits, (s.list p).Edited edits (t.list p)) (fun s _ => ⟨[], .nil _⟩) ?_ ?_ ih scene
        hscanning
      · intro s t u h h' hs
        obtain ⟨edits, hedits⟩ := h hs
        obtain ⟨more, hmore⟩ := h' (hedits.scanning.trans hs)
        exact ⟨edits ++ more, hedits.trans hmore⟩
      · intro s t h _
        rw [h.list_of_ne hp]
        exact ⟨[], .nil _⟩

end Store

end Monitor

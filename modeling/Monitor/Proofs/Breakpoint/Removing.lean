import Mathlib.Data.List.Induction
import Monitor.Breakpoint.List
import Monitor.Proofs.Revision

namespace Monitor

def Breakpoint.marked (b : Breakpoint) : Breakpoint :=
  { b with deleted := true }

namespace BreakpointList

open Attempt Revision

variable {l next : BreakpointList} {index : Nat} {b : Breakpoint} {front back : List Breakpoint}

def without (l : BreakpointList) (index : Nat) : BreakpointList :=
  if l.scanning then { l with items := l.items.modify (index - 1) Breakpoint.marked }
  else { l with items := l.items.eraseIdx (index - 1) }

theorem getElem?_of_get? (h : l.get? index = some b) : l.items[index - 1]? = some b := by
  rw [get?] at h
  split at h
  · cases h
  · exact h

theorem mem_of_get? (h : l.get? index = some b) : b ∈ l.items :=
  List.mem_of_getElem? (getElem?_of_get? h)

theorem set_marked (h : l.get? index = some b) :
    l.items.set (index - 1) b.marked = l.items.modify (index - 1) Breakpoint.marked := by
  have hb := getElem?_of_get? h
  obtain ⟨hlt, rfl⟩ := List.getElem?_eq_some_iff.1 hb
  apply List.ext_getElem?
  intro i
  rw [List.getElem?_set, List.getElem?_modify]
  by_cases hi : index - 1 = i
  · subst hi
    simp [hlt]
  · simp [hi]

theorem remove_of_get? (h : l.get? index = some b) :
    result (l.remove index) = .ok ((), l.without index) := by
  have hempty : l.items.isEmpty = false :=
    List.isEmpty_eq_false_iff.2 (List.ne_nil_of_mem (mem_of_get? h))
  rw [remove, result_on_eq_ok, if_neg (by simp [hempty])]
  simp only [h]
  by_cases hscanning : l.scanning = true
  · rw [without, if_pos hscanning, if_pos hscanning, ← set_marked h]
    rfl
  · rw [without, if_neg hscanning, if_neg hscanning]
    rfl

theorem remove_of_none (h : l.get? index = none) :
    ∃ e, result (l.remove index) = .error ⟨e, l⟩ := by
  rw [remove]
  split
  · exact ⟨_, rfl⟩
  · simp only [h]
    exact ⟨_, rfl⟩

theorem remove_eq_ok : result (l.remove index) = .ok ((), next) ↔
    (∃ b, l.get? index = some b) ∧ next = l.without index := by
  constructor
  · intro h
    cases hb : l.get? index with
    | none =>
      obtain ⟨e, he⟩ := remove_of_none hb
      cases h.symm.trans he
    | some b =>
      cases h.symm.trans (remove_of_get? hb)
      exact ⟨⟨b, rfl⟩, rfl⟩
  · rintro ⟨⟨b, hb⟩, rfl⟩
    exact remove_of_get? hb

/-- A breakpoint that is not there cannot be removed, and the list stays as it is. -/
theorem left_of_remove {f : Failed BreakpointList Breakpoint.Error}
    (h : result (l.remove index) = .error f) : f.left = l := by
  cases hb : l.get? index with
  | none =>
    obtain ⟨e, he⟩ := remove_of_none hb
    cases h.symm.trans he
    rfl
  | some b => cases h.symm.trans (remove_of_get? hb)

theorem value_discard : (l.discard index).value =
    match result (l.remove index) with
    | .ok (_, l) => l
    | .error _ => l := by
  have hrun : (l.remove index).run.value = result (l.remove index) := rfl
  rw [discard, Logged.value_bind, hrun]
  cases h : result (l.remove index) with
  | ok next => rfl
  | error f => exact left_of_remove h

theorem discard_of_get? (h : l.get? index = some b) : (l.discard index).value = l.without index := by
  rw [value_discard, remove_of_get? h]

theorem get?_append_cons (l : BreakpointList) (front back : List Breakpoint) (b : Breakpoint) :
    { l with items := front ++ b :: back }.get? (front.length + 1) = some b := by
  simp [get?]

theorem without_append_cons (l : BreakpointList) (front back : List Breakpoint) (b : Breakpoint) :
    { l with items := front ++ b :: back }.without (front.length + 1) =
      { l with items := front ++ ((if l.scanning then [b.marked] else []) ++ back) } := by
  by_cases h : l.scanning = true
  · simp [without, h, List.modify_eq_take_drop]
  · simp [without, h, List.eraseIdx_append]

theorem discardFrom_append (l : BreakpointList) (front back : List Breakpoint) :
    ({ l with items := front ++ back }.discardFrom front.length).value =
      { l with items := (if l.scanning then front.map Breakpoint.marked else []) ++ back } := by
  induction front using List.reverseRecOn generalizing back with
  | nil => cases l.scanning <;> rfl
  | append_singleton front b ih =>
    rw [List.length_append, List.length_singleton, discardFrom, Logged.value_bind,
      List.append_assoc, List.singleton_append, discard_of_get? (get?_append_cons l front back b),
      without_append_cons, ih]
    cases l.scanning with
    | false => rfl
    | true => simp

theorem value_removeAll (l : BreakpointList) : l.removeAll.value =
    { l with items := if l.scanning then l.items.map Breakpoint.marked else [] } := by
  have h := discardFrom_append l l.items []
  rw [List.append_nil, List.append_nil] at h
  exact h

theorem value_sweepAt (l : BreakpointList) (hidle : l.scanning = false)
    (front back : List Breakpoint) (b : Breakpoint) :
    ({ l with items := front ++ b :: back }.sweepAt (front.length + 1)).value =
      { l with items := front ++ ([b].filter (!·.deleted) ++ back) } := by
  rw [sweepAt, get?_append_cons]
  dsimp only
  by_cases hb : b.deleted = true
  · have hset : (front ++ b :: back).set (front.length + 1 - 1) { b with deleted := false } =
        front ++ { b with deleted := false } :: back := by simp
    rw [if_pos hb, hset, discard_of_get? (get?_append_cons l front back _), without_append_cons]
    simp [hidle, hb]
  · rw [if_neg hb]
    simp [hb]

theorem sweepFrom_append (l : BreakpointList) (hidle : l.scanning = false)
    (front back : List Breakpoint) :
    ({ l with items := front ++ back }.sweepFrom front.length).value =
      { l with items := front.filter (!·.deleted) ++ back } := by
  induction front using List.reverseRecOn generalizing back with
  | nil => rfl
  | append_singleton front b ih =>
    rw [List.length_append, List.length_singleton, sweepFrom, Logged.value_bind,
      List.append_assoc, List.singleton_append, value_sweepAt l hidle, ih, List.filter_append,
      List.append_assoc]

theorem value_sweep (hidle : l.scanning = false) :
    l.sweep.value = { l with items := l.items.filter (!·.deleted) } := by
  have h := sweepFrom_append l hidle l.items []
  rw [List.append_nil, List.append_nil] at h
  exact h

end BreakpointList

end Monitor

import Monitor.Proofs.Breakpoint.Reachability

namespace Monitor

open Attempt

/-- What happens to a list of breakpoints while it is scanned. -/
inductive Incident
  | test (index : Nat) (m : Machine)
  | fire (index : Nat)
  | retire (index : Nat)
  | edit (e : BreakpointList.Edit)

/-- What is known of a breakpoint during a scan. The original is as it was when the scan began, or
when it was appended. -/
structure Entry where
  original : Breakpoint
  tested : Option Machine := none
  fired : Bool := false
  gone : Bool := false

namespace Entry

def present (e : Entry) : Breakpoint :=
  match e.tested with
  | none => e.original
  | some m => (e.original.test m).value.2

def test (m : Machine) (e : Entry) : Entry :=
  { e with tested := some m }

def fire (e : Entry) : Entry :=
  { e with fired := true }

def drop (e : Entry) : Entry :=
  { e with gone := true }

def shown (e : Entry) : Breakpoint :=
  { e.present with deleted := e.gone }

structure Settled (e : Entry) : Prop where
  tested : e.tested = none → e.gone = true
  fired : e.fired = true → e.original.options.once = true → e.gone = true

structure Untouched (e : Entry) : Prop where
  tested : e.tested = none
  fired : e.fired = false

theorem deleted_present (e : Entry) : e.present.deleted = e.original.deleted := by
  rw [present]
  split <;> rfl

theorem options_shown (e : Entry) : e.shown.options = e.original.options := by
  rw [shown, present]
  split <;> rfl

theorem shown_eq_present {e : Entry} (h : e.original.deleted = e.gone) : e.shown = e.present := by
  rw [shown, ← h, ← deleted_present]

end Entry

/-- All breakpoints that were in a list at any time of a scan. A breakpoint keeps its place. -/
abbrev Ledger := List Entry

namespace Ledger

variable {ledger : Ledger} {index : Nat} {e : Entry} {l next : BreakpointList} {b : Breakpoint}
  {trace : List Incident}

def ofItems (items : List Breakpoint) : Ledger :=
  items.map fun b => { original := b }

def at? (ledger : Ledger) (index : Nat) : Option Entry :=
  if index = 0 then none else ledger[index - 1]?

def record (ledger : Ledger) : Incident → Ledger
  | .test index m => ledger.modify (index - 1) (Entry.test m)
  | .fire index => ledger.modify (index - 1) Entry.fire
  | .retire index => ledger.modify (index - 1) Entry.drop
  | .edit (.append b) => ledger ++ [{ original := b }]
  | .edit (.remove index) => ledger.modify (index - 1) Entry.drop
  | .edit .clear => ledger.map Entry.drop

def replay (ledger : Ledger) (trace : List Incident) : Ledger :=
  trace.foldl record ledger

def survivors (ledger : Ledger) : List Breakpoint :=
  (ledger.filter (!·.gone)).map Entry.present

/-- An incident is about a breakpoint of the ledger. Only what is not gone is tested, and only once;
only what has been tested and is not gone fires. New breakpoints have no hits. -/
def Allows (ledger : Ledger) : Incident → Prop
  | .test index _ => ∃ e, ledger.at? index = some e ∧ e.gone = false ∧ e.tested = none
  | .fire index => ∃ e, ledger.at? index = some e ∧ e.gone = false ∧ e.tested ≠ none
  | .retire index =>
    ∃ e, ledger.at? index = some e ∧ e.fired = true ∧ e.original.options.once = true
  | .edit (.append b) => b.hits = .zero ∧ b.deleted = false
  | .edit (.remove index) => ∃ e, ledger.at? index = some e
  | .edit .clear => True

def AllowsAll : Ledger → List Incident → Prop
  | _, [] => True
  | ledger, i :: more => ledger.Allows i ∧ AllowsAll (ledger.record i) more

theorem allowsAll_append (trace more : List Incident) : ledger.AllowsAll (trace ++ more) ↔
    ledger.AllowsAll trace ∧ (ledger.replay trace).AllowsAll more := by
  induction trace generalizing ledger with
  | nil => simp [AllowsAll, replay]
  | cons i trace ih => exact (and_congr_right fun _ => ih).trans and_assoc.symm

theorem replay_append (trace more : List Incident) :
    ledger.replay (trace ++ more) = (ledger.replay trace).replay more :=
  List.foldl_append

def appended : List Incident → List Breakpoint
  | [] => []
  | .edit (.append b) :: more => b :: appended more
  | _ :: more => appended more

theorem hits_of_appended (h : ledger.AllowsAll trace) : ∀ b ∈ appended trace, b.hits = .zero := by
  induction trace generalizing ledger with
  | nil =>
    intro b hb
    cases hb
  | cons i more ih =>
    cases i with
    | edit edit =>
      cases edit with
      | append b =>
        rw [appended, List.forall_mem_cons]
        exact ⟨h.1.1, ih h.2⟩
      | remove => exact ih h.2
      | clear => exact ih h.2
    | test => exact ih h.2
    | fire => exact ih h.2
    | retire => exact ih h.2

theorem map_original_modify (f : Entry → Entry) (hf : ∀ e, (f e).original = e.original)
    (ledger : Ledger) (place : Nat) :
    (ledger.modify place f).map Entry.original = ledger.map Entry.original := by
  apply List.ext_getElem?
  intro i
  rw [List.getElem?_map, List.getElem?_modify, List.getElem?_map]
  by_cases hi : place = i
  · simp [hi, Function.comp_def, hf]
  · simp [hi]

theorem map_original_ofItems (items : List Breakpoint) :
    (ofItems items).map Entry.original = items := by
  rw [ofItems, List.map_map]
  exact List.map_id items

theorem map_original_replay (ledger : Ledger) (trace : List Incident) :
    (ledger.replay trace).map Entry.original = ledger.map Entry.original ++ appended trace := by
  induction trace generalizing ledger with
  | nil => exact (List.append_nil _).symm
  | cons i more ih =>
    refine (ih (ledger.record i)).trans ?_
    cases i with
    | test index m =>
      exact congrArg (· ++ appended more) (map_original_modify (Entry.test m) (fun _ => rfl) ledger _)
    | fire index =>
      exact congrArg (· ++ appended more) (map_original_modify Entry.fire (fun _ => rfl) ledger _)
    | retire index =>
      exact congrArg (· ++ appended more) (map_original_modify Entry.drop (fun _ => rfl) ledger _)
    | edit edit =>
      cases edit with
      | append b => simp [record, appended]
      | remove index =>
        exact congrArg (· ++ appended more) (map_original_modify Entry.drop (fun _ => rfl) ledger _)
      | clear => simp [record, appended, Entry.drop, Function.comp_def]

/-- A list that is being scanned stands for a ledger. -/
structure Represents (ledger : Ledger) (l : BreakpointList) : Prop where
  items : l.items = ledger.map Entry.shown
  scanning : l.scanning = true
  unmarked : ∀ e ∈ ledger, e.original.deleted = false

theorem get?_of_represents (h : ledger.Represents l) (index : Nat) :
    l.get? index = (ledger.at? index).map Entry.shown := by
  rw [BreakpointList.get?, at?, h.items]
  split
  · rfl
  · exact List.getElem?_map

theorem getElem?_of_at? (h : ledger.at? index = some e) : ledger[index - 1]? = some e := by
  rw [at?] at h
  split at h
  · cases h
  · exact h

theorem represents_ofItems (hidle : l.scanning = false) (hl : l.Clean) :
    (ofItems l.items).Represents { l with scanning := true } where
  items := by
    have hb : ∀ b ∈ l.items, Entry.shown { original := b } = b := by
      intro b hb
      rw [Entry.shown, ← hl hidle b hb]
      rfl
    rw [ofItems, List.map_map]
    exact ((List.map_congr_left hb).trans (List.map_id l.items)).symm
  scanning := rfl
  unmarked := by
    intro e he
    obtain ⟨b, hb, rfl⟩ := List.mem_map.1 he
    exact hl hidle b hb

theorem represents_append (h : ledger.Represents l) (hb : b.deleted = false) :
    (ledger.record (.edit (.append b))).Represents (l.append b) where
  items := by
    have hshown : Entry.shown { original := b } = b := by
      rw [Entry.shown, ← hb]
      rfl
    rw [record, List.map_append, ← h.items, List.map_singleton, hshown]
    rfl
  scanning := h.scanning
  unmarked := by
    intro e he
    rcases List.mem_append.1 he with he | he
    · exact h.unmarked e he
    · rw [List.mem_singleton.1 he]
      exact hb

theorem map_shown_modify (f : Entry → Entry) (g : Breakpoint → Breakpoint)
    (hfg : ∀ e, (f e).shown = g e.shown) (ledger : Ledger) (place : Nat) :
    (ledger.modify place f).map Entry.shown = (ledger.map Entry.shown).modify place g := by
  apply List.ext_getElem?
  intro i
  rw [List.getElem?_map, List.getElem?_modify, List.getElem?_modify, List.getElem?_map]
  by_cases hi : place = i
  · simp [hi, Function.comp_def, hfg]
  · simp [hi]

theorem forall_modify (f : Entry → Entry) (hf : ∀ e, (f e).original = e.original)
    (h : ∀ e ∈ ledger, e.original.deleted = false) (place : Nat) :
    ∀ e ∈ ledger.modify place f, e.original.deleted = false := by
  intro e he
  have hmem := List.mem_map_of_mem (f := Entry.original) he
  rw [map_original_modify f hf] at hmem
  obtain ⟨e', he', heq⟩ := List.mem_map.1 hmem
  rw [← heq]
  exact h e' he'

theorem represents_without (h : ledger.Represents l) (index : Nat) :
    Represents (ledger.modify (index - 1) Entry.drop) (l.without index) where
  items := by
    rw [BreakpointList.without, if_pos h.scanning,
      map_shown_modify Entry.drop Breakpoint.marked (fun _ => rfl), ← h.items]
  scanning := BreakpointList.scanning_without.trans h.scanning
  unmarked := forall_modify Entry.drop (fun _ => rfl) h.unmarked _

theorem represents_removeAll (h : ledger.Represents l) :
    (ledger.record (.edit .clear)).Represents l.removeAll.value where
  items := by
    rw [BreakpointList.value_removeAll, if_pos h.scanning, h.items, record, List.map_map,
      List.map_map]
    rfl
  scanning := by
    rw [BreakpointList.value_removeAll]
    exact h.scanning
  unmarked := by
    intro e he
    obtain ⟨e', he', rfl⟩ := List.mem_map.1 he
    exact h.unmarked e' he'

theorem represents_test (h : ledger.Represents l) (he : ledger.at? index = some e)
    (hgone : e.gone = false) (htested : e.tested = none) (m : Machine) :
    (ledger.record (.test index m)).Represents
      { l with items := l.items.set (index - 1) (e.shown.test m).value.2 } where
  items := by
    have hplace := getElem?_of_at? he
    have hlive := (h.unmarked e (List.mem_of_getElem? hplace)).trans hgone.symm
    have hshown : e.shown = e.original := by
      rw [Entry.shown_eq_present hlive, Entry.present, htested]
    have htest : (e.test m).shown = (e.original.test m).value.2 := Entry.shown_eq_present hlive
    apply List.ext_getElem?
    intro i
    rw [hshown, ← htest, h.items, record, List.getElem?_set, List.getElem?_map, List.getElem?_map,
      List.getElem?_modify, List.length_map]
    by_cases hi : index - 1 = i
    · subst hi
      obtain ⟨hlt, hentry⟩ := List.getElem?_eq_some_iff.1 hplace
      simp [hlt, hentry]
    · simp [hi]
  scanning := h.scanning
  unmarked := forall_modify (Entry.test m) (fun _ => rfl) h.unmarked _

theorem represents_fire (h : ledger.Represents l) (index : Nat) :
    (ledger.record (.fire index)).Represents l where
  items := by
    rw [record, map_shown_modify Entry.fire id (fun _ => rfl), List.modify_id]
    exact h.items
  scanning := h.scanning
  unmarked := forall_modify Entry.fire (fun _ => rfl) h.unmarked _

theorem represents_edited {edits : List BreakpointList.Edit} (h : ledger.Represents l)
    (hedits : l.Edited edits next) :
    (ledger.replay (edits.map .edit)).Represents next ∧ ledger.AllowsAll (edits.map .edit) := by
  induction hedits generalizing ledger with
  | nil => exact ⟨h, trivial⟩
  | append hadd hb _ ih =>
    obtain ⟨parsed, _, rfl, rfl⟩ := BreakpointList.add_eq_ok.1 hadd
    cases hb.symm.trans (BreakpointList.get?_append_size _)
    obtain ⟨hnext, hmore⟩ := ih (represents_append h rfl)
    exact ⟨hnext, ⟨rfl, rfl⟩, hmore⟩
  | remove hremove _ ih =>
    obtain ⟨⟨b, hb⟩, rfl⟩ := BreakpointList.remove_eq_ok.1 hremove
    rw [get?_of_represents h] at hb
    obtain ⟨e, he, _⟩ := Option.map_eq_some_iff.1 hb
    obtain ⟨hnext, hmore⟩ := ih (represents_without h _)
    exact ⟨hnext, ⟨e, he⟩, hmore⟩
  | clear _ ih =>
    obtain ⟨hnext, hmore⟩ := ih (represents_removeAll h)
    exact ⟨hnext, trivial, hmore⟩

theorem items_sweep (h : ledger.Represents l) :
    { l with scanning := false }.sweep.value.items = ledger.survivors := by
  have hpresent : ∀ e ∈ ledger.filter (!·.gone), e.shown = e.present := by
    intro e he
    obtain ⟨hmem, hlive⟩ := List.mem_filter.1 he
    exact Entry.shown_eq_present ((h.unmarked e hmem).trans (by simpa using hlive.symm))
  rw [BreakpointList.value_sweep rfl, survivors, ← List.map_congr_left hpresent]
  dsimp only
  rw [h.items, List.filter_map]
  rfl

def Meets (ledger : Ledger) (expected : Nat → Entry → Prop) : Prop :=
  ∀ i e, ledger[i]? = some e → expected i e

variable {P Q : Nat → Entry → Prop} {place count : Nat} {f : Entry → Entry}

theorem Meets.imp (h : ledger.Meets P) (hPQ : ∀ i e, P i e → Q i e) : ledger.Meets Q :=
  fun i e he => hPQ i e (h i e he)

theorem Meets.modify (h : ledger.Meets P)
    (hf : ∀ e, ledger[place]? = some e → P place e → Q place (f e))
    (hrest : ∀ i e, i ≠ place → P i e → Q i e) : Meets (ledger.modify place f) Q := by
  intro i e he
  rw [List.getElem?_modify] at he
  obtain ⟨e', he', rfl⟩ := Option.map_eq_some_iff.1 he
  by_cases hi : place = i
  · subst hi
    rw [if_pos rfl]
    exact hf e' he' (h place e' he')
  · rw [if_neg hi]
    exact hrest i e' (Ne.symm hi) (h i e' he')

theorem Meets.edit (h : ledger.Meets P) (hdrop : ∀ i e, P i e → P i e.drop)
    (hnew : ∀ i b, ledger.length ≤ i → P i { original := b }) (edit : BreakpointList.Edit) :
    (ledger.record (.edit edit)).Meets P := by
  cases edit with
  | append b =>
    intro i e he
    rcases Nat.lt_or_ge i ledger.length with hi | hi
    · rw [record, List.getElem?_append_left hi] at he
      exact h i e he
    · rw [record, List.getElem?_append_right hi] at he
      cases List.mem_singleton.1 (List.mem_of_getElem? he)
      exact hnew i b hi
  | remove index => exact h.modify (fun e _ => hdrop _ e) fun _ _ _ => id
  | clear =>
    intro i e he
    rw [record, List.getElem?_map] at he
    obtain ⟨e', he', rfl⟩ := Option.map_eq_some_iff.1 he
    exact hdrop i e' (h i e' he')

theorem length_le_record (ledger : Ledger) (i : Incident) :
    ledger.length ≤ (ledger.record i).length := by
  have h := congrArg List.length (map_original_replay ledger [i])
  rw [List.length_append, List.length_map, List.length_map] at h
  exact Nat.le.intro h.symm

theorem Meets.edits (h : ledger.Meets P) (hdrop : ∀ i e, P i e → P i e.drop)
    (hnew : ∀ i b, ledger.length ≤ i → P i { original := b })
    (edits : List BreakpointList.Edit) : (ledger.replay (edits.map .edit)).Meets P := by
  induction edits generalizing ledger with
  | nil => exact h
  | cons edit more ih =>
    exact ih (h.edit hdrop hnew edit) fun i b hi =>
      hnew i b (Nat.le_trans (length_le_record ledger _) hi)

/-- A scan is done with so many breakpoints, has come so far with the next one, and has not come to
those after it. -/
structure Stage (count : Nat) (current : Entry → Prop) (i : Nat) (e : Entry) : Prop where
  before : i < count → e.Settled
  here : i = count → current e
  after : count < i → e.Untouched

def Seen (ledger : Ledger) (count : Nat) : Prop :=
  ledger.Meets (Stage count Entry.Untouched)

variable {C D : Entry → Prop}

theorem seen_ofItems (items : List Breakpoint) : (ofItems items).Seen 0 := by
  intro i e he
  obtain ⟨b, _, rfl⟩ := List.mem_map.1 (List.mem_of_getElem? he)
  exact ⟨fun hi => absurd hi (Nat.not_lt_zero i), fun _ => ⟨rfl, rfl⟩, fun _ => ⟨rfl, rfl⟩⟩

theorem Seen.untouched (h : ledger.Seen count) (he : ledger[count]? = some e) : e.Untouched :=
  (h count e he).here rfl

theorem seen_succ (h : ledger.Meets (Stage count Entry.Settled)) : ledger.Seen (count + 1) := by
  intro i e hplace
  have he := h i e hplace
  constructor
  · intro hi
    rcases Nat.lt_succ_iff_lt_or_eq.1 hi with hi | hi
    · exact he.before hi
    · exact he.here hi
  · intro hi
    apply he.after
    omega
  · intro hi
    apply he.after
    omega

theorem Meets.progress (h : ledger.Meets (Stage count C))
    (hf : ∀ e, ledger[count]? = some e → C e → D (f e)) :
    Meets (ledger.modify count f) (Stage count D) := by
  refine h.modify ?_ ?_
  · intro e he hstage
    exact ⟨fun hlt => absurd hlt (Nat.lt_irrefl count), fun _ => hf e he (hstage.here rfl),
      fun hlt => absurd hlt (Nat.lt_irrefl count)⟩
  · intro i e hi hstage
    exact ⟨hstage.before, fun heq => absurd heq hi, hstage.after⟩

theorem Meets.edits_stage (h : ledger.Meets (Stage count C)) (hC : ∀ e, C e → C e.drop)
    (hlt : count < ledger.length) (edits : List BreakpointList.Edit) :
    (ledger.replay (edits.map .edit)).Meets (Stage count C) := by
  refine h.edits ?_ ?_ edits
  · intro i e he
    have hdrop : e.drop.Settled := ⟨fun _ => rfl, fun _ _ => rfl⟩
    exact ⟨fun _ => hdrop, fun hi => hC e (he.here hi),
      fun hi => ⟨(he.after hi).tested, (he.after hi).fired⟩⟩
  · intro i b hi
    exact ⟨fun hcount => by omega, fun hcount => by omega, fun _ => ⟨rfl, rfl⟩⟩

end Ledger

end Monitor

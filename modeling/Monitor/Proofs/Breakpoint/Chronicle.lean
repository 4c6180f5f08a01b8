import Monitor.Proofs.Breakpoint.Firing

namespace Monitor

open Attempt

structure Meeting where
  held : Bool
  fired : Bool
  deriving DecidableEq, Repr

/-- What a breakpoint has gone through from when it was added on. -/
structure Life where
  added : Breakpoint
  present : Breakpoint
  meetings : List Meeting := []
  ended : Bool := false

namespace Life

def start (b : Breakpoint) : Life :=
  { added := b, present := b }

/-- Goes on with what a scan, or a change outside of a scan, has done to a breakpoint. -/
def meet (life : Life) (e : Entry) : Life where
  added := life.added
  present := e.present
  meetings := life.meetings ++ e.tested.toList.map fun m =>
    { held := life.present.conditions.all (·.holds m), fired := e.fired }
  ended := e.gone

def heldCount (meetings : List Meeting) : Nat :=
  meetings.countP Meeting.held

/-- A breakpoint stays the same but for its conditions and its hits. It counts how often its
conditions have held, in 32 bits, and fires each time that its skip count divides that number; once
at most if it is to be gone after that. -/
structure Exact (life : Life) : Prop where
  fresh : life.added.hits = .zero
  same : life.present =
    { life.added with conditions := life.present.conditions, hits := life.present.hits }
  hits : life.present.hits.val = heldCount life.meetings % UInt32.size
  fired : ∀ k meeting, life.meetings[k]? = some meeting → (meeting.fired = true ↔
    meeting.held = true ∧ (life.added.options.skip = 0 ∨
      life.added.options.skip ∣ heldCount (life.meetings.take (k + 1)) % UInt32.size))
  once : life.added.options.once = true → life.meetings.countP Meeting.fired ≤ 1 ∧
    (life.ended = false → life.meetings.countP Meeting.fired = 0)

end Life

/-- The breakpoints of a list and those that have been in it, with their lives. -/
structure Chronicle where
  living : List Life := []
  past : List Life := []

namespace Chronicle

def tell (c : Chronicle) (trace : List Incident) : Chronicle :=
  let ledger := (Ledger.ofItems (c.living.map Life.present)).replay trace
  let lives := List.zipWith Life.meet (c.living ++ (Ledger.appended trace).map Life.start) ledger
  { living := lives.filter (!·.ended), past := c.past ++ lives.filter (·.ended) }

def ofEpisodes (episodes : List (List Incident)) : Chronicle :=
  episodes.foldl tell {}

end Chronicle

theorem Counter.val_next (n : Counter) : n.next.val = (n.val + 1) % UInt32.size := rfl

example : Counter.next ⟨4294967295, by decide⟩ = .zero := by decide

namespace Breakpoint

theorem value_test (m : Machine) (b : Breakpoint) : (b.test m).value =
    (b.conditions.all (·.holds m), { b with
      conditions := (Condition.testAll m b.conditions).value.2
      hits := if b.conditions.all (·.holds m) then b.hits.next else b.hits }) := by
  rw [test, Logged.value_bind, Logged.value_pure, Condition.testAll_fst]

theorem fires_iff {m : Machine} {b : Breakpoint} : b.fires m = true ↔
    b.conditions.all (·.holds m) = true ∧
      (b.options.skip = 0 ∨ b.options.skip ∣ b.hits.next.val) := by
  rw [fires, value_test, Bool.and_eq_true]
  refine and_congr_right fun hheld => ?_
  dsimp only
  rw [if_pos hheld, Options.firesAt, Bool.or_eq_true, beq_iff_eq, beq_iff_eq,
    Nat.dvd_iff_mod_eq_zero]

end Breakpoint

namespace Life

variable {life : Life} {e : Entry} {b : Breakpoint}

theorem exact_start (hb : b.hits = .zero) : (start b).Exact where
  fresh := hb
  same := rfl
  hits := congrArg Fin.val hb
  fired := nofun
  once := fun _ => ⟨Nat.zero_le 1, fun _ => rfl⟩

theorem meet_untested (htested : e.tested = none) (horiginal : e.original = life.present) :
    life.meet e = { life with ended := e.gone } := by
  rw [meet, Entry.present, htested, horiginal]
  simp

theorem meet_tested {m : Machine} (htested : e.tested = some m)
    (horiginal : e.original = life.present) : life.meet e =
      { life with
        present := (life.present.test m).value.2
        meetings := life.meetings ++ [⟨life.present.conditions.all (·.holds m), e.fired⟩]
        ended := e.gone } := by
  rw [meet, Entry.present, htested, horiginal]
  rfl

theorem heldCount_append (meetings : List Meeting) (meeting : Meeting) :
    heldCount (meetings ++ [meeting]) = heldCount meetings + if meeting.held then 1 else 0 := by
  rw [heldCount, List.countP_append, List.countP_singleton]
  rfl

theorem Exact.options (h : life.Exact) : life.present.options = life.added.options := by
  rw [h.same]

theorem Exact.same_test (h : life.Exact) (m : Machine) : (life.present.test m).value.2 =
    { life.added with
      conditions := (life.present.test m).value.2.conditions
      hits := (life.present.test m).value.2.hits } := by
  have hexpression : life.present.expression = life.added.expression := by rw [h.same]
  have hdeleted : life.present.deleted = life.added.deleted := by rw [h.same]
  rw [Breakpoint.value_test, hexpression, h.options, hdeleted]

theorem Exact.fired_last {m : Machine} (h : life.Exact) :
    life.present.fires m = true ↔ life.present.conditions.all (·.holds m) = true ∧
      (life.added.options.skip = 0 ∨ life.added.options.skip ∣ heldCount
        (life.meetings ++ [⟨life.present.conditions.all (·.holds m), e.fired⟩]) %
          UInt32.size) := by
  rw [Breakpoint.fires_iff, h.options, Counter.val_next, h.hits, Nat.mod_add_mod]
  refine and_congr_right fun hheld => ?_
  rw [heldCount_append, hheld]
  rfl

theorem Exact.meet (h : life.Exact) (hended : life.ended = false)
    (horiginal : e.original = life.present) (htimely : e.Timely)
    (honce : e.fired = true → e.original.options.once = true → e.gone = true) :
    (life.meet e).Exact := by
  rw [horiginal, h.options] at honce
  cases htested : e.tested with
  | none =>
    rw [meet_untested htested horiginal]
    exact ⟨h.fresh, h.same, h.hits, h.fired,
      fun ho => ⟨(h.once ho).1, fun _ => (h.once ho).2 hended⟩⟩
  | some m =>
    have hfired : e.fired = true ↔ life.present.fires m = true := by
      rw [Entry.Timely, htested, horiginal] at htimely
      simpa using htimely
    rw [meet_tested htested horiginal]
    refine ⟨h.fresh, h.same_test m, ?_, fun k meeting hk => ?_, fun ho => ?_⟩
    · dsimp only
      rw [heldCount_append, Breakpoint.value_test]
      dsimp only
      split
      · rw [Counter.val_next, h.hits, Nat.mod_add_mod]
      · exact h.hits
    -- The meetings up to an earlier one are the same as before.
    · dsimp only at hk ⊢
      rcases Nat.lt_or_ge k life.meetings.length with hlt | hge
      · rw [List.getElem?_append_left hlt] at hk
        rw [List.take_append_of_le_length hlt]
        exact h.fired k meeting hk
      · rw [List.getElem?_append_right hge] at hk
        cases List.mem_singleton.1 (List.mem_of_getElem? hk)
        have hlength : (life.meetings ++
            [(⟨life.present.conditions.all (·.holds m), e.fired⟩ : Meeting)]).length ≤ k + 1 := by
          rw [List.length_append, List.length_singleton]
          exact Nat.succ_le_succ hge
        rw [List.take_of_length_le hlength]
        exact hfired.trans h.fired_last
    · dsimp only
      rw [List.countP_append, List.countP_singleton, (h.once ho).2 hended, Nat.zero_add]
      dsimp only
      cases hf : e.fired with
      | false => exact ⟨Nat.zero_le 1, fun _ => rfl⟩
      | true =>
        rw [honce hf ho]
        exact ⟨Nat.le_refl 1, fun h => absurd h.symm Bool.false_ne_true⟩

end Life

namespace Chronicle

structure Exact (c : Chronicle) : Prop where
  living : ∀ life ∈ c.living, life.Exact ∧ life.ended = false
  past : ∀ life ∈ c.past, life.Exact ∧ life.ended = true

variable {lives : List Life} {ledger : Ledger} {c : Chronicle} {trace : List Incident}
  {items : List Breakpoint}

theorem survivors_zipWith (h : lives.map Life.present = ledger.map Entry.original) :
    ledger.survivors =
      ((List.zipWith Life.meet lives ledger).filter (!·.ended)).map Life.present := by
  induction lives generalizing ledger with
  | nil =>
    cases ledger with
    | nil => rfl
    | cons e ledger => cases h
  | cons life lives ih =>
    cases ledger with
    | nil => cases h
    | cons e ledger =>
      have hmore := ih (List.cons.inj h).2
      rw [Ledger.survivors] at hmore ⊢
      rw [List.zipWith_cons_cons, List.filter_cons, List.filter_cons]
      cases hgone : e.gone with
      | true => simpa [Life.meet, hgone] using hmore
      | false => simpa [Life.meet, hgone] using hmore

theorem exists_of_mem_zipWith (h : lives.map Life.present = ledger.map Entry.original) :
    ∀ life' ∈ List.zipWith Life.meet lives ledger, ∃ life ∈ lives, ∃ e ∈ ledger,
      e.original = life.present ∧ life' = life.meet e := by
  induction lives generalizing ledger with
  | nil => exact fun life' hlife' => absurd hlife' List.not_mem_nil
  | cons life lives ih =>
    cases ledger with
    | nil => cases h
    | cons e ledger =>
      obtain ⟨hfirst, hmore⟩ := List.cons.inj h
      rw [List.zipWith_cons_cons, List.forall_mem_cons]
      refine ⟨⟨life, List.mem_cons_self .., e, List.mem_cons_self .., hfirst.symm, rfl⟩, ?_⟩
      intro life' hlife'
      obtain ⟨life, hlife, e, he, h⟩ := ih hmore life' hlife'
      exact ⟨life, List.mem_cons_of_mem _ hlife, e, List.mem_cons_of_mem _ he, h⟩

end Chronicle

structure Told (items : List Breakpoint) (trace : List Incident) (next : BreakpointList) :
    Prop where
  timely : ∀ e ∈ (Ledger.ofItems items).replay trace, e.Timely
  once : ∀ e ∈ (Ledger.ofItems items).replay trace, e.fired = true →
    e.original.options.once = true → e.gone = true
  fresh : ∀ b ∈ Ledger.appended trace, b.hits = .zero
  items : next.items = ((Ledger.ofItems items).replay trace).survivors

theorem Told.exact {c : Chronicle} {trace : List Incident} {next : BreakpointList}
    (h : Told (c.living.map Life.present) trace next) (hc : c.Exact) :
    next.items = (c.tell trace).living.map Life.present ∧ (c.tell trace).Exact := by
  have horiginals : (c.living ++ (Ledger.appended trace).map Life.start).map Life.present =
      ((Ledger.ofItems (c.living.map Life.present)).replay trace).map Entry.original := by
    rw [Ledger.map_original_replay, Ledger.map_original_ofItems, List.map_append, List.map_map]
    exact congrArg (_ ++ ·) (List.map_id _)
  have hexact : ∀ life ∈ List.zipWith Life.meet
      (c.living ++ (Ledger.appended trace).map Life.start)
      ((Ledger.ofItems (c.living.map Life.present)).replay trace), life.Exact := by
    intro life' hlife'
    obtain ⟨life, hlife, e, he, horiginal, rfl⟩ :=
      Chronicle.exists_of_mem_zipWith horiginals life' hlife'
    -- A life either goes on or starts in this episode.
    obtain ⟨hlife, hended⟩ : life.Exact ∧ life.ended = false := by
      rcases List.mem_append.1 hlife with hlife | hlife
      · exact hc.living life hlife
      · obtain ⟨b, hb, rfl⟩ := List.mem_map.1 hlife
        exact ⟨Life.exact_start (h.fresh b hb), rfl⟩
    exact hlife.meet hended horiginal (h.timely e he) (h.once e he)
  refine ⟨h.items.trans (Chronicle.survivors_zipWith horiginals), fun life hlife => ?_,
    fun life hlife => ?_⟩
  · obtain ⟨hmem, hended⟩ := List.mem_filter.1 hlife
    exact ⟨hexact life hmem, by simpa using hended⟩
  · rcases List.mem_append.1 hlife with hlife | hlife
    · exact hc.past life hlife
    · obtain ⟨hmem, hended⟩ := List.mem_filter.1 hlife
      exact ⟨hexact life hmem, hended⟩

/-- A list is changed outside of a scan, or scanned. -/
inductive Episode (p : Processor) : BreakpointList → List Incident → BreakpointList → Prop
  | edit {l next : BreakpointList} {edit : BreakpointList.Edit} (hidle : l.scanning = false)
      (h : l.Edited [edit] next) : Episode p l [.edit edit] next
  | scan {σ : Type} {handler : Handler σ} {scene next : Scene σ} {trace : List Incident}
      (hreach : scene.store.Reachable) (h : Scene.Traced handler p scene trace next) :
      Episode p (scene.list p) trace (next.list p)

/-- All that a list goes through, one episode after the other. -/
inductive Lived (p : Processor) : BreakpointList → List (List Incident) → BreakpointList → Prop
  | nil (l : BreakpointList) : Lived p l [] l
  | cons {l next last : BreakpointList} {trace : List Incident} {more : List (List Incident)}
      (h : Episode p l trace next) (hmore : Lived p next more last) : Lived p l (trace :: more) last

variable {p : Processor} {l next last : BreakpointList} {trace : List Incident}
  {episodes more : List (List Incident)}

theorem survivors_ofItems (items : List Breakpoint) :
    (Ledger.ofItems items).survivors = items := by
  induction items with
  | nil => rfl
  | cons b more ih => exact congrArg (b :: ·) ih

theorem survivors_remove (items : List Breakpoint) (place : Nat) :
    Ledger.survivors ((Ledger.ofItems items).modify place Entry.drop) = items.eraseIdx place := by
  induction items generalizing place with
  | nil =>
    rw [Ledger.ofItems, List.map_nil, List.modify_nil]
    rfl
  | cons b more ih =>
    cases place with
    | zero => exact survivors_ofItems more
    | succ place => exact congrArg (b :: ·) (ih place)

theorem survivors_clear (ledger : Ledger) : Ledger.survivors (ledger.map Entry.drop) = [] := by
  induction ledger with
  | nil => rfl
  | cons e more ih => exact ih

theorem fresh_of_edited {edit : BreakpointList.Edit} (h : l.Edited [edit] next) :
    ∀ b ∈ Ledger.appended [.edit edit], b.hits = .zero := by
  cases h with
  | append hadd hb hmore =>
    obtain ⟨parsed, _, rfl, rfl⟩ := BreakpointList.add_eq_ok.1 hadd
    cases hb.symm.trans (BreakpointList.get?_append_size _)
    rw [Ledger.appended, Ledger.appended, List.forall_mem_singleton]
    rfl
  | remove | clear => exact fun b hb => absurd hb List.not_mem_nil

theorem items_of_edited {edit : BreakpointList.Edit} (hidle : l.scanning = false)
    (h : l.Edited [edit] next) :
    next.items = ((Ledger.ofItems l.items).replay [.edit edit]).survivors := by
  cases h with
  | append hadd hb hmore =>
    obtain ⟨parsed, _, rfl, rfl⟩ := BreakpointList.add_eq_ok.1 hadd
    cases hb.symm.trans (BreakpointList.get?_append_size _)
    cases hmore
    have hledger (b : Breakpoint) : (Ledger.ofItems l.items).replay [.edit (.append b)] =
        Ledger.ofItems (l.items ++ [b]) := by
      rw [Ledger.ofItems, Ledger.ofItems, List.map_append]
      rfl
    rw [hledger, survivors_ofItems]
    rfl
  | remove hremove hmore =>
    obtain ⟨_, rfl⟩ := BreakpointList.remove_eq_ok.1 hremove
    cases hmore
    rw [BreakpointList.without, if_neg (Bool.eq_false_iff.1 hidle)]
    exact (survivors_remove l.items _).symm
  | clear hmore =>
    cases hmore
    rw [BreakpointList.value_removeAll, if_neg (Bool.eq_false_iff.1 hidle)]
    exact (survivors_clear _).symm

theorem told_edit {edit : BreakpointList.Edit} (hidle : l.scanning = false)
    (h : l.Edited [edit] next) : Told l.items [.edit edit] next := by
  have htimely := Scene.timely_edits (Scene.timely_ofItems l.items) [edit]
  have hunfired : ((Ledger.ofItems l.items).replay [.edit edit]).Meets
      fun _ e => e.fired = false := by
    refine Ledger.Meets.edits (fun i e he => ?_) (fun _ _ => id) (fun _ _ _ => rfl) [edit]
    obtain ⟨b, _, rfl⟩ := List.mem_map.1 (List.mem_of_getElem? he)
    rfl
  refine ⟨fun e he => ?_, fun e he hfired => ?_, fresh_of_edited h, items_of_edited hidle h⟩
  · obtain ⟨i, hi⟩ := List.getElem?_of_mem he
    exact htimely i e hi
  · obtain ⟨i, hi⟩ := List.getElem?_of_mem he
    exact absurd ((hunfired i e hi).symm.trans hfired) Bool.false_ne_true

theorem Scene.Traced.told {σ : Type} {handler : Handler σ} {scene next : Scene σ}
    (hreach : scene.store.Reachable) (h : Scene.Traced handler p scene trace next) :
    Told (scene.list p).items trace (next.list p) := by
  have haccounted := h.accounted hreach.clean
  refine ⟨(h.fired hreach.clean).1, fun e he hfired honce => ?_,
    Ledger.hits_of_appended haccounted.allowed, haccounted.survivors⟩
  obtain ⟨i, hi⟩ := List.getElem?_of_mem he
  rcases Nat.lt_or_ge i (scene.list p).items.length with hlt | hge
  · exact (haccounted.settled i e hi hlt).fired hfired honce
  · have huntouched := (haccounted.untouched i e hi hge).1
    exact absurd (huntouched.fired.symm.trans hfired) Bool.false_ne_true

theorem Episode.told (h : Episode p l trace next) : Told l.items trace next := by
  cases h with
  | edit hidle h => exact told_edit hidle h
  | scan hreach h => exact h.told hreach

theorem Lived.exact {c : Chronicle} (h : Lived p l episodes last)
    (hl : l.items = c.living.map Life.present) (hc : c.Exact) :
    last.items = (episodes.foldl Chronicle.tell c).living.map Life.present ∧
      (episodes.foldl Chronicle.tell c).Exact := by
  induction h generalizing c with
  | nil => exact ⟨hl, hc⟩
  | cons h _ ih =>
    have htold := h.told
    rw [hl] at htold
    obtain ⟨hnext, hexact⟩ := htold.exact hc
    exact ih hnext hexact

theorem Lived.trans (h : Lived p l episodes next) (hmore : Lived p next more last) :
    Lived p l (episodes ++ more) last := by
  induction h with
  | nil => exact hmore
  | cons h _ ih => exact .cons h (ih hmore)

theorem lived_edits {edits : List BreakpointList.Edit} (h : l.Edited edits next)
    (hidle : l.scanning = false) : Lived p l (edits.map fun edit => [.edit edit]) next := by
  induction h with
  | nil => exact .nil _
  | append hadd hb _ ih =>
    have hfirst := BreakpointList.Edited.append hadd hb (.nil _)
    exact .cons (.edit hidle hfirst) (ih (hfirst.scanning.trans hidle))
  | remove hremove _ ih =>
    have hfirst := BreakpointList.Edited.remove hremove (.nil _)
    exact .cons (.edit hidle hfirst) (ih (hfirst.scanning.trans hidle))
  | @clear l _ _ _ ih =>
    have hfirst := BreakpointList.Edited.clear (.nil l.removeAll.value)
    exact .cons (.edit hidle hfirst) (ih (hfirst.scanning.trans hidle))

/-- What happens from a store that can come up on is that a list is changed and scanned in turns. -/
def Store.Proceeds (p : Processor) (s t : Store) : Prop :=
  s.Reachable → (s.list p).scanning = false → t.Reachable ∧ (t.list p).scanning = false ∧
    ∃ episodes, Lived p (s.list p) episodes (t.list p)

namespace Store

variable {s t u : Store} {q : Processor}

theorem Proceeds.refl (s : Store) : Proceeds p s s :=
  fun hs hidle => ⟨hs, hidle, [], .nil _⟩

theorem Proceeds.trans (h : Proceeds p s t) (h' : Proceeds p t u) : Proceeds p s u := by
  intro hs hidle
  obtain ⟨ht, hidle', episodes, hlived⟩ := h hs hidle
  obtain ⟨hu, hidle'', more, hmore⟩ := h' ht hidle'
  exact ⟨hu, hidle'', episodes ++ more, hlived.trans hmore⟩

theorem Operates.proceeds (h : Operates s t) : Proceeds p s t := by
  intro hs hidle
  obtain ⟨q, hq⟩ := h.editedAt
  obtain ⟨edits, hedits⟩ := hq.edited p
  exact ⟨.evolve hs (.operate h), hedits.scanning.trans hidle, _, lived_edits hedits hidle⟩

theorem ScanStep.proceeds (h : ScanStep q s t) (hp : p ≠ q) : Proceeds p s t := by
  intro hs hidle
  rw [h.list_of_ne hp]
  exact ⟨.scanStep hs h, hidle, [], .nil _⟩

theorem Evolves.proceeds (h : Evolves s t) : Proceeds p s t := by
  induction h with
  | refl s => exact .refl s
  | trans _ _ ih ih' => exact ih.trans ih'
  | operate h => exact h.proceeds
  | scan handler q scene hreact ih =>
    by_cases hp : p = q
    · subst hp
      intro hs hidle
      obtain ⟨trace, htraced⟩ := Scene.exists_traced hreact hidle
      exact ⟨.evolve hs (.scan handler p scene hreact), (htraced.accounted hs.clean).idle, [trace],
        .cons (.scan hs htraced) (.nil _)⟩
    -- A scan of the other list leaves this one to its reactions.
    · exact Scene.scan_rel Proceeds.refl Proceeds.trans (fun h => h.proceeds hp) ih scene

end Store

/-- Breakpoints count their hits and fire exactly, whatever happens to their list and around it.
Each list that can come up is made by changes and scans in turns; whatever these are, the list has
those breakpoints of which the lives have not ended. A scan tells to stop if a breakpoint fires in
it that does not only trace, and never if it is refused. -/
theorem chronicle_exact (p : Processor) :
    (∀ s : Store, ({} : Store).Evolves s →
      ∃ episodes, Lived p { processor := p } episodes (s.list p)) ∧
    (∀ episodes l, Lived p { processor := p } episodes l →
      l.items = (Chronicle.ofEpisodes episodes).living.map Life.present ∧
        (Chronicle.ofEpisodes episodes).Exact) ∧
    ∀ (σ : Type) (handler : Handler σ) (scene : Scene σ), scene.store.Reachable →
      ((scene.list p).scanning = true → (scene.scan handler p).value = (false, scene)) ∧
      ∀ trace next, Scene.Traced handler p scene trace next →
        next = (scene.scan handler p).value.2 ∧ ((scene.scan handler p).value.1 = true ↔
          ∃ e ∈ (Ledger.ofItems (scene.list p).items).replay trace,
            e.fired = true ∧ e.original.options.trace = false) := by
  refine ⟨fun s hs => ?_, fun episodes l h => ?_, fun σ handler scene hreach => ⟨fun h => ?_,
    fun trace next h => ⟨h.eq, ?_⟩⟩⟩
  · have hstart : ({} : Store).list p = { processor := p } := by cases p <;> rfl
    have hidle : (({} : Store).list p).scanning = false := by rw [hstart]
    obtain ⟨-, -, episodes, hlived⟩ := hs.proceeds .initial hidle
    rw [hstart] at hlived
    exact ⟨episodes, hlived⟩
  · exact h.exact (c := {}) rfl ⟨List.forall_mem_nil _, List.forall_mem_nil _⟩
  · exact Prod.ext (Scene.verdict_of_scanning h) (Scene.scan_of_scanning h)
  · rw [(h.fired hreach.clean).2, Ledger.stops, List.any_eq_true]
    refine exists_congr fun e => and_congr_right fun _ => ?_
    rw [Entry.stops, Bool.and_eq_true, Bool.not_eq_true']

def idleHandler : Handler Unit := fun _ scene => return scene

def skippingList : BreakpointList :=
  BreakpointList.append { processor := .cpu }
    (BreakpointList.newItem (.ofRam 16) { skip := 2 } Scene.startCondition)

def skippingScene : Nat → Scene Unit
  | 0 => ⟨{ cpu := skippingList }, .ofRam 16, ()⟩
  | count + 1 => ((skippingScene count).scan idleHandler .cpu).value.2

theorem evolves_skippingScene (count : Nat) :
    ({} : Store).Evolves (skippingScene count).store := by
  induction count with
  | zero =>
    have hparse : result (Condition.parse ⟨.ofRam 16, .cpu, .decimal⟩ "VBL = 0") =
        .ok Scene.startCondition := by
      decide +kernel
    have hadd : result (({ processor := .cpu } : BreakpointList).add "VBL = 0" { skip := 2 }
        (.ofRam 16) .decimal) = .ok (1, skippingList) :=
      BreakpointList.add_eq_ok.2 ⟨Scene.startCondition, hparse, rfl, rfl⟩
    have hstore : result (Store.add {} .cpu "VBL = 0" { skip := 2 } (.ofRam 16) .decimal) =
        .ok (1, (skippingScene 0).store) := Store.add_eq_ok.2 ⟨skippingList, hadd, rfl⟩
    exact .operate (.add hstore)
  | succ count ih =>
    exact ih.trans (.scan idleHandler .cpu (skippingScene count) fun _ scene => .refl scene.store)

theorem chronicle_exact_skipping :
    (∃ episodes life,
      Lived .cpu { processor := .cpu } episodes ((skippingScene 4).store.list .cpu) ∧
        (Chronicle.ofEpisodes episodes).living = [life] ∧ life.present.hits.val = 4 ∧
          life.Exact) ∧
    ∃ trace, Scene.Traced idleHandler .cpu (skippingScene 3) trace (skippingScene 4) ∧
      ∃ e ∈ (Ledger.ofItems ((skippingScene 3).list .cpu).items).replay trace,
        e.fired = true ∧ e.original.options.trace = false := by
  obtain ⟨hlived, hexact, hscan⟩ := chronicle_exact .cpu
  constructor
  · obtain ⟨episodes, h⟩ := hlived _ (evolves_skippingScene 4)
    obtain ⟨hitems, hlives⟩ := hexact episodes _ h
    have hhits : ((skippingScene 4).store.list .cpu).items.map (·.hits.val) = [4] := by
      decide +kernel
    rw [hitems, List.map_map] at hhits
    obtain ⟨life, hliving, hlife⟩ := List.map_eq_singleton_iff.1 hhits
    have hself := (hlives.living life (hliving ▸ List.mem_singleton_self life)).1
    exact ⟨episodes, life, h, hliving, hlife, hself⟩
  · have hreach : (skippingScene 3).store.Reachable := .evolve .initial (evolves_skippingScene 3)
    have hidle : ((skippingScene 3).list .cpu).scanning = false := by decide +kernel
    have hverdict : ((skippingScene 3).scan idleHandler .cpu).value.1 = true := by decide +kernel
    have hreact (r : Reaction) (scene : Scene Unit) :
        scene.store.Evolves (idleHandler r scene).value.store := .refl scene.store
    obtain ⟨trace, htraced⟩ := Scene.exists_traced hreact hidle
    exact ⟨trace, htraced, (((hscan Unit idleHandler _ hreach).2 trace _ htraced).2).1 hverdict⟩

end Monitor

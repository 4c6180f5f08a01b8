import Mathlib.Algebra.Ring.Nat
import Mathlib.Order.Bounds.Basic
import Monitor.Proofs.Breakpoint.Accounting

namespace Monitor

open Attempt

namespace BreakpointList

variable {l next : BreakpointList} {index : Nat} {n room : Nat}

/-- The room that a list has when so many breakpoints are the most that it ever had. -/
def IsRoomFor (n room : Nat) : Prop :=
  (n = 0 → room = 0) ∧ (0 < n → IsLeast {room | n < room ∧ ∃ k, room = 16 * 2 ^ k} room)

/-- A list is given another size: it makes room for one more breakpoint, or keeps the room it has.
-/
inductive Resizes (l next : BreakpointList) : Prop
  | grow (hsize : next.size = l.size + 1) (hroom : next.capacity = l.nextCapacity)
  | keep (hsize : next.size ≤ l.size) (hroom : next.capacity = l.capacity)

theorem resizes_refl (l : BreakpointList) : l.Resizes l :=
  .keep (Nat.le_refl _) rfl

theorem resizes_append (b : Breakpoint) : l.Resizes (l.append b) :=
  .grow (size_append b) rfl

theorem resizes_without (l : BreakpointList) (index : Nat) : l.Resizes (l.without index) := by
  rw [without]
  split
  · exact .keep (Nat.le_of_eq (List.length_modify _ _ _)) rfl
  · exact .keep (List.eraseIdx_sublist ..).length_le rfl

theorem resizes_removeAll (l : BreakpointList) : l.Resizes l.removeAll.value := by
  rw [value_removeAll]
  refine .keep ?_ rfl
  rw [size]
  dsimp only
  split
  · exact Nat.le_of_eq (List.length_map ..)
  · exact Nat.zero_le _

theorem resizes_discard (l : BreakpointList) (index : Nat) :
    l.Resizes (l.discard index).value := by
  rw [value_discard]
  split
  · rename_i next h
    obtain ⟨_, rfl⟩ := remove_eq_ok.1 h
    exact resizes_without l index
  · exact resizes_refl l

theorem resizes_sweep (l : BreakpointList) : l.Resizes { l with scanning := false }.sweep.value := by
  rw [value_sweep rfl]
  exact .keep (List.length_filter_le ..) rfl

structure Fits (l : BreakpointList) (n : Nat) : Prop where
  size_le : l.size ≤ n
  room : IsRoomFor n l.capacity

theorem isLeast_double {k : Nat} :
    IsLeast {room | 16 * 2 ^ k < room ∧ ∃ j, room = 16 * 2 ^ j} (2 * (16 * 2 ^ k)) := by
  refine ⟨⟨?_, k + 1, ?_⟩, ?_⟩
  · have := Nat.two_pow_pos k
    omega
  · rw [Nat.pow_succ]
    omega
  · rintro room ⟨hlt, j, rfl⟩
    have hk : k < j := (Nat.pow_lt_pow_iff_right (by decide)).1 (Nat.lt_of_mul_lt_mul_left hlt)
    have hpow : 2 ^ (k + 1) ≤ 2 ^ j := Nat.pow_le_pow_right (by decide) hk
    rw [Nat.pow_succ] at hpow
    omega

theorem fits_unused (hsize : l.size = 0) (hroom : l.capacity = 0) : l.Fits 0 where
  size_le := Nat.le_of_eq hsize
  room := ⟨fun _ => hroom, fun h => absurd h (Nat.lt_irrefl 0)⟩

theorem fits_first (hsize : next.size = 1) (hroom : next.capacity = 16) : next.Fits 1 where
  size_le := Nat.le_of_eq hsize
  room := by
    rw [hroom]
    refine ⟨fun h => absurd h Nat.one_ne_zero, fun _ => ⟨⟨by decide, 0, rfl⟩, ?_⟩⟩
    rintro room ⟨-, k, rfl⟩
    exact Nat.le_mul_of_pos_right 16 (Nat.two_pow_pos k)

theorem Fits.grow (h : l.Fits n) (hsize : next.size = l.size + 1)
    (hroom : next.capacity = l.nextCapacity) : next.Fits (max n next.size) := by
  obtain ⟨hle, hnone, hsome⟩ := h
  rw [nextCapacity] at hroom
  rcases Nat.eq_zero_or_pos n with rfl | hpos
  · have hempty : l.size = 0 := Nat.le_zero.1 hle
    rw [hnone rfl, if_pos (Nat.zero_le _), if_pos rfl] at hroom
    rw [hempty] at hsize
    rw [hsize]
    exact fits_first hsize hroom
  · obtain ⟨⟨hlt, k, hk⟩, hleast⟩ := hsome hpos
    have hnonzero : l.capacity ≠ 0 := by omega
    rw [if_neg hnonzero] at hroom
    split at hroom
    -- All room but one place has been taken, so the list never had more breakpoints than now.
    · have hfull : max n next.size = l.capacity := by omega
      rw [hfull]
      refine ⟨by omega, fun hzero => absurd hzero hnonzero, fun _ => ?_⟩
      rw [hroom, hk]
      exact isLeast_double
    · refine ⟨Nat.le_max_right _ _, by omega, fun _ => ?_⟩
      rw [hroom]
      refine ⟨⟨by omega, k, hk⟩, ?_⟩
      rintro room ⟨hroom, hform⟩
      exact hleast ⟨Nat.lt_of_le_of_lt (Nat.le_max_left _ _) hroom, hform⟩

theorem Fits.resizes (h : l.Fits n) (hresizes : l.Resizes next) :
    next.Fits (max n next.size) := by
  cases hresizes with
  | grow hsize hroom => exact h.grow hsize hroom
  | keep hsize hroom =>
    have hle : next.size ≤ n := Nat.le_trans hsize h.size_le
    rw [Nat.max_eq_left hle]
    refine ⟨hle, ?_⟩
    rw [hroom]
    exact h.room

end BreakpointList

namespace Store

variable {s t u : Store} {p q : Processor} {stores more : List Store} {n : Nat}

theorem resizes_setList {l : BreakpointList} (h : (s.list q).Resizes l) (p : Processor) :
    (s.list p).Resizes ((s.setList l q).list p) := by
  by_cases hp : p = q
  · subst hp
    rw [list_setList_self]
    exact h
  · rw [list_setList_of_ne hp]
    exact BreakpointList.resizes_refl _

theorem resizes_add {text : String} {options : Breakpoint.Options} {m : Machine} {radix : Radix}
    {index : Nat} (h : result (s.add q text options m radix) = .ok (index, t)) (p : Processor) :
    (s.list p).Resizes (t.list p) := by
  obtain ⟨l, hadd, rfl⟩ := add_eq_ok.1 h
  obtain ⟨parsed, _, _, rfl⟩ := BreakpointList.add_eq_ok.1 hadd
  exact resizes_setList (BreakpointList.resizes_append _) p

theorem resizes_remove {index : Nat} (h : result (s.remove q index) = .ok t) (p : Processor) :
    (s.list p).Resizes (t.list p) := by
  obtain ⟨l, hremove, rfl⟩ := remove_eq_ok.1 h
  obtain ⟨_, rfl⟩ := BreakpointList.remove_eq_ok.1 hremove
  exact resizes_setList (BreakpointList.resizes_without _ index) p

theorem resizes_removeAll (s : Store) (q p : Processor) :
    (s.list p).Resizes ((s.removeAll q).value.list p) :=
  resizes_setList (BreakpointList.resizes_removeAll _) p

theorem resizes_command {args : Option String} {context : Context} {text : String}
    (h : result (s.command q args context) = .ok (text, t)) (p : Processor) :
    (s.list p).Resizes (t.list p) := by
  obtain rfl | rfl | ⟨_, hremove⟩ | ⟨_, _, _, hadd⟩ := command_cases h
  · exact BreakpointList.resizes_refl _
  · exact resizes_removeAll s q p
  · exact resizes_remove hremove p
  · exact resizes_add hadd p

theorem Operates.resizes (h : Operates s t) (p : Processor) : (s.list p).Resizes (t.list p) := by
  cases h with
  | add h => exact resizes_add h p
  | command h => exact resizes_command h p
  | addressCommand h =>
    obtain ⟨_, _, hcommand⟩ := command_of_addressCommand h
    exact resizes_command hcommand p
  | remove h => exact resizes_remove h p
  | removeAll => exact resizes_removeAll s _ p
  | fail h =>
    rw [h.eq]
    exact BreakpointList.resizes_refl _

theorem ScanStep.resizes (h : ScanStep q s t) (p : Processor) :
    (s.list p).Resizes (t.list p) := by
  cases h with
  | begin =>
    have hlist : (s.list q).Resizes { s.list q with scanning := true } :=
      .keep (Nat.le_refl _) rfl
    exact resizes_setList hlist p
  | @test index b _ m =>
    have hlist : (s.list q).Resizes { s.list q with
        items := (s.list q).items.set (index - 1) (b.test m).value.2 } :=
      .keep (Nat.le_of_eq List.length_set) rfl
    exact resizes_setList hlist p
  | retire => exact resizes_setList (BreakpointList.resizes_discard _ _) p
  | finish => exact resizes_setList (BreakpointList.resizes_sweep _) p

/-- The most breakpoints that a processor has in some stores, with those that are only marked. -/
def longest (p : Processor) (stores : List Store) : Nat :=
  stores.foldr (fun s n => max (s.list p).size n) 0

inductive Path (R : Store → Store → Prop) : Store → List Store → Store → Prop
  | nil (s : Store) : Path R s [] s
  | cons {s t u : Store} {stores : List Store} (h : R s t) (hmore : Path R t stores u) :
      Path R s (t :: stores) u

section Path

variable {R S : Store → Store → Prop}

theorem Path.single (h : R s t) : Path R s [t] t :=
  .cons h (.nil t)

theorem Path.append (h : Path R s stores t) (hmore : Path R t more u) :
    Path R s (stores ++ more) u := by
  induction h with
  | nil => exact hmore
  | cons h _ ih => exact .cons h (ih hmore)

theorem Path.before {before after : List Store} (h : Path R s (before ++ t :: after) u) :
    Path R s (before ++ [t]) t := by
  induction before generalizing s with
  | nil =>
    cases h with
    | cons h _ => exact .single h
  | cons first before ih =>
    cases h with
    | cons h hmore => exact .cons h (ih hmore)

end Path

theorem Path.fits (h : Path (fun s t => (s.list p).Resizes (t.list p)) s stores t)
    (hs : (s.list p).Fits n) : (t.list p).Fits (max n (longest p stores)) := by
  induction h generalizing n with
  | nil =>
    rw [longest, List.foldr_nil, Nat.max_zero]
    exact hs
  | cons h _ ih =>
    rw [longest, List.foldr_cons, ← Nat.max_assoc]
    exact ih (hs.resizes h)

end Store

namespace Scene

variable {σ : Type} (handler : Handler σ) (through : Reaction → Scene σ → List Store)
  (p : Processor)

def storesOfReactions : List Reaction → Scene σ → List Store
  | [], _ => []
  | r :: more, scene => through r scene ++ storesOfReactions more (handler r scene).value

def storesAt (index : Nat) (scene : Scene σ) : List Store :=
  match (scene.list p).get? index with
  | none => []
  | some b =>
    if b.deleted then []
    else
      let tested := scene.tested p index b
      let b' := (b.test scene.machine).value.2
      if b.fires scene.machine then
        tested.store :: storesOfReactions handler through (b'.options.reactions p index) tested ++
          [(retire p index b' (scene.fired handler p index b)).value.store]
      else [tested.store]

def storesFrom (last : Nat) : Nat → Scene σ → List Store
  | 0, _ => []
  | left + 1, scene => storesAt handler through p (last - left) scene ++
      storesFrom last left (scanAt handler p (last - left) scene).value.2

/-- The stores that come up in a scan, with those of its reactions. -/
def stores (scene : Scene σ) : List Store :=
  let l := scene.list p
  if l.scanning then []
  else
    let begun := scene.setList p { l with scanning := true }
    begun.store :: storesFrom handler through p l.size l.size begun ++
      [(scan handler p scene).value.2.store]

section Path

variable {handler through p} {R : Store → Store → Prop} {scene : Scene σ}
  (hrefl : ∀ s, R s s) (hstep : ∀ {s t}, Store.ScanStep p s t → R s t)
  (hreact : ∀ r scene, Store.Path R scene.store (through r scene) (handler r scene).value.store)

include hreact in
theorem path_reactions (rs : List Reaction) (scene : Scene σ) :
    Store.Path R scene.store (storesOfReactions handler through rs scene)
      (react handler rs scene).value.store := by
  induction rs generalizing scene with
  | nil => exact .nil scene.store
  | cons r more ih => exact (hreact r scene).append (ih (handler r scene).value)

include hrefl hstep

theorem path_retire (index : Nat) (b : Breakpoint) (scene : Scene σ) :
    R scene.store (retire p index b scene).value.store := by
  rw [retire]
  split
  · exact hstep (.retire scene.store index)
  · exact hrefl scene.store

include hreact

theorem path_scanAt (index : Nat) (scene : Scene σ) :
    Store.Path R scene.store (storesAt handler through p index scene)
      (scanAt handler p index scene).value.2.store := by
  rw [storesAt]
  cases hget : (scene.list p).get? index with
  | none =>
    rw [scanAt_of_none hget]
    exact .nil scene.store
  | some b =>
    dsimp only
    split
    · rename_i hb
      rw [scanAt_of_deleted hget hb]
      exact .nil scene.store
    · rename_i hb
      have hlive := Bool.eq_false_iff.2 hb
      have htest : R scene.store (scene.tested p index b).store := hstep (.test hget scene.machine)
      split
      · rename_i hfires
        rw [scanAt_of_fires hget hlive hfires]
        have hreactions := path_reactions hreact
          ((b.test scene.machine).value.2.options.reactions p index) (scene.tested p index b)
        have hretire := path_retire hrefl hstep index (b.test scene.machine).value.2
          (scene.fired handler p index b)
        exact (Store.Path.cons htest hreactions).append (.single hretire)
      · rename_i hfires
        rw [scanAt_of_not_fires hget hlive (Bool.eq_false_iff.2 hfires)]
        exact .single htest

theorem path_scanFrom (last left : Nat) (scene : Scene σ) :
    Store.Path R scene.store (storesFrom handler through p last left scene)
      (scanFrom handler p last left scene).value.2.store := by
  induction left generalizing scene with
  | zero => exact .nil scene.store
  | succ left ih =>
    exact (path_scanAt hrefl hstep hreact (last - left) scene).append
      (ih (scanAt handler p (last - left) scene).value.2)

/-- A scan goes from store to store by its own steps and by those of its reactions. -/
theorem path_scan (scene : Scene σ) :
    Store.Path R scene.store (scene.stores handler through p)
      (scan handler p scene).value.2.store := by
  rw [stores]
  dsimp only
  split
  · rename_i h
    rw [scan_of_scanning h]
    exact .nil scene.store
  · rename_i h
    have hidle := Bool.eq_false_iff.2 h
    have hbegin := hstep (.begin hidle)
    have hloop := path_scanFrom hrefl hstep hreact (scene.list p).size (scene.list p).size
      (scene.setList p { scene.list p with scanning := true })
    have hfinish : R (scanFrom handler p (scene.list p).size (scene.list p).size
        (scene.setList p { scene.list p with scanning := true })).value.2.store
        (scan handler p scene).value.2.store := by
      rw [value_scan hidle]
      exact hstep (.finish _)
    exact (Store.Path.cons hbegin hloop).append (.single hfinish)

end Path

end Scene

namespace Store

variable {s t u : Store} {stores : List Store}

/-- A store is changed by its operations and by scans, and these stores come up meanwhile, one after
the other, also in the middle of a scan. -/
inductive Passes : Store → List Store → Store → Prop
  | refl (s : Store) : Passes s [] s
  | trans {s t u : Store} {stores more : List Store} (h : Passes s stores t)
      (h' : Passes t more u) : Passes s (stores ++ more) u
  | operate {s t : Store} (h : Operates s t) : Passes s [t] t
  | scan {σ : Type} (handler : Handler σ) (p : Processor) (scene : Scene σ)
      (through : Reaction → Scene σ → List Store)
      (hreact : ∀ r scene, Passes scene.store (through r scene) (handler r scene).value.store) :
      Passes scene.store (scene.stores handler through p) (scene.scan handler p).value.2.store

theorem Passes.evolves (h : s.Passes stores t) : s.Evolves t := by
  induction h with
  | refl s => exact .refl s
  | trans _ _ ih ih' => exact ih.trans ih'
  | operate h => exact .operate h
  | scan handler p scene _ _ ih => exact .scan handler p scene ih

theorem Evolves.passes (h : s.Evolves t) : ∃ stores, s.Passes stores t := by
  induction h with
  | refl s => exact ⟨[], .refl s⟩
  | trans _ _ ih ih' =>
    obtain ⟨stores, h⟩ := ih
    obtain ⟨more, h'⟩ := ih'
    exact ⟨stores ++ more, h.trans h'⟩
  | operate h => exact ⟨[_], .operate h⟩
  | scan handler p scene _ ih =>
    choose through hreact using ih
    exact ⟨scene.stores handler through p, .scan handler p scene through hreact⟩

theorem Passes.resizes (h : s.Passes stores t) (p : Processor) :
    Path (fun s t => (s.list p).Resizes (t.list p)) s stores t := by
  induction h with
  | refl s => exact .nil s
  | trans _ _ ih ih' => exact ih.append ih'
  | operate h => exact .single (h.resizes p)
  | scan handler q scene through _ ih =>
    exact Scene.path_scan (fun s => BreakpointList.resizes_refl (s.list p))
      (fun h => h.resizes p) ih scene

/-- However a store has changed, the most breakpoints that a processor had in any of the stores that
came up tell the room in its list, now and at each moment before. -/
theorem capacity_of_longest (p : Processor) :
    (∀ s t : Store, s.Evolves t ↔ ∃ stores, s.Passes stores t) ∧
      ∀ stores s, ({} : Store).Passes stores s →
        BreakpointList.IsRoomFor (longest p stores) (s.list p).capacity ∧
        ∀ before t after, stores = before ++ t :: after →
          BreakpointList.IsRoomFor (longest p (before ++ [t])) (t.list p).capacity := by
  have hinitial : (({} : Store).list p).Fits 0 := by
    cases p <;> exact BreakpointList.fits_unused rfl rfl
  refine ⟨fun s t => ⟨fun h => h.passes, fun h => h.elim fun _ h => h.evolves⟩, fun stores s h => ?_⟩
  have hpath := h.resizes p
  have hroom {stores : List Store} {s : Store}
      (h : Path (fun s t => (s.list p).Resizes (t.list p)) {} stores s) :
      BreakpointList.IsRoomFor (longest p stores) (s.list p).capacity := by
    have hfits := h.fits hinitial
    rw [Nat.zero_max] at hfits
    exact hfits.room
  refine ⟨hroom hpath, fun before t after hstores => ?_⟩
  subst hstores
  exact hroom hpath.before

def settingStores (scene : Scene Unit) : List Store :=
  match result (scene.store.add .cpu "VBL = 1" {} scene.machine .decimal) with
  | .ok (_, store) => [store]
  | .error f => [f.left]

theorem passes_settingHandler (r : Reaction) (scene : Scene Unit) :
    scene.store.Passes (settingStores scene) (Scene.settingHandler r scene).value.store := by
  unfold settingStores Scene.settingHandler
  cases h : result (scene.store.add .cpu "VBL = 1" {} scene.machine .decimal) with
  | ok next => exact .operate (.add h)
  | error f => exact .operate (.fail (.add h))

def onceLists : Nat → BreakpointList
  | 0 => { processor := .cpu }
  | n + 1 => (onceLists n).append
      (BreakpointList.newItem (.ofRam 16) { once := true } Scene.startCondition)

theorem processor_onceLists (n : Nat) : (onceLists n).processor = .cpu := by
  induction n with
  | zero => rfl
  | succ n ih => exact ih

theorem passes_onceLists (n : Nat) :
    ({} : Store).Passes ((List.range n).map fun k => { cpu := onceLists (k + 1) })
      { cpu := onceLists n } := by
  induction n with
  | zero => exact .refl {}
  | succ n ih =>
    have hparse : result (Condition.parse ⟨.ofRam 16, .cpu, .decimal⟩ "VBL = 0") =
        .ok Scene.startCondition := by
      decide +kernel
    have hlist : result ((onceLists n).add "VBL = 0" { once := true } (.ofRam 16) .decimal) =
        .ok ((onceLists n).size + 1, onceLists (n + 1)) :=
      BreakpointList.add_eq_ok.2
        ⟨Scene.startCondition, by rw [processor_onceLists]; exact hparse, rfl, rfl⟩
    have hstore : result (Store.add { cpu := onceLists n } .cpu "VBL = 0" { once := true }
        (.ofRam 16) .decimal) = .ok ((onceLists n).size + 1, { cpu := onceLists (n + 1) }) :=
      Store.add_eq_ok.2 ⟨onceLists (n + 1), hlist, rfl⟩
    rw [List.range_succ, List.map_append]
    exact ih.trans (.operate (.add hstore))

def crowdedScene : Scene Unit :=
  ⟨{ cpu := onceLists 8 }, .ofRam 16, ()⟩

def crowdedStores : List Store :=
  ((List.range 8).map fun k => { cpu := onceLists (k + 1) }) ++
    crowdedScene.stores Scene.settingHandler (fun _ => settingStores) .cpu

theorem passes_crowdedScene : ({} : Store).Passes crowdedStores
    (crowdedScene.scan Scene.settingHandler .cpu).value.2.store :=
  (passes_onceLists 8).trans
    (.scan Scene.settingHandler .cpu crowdedScene (fun _ => settingStores) passes_settingHandler)

/-- The last but one of the new breakpoints still finds room, and the last one does not. -/
theorem capacity_of_longest_crowdedScene :
    (∃ stores, ({} : Store).Passes stores
      (crowdedScene.scan Scene.settingHandler .cpu).value.2.store) ∧
    longest .cpu crowdedStores = 16 ∧
    IsLeast {room | 16 < room ∧ ∃ k, room = 16 * 2 ^ k}
      ((crowdedScene.scan Scene.settingHandler .cpu).value.2.list .cpu).capacity ∧
    ∃ before t after, crowdedStores = before ++ t :: after ∧
      longest .cpu (before ++ [t]) = 15 ∧ (t.list .cpu).scanning = true ∧
      IsLeast {room | 15 < room ∧ ∃ k, room = 16 * 2 ^ k} (t.list .cpu).capacity := by
  obtain ⟨hpasses, hroom⟩ := capacity_of_longest .cpu
  obtain ⟨hlast, hbefore⟩ := hroom _ _ passes_crowdedScene
  have hlongest : longest .cpu crowdedStores = 16 := by decide +kernel
  have hmoment : (crowdedStores.drop 28).head?.any (fun t =>
      decide (longest .cpu (crowdedStores.take 28 ++ [t]) = 15) && (t.list .cpu).scanning) =
        true := by
    decide +kernel
  obtain ⟨t, ht, hthen⟩ := (Option.any_eq_true ..).1 hmoment
  obtain ⟨after, hafter⟩ := List.head?_eq_some_iff.1 ht
  rw [Bool.and_eq_true, decide_eq_true_eq] at hthen
  have hcut : crowdedStores = crowdedStores.take 28 ++ t :: after := by
    rw [← hafter, List.take_append_drop]
  have hleast := hlast.2
  have hleast' := (hbefore _ t after hcut).2
  rw [hlongest] at hleast
  rw [hthen.1] at hleast'
  exact ⟨(hpasses _ _).1 passes_crowdedScene.evolves, hlongest, hleast (by decide),
    _, t, after, hcut, hthen.1, hthen.2, hleast' (by decide)⟩

end Store

end Monitor

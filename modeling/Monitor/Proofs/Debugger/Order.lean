import Monitor.Proofs.Debugger.Workload

namespace Monitor

namespace Debugger

variable {d : Debugger} {p q : Processor}

theorem scanning_setList (d : Debugger) (l : BreakpointList) (p q : Processor) :
    ((d.setList q l).list p).scanning = if p = q then l.scanning else (d.list p).scanning := by
  by_cases hp : p = q
  · subst hp
    rw [Scene.list_setList_self, if_pos rfl]
  · rw [if_neg hp]
    exact congrArg BreakpointList.scanning (Store.list_setList_of_ne hp)

@[simp] theorem list_mapSession (f : Session → Session) (d : Debugger) (p : Processor) :
    (d.mapSession f).list p = d.list p := rfl

@[simp] theorem list_openFile (d : Debugger) (p : Processor) : d.openFile.list p = d.list p := rfl

@[simp] theorem list_closeFile (d : Debugger) (p : Processor) : d.closeFile.list p = d.list p := rfl

@[simp] theorem list_showOutput (d : Debugger) (p : Processor) :
    d.showOutput.list p = d.list p := rfl

@[simp] theorem fileDepth_openFile (d : Debugger) :
    d.openFile.session.fileDepth = d.session.fileDepth + 1 := rfl

@[simp] theorem fileDepth_closeFile (d : Debugger) :
    d.closeFile.session.fileDepth = d.session.fileDepth - 1 := rfl

@[simp] theorem fileDepth_showOutput (d : Debugger) :
    d.showOutput.session.fileDepth = d.session.fileDepth := rfl

@[simp] theorem session_enter (p : Processor) (d : Debugger) :
    (d.enter p).session = d.session := rfl

@[simp] theorem session_leave (p : Processor) (d : Debugger) :
    (d.leave p).session = d.session := rfl

@[simp] theorem scanning_enter (d : Debugger) (p q : Processor) :
    ((d.enter q).list p).scanning = if p = q then true else (d.list p).scanning :=
  scanning_setList ..

@[simp] theorem scanning_leave (d : Debugger) (p q : Processor) :
    ((d.leave q).list p).scanning = if p = q then false else (d.list p).scanning := by
  rw [leave, scanning_setList, BreakpointList.value_sweep rfl]

end Debugger

namespace Task

def count (a : Activity) (ts : List Task) : Nat :=
  ts.countP (·.activity = a)

@[simp] theorem count_cons (a b : Activity) (n : Nat) (ts : List Task) :
    count a (⟨b, n⟩ :: ts) = count a ts + if b = a then 1 else 0 := by
  simp [count, List.countP_cons]

theorem count_modifyHead_take (a : Activity) (ts : List Task) :
    count a (ts.modifyHead take) = count a ts := by
  cases ts with
  | nil => rfl
  | cons t ts => rw [List.modifyHead_cons, take, count_cons, count_cons]

end Task

theorem Moment.count_taken (m : Moment) (a : Activity) :
    Task.count a m.taken = Task.count a m.tasks := by
  rw [taken]
  split
  · exact Task.count_modifyHead_take a m.tasks
  · rfl

namespace Workload

open Debugger

variable {base : Debugger} {w w' : Workload}

/-- The file depth counts the command files that are under way, besides those that were open before,
and there is room for all of them. -/
structure Counted (base : Debugger) (w : Workload) : Prop where
  depth : w.debugger.session.fileDepth = base.session.fileDepth + Task.count .file w.tasks
  room : Task.count .file w.tasks ≤ maxFileDepth - base.session.fileDepth

theorem Change.counted (h : w.Change w') (hw : w.Counted base) : w'.Counted base := by
  obtain ⟨hdepth, hroom⟩ := hw
  cases h with
  | scan => exact ⟨hdepth, hroom⟩
  | touch ts h => exact ⟨h.fileDepth.trans hdepth, hroom⟩
  | react p n n' ts h => exact ⟨h.trans hdepth, hroom⟩
  | beginMatch | endMatch | beginScan | endScan =>
    exact ⟨by simpa using hdepth, by simpa using hroom⟩
  | beginFile ts hmore =>
    dsimp only at hdepth
    refine ⟨?_, ?_⟩
    · rw [fileDepth_openFile, hdepth, Task.count_cons, if_pos rfl, Nat.add_assoc]
    · rw [Task.count_cons, if_pos rfl]
      omega
  | endFile ts d =>
    rw [Task.count_cons, if_pos rfl] at hdepth hroom
    refine ⟨?_, Nat.le_of_succ_le hroom⟩
    rw [fileDepth_closeFile, hdepth, ← Nat.add_assoc, Nat.add_sub_cancel]

/-- A list is being scanned if a scan of it is under way, or was before. -/
def Exclusive (base : Debugger) (w : Workload) : Prop :=
  ∀ p, (w.debugger.list p).scanning.toNat =
    (base.list p).scanning.toNat + Task.count (.scan p) w.tasks

theorem Change.exclusive (h : w.Change w') (hw : w.Exclusive base) : w'.Exclusive base := by
  intro p
  have hp := hw p
  cases h with
  | react => exact hp
  | touch ts h =>
    rw [← hp]
    exact congrArg Bool.toNat (h.scanning p)
  | beginFile | endFile | beginMatch | endMatch => simpa using hp
  | @beginScan n ts d q h =>
    dsimp only at hp ⊢
    rw [scanning_enter, Task.count_cons]
    by_cases hpq : p = q
    · subst hpq
      rw [h] at hp
      simp at hp ⊢
      omega
    · simpa [hpq, Ne.symm hpq] using hp
  | endScan q n ts d =>
    dsimp only at hp ⊢
    rw [scanning_leave]
    by_cases hpq : p = q
    · subst hpq
      have hle := Bool.toNat_le (d.list p).scanning
      simp at hp ⊢
      omega
    · simpa [hpq, Ne.symm hpq] using hp
  | @scan q n n' ts d l h hscanning =>
    dsimp only at hp ⊢
    rw [scanning_setList, hscanning]
    by_cases hpq : p = q
    · subst hpq
      rw [if_pos rfl]
      exact hp
    · rw [if_neg hpq]
      exact hp

theorem Change.clean (h : w.Change w') (hw : w.debugger.store.Clean) :
    w'.debugger.store.Clean := by
  cases h with
  | beginFile | endFile | beginMatch | endMatch | react => exact hw
  | touch ts h => exact h.clean hw
  | beginScan n ts h => exact (Store.ScanStep.begin h).clean hw
  | endScan p n ts d => exact (Store.ScanStep.finish d.store).clean hw
  | scan p n n' ts h => exact h.clean hw

theorem Change.belongs {m : Machine} {settings : Settings} (h : w.Change w')
    (hw : w.debugger.Belongs m settings) : w'.debugger.Belongs m settings := by
  have hstep {p : Processor} {store : Store} (h : w.debugger.store.ScanStep p store) :
      Belongs m settings { w.debugger with store } :=
    ⟨hw.alike, hw.settings_eq, hw.reachable.scanStep h⟩
  cases h with
  | beginFile | endFile | beginMatch | endMatch | react =>
    exact ⟨hw.alike, hw.settings_eq, hw.reachable⟩
  | touch ts h => exact h.belongs hw
  | beginScan n ts h => exact hstep (.begin h)
  | endScan p n ts d => exact hstep (.finish d.store)
  | scan p n n' ts h => exact hstep h

def Shown (w : Workload) : Prop :=
  Task.count .matching w.tasks = 0 → w.debugger.session.output = ""

theorem Change.shown (h : w.Change w') (hw : w.Shown) : w'.Shown := by
  intro hnone
  cases h with
  | touch ts h => exact h.output.trans (hw hnone)
  | beginFile | endFile => exact hw (by simpa using hnone)
  | endMatch => rfl
  | beginMatch | beginScan | endScan | scan | react => simp at hnone

/-- What holds all the time while a call lasts that has found a debugger in a certain state. -/
structure Orderly (base : Debugger) (w : Workload) : Prop where
  counted : w.Counted base
  exclusive : w.Exclusive base
  clean : base.store.Clean → w.debugger.store.Clean
  belongs (m : Machine) (settings : Settings) :
    base.Belongs m settings → w.debugger.Belongs m settings
  shown : base.session.output = "" → w.Shown

theorem orderly_start (d : Debugger) : Orderly d ⟨[], d⟩ where
  counted := ⟨rfl, Nat.zero_le _⟩
  exclusive _ := rfl
  clean := id
  belongs _ _ := id
  shown h _ := h

theorem Change.orderly (h : w.Change w') (hw : w.Orderly base) : w'.Orderly base where
  counted := h.counted hw.counted
  exclusive := h.exclusive hw.exclusive
  clean hclean := h.clean (hw.clean hclean)
  belongs m settings hbase := h.belongs (hw.belongs m settings hbase)
  shown hshown := h.shown (hw.shown hshown)

theorem orderly_taken {m : Moment} (h : m.workload.Orderly base) :
    Orderly base ⟨m.taken, m.debugger⟩ where
  counted := by
    refine ⟨?_, ?_⟩
    · rw [m.count_taken]
      exact h.counted.depth
    · rw [m.count_taken]
      exact h.counted.room
  exclusive p := by
    rw [m.count_taken]
    exact h.exclusive p
  clean := h.clean
  belongs := h.belongs
  shown hshown := by
    intro hnone
    rw [m.count_taken] at hnone
    exact h.shown hshown hnone

theorem orderly_of_leads {m m' : Moment} (h : m.Leads m') (hm : m.workload.Orderly base) :
    m'.workload.Orderly base := by
  induction h with
  | refl => exact hm
  | tail _ hnext ih => exact (Moment.change_of_next hnext).orderly (orderly_taken ih)

end Workload

end Monitor

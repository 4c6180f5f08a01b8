import Monitor.Proofs.Breakpoint.Accounting
import Monitor.Proofs.Debugger.Failure

namespace Monitor.Debugger

open Attempt Revision

variable {α β ε : Type} {x : Execution α} {f : α → Execution β} {y : Action α}
  {g : α → Action β} {runFile : FileRunner}

/-- The breakpoints change only by operations of their store. -/
def EvolvesStore (y : Action α) : Prop :=
  ∀ d : Debugger, d.store.Evolves (y.run d).value.2.store

theorem EvolvesStore.bind (hy : EvolvesStore y) (hg : ∀ a, EvolvesStore (g a)) :
    EvolvesStore (y >>= g) :=
  fun d => (hy d).trans (hg (y.run d).value.1 (y.run d).value.2)

theorem evolvesStore_of_keeps (hx : Keeps x) : EvolvesStore x.run := by
  intro d
  have hd : (x.run.run d).value.2 = d := hx d
  rw [hd]
  exact .refl d.store

theorem EvolvesStore.bind_run (hx : EvolvesStore x.run) (hf : ∀ a, EvolvesStore (f a).run) :
    EvolvesStore (x >>= f).run := by
  rw [ExceptT.run_bind]
  refine hx.bind fun result => ?_
  cases result with
  | error e => exact fun d => .refl d.store
  | ok a => exact hf a

theorem evolvesStore_modify {change : Debugger → Debugger} (h : ∀ d, (change d).store = d.store) :
    EvolvesStore (modify change : Execution Unit).run := by
  intro d
  have hstore : ((modify change : Execution Unit).run.run d).value.2.store = d.store := h d
  rw [hstore]
  exact .refl d.store

theorem evolvesStore_pure (a : α) : EvolvesStore (pure a : Execution α).run :=
  evolvesStore_of_keeps (keeps_pure a)

theorem evolvesStore_revise {cause : ε → Command.Error} {x : Debugger → Revised Store ε α}
    (hok : ∀ d a store, result (x d) = .ok (a, store) → d.store.Operates store)
    (herror : ∀ d f, result (x d) = .error f → d.store.Fails f.left) :
    EvolvesStore (revise cause x).run := by
  intro d
  change d.store.Evolves (outcome _ d).2.store
  rw [outcome_revise]
  cases hresult : result (x d) with
  | error f => exact .operate (.fail (herror d f hresult))
  | ok next => exact .operate (hok d _ _ hresult)

theorem evolvesStore_changeBreakpoints (processor : Processor) (args : Option String) :
    EvolvesStore (changeBreakpoints processor args).run :=
  evolvesStore_revise (fun _ _ _ h => .command h) fun _ _ h => .command h

theorem evolvesStore_breakAt (processor : Processor) (args : Option String) :
    EvolvesStore (breakAt processor args).run := by
  cases args with
  | none => exact evolvesStore_pure _
  | some args =>
    exact EvolvesStore.bind_run (evolvesStore_revise (fun _ _ _ h => .addressCommand h)
      fun _ _ h => .addressCommand h) fun _ => evolvesStore_pure _

theorem evolvesStore_assign (processor : Processor) (name expression : String) :
    EvolvesStore (assign processor name expression).run := by
  refine (evolvesStore_of_keeps keeps_get).bind_run fun d => ?_
  cases (d.scope processor).register? name with
  | none => exact evolvesStore_of_keeps (keeps_throw _)
  | some r =>
    refine (evolvesStore_of_keeps (keeps_evaluate _ _)).bind_run fun _ => ?_
    exact evolvesStore_modify fun _ => rfl

theorem evolvesStore_write (address : String) (bytes : List String) :
    EvolvesStore (write address bytes).run := by
  refine (evolvesStore_of_keeps (keeps_evaluate _ _)).bind_run fun _ => ?_
  refine (evolvesStore_of_keeps (keeps_bytesOf bytes)).bind_run fun _ => ?_
  exact evolvesStore_modify fun _ => rfl

theorem evolvesStore_dump (range : Option String) : EvolvesStore (dump range).run := by
  refine (evolvesStore_of_keeps keeps_get).bind_run fun _ => ?_
  refine (evolvesStore_of_keeps (keeps_attempt _ _)).bind_run fun _ => ?_
  exact EvolvesStore.bind_run (evolvesStore_modify fun _ => rfl) fun _ => evolvesStore_pure _

theorem evolvesStore_save (path : String) : EvolvesStore (save path).run := by
  refine (evolvesStore_of_keeps keeps_get).bind_run fun _ => ?_
  refine (evolvesStore_of_keeps (keeps_log _)).bind_run fun _ => ?_
  refine (evolvesStore_of_keeps (keeps_attempt _ _)).bind_run fun _ => ?_
  exact evolvesStore_modify fun _ => rfl

theorem evolves_keep (result : Except Command.Error String) (d : Debugger) :
    d.store.Evolves (keep result d).value.store := by
  cases result with
  | ok text => exact .refl d.store
  | error e => exact .refl d.store

theorem evolves_react (hrun : ∀ path, EvolvesStore (runFile path).run) (r : Reaction)
    (d : Debugger) : d.store.Evolves (react runFile r d).value.store := by
  cases r with
  | run path resets =>
    have hkeep := (hrun path d).trans (evolves_keep ((runFile path).run.run d).value.1 _)
    cases resets with
    | false => exact hkeep
    | true => exact hkeep
  | remember processor index => exact .refl d.store
  | reset => exact .refl d.store
  | inform info => exact .refl d.store
  | informLocked => exact .refl d.store

theorem evolvesStore_scan (hrun : ∀ path, EvolvesStore (runFile path).run)
    (processor : Processor) : EvolvesStore (Scene.scan (react runFile) processor) :=
  fun d => .scan (react runFile) processor d (evolves_react hrun)

theorem evolvesStore_scanAll (hrun : ∀ path, EvolvesStore (runFile path).run) :
    EvolvesStore (scanAll runFile) := by
  have hshow (cpu dsp : Bool) : EvolvesStore (do
      let kept := (← get).session.output
      modify (mapSession fun s => { s with output := "" })
      return kept ++ verdict cpu dsp : Action String) :=
    fun d => .refl d.store
  refine (evolvesStore_scan hrun .cpu).bind fun cpu => ?_
  refine EvolvesStore.bind (fun d => .refl d.store) fun d => ?_
  by_cases hdsp : d.settings.dspEnabled = true
  · rw [if_pos hdsp]
    exact (evolvesStore_scan hrun .dsp).bind (hshow cpu)
  · rw [if_neg hdsp]
    exact hshow cpu false

theorem evolvesStore_execute (hrun : ∀ path, EvolvesStore (runFile path).run)
    (command : Command) : EvolvesStore (execute runFile command).run := by
  cases command with
  | breakpoint processor args => exact evolvesStore_changeBreakpoints processor args
  | address processor args => exact evolvesStore_breakAt processor args
  | evaluate processor expression =>
    exact (evolvesStore_of_keeps (keeps_evaluate _ _)).bind_run fun _ => evolvesStore_pure _
  | registers processor assignment =>
    cases assignment with
    | none => exact (evolvesStore_of_keeps keeps_get).bind_run fun _ => evolvesStore_pure _
    | some assignment =>
      exact (evolvesStore_assign processor _ _).bind_run fun _ => evolvesStore_pure _
  | write address bytes =>
    exact (evolvesStore_write address bytes).bind_run fun _ => evolvesStore_pure _
  | memory range => exact evolvesStore_dump range
  | scan => exact fun d => evolvesStore_scanAll hrun d
  | save path => exact (evolvesStore_save path).bind_run fun _ => evolvesStore_pure _
  | «variables» => exact (evolvesStore_of_keeps keeps_get).bind_run fun _ => evolvesStore_pure _
  | run path => exact hrun path
  | help => exact evolvesStore_pure _

theorem evolvesStore_executeIn (hrun : ∀ path, EvolvesStore (runFile path).run) (line : String) :
    EvolvesStore (executeIn runFile line).run := by
  unfold executeIn
  cases Command.read line with
  | error e => exact evolvesStore_of_keeps (keeps_throw e)
  | ok command? =>
    cases command? with
    | none => exact evolvesStore_pure _
    | some command => exact evolvesStore_execute hrun command

theorem evolvesStore_runLines (hrun : ∀ path, EvolvesStore (runFile path).run)
    (lines : List String) : EvolvesStore (runLines runFile lines) := by
  induction lines with
  | nil => exact fun d => .refl d.store
  | cons line more ih =>
    refine (evolvesStore_executeIn hrun line).bind fun result => ?_
    cases result with
    | ok text => exact ih.bind fun _ d => .refl d.store
    | error e => exact EvolvesStore.bind (fun d => .refl d.store) fun _ => ih

theorem evolvesStore_runFileIn (room : Nat) (path : String) :
    EvolvesStore (runFileIn room path).run := by
  induction room generalizing path with
  | zero => exact evolvesStore_of_keeps (keeps_throw _)
  | succ room ih =>
    refine (evolvesStore_of_keeps keeps_get).bind_run fun _ => ?_
    refine (evolvesStore_of_keeps (keeps_attempt _ _)).bind_run fun _ => ?_
    refine (evolvesStore_of_keeps (keeps_log _)).bind_run fun _ => ?_
    refine EvolvesStore.bind_run (evolvesStore_modify fun _ => rfl) fun _ => ?_
    refine EvolvesStore.bind_run (fun d => evolvesStore_runLines ih _ d) fun _ => ?_
    exact EvolvesStore.bind_run (evolvesStore_modify fun _ => rfl) fun _ => evolvesStore_pure _

/-- Whatever a line does, it changes the breakpoints only by operations of their store. -/
theorem evolvesStore_executeLine (line : String) : EvolvesStore (executeLine line).run :=
  (evolvesStore_of_keeps keeps_get).bind_run fun d =>
    evolvesStore_executeIn (evolvesStore_runFileIn d.room) line

/-- A scan with command files loses and duplicates nothing. -/
theorem scan_accounted_of_files {d : Debugger} {p : Processor} (room : Nat)
    (hreach : d.store.Reachable) (hidle : (d.list p).scanning = false) :
    ∃ trace, Scene.Traced (react (runFileIn room)) p d trace
        (Scene.scan (react (runFileIn room)) p d).value.2 ∧
      Scene.Accounted p (d.list p).items trace
        (Scene.scan (react (runFileIn room)) p d).value.2 := by
  obtain ⟨trace, htrace⟩ := Scene.exists_traced (evolves_react (evolvesStore_runFileIn room)) hidle
  exact ⟨trace, htrace, htrace.accounted hreach.clean⟩

end Monitor.Debugger

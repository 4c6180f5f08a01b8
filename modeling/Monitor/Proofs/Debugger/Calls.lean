import Monitor.Proofs.Debugger.Order

namespace Monitor

open Debugger

inductive Call
  | line (text : String)
  | run (path : String)
  | scan

namespace Call

def outcome (call : Call) (d : Debugger) : Except Command.Error String × Debugger :=
  match call with
  | .line text => Revision.outcome (executeLine text) d
  | .run path => Revision.outcome (runFile path) d
  | .scan => ((matchBreakpoints.run d).value.map .ok id)

def begin (call : Call) (d : Debugger) : Moment :=
  match call with
  | .line text => .perform text [] d
  | .run path => .beginFile path [] d
  | .scan => .beginMatch [] d

def finish (call : Call) (d : Debugger) : Moment :=
  ⟨.answer (call.outcome d).1, [], (call.outcome d).2⟩

variable {call : Call} {d : Debugger} {m : Moment}

/-- Moment by moment, a call comes to its outcome. -/
theorem leads_finish (call : Call) (d : Debugger) : (call.begin d).Leads (call.finish d) := by
  have hserves := Moment.serves_runFileIn d.room d.session.fileDepth rfl
  cases call with
  | line text =>
    have houtcome : (Call.line text).outcome d = _ :=
      Revision.outcome_bind_of_ok (Revision.outcome_get d)
    rw [finish, houtcome]
    exact (Moment.passes_line hserves rfl text).course []
  | run path =>
    have houtcome : (Call.run path).outcome d = _ :=
      Revision.outcome_bind_of_ok (Revision.outcome_get d)
    rw [finish, houtcome]
    exact (hserves path d rfl).course []
  | scan => exact (Moment.passes_match hserves rfl).course []

theorem change_begin (call : Call) (d : Debugger) :
    Workload.Change ⟨[], d⟩ (call.begin d).workload := by
  cases call with
  | line text => exact Moment.change_perform text [] d
  | run path => exact Moment.change_beginFile path [] d
  | scan => exact .beginMatch [] d

theorem orderly (h : (call.begin d).Leads m) : m.workload.Orderly d :=
  Workload.orderly_of_leads h ((call.change_begin d).orderly (Workload.orderly_start d))

end Call

namespace Debugger

/-- Debuggers that come up between calls. Meanwhile the machine runs, and files may change. -/
inductive Reached : Debugger → Prop
  | start (machine : Machine) (settings : Settings) (files : Files) :
    Reached (ofMachine machine settings files)
  | call {d : Debugger} (h : Reached d) (call : Call) : Reached (call.outcome d).2
  | machine {d : Debugger} (h : Reached d) (machine : Machine) : Reached { d with machine }
  | files {d : Debugger} (h : Reached d) (files : Files) : Reached (d.setFiles files)

/-- Nothing is under way, and nothing is left of what was. -/
structure AtRest (d : Debugger) : Prop where
  depth : d.session.fileDepth = 0
  output : d.session.output = ""
  idle : ∀ p, (d.list p).scanning = false
  unmarked : ∀ p, ∀ b ∈ (d.list p).items, b.deleted = false

variable {d : Debugger}

theorem AtRest.call (h : d.AtRest) (call : Call) : (call.outcome d).2.AtRest := by
  have hclean : d.store.Clean := fun p _ => h.unmarked p
  have horder := call.orderly (call.leads_finish d)
  have hidle : ∀ p, ((call.outcome d).2.list p).scanning = false := by
    intro p
    have hp := horder.exclusive p
    rw [h.idle p] at hp
    exact Bool.toNat_eq_zero.1 hp
  constructor
  · exact horder.counted.depth.trans h.depth
  · exact horder.shown h.output rfl
  · exact hidle
  · exact fun p => horder.clean hclean p (hidle p)

theorem Reached.atRest (h : d.Reached) : d.AtRest := by
  induction h with
  | start machine settings files =>
    exact ⟨rfl, rfl, fun p => by cases p <;> rfl, fun p b hb => by cases p <;> cases hb⟩
  | call _ call ih => exact ih.call call
  | machine _ machine ih | files _ files ih => exact ⟨ih.depth, ih.output, ih.idle, ih.unmarked⟩

theorem Belongs.call {m : Machine} {settings : Settings} (h : d.Belongs m settings) (call : Call) :
    (call.outcome d).2.Belongs m settings :=
  (call.orderly (call.leads_finish d)).belongs m settings h

/-- After a call nothing is left of it, and while it lasts the file depth tells how many command
files are being run, which are never too many. -/
theorem rests_after_call (h : d.Reached) (call : Call) :
    (call.outcome d).2.AtRest ∧ (call.begin d).Leads (call.finish d) ∧
      ∀ m, (call.begin d).Leads m →
        m.debugger.session.fileDepth = Task.count .file m.tasks ∧
          m.debugger.session.fileDepth ≤ maxFileDepth := by
  refine ⟨h.atRest.call call, call.leads_finish d, fun m hm => ?_⟩
  obtain ⟨hdepth, hroom⟩ := (call.orderly hm).counted
  rw [h.atRest.depth] at hdepth hroom
  have hcount : m.debugger.session.fileDepth = Task.count .file m.tasks :=
    hdepth.trans (Nat.zero_add _)
  exact ⟨hcount, Nat.le_trans (Nat.le_of_eq hcount) hroom⟩

def looping : Debugger :=
  ofMachine (.ofRam 16) {} { contents := Std.HashMap.ofList [("again", "f again\n".toUTF8)] }

theorem rests_after_call_looping :
    ((Call.line "f again").outcome looping).2.AtRest ∧
      ((Call.line "f again").begin looping).Leads ((Call.line "f again").finish looping) ∧
      ∀ m, ((Call.line "f again").begin looping).Leads m →
        m.debugger.session.fileDepth = Task.count .file m.tasks ∧
          m.debugger.session.fileDepth ≤ maxFileDepth :=
  rests_after_call (.start _ _ _) (.line "f again")

end Debugger

end Monitor

import Monitor.Proofs.Condition.Dependence
import Monitor.Proofs.Debugger.Calls

namespace Monitor

open Attempt

/-- A machine runs. All of it may change but what kind of machine it is, how much memory it has and
which symbols are known. -/
inductive Machine.Runs (m : Machine) : Machine → Prop
  | rest : Runs m m
  | cpuRegister {m' : Machine} (h : Runs m m') (r : CpuRegister) (value : UInt32) :
    Runs m (m'.setCpuRegister r value)
  | dspRegister {m' : Machine} (h : Runs m m') (r : DspRegister) (value : UInt32) :
    Runs m (m'.setDspRegister r value)
  | memory {m' : Machine} (h : Runs m m') (address : UInt32) (values : List UInt8) :
    Runs m (m'.pokeAll address values)
  | dspMemory {m' : Machine} (h : Runs m m') (space : Space) (address : UInt16) (value : UInt32) :
    Runs m (m'.pokeDsp space address value)
  | counters {m' : Machine} (h : Runs m m') (hbl vbl : UInt32) (timing : Timing) :
    Runs m { m' with hbl, vbl, timing }
  | sections {m' : Machine} (h : Runs m m') (sections : Option Sections) :
    Runs m { m' with sections }

theorem Machine.Runs.alike {m m' : Machine} (h : m.Runs m') : m.Alike m' := by
  induction h with
  | rest => exact .refl m
  | cpuRegister _ r value ih => exact ih.trans (.setCpuRegister _ r value)
  | dspRegister _ r value ih => exact ih.trans (.setDspRegister _ r value)
  | memory _ address values ih => exact ih.trans (.pokeAll _ address values)
  | dspMemory | counters | sections =>
    rename_i ih
    exact ih.trans (.of_ramSize rfl (fun p => by cases p <;> rfl) rfl)

/-- Whatever happens to what is under way, words go on to stand for the same things. -/
theorem Workload.Change.alike {w w' : Workload} (h : w.Change w') :
    w.debugger.machine.Alike w'.debugger.machine := by
  cases h with
  | touch ts h =>
    cases h with
    | machine h => exact h
    | nothing | breakpoints | nextDump | files => exact .refl _
  | beginFile | endFile | beginMatch | endMatch | beginScan | endScan | scan | react =>
    exact .refl _

theorem Moment.Leads.alike {m m' : Moment} (h : m.Leads m') :
    m.debugger.machine.Alike m'.debugger.machine := by
  induction h with
  | refl => exact .refl _
  | tail _ hnext ih => exact ih.trans (change_of_next hnext).alike

namespace Debugger

/-- What becomes of a debugger in the course of calls. In between its machine runs, and files may
change. -/
inductive Becomes (d : Debugger) : Debugger → Prop
  | nothing : Becomes d d
  | moment {d' : Debugger} {m : Moment} (h : Becomes d d') (call : Call)
      (hm : (call.begin d').Leads m) : Becomes d m.debugger
  | run {d' : Debugger} {machine : Machine} (h : Becomes d d') (hrun : d'.machine.Runs machine) :
    Becomes d { d' with machine }
  | files {d' : Debugger} (h : Becomes d d') (files : Files) : Becomes d (d'.setFiles files)

theorem Becomes.call {d d' : Debugger} (h : d.Becomes d') (call : Call) :
    d.Becomes (call.outcome d').2 :=
  .moment h call (call.leads_finish d')

theorem Becomes.alike {d d' : Debugger} (h : d.Becomes d') : d.machine.Alike d'.machine := by
  induction h with
  | nothing => exact .refl _
  | @moment d' m _ call hm ih =>
    have hbegin : d'.machine.Alike (call.begin d').debugger.machine :=
      (call.change_begin d').alike
    exact ih.trans (hbegin.trans hm.alike)
  | run _ hrun ih => exact ih.trans hrun.alike
  | files _ _ ih => exact ih

end Debugger

namespace Condition

/-- What is read from a text does not depend on what a machine holds at the moment, and no more does
what is logged meanwhile. So what has been read once is read at all times. -/
theorem parse_lasts {m m' : Machine} (h : m.Alike m') (p : Processor) (radix : Radix)
    (text : String) : parse ⟨m, p, radix⟩ text = parse ⟨m', p, radix⟩ text ∧
      ∀ parsed, result (parse ⟨m, p, radix⟩ text) = .ok parsed →
        ∀ d d' : Debugger, d.machine = m' → d.Becomes d' →
          result (parse ⟨d'.machine, p, radix⟩ text) = .ok parsed := by
  have hsame : parse ⟨m, p, radix⟩ text = parse ⟨m', p, radix⟩ text := parse_congr h text
  refine ⟨hsame, fun parsed hparsed d d' hd hbecomes => ?_⟩
  have hlater : parse ⟨d.machine, p, radix⟩ text = parse ⟨d'.machine, p, radix⟩ text :=
    parse_congr hbecomes.alike text
  rw [← hlater, hd, ← hsame]
  exact hparsed

def labelled : Machine :=
  { Machine.ofRam 16 with
    cpuSymbols := some ⟨[⟨"start", 8, .text⟩], [⟨"start", 8, .text⟩]⟩ }

def running : Machine :=
  { (labelled.setCpuRegister .pc 8).pokeAll 4 [1, 2] with vbl := 1 }

def started : Parsed where
  text := "pc = start && ( 4 ) . w ! ( a0 ) . b"
  conditions :=
    [{  left := ⟨.register (.cpu .pc), false, none, 32, 0xffffffff⟩
        comparison := .equal
        right := ⟨.literal 8, false, none, 32, 0xffffffff⟩ },
      { left := ⟨.literal 4, true, none, 16, 0xffff⟩
        comparison := .different
        right := ⟨.register (.cpu (.address ⟨0, by decide⟩)), true, none, 8, 0xffff⟩ }]

theorem result_parse_labelled :
    result (parse ⟨labelled, .cpu, .decimal⟩ "pc=start&&(4).w!(a0).b") = .ok started := by
  decide +kernel

theorem parse_lasts_running :
    parse ⟨labelled, .cpu, .decimal⟩ "pc=start&&(4).w!(a0).b" =
        parse ⟨running, .cpu, .decimal⟩ "pc=start&&(4).w!(a0).b" ∧
      result (parse ⟨((Call.line "r a0 = start").outcome (.ofMachine running {} {})).2.machine, .cpu,
        .decimal⟩ "pc=start&&(4).w!(a0).b") = .ok started := by
  have halike : labelled.Alike running :=
    (((Machine.Runs.rest.cpuRegister .pc 8).memory 4 [1, 2]).counters 0 1 {}).alike
  have hbecomes : (Debugger.ofMachine running {} {}).Becomes
      ((Call.line "r a0 = start").outcome (.ofMachine running {} {})).2 :=
    Debugger.Becomes.nothing.call (.line "r a0 = start")
  obtain ⟨hsame, hlasts⟩ := parse_lasts halike .cpu .decimal "pc=start&&(4).w!(a0).b"
  exact ⟨hsame, hlasts started result_parse_labelled _ _ rfl hbecomes⟩

end Condition

end Monitor

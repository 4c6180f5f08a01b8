import Mathlib.Data.List.Forall2
import Monitor.Proofs.Breakpoint.Rereading
import Monitor.Proofs.Debugger.Failure

namespace Monitor

open Attempt Revision Text Condition

def Processor.setter : Processor → String
  | .cpu => "b"
  | .dsp => "db"

namespace Breakpoint

def setting (p : Processor) (b : Breakpoint) : String :=
  p.setter ++ " " ++ b.expression

def readsAsHelp (b : Breakpoint) : Bool :=
  "help".toList.isPrefixOf b.expression.toList

/-- A breakpoint that has been set again on a machine, with fresh conditions and without options. -/
def IsRestored (m : Machine) (p : Processor) (radix : Radix) (b restored : Breakpoint) : Prop :=
  ∃ parsed, result (parse ⟨m, p, radix⟩ b.expression) = .ok parsed ∧
    parsed.text = b.expression ∧ restored = BreakpointList.newItem m {} parsed

end Breakpoint

variable {p : Processor} {text : String}

theorem isLine_setting {b : Breakpoint} (h : Spelled b.expression.toList) :
    IsLine (b.setting p).toList := by
  rw [Breakpoint.setting, String.toList_append]
  refine IsLine.append ?_ h.isLine
  cases p <;> exact ⟨by decide, by decide⟩

theorem ofName_setter (p : Processor) (c : Char) (cs : List Char) :
    Command.ofName p.setter (c :: cs) = .ok (.breakpoint p (some (String.ofList (c :: cs)))) := by
  cases p <;> rfl

theorem read_setting {b : Breakpoint} (h : Spelled b.expression.toList) :
    Command.read (b.setting p) = .ok (some (.breakpoint p (some b.expression))) := by
  have hsplit : Command.splitLine (b.setting p).toList =
      some (p.setter.toList, trim (' ' :: b.expression.toList)) := by
    rw [Breakpoint.setting, String.toList_append]
    cases p <;> rfl
  have hargs : trim (' ' :: b.expression.toList) = b.expression.toList :=
    (trim_cons_blank (by decide) _).trans h.solid.trim_eq
  have hname : Command.ofName p.setter b.expression.toList =
      .ok (.breakpoint p (some b.expression)) := by
    obtain ⟨c, hc, -⟩ := h.sign
    obtain ⟨first, more, hmore⟩ := List.exists_cons_of_ne_nil (List.ne_nil_of_mem hc)
    rw [hmore, ofName_setter, ← hmore, String.ofList_toList]
  rw [Command.read, hsplit, hargs]
  dsimp only
  rw [String.ofList_toList, hname]
  rfl

namespace Store

variable {m : Machine} {settings : Settings} {s : Store} {context : Context}

def settingLines (s : Store) : List String :=
  (s.list .cpu).items.map (·.setting .cpu) ++ (s.list .dsp).items.map (·.setting .dsp)

theorem toList_dump (s : Store) :
    s.dump.toList = (s.settingLines.map String.toList).flatMap (· ++ ['\n']) := by
  have hcpu : (fun b : Breakpoint => s!"b {b.expression}\n") = fun b => b.setting .cpu ++ "\n" :=
    rfl
  have hdsp : (fun b : Breakpoint => s!"db {b.expression}\n") = fun b => b.setting .dsp ++ "\n" :=
    rfl
  rw [dump, hcpu, hdsp]
  simp [settingLines, list, List.flatMap_map]

theorem Rereads.spelled (h : s.Rereads m settings) (p : Processor) {b : Breakpoint}
    (hb : b ∈ (s.list p).items) : Spelled b.expression.toList := by
  obtain ⟨parsed, hparse, htext⟩ := (h p).expressions b hb
  rw [← htext]
  exact spelled_text hparse

theorem lines_dump (h : s.Rereads m settings) :
    (Text.lines s.dump.toList).map String.ofList = s.settingLines := by
  have hlines : ∀ line ∈ s.settingLines.map String.toList, IsLine line := by
    intro line hline
    obtain ⟨text, htext, rfl⟩ := List.mem_map.1 hline
    rcases List.mem_append.1 htext with htext | htext
    · obtain ⟨b, hb, rfl⟩ := List.mem_map.1 htext
      exact isLine_setting (h.spelled .cpu hb)
    · obtain ⟨b, hb, rfl⟩ := List.mem_map.1 htext
      exact isLine_setting (h.spelled .dsp hb)
  rw [toList_dump, lines_flatMap hlines, List.map_map]
  simp [Function.comp_def]

theorem command_of_help {b : Breakpoint} (h : Spelled b.expression.toList)
    (hhelp : b.readsAsHelp = true) :
    result (s.command p (some b.expression) context) = .ok (Help.conditionForms, s) := by
  rw [Breakpoint.readsAsHelp] at hhelp
  rw [command, result_on_eq_ok]
  dsimp only
  rw [h.solid.trim_eq, if_pos hhelp]
  rfl

theorem command_of_parse {b : Breakpoint} {parsed : Parsed} (h : Spelled b.expression.toList)
    (hhelp : b.readsAsHelp = false) (hdsp : p = .dsp → context.settings.dspEnabled = true)
    (hparse : result (parse ⟨context.machine, (s.list p).processor, context.settings.radix⟩
      b.expression) = .ok parsed) :
    result (s.command p (some b.expression) context) = .ok ("",
      s.setList ((s.list p).append (BreakpointList.newItem context.machine {} parsed)) p) := by
  have hcondition : IsCondition b.expression.toList :=
    ⟨h.solid, h.colon_not_mem, hhelp, h.ne_all, h.not_all_digits⟩
  have hadd : result ((s.list p).add b.expression {} context.machine context.settings.radix) =
      .ok ((s.list p).size + 1,
        (s.list p).append (BreakpointList.newItem context.machine {} parsed)) :=
    BreakpointList.add_eq_ok.2 ⟨parsed, hparse, rfl, rfl⟩
  rw [command_of_isCondition hcondition hdsp, add_eq_ok.2 ⟨_, hadd, rfl⟩]
  rfl

end Store

/-- A list has come to hold breakpoints again, apart from those whose expressions call for help. -/
structure BreakpointList.Regains (m : Machine) (p : Processor) (radix : Radix)
    (bs : List Breakpoint) (l next : BreakpointList) : Prop where
  processor : next.processor = p
  items : ∃ restored, next.items = l.items ++ restored ∧
    List.Forall₂ (Breakpoint.IsRestored m p radix) (bs.filter (!·.readsAsHelp)) restored

theorem BreakpointList.Regains.append {m : Machine} {radix : Radix} {bs bs' : List Breakpoint}
    {l next last : BreakpointList} (h : Regains m p radix bs l next)
    (h' : Regains m p radix bs' next last) : Regains m p radix (bs ++ bs') l last := by
  obtain ⟨restored, hitems, hrestored⟩ := h.items
  obtain ⟨more, hmore, hrestored'⟩ := h'.items
  refine ⟨h'.processor, restored ++ more, ?_, ?_⟩
  · rw [hmore, hitems, List.append_assoc]
  · rw [List.filter_append]
    exact List.rel_append hrestored hrestored'

namespace Debugger

variable {d : Debugger} {b : Breakpoint} {bs : List Breakpoint}

theorem executeLine_setting {store : Store} (h : Spelled b.expression.toList)
    (hcommand : result (d.store.command p (some b.expression) d.context) = .ok (text, store)) :
    outcome (executeLine (b.setting p)) d = (.ok text, { d with store }) := by
  have hexecute : executeIn (runFileIn d.room) (b.setting p) =
      changeBreakpoints p (some b.expression) := by
    rw [executeIn, read_setting h]
    rfl
  have hchange : outcome (changeBreakpoints p (some b.expression)) d = _ :=
    outcome_revise .breakpoint (fun d => d.store.command p (some b.expression) d.context) d
  rw [executeLine, outcome_bind_of_ok (outcome_get d), hexecute, hchange, hcommand]

theorem regains_executeLine (hp : (d.list p).processor = p)
    (hb : ReadsBack (d.scope p) b.expression) (hdsp : p = .dsp → d.settings.dspEnabled = true) :
    ∃ text l, outcome (executeLine (b.setting p)) d = (.ok text, d.setList p l) ∧
      BreakpointList.Regains d.machine p d.settings.radix [b] (d.list p) l := by
  obtain ⟨parsed, hparse, htext⟩ := hb
  have hspelled : Spelled b.expression.toList := htext ▸ spelled_text hparse
  cases hhelp : b.readsAsHelp with
  | true =>
    have hsame : d.setList p (d.list p) = d := by cases p <;> rfl
    refine ⟨Help.conditionForms, d.list p, ?_, hp, [], (List.append_nil _).symm, ?_⟩
    · rw [executeLine_setting hspelled (Store.command_of_help hspelled hhelp), hsame]
    · rw [List.filter_singleton, hhelp]
      exact .nil
  | false =>
    have hstored : (d.store.list p).processor = p := hp
    have hread : result (parse ⟨d.context.machine, (d.store.list p).processor,
        d.context.settings.radix⟩ b.expression) = .ok parsed := by
      rw [hstored]
      exact hparse
    refine ⟨_, _, executeLine_setting hspelled (Store.command_of_parse hspelled hhelp hdsp hread),
      hp, _, rfl, ?_⟩
    rw [List.filter_singleton, hhelp]
    exact .cons ⟨parsed, hparse, htext, rfl⟩ .nil

theorem regains_executeLines (hp : (d.list p).processor = p)
    (hbs : ∀ b ∈ bs, ReadsBack (d.scope p) b.expression)
    (hdsp : p = .dsp → d.settings.dspEnabled = true) :
    ∃ texts l, outcome ((bs.map (·.setting p)).mapM executeLine) d = (.ok texts, d.setList p l) ∧
      BreakpointList.Regains d.machine p d.settings.radix bs (d.list p) l := by
  induction bs generalizing d with
  | nil =>
    have hsame : d.setList p (d.list p) = d := by cases p <;> rfl
    exact ⟨[], d.list p, by rw [hsame]; rfl, hp, [], (List.append_nil _).symm, .nil⟩
  | cons b bs ih =>
    obtain ⟨hb, hbs⟩ := List.forall_mem_cons.1 hbs
    obtain ⟨text, l, hline, hl⟩ := regains_executeLine hp hb hdsp
    have hlist : (d.setList p l).list p = l := Scene.list_setList_self d p l
    have hnext : ((d.setList p l).list p).processor = p := hlist.symm ▸ hl.processor
    obtain ⟨texts, last, hlines, hlast⟩ := ih hnext hbs hdsp
    have hset : (d.setList p l).setList p last = d.setList p last := by cases p <;> rfl
    rw [hlist] at hlast
    refine ⟨text :: texts, last, ?_, hl.append hlast⟩
    rw [List.map_cons, List.mapM_cons, outcome_bind_of_ok hline, outcome_bind_of_ok hlines, hset]
    rfl

variable {m : Machine} {settings : Settings} {s : Store}

theorem size_eq_iff {radix : Radix} {l next : BreakpointList}
    (h : List.Forall₂ (Breakpoint.IsRestored d.machine p radix)
      (l.items.filter (!·.readsAsHelp)) next.items) :
    next.size = l.size ↔ ∀ b ∈ l.items, b.readsAsHelp = false := by
  rw [BreakpointList.size, ← h.length_eq, BreakpointList.size, List.length_filter_eq_length_iff]
  simp

theorem regains_dump (hs : s.ReachableOn m settings) (hdsp : settings.dspEnabled = true)
    (hm : m.Alike d.machine) (hsettings : d.settings = settings)
    (hprocessor : ∀ p, (d.list p).processor = p) :
    ∃ texts store,
      outcome (((Text.lines s.dump.toList).map String.ofList).mapM executeLine) d =
        (.ok texts, { d with store }) ∧
      ∀ p, BreakpointList.Regains d.machine p settings.radix (s.list p).items (d.list p)
        (store.list p) := by
  subst hsettings
  have hrereads := hs.rereads
  have hreads (p : Processor) : ∀ b ∈ (s.list p).items, ReadsBack (d.scope p) b.expression :=
    fun b hb => ((hrereads p).expressions b hb).congr hm
  obtain ⟨cpuTexts, cpu, hcpuLines, hcpu⟩ :=
    regains_executeLines (hprocessor .cpu) (hreads .cpu) nofun
  have hnext : ((d.setList .cpu cpu).list .dsp).processor = .dsp := hprocessor .dsp
  obtain ⟨dspTexts, dsp, hdspLines, hdsp⟩ :=
    regains_executeLines hnext (hreads .dsp) fun _ => hdsp
  refine ⟨cpuTexts ++ dspTexts, (d.store.setList cpu .cpu).setList dsp .dsp, ?_, fun p => ?_⟩
  · rw [Store.lines_dump hrereads, Store.settingLines, List.mapM_append,
      outcome_bind_of_ok hcpuLines, outcome_bind_of_ok hdspLines]
    rfl
  · cases p with
    | cpu => exact hcpu
    | dsp => exact hdsp

/-- The lines of a dump all succeed on a debugger without breakpoints, and they set the same
breakpoints in the same order, except those whose expressions are taken for a call for help. So all
breakpoints are set again just if there is none of those. -/
theorem restores_dump (hs : s.ReachableOn m settings) (hdsp : settings.dspEnabled = true)
    (hm : m.Alike d.machine) (hsettings : d.settings = settings)
    (hprocessor : ∀ p, (d.list p).processor = p) (hempty : ∀ p, (d.list p).items = []) :
    ∃ texts store,
      outcome (((Text.lines s.dump.toList).map String.ofList).mapM executeLine) d =
        (.ok texts, { d with store }) ∧
      ∀ p, List.Forall₂ (Breakpoint.IsRestored d.machine p settings.radix)
          ((s.list p).items.filter (!·.readsAsHelp)) (store.list p).items ∧
        ((store.list p).size = (s.list p).size ↔
          ∀ b ∈ (s.list p).items, b.readsAsHelp = false) := by
  obtain ⟨texts, store, hlines, hregains⟩ := regains_dump hs hdsp hm hsettings hprocessor
  refine ⟨texts, store, hlines, fun p => ?_⟩
  obtain ⟨restored, hitems, hrestored⟩ := (hregains p).items
  rw [hempty, List.nil_append] at hitems
  rw [← hitems] at hrestored
  exact ⟨hrestored, size_eq_iff hrestored⟩

def helperMachine : Machine :=
  { Machine.ofRam 16 with
    cpuSymbols := some ⟨[⟨"helper", 8, .text⟩], [⟨"helper", 8, .text⟩]⟩ }

def watching : Breakpoint where
  expression := "usp ! 1"
  options := {}
  conditions :=
    [{ left := ⟨.register (.cpu .usp), false, none, 32, 0xffffffff⟩
       comparison := .different
       right := ⟨.literal 1, false, none, 32, 0xffffffff⟩ }]

def helping : Breakpoint where
  expression := "helper = pc"
  options := {}
  conditions :=
    [{ left := ⟨.literal 8, false, none, 32, 0xffffffff⟩
       comparison := .equal
       right := ⟨.register (.cpu .pc), false, none, 32, 0xffffffff⟩ }]

def helperStore : Store :=
  { cpu := { processor := .cpu, items := [watching, helping], capacity := 16 } }

theorem reachableOn_helperStore : helperStore.ReachableOn helperMachine {} := by
  have hfirst : result (({} : Store).command .cpu (some "usp ! 1") ⟨helperMachine, {}, {}⟩) =
      .ok ("", { cpu := { processor := .cpu, items := [watching], capacity := 16 } }) := by
    decide +kernel
  have hsecond : result (Store.command
      { cpu := { processor := .cpu, items := [watching], capacity := 16 } } .cpu
      (some "h elper = pc") ⟨helperMachine, {}, {}⟩) = .ok ("", helperStore) := by
    decide +kernel
  exact (Store.ReachableOn.initial.operate (.command (.refl _) hfirst)).operate
    (.command (.refl _) hsecond)

theorem restores_dump_helperStore : ∃ texts store,
    outcome (((Text.lines helperStore.dump.toList).map String.ofList).mapM executeLine)
      (ofMachine helperMachine {} {}) = (.ok texts, { ofMachine helperMachine {} {} with store }) ∧
    ∀ p, List.Forall₂ (Breakpoint.IsRestored helperMachine p .decimal)
        ((helperStore.list p).items.filter (!·.readsAsHelp)) (store.list p).items ∧
      ((store.list p).size = (helperStore.list p).size ↔
        ∀ b ∈ (helperStore.list p).items, b.readsAsHelp = false) := by
  have hprocessor (p : Processor) : ((ofMachine helperMachine {} {}).list p).processor = p := by
    cases p <;> rfl
  have hempty (p : Processor) : ((ofMachine helperMachine {} {}).list p).items = [] := by
    cases p <;> rfl
  have h := restores_dump reachableOn_helperStore rfl (.refl _) rfl hprocessor hempty
  exact h

/-- A breakpoint for a symbol whose name starts with a call for help is not set again. -/
theorem lost_helperStore : helperStore.ReachableOn helperMachine {} ∧
    helperStore.dump = "b usp ! 1\nb helper = pc\n" ∧ ∃ texts store,
      outcome (((Text.lines helperStore.dump.toList).map String.ofList).mapM executeLine)
        (ofMachine helperMachine {} {}) = (.ok texts, { ofMachine helperMachine {} {} with store }) ∧
      (helperStore.list .cpu).size = 2 ∧ (store.list .cpu).size = 1 := by
  obtain ⟨texts, store, hlines, hregains⟩ := regains_dump (d := ofMachine helperMachine {} {})
    reachableOn_helperStore rfl (.refl _) rfl fun p => by cases p <;> rfl
  refine ⟨reachableOn_helperStore, by decide +kernel, texts, store, hlines, rfl, ?_⟩
  obtain ⟨restored, hitems, hrestored⟩ := (hregains .cpu).items
  have hkept : (helperStore.list .cpu).items.filter (!·.readsAsHelp) = [watching] := by
    decide +kernel
  rw [BreakpointList.size, hitems]
  exact (congrArg List.length hkept).symm.trans hrestored.length_eq |>.symm

end Debugger

end Monitor

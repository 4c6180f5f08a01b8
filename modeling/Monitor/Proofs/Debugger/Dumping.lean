import Monitor.Proofs.Breakpoint.Accounting
import Monitor.Proofs.Debugger.Occurrences
import Monitor.Proofs.Dump.Reading
import Monitor.Proofs.Expression.Operands

namespace Monitor

namespace Dump

theorem toNat_defaultEnd (start : UInt32) :
    (defaultEnd start).toNat = min (start.toNat + 63) 0xffffffff :=
  UInt32.toNat_ofNat_of_lt' (Nat.lt_of_le_of_lt (Nat.min_le_right ..) (by decide))

theorem le_defaultEnd (start : UInt32) : start ≤ defaultEnd start := by
  have hstart : start.toNat ≤ 0xffffffff := Nat.le_of_lt_succ start.toNat_lt
  rw [UInt32.le_iff_toNat_le, toNat_defaultEnd]
  exact Nat.le_min.2 ⟨Nat.le_add_right .., hstart⟩

end Dump

namespace AddressRange

open Attempt

variable {scope : Scope} {text : String} {lower upper : UInt32}

theorem readEnd_hex (scope : Scope) (n : UInt32) :
    readEnd scope ('$' :: (Text.hex n).toList) = .ok n := by
  have hfew : (Text.hex n).toList.length ≤ 8 := by
    rw [Text.toList_hex]
    exact (Nat.length_toDigits_le_iff (by decide) (by decide)).2 n.toNat_lt
  have hshort : ('$' :: (Text.hex n).toList).length < Operand.nameLimit :=
    Nat.lt_of_le_of_lt (Nat.succ_le_succ hfew) (by decide)
  have hvalue : ('$' :: (Text.hex n).toList).takeWhile Operand.isNameChar ≠ [] →
      scope.valueOf? (String.ofList (('$' :: (Text.hex n).toList).takeWhile
        Operand.isNameChar)) = none :=
    fun hne => absurd rfl hne
  obtain ⟨radix, hfront⟩ := Operand.readFront_of_number hshort hvalue (Numeral.read_hex _ n)
  rw [readEnd, Operand.read, hfront, ok_bind, if_neg (Nat.lt_irrefl _)]
  rfl

theorem read_hex (scope : Scope) (h : lower ≤ upper) :
    read scope ("$" ++ Text.hex lower ++ "-$" ++ Text.hex upper) = .ok (.span lower upper) := by
  have hmarks : "$".toList = ['$'] ∧ "-$".toList = ['-', '$'] := ⟨rfl, rfl⟩
  have hlist : ("$" ++ Text.hex lower ++ "-$" ++ Text.hex upper).toList =
      ('$' :: (Text.hex lower).toList) ++ '-' :: '$' :: (Text.hex upper).toList := by
    simp only [String.toList_append, hmarks, List.append_assoc, List.cons_append, List.nil_append]
  have hplain : '-' ∉ '$' :: (Text.hex lower).toList := by
    intro hmem
    rcases List.mem_cons.1 hmem with hdollar | hdigit
    · exact absurd hdollar (by decide)
    · exact absurd (Text.isDigit_of_mem_hex hdigit) (by decide)
  rw [read, hlist, Text.splitFirst_append_cons hplain]
  dsimp only
  rw [readEnd_hex, readEnd_hex, ok_bind, ok_bind, if_neg (UInt32.not_lt.2 h)]
  rfl

theorem le_of_read (h : read scope text = .ok (.span lower upper)) : lower ≤ upper := by
  rw [read] at h
  cases hsplit : Text.splitFirst '-' text.toList with
  | none =>
    rw [hsplit] at h
    obtain ⟨address, _, hsingle⟩ := bind_eq_ok.1 h
    cases hsingle
  | some ends =>
    rw [hsplit] at h
    obtain ⟨low, _, h⟩ := bind_eq_ok.1 h
    obtain ⟨high, _, h⟩ := bind_eq_ok.1 h
    by_cases hinverted : high < low
    · rw [if_pos hinverted] at h
      cases h
    · rw [if_neg hinverted] at h
      cases h
      exact UInt32.not_lt.1 hinverted

end AddressRange

namespace Debugger

open Revision

variable {d : Debugger} {line : String} {range : Option String} {first last : UInt32}

theorem dumpRange_hex (d : Debugger) (h : first ≤ last) :
    d.dumpRange (some ("$" ++ Text.hex first ++ "-$" ++ Text.hex last)) = .ok (first, last) := by
  rw [dumpRange, AddressRange.read_hex _ h]
  rfl

theorem le_of_dumpRange (h : d.dumpRange range = .ok (first, last)) : first ≤ last := by
  cases range with
  | none =>
    cases h
    exact Dump.le_defaultEnd _
  | some text =>
    rw [dumpRange] at h
    cases hread : AddressRange.read (d.scope .cpu) text with
    | error e =>
      rw [hread] at h
      cases h
    | ok range =>
      rw [hread] at h
      cases range with
      | single start =>
        cases h
        exact Dump.le_defaultEnd _
      | span lower upper =>
        cases h
        exact AddressRange.le_of_read hread

theorem dumps_mem_dumping_iff : .dumps range first last ∈ d.dumping line ↔
    Command.read line = .ok (some (.memory range)) ∧ d.dumpRange range = .ok (first, last) := by
  rw [dumping]
  constructor
  · intro h
    split at h
    · rename_i asked hread
      split at h
      · rename_i ends hends
        cases List.mem_singleton.1 h
        exact ⟨hread, hends⟩
      · cases h
    · cases h
  · rintro ⟨hread, hends⟩
    rw [hread]
    dsimp only
    rw [hends]
    exact List.mem_singleton_self _

theorem perform_of_dumps {waiting : List Waiting} (h : .dumps range first last ∈ d.dumping line) :
    Moment.perform line waiting d = ⟨.answer (.ok (Dump.text d.machine first last)), waiting,
      d.mapSession fun s => { s with nextDump := some (last + 1) }⟩ := by
  obtain ⟨hread, hends⟩ := dumps_mem_dumping_iff.1 h
  have houtcome : outcome (execute (runFileIn 0) (.memory range)) d = _ := outcome_dump range d
  rw [hends] at houtcome
  rw [Moment.perform_of_read hread id, houtcome]

end Debugger

def Occurrence.carry (next : Option UInt32) : Occurrence → Option UInt32
  | .fires _ _ => next
  | .dumps _ _ last => some (last + 1)
  | .resets _ => none

/-- What can happen when the next dump is to go on at an address: a dump without a range begins
there, and the session is only reset by a breakpoint that has side effects and does not spare it. -/
def Occurrence.Fits (next : Option UInt32) : Occurrence → Prop
  | .fires _ _ => True
  | .dumps range first last => range = none →
      (∀ start, next = some start → first = start) ∧ last = Dump.defaultEnd first
  | .resets b => b.options.hasSideEffects = true ∧ b.options.noinit = false

def Occurrence.AllFit (next : Option UInt32) : List Occurrence → Prop
  | [] => True
  | o :: more => o.Fits next ∧ AllFit (o.carry next) more

namespace Recollection

open Occurrence

variable {start r r' : Recollection} {next : Option UInt32} {seen more : List Occurrence}

theorem allFit_append : AllFit next (seen ++ more) ↔
    AllFit next seen ∧ AllFit (seen.foldl carry next) more := by
  induction seen generalizing next with
  | nil => exact (and_iff_right trivial).symm
  | cons o seen ih => exact (and_congr_right fun _ => ih).trans (and_assoc).symm

theorem Changes.fits (h : r.Changes more r') :
    AllFit r.nextDump more ∧ r'.nextDump = more.foldl carry r.nextDump := by
  cases h with
  | nothing | fires | remembers => exact ⟨by simp [AllFit, Fits], rfl⟩
  | dumps _ h | resets _ h => exact ⟨⟨h, trivial⟩, rfl⟩

theorem Passes.fits (h : start.Passes seen r) :
    AllFit start.nextDump seen ∧ r.nextDump = seen.foldl carry start.nextDump := by
  induction h with
  | refl => exact ⟨trivial, rfl⟩
  | step _ hchange ih =>
    obtain ⟨hfits, hnext⟩ := ih
    obtain ⟨hfits', hnext'⟩ := hchange.fits
    rw [hnext] at hfits' hnext'
    exact ⟨allFit_append.2 ⟨hfits, hfits'⟩, hnext'.trans List.foldl_append.symm⟩

theorem foldl_carry_fires (h : ∀ o ∈ seen, ∃ p index, o = .fires p index) :
    seen.foldl carry next = next := by
  induction seen with
  | nil => rfl
  | cons o seen ih =>
    obtain ⟨⟨p, index, rfl⟩, hmore⟩ := List.forall_mem_cons.1 h
    exact ih hmore

end Recollection

namespace Debugger

open Occurrence Recollection

variable {start d : Debugger} {seen : List Occurrence}

theorem Undergoes.allFit (h : start.Undergoes seen d) : AllFit start.session.nextDump seen :=
  h.passes.fits.1

/-- A dump shows the bytes of its range, each once and in order, and never leaves the address space
on the way. Any range can be asked for. A line that dumps answers with the dump, and a dump without
a range goes on where the last one ended, unless a breakpoint with side effects resets the session
in between. -/
theorem dumps_go_on :
    (∀ (m : Machine) (first last : UInt32), first ≤ last →
      (Dump.beginLine last first "").Finishes m last (Dump.text m first last) ∧
        Dump.Shows m first.toNat (last.toNat + 1 - first.toNat)
          (Text.lines (Dump.text m first last).toList)) ∧
      (∀ (d : Debugger) (first last : UInt32), first ≤ last →
        d.dumpRange (some ("$" ++ Text.hex first ++ "-$" ++ Text.hex last)) = .ok (first, last)) ∧
      (∀ (d : Debugger) (line : String), Command.read line = .ok (some (.memory none)) →
        ∃ first last, .dumps none first last ∈ d.dumping line) ∧
      (∀ (d : Debugger) (line : String) (waiting : List Waiting) (range : Option String)
        (first last : UInt32), .dumps range first last ∈ d.dumping line →
          first ≤ last ∧ Moment.perform line waiting d =
            ⟨.answer (.ok (Dump.text d.machine first last)), waiting,
              d.mapSession fun s => { s with nextDump := some (last + 1) }⟩) ∧
      ∀ (start d : Debugger) (seen : List Occurrence), start.Undergoes seen d →
        (∀ b, .resets b ∈ seen → b.options.hasSideEffects = true ∧ b.options.noinit = false) ∧
          ∀ before range first last quiet first' last' after,
            seen = before ++ .dumps range first last ::
              (quiet ++ .dumps none first' last' :: after) →
            (∀ o ∈ quiet, ∃ p index, o = .fires p index) →
              first' = last + 1 ∧ last'.toNat = min (first'.toNat + 63) 0xffffffff := by
  refine ⟨fun m first last h => ⟨Dump.finishes_text m h, Dump.shows_text m h⟩,
    fun d first last h => d.dumpRange_hex h, fun d line hread => ?_,
    fun d line waiting range first last h => ?_, fun start d seen h => ⟨fun b hb => ?_, ?_⟩⟩
  · exact ⟨_, _, dumps_mem_dumping_iff.2 ⟨hread, rfl⟩⟩
  · exact ⟨le_of_dumpRange (dumps_mem_dumping_iff.1 h).2, perform_of_dumps h⟩
  · obtain ⟨before, after, rfl⟩ := List.append_of_mem hb
    exact (allFit_append.1 h.allFit).2.1
  · rintro before range first last quiet first' last' after rfl hquiet
    -- What comes after the first dump fits the address that it leaves, and firings leave it alone.
    have hafter : AllFit (some (last + 1)) (quiet ++ .dumps none first' last' :: after) :=
      (allFit_append.1 h.allFit).2.2
    have hdump := (allFit_append.1 hafter).2.1
    rw [foldl_carry_fires hquiet] at hdump
    obtain ⟨hfirst, rfl⟩ := hdump rfl
    exact ⟨hfirst _ rfl, Dump.toNat_defaultEnd first'⟩

def tracingDebugger : Debugger where
  store := {
    cpu := {
      processor := .cpu
      items := [⟨"VBL = 0", { trace := true }, Scene.startCondition.conditions, .zero, false⟩] } }
  machine := .ofRam 16
  surroundings := { files := {}, session := {} }

def dumpedDebugger : Debugger :=
  ((Call.line "m $fffffff0-$ffffffff").outcome tracingDebugger).2

def firedDebugger : Debugger :=
  (Call.scan.outcome dumpedDebugger).2

theorem undergoes_dumps : tracingDebugger.Undergoes
    [.dumps (some "$fffffff0-$ffffffff") 0xfffffff0 0xffffffff, .fires .cpu 1, .dumps none 0 63]
    ((Call.line "m").outcome firedDebugger).2 := by
  have hdumped : tracingDebugger.Undergoes
      [.dumps (some "$fffffff0-$ffffffff") 0xfffffff0 0xffffffff] dumpedDebugger :=
    Undergoes.nothing.goesOn (n := 0) (.line "m $fffffff0-$ffffffff") (by decide +kernel)
      (by decide +kernel)
  have hfired : tracingDebugger.Undergoes
      [.dumps (some "$fffffff0-$ffffffff") 0xfffffff0 0xffffffff, .fires .cpu 1] firedDebugger :=
    hdumped.goesOn (n := 12) .scan (by decide +kernel) (by decide +kernel)
  exact hfired.goesOn (n := 0) (.line "m") (by decide +kernel) (by decide +kernel)

theorem dumps_go_on_wrapped :
    let first : UInt32 := 0xfffffff0
    let last : UInt32 := 0xffffffff
    let text := Dump.text tracingDebugger.machine first last
    (Dump.beginLine last first "").Finishes tracingDebugger.machine last text ∧
      Dump.Shows tracingDebugger.machine first.toNat 16 (Text.lines text.toList) ∧
      tracingDebugger.dumping "m $fffffff0-$ffffffff" =
        [.dumps (some "$fffffff0-$ffffffff") first last] ∧
      (Moment.perform "m $fffffff0-$ffffffff" [] tracingDebugger).focus = .answer (.ok text) ∧
      tracingDebugger.Undergoes [.dumps (some "$fffffff0-$ffffffff") first last, .fires .cpu 1,
        .dumps none 0 63] ((Call.line "m").outcome firedDebugger).2 ∧
      0 = last + 1 ∧ (63 : UInt32).toNat = min ((0 : UInt32).toNat + 63) 0xffffffff := by
  obtain ⟨hshown, -, -, hanswers, hgoesOn⟩ := dumps_go_on
  have hdumping : tracingDebugger.dumping "m $fffffff0-$ffffffff" =
      [.dumps (some "$fffffff0-$ffffffff") 0xfffffff0 0xffffffff] := by
    decide +kernel
  obtain ⟨hfinishes, hshows⟩ := hshown tracingDebugger.machine 0xfffffff0 0xffffffff (by decide)
  have hanswer := hanswers tracingDebugger "m $fffffff0-$ffffffff" [] _ _ _
    (hdumping ▸ List.mem_singleton_self _)
  have hnext := (hgoesOn _ _ _ undergoes_dumps).2 [] _ _ _ [.fires .cpu 1] 0 63 [] rfl
    (List.forall_mem_singleton.2 ⟨.cpu, 1, rfl⟩)
  exact ⟨hfinishes, hshows, hdumping, congrArg Moment.focus hanswer.2, undergoes_dumps, hnext⟩

end Debugger

end Monitor

import Monitor.Proofs.Breakpoint.Evolution
import Monitor.Proofs.Condition.Fitting
import Monitor.Proofs.Condition.Spelling
import Monitor.Proofs.Digits

namespace Monitor

open Attempt Revision Condition

def Processor.counter : Processor → Register
  | .cpu => .cpu .pc
  | .dsp => .dsp .pc

def Processor.addressBits : Processor → Nat
  | .cpu => 32
  | .dsp => 16

def Processor.wordBits : Processor → Nat
  | .cpu => 32
  | .dsp => 24

variable {scope : Scope} {p : Processor} {address : UInt32}

theorem and_register_counter (m : Machine) (p : Processor) :
    m.register p.counter &&& lowBits p.addressBits = m.register p.counter := by
  cases p with
  | cpu => exact (and_lowBits_eq_self_iff _ 32).2 (UInt32.toNat_lt _)
  | dsp =>
    have hmask : (lowBits 16) = DspRegister.mask .pc := by decide
    rw [Processor.counter, Machine.register, Machine.dspRegister, Processor.addressBits, hmask,
      UInt32.and_assoc, UInt32.and_self]

namespace Condition

theorem isWordChar_of_isDigit {c : Char} (h : Text.isDigit 16 c = true) : isWordChar c = true := by
  simp only [Text.isDigit, Text.digit?, Text.digitValue?] at h
  simp only [isWordChar, Text.isAsciiLetter]
  split at h
  · simp_all
  · split at h
    · simp_all
    · split at h <;> simp_all

def counterSide (scope : Scope) : Written :=
  match scope.processor with
  | .cpu => ⟨.register (.cpu .pc), false, none, some 32, none⟩
  | .dsp => ⟨.register (.dsp .pc), false, some .p, some 24, some 0xffff⟩

theorem register?_pc (scope : Scope) : scope.register? "pc" = some scope.processor.counter := by
  obtain ⟨m, processor, radix⟩ := scope
  cases processor with
  | cpu =>
    have hname : CpuRegister.ofName? "pc" m.level = some .pc := by
      rw [CpuRegister.ofName?, CpuRegister.named, CpuRegister.all]
      split <;> decide +kernel
    rw [Scope.register?, hname]
    rfl
  | dsp =>
    have hname : DspRegister.ofName? "pc" = some .pc := by decide +kernel
    rw [Scope.register?, hname]
    rfl

theorem reads_counter (scope : Scope) :
    Written.Reads scope [.word ['p', 'c']] (counterSide scope) := by
  have hvariable : Variable.ofName? "pc" = none := by decide +kernel
  refine .bare (.word ⟨?_, ?_⟩)
  · rw [Written.meaning?, if_pos (by decide)]
    change (Written.ofName? scope false "pc").value = _
    rw [Written.ofName?, Written.ofVariable?, if_neg Bool.false_ne_true, hvariable, Option.map_none,
      Written.ofRegister?, register?_pc, counterSide]
    obtain ⟨m, processor, radix⟩ := scope
    cases processor <;> rfl
  · obtain ⟨m, processor, radix⟩ := scope
    intro literal hliteral
    cases processor <;> cases hliteral

theorem reads_address (scope : Scope) (address : UInt32) :
    Written.Reads scope [.word ('$' :: (Text.hex address).toList)]
      (Written.plain scope false (.literal address)) := by
  have hname : Written.startsName ('$' :: (Text.hex address).toList) = false := rfl
  refine .bare (.word ⟨?_, nofun⟩)
  rw [Written.meaning?, hname, Numeral.read_hex]
  rfl

def counterCondition (scope : Scope) (address : UInt32) : Condition :=
  compared (counterSide scope) .equal (Written.plain scope false (.literal address))

theorem settle_counter (scope : Scope) (address : UInt32) :
    settle (counterSide scope) (Written.plain scope false (.literal address)) =
      (⟨.register scope.processor.counter, false, Written.defaultSpace scope,
        scope.processor.wordBits, lowBits scope.processor.addressBits⟩,
      ⟨.literal address, false, Written.defaultSpace scope, scope.processor.wordBits,
        lowBits scope.processor.addressBits⟩) := by
  obtain ⟨m, processor, radix⟩ := scope
  cases processor <;> rfl

theorem canShow_counter (scope : Scope) (address number : UInt32) :
    (settle (counterSide scope) (Written.plain scope false (.literal address))).1.CanShow number ↔
      number.toNat < 1 <<< scope.processor.addressBits := by
  have hbits : 1 <<< scope.processor.addressBits ≤ 1 <<< scope.processor.wordBits := by
    cases scope.processor <;> decide
  rw [settle_counter, canShow_iff, visible, and_and_eq_self_iff, and_lowBits_eq_self_iff,
    and_lowBits_eq_self_iff]
  exact and_iff_right_of_imp fun h => Nat.lt_of_lt_of_le h hbits

theorem compares_counter (scope : Scope) (address : UInt32) :
    ∃ i, (settle (counterSide scope) (Written.plain scope false (.literal address))).2.Compares i ∧
      (settle (counterSide scope) (Written.plain scope false (.literal address))).1.Compares i := by
  have hbits : 0 < scope.processor.wordBits := by cases scope.processor <;> decide
  have hmask : (lowBits scope.processor.addressBits).toNat.testBit 0 = true := by
    cases scope.processor <;> decide
  rw [settle_counter]
  exact ⟨0, ⟨hbits, hmask⟩, hbits, hmask⟩

theorem refusal?_counter (scope : Scope) (address : UInt32) :
    refusal? (counterSide scope) (Written.plain scope false (.literal address)) =
      if address.toNat < 1 <<< scope.processor.addressBits then none
      else some .numberDoesNotFit := by
  have hnumber : (counterSide scope).number? = none := by
    obtain ⟨m, processor, radix⟩ := scope
    cases processor <;> rfl
  rw [refusal?_number_right rfl hnumber]
  split
  · rename_i hfits
    rw [numberRefusal?_eq_none_iff, canShow_counter]
    exact ⟨compares_counter scope address, hfits⟩
  · rename_i hfits
    rw [numberRefusal?_eq_numberDoesNotFit_iff, canShow_counter]
    exact ⟨compares_counter scope address, hfits⟩

/-- An address in the range of the program counter is met just where the program counter is. -/
theorem holds_counterCondition (hfits : address.toNat < 1 <<< scope.processor.addressBits)
    (m : Machine) : (counterCondition scope address).holds m = true ↔
      m.register scope.processor.counter = address := by
  rw [holds, counterCondition, compared, settle_counter]
  refine beq_iff_eq.trans ?_
  change m.register scope.processor.counter &&& lowBits scope.processor.addressBits =
    address &&& lowBits scope.processor.addressBits ↔ _
  rw [and_register_counter, (and_lowBits_eq_self_iff _ _).2 hfits]

def counterText (address : UInt32) : String :=
  "pc = $" ++ Text.hex address

theorem tokenize_counter (address : UInt32) : tokenize ("pc=$" ++ Text.hex address) =
    .ok ⟨counterText address, [.word ['p', 'c']] ++
      .compare .equal :: [.word ('$' :: (Text.hex address).toList)]⟩ := by
  have htext : "pc=$" ++ Text.hex address = "pc" ++ "=" ++ ("$" ++ Text.hex address) := by
    rw [← String.append_assoc]
    rfl
  have hword : ∀ c ∈ '$' :: (Text.hex address).toList, isWordChar c = true := by
    rw [List.forall_mem_cons]
    exact ⟨rfl, fun c hc => isWordChar_of_isDigit (Text.isDigit_of_mem_hex hc)⟩
  have hright : Token.ofText 0 ("$" ++ Text.hex address).toList =
      .ok [.word ('$' :: (Text.hex address).toList)] := by
    rw [String.toList_append]
    exact Token.ofText_letters hword (List.cons_ne_nil _ _) 0
  have hjoin : String.ofList (Token.join ([.word ['p', 'c']] ++
      .compare .equal :: [.word ('$' :: (Text.hex address).toList)])) = counterText address := by
    apply String.toList_injective
    rw [String.toList_ofList, counterText, String.toList_append]
    rfl
  have hleft : Token.ofText 0 "pc".toList = .ok [.word ['p', 'c']] := by decide
  rw [htext, tokenize_sides hleft hright (fun _ => rfl) (by decide) (by decide), hjoin]

theorem result_parse_counter (scope : Scope) (address : UInt32) :
    (address.toNat < 1 <<< scope.processor.addressBits →
      result (parse scope ("pc=$" ++ Text.hex address)) =
        .ok ⟨counterText address, [counterCondition scope address]⟩) ∧
    (1 <<< scope.processor.addressBits ≤ address.toNat → ∃ e, e.fault = .numberDoesNotFit ∧
      result (parse scope ("pc=$" ++ Text.hex address)) = .error e) := by
  have hresult := result_parse (tokenize_counter address) rfl (reads_counter scope)
    (reads_address scope address)
  rw [refusal?_counter] at hresult
  constructor
  · intro hfits
    rw [if_pos hfits] at hresult
    exact hresult
  · intro hfits
    rw [if_neg (Nat.not_lt.2 hfits)] at hresult
    exact ⟨_, rfl, hresult⟩

end Condition

namespace Breakpoint

/-- A breakpoint at an address: it has one condition, which does not track, and holds just where the
program counter is at the address. -/
structure IsAt (p : Processor) (address : UInt32) (b : Breakpoint) : Prop where
  expression : b.expression = counterText address
  options : b.options = {}
  fresh : b.hits = .zero ∧ b.deleted = false
  condition : ∃ c, b.conditions = [c] ∧ c.tracks = false ∧
    ∀ m : Machine, c.holds m = true ↔ m.register p.counter = address

end Breakpoint

namespace Store

variable {s : Store} {context : Context}

theorem isCondition_counter (address : UInt32) :
    IsCondition ("pc=$" ++ Text.hex address).toList := by
  have hlist : ("pc=$" ++ Text.hex address).toList =
      'p' :: 'c' :: '=' :: '$' :: (Text.hex address).toList := String.toList_append
  have hprintable : ∀ c ∈ (Text.hex address).toList, Printable c := fun c hc =>
    printable_of_isWordChar (isWordChar_of_isDigit (Text.isDigit_of_mem_hex hc))
  rw [hlist]
  refine ⟨⟨rfl, ?_⟩, ?_, rfl, nofun, rfl⟩
  · have hlast : ('p' :: 'c' :: '=' :: '$' :: (Text.hex address).toList).getLast? =
        (Text.hex address).toList.getLast? :=
      List.getLast?_append_of_ne_nil ['p', 'c', '=', '$'] (Text.hex_ne_nil address)
    rw [hlast]
    cases hdigit : (Text.hex address).toList.getLast? with
    | none => rfl
    | some c => exact (hprintable c (List.mem_of_getLast? hdigit)).blank
  · intro hcolon
    have hdigit : ':' ∈ (Text.hex address).toList := by simpa using hcolon
    exact (hprintable ':' hdigit).colon rfl

theorem isAt_newItem (hfits : address.toNat < 1 <<< scope.processor.addressBits) (m : Machine) :
    (BreakpointList.newItem m {} ⟨counterText address,
      [counterCondition scope address]⟩).IsAt scope.processor address where
  expression := rfl
  options := rfl
  fresh := ⟨rfl, rfl⟩
  condition := by
    have hreflexive : (counterCondition scope address).isReflexive = false := by
      rw [isReflexive, counterCondition, compared, settle_counter]
      refine beq_eq_false_iff_ne.2 fun h => ?_
      cases congrArg Value.source h
    refine ⟨counterCondition scope address, ?_, rfl, holds_counterCondition hfits⟩
    rw [BreakpointList.newItem, List.map_singleton, freeze, hreflexive]
    rfl

theorem command_counter (hp : (s.list p).processor = p) (context : Context)
    (hdsp : p = .dsp → context.settings.dspEnabled = true) (address : UInt32) :
    (address.toNat < 1 <<< p.addressBits → ∃ b : Breakpoint, b.IsAt p address ∧
      result (s.command p (some ("pc=$" ++ Text.hex address)) context) =
        .ok ("", s.setList ((s.list p).append b) p)) ∧
    (1 <<< p.addressBits ≤ address.toNat → ∃ e, e.fault = .numberDoesNotFit ∧
      result (s.command p (some ("pc=$" ++ Text.hex address)) context) =
        .error ⟨.condition e, s⟩) := by
  let scope : Scope := ⟨context.machine, p, context.settings.radix⟩
  obtain ⟨haccepted, hrefused⟩ := result_parse_counter scope address
  rw [command_of_isCondition (isCondition_counter address) hdsp]
  constructor
  · intro hfits
    let parsed : Parsed := ⟨counterText address, [counterCondition scope address]⟩
    have hadd : result ((s.list p).add ("pc=$" ++ Text.hex address) {} context.machine
        context.settings.radix) = .ok ((s.list p).size + 1,
          (s.list p).append (BreakpointList.newItem context.machine {} parsed)) :=
      BreakpointList.add_eq_ok.2 ⟨parsed, hp.symm ▸ haccepted hfits, rfl, rfl⟩
    have hat : (BreakpointList.newItem context.machine {} parsed).IsAt scope.processor address :=
      isAt_newItem hfits context.machine
    refine ⟨_, hat, ?_⟩
    rw [add_eq_ok.2 ⟨_, hadd, rfl⟩]
    rfl
  · intro hfits
    obtain ⟨e, hfault, herror⟩ := hrefused hfits
    have hparse : result (parse ⟨context.machine, (s.list p).processor, context.settings.radix⟩
        ("pc=$" ++ Text.hex address)) = .error e := by
      rw [hp]
      exact herror
    refine ⟨e, hfault, ?_⟩
    rw [add_of_parse_error hparse]
    rfl

theorem result_addressCommand {text : String} (hcolon : ':' ∉ text.toList) :
    result (s.addressCommand p text context) =
      match result (Expression.evaluate ⟨context.machine, p, context.settings.radix⟩ text) with
      | .error f => .error ⟨.expression text f, s⟩
      | .ok address =>
        (result (s.command p (some ("pc=$" ++ Text.hex address)) context)).map
          fun r => (address, r.2) := by
  have hsplit : Breakpoint.splitOptions text.toList = (text.toList, none) := by
    rw [Breakpoint.splitOptions, Text.splitFirst_of_not_mem hcolon]
  simp only [addressCommand, hsplit, String.ofList_toList, result_on, outcome_bind,
    outcome_aside, result_adapt, outcome_of, Option.map_none, Option.getD_none,
    String.append_empty]
  cases result (Expression.evaluate ⟨context.machine, p, context.settings.radix⟩ text) with
  | error f => rfl
  | ok address =>
    rw [mapError_ok]
    dsimp only
    rcases result (s.command p (some ("pc=$" ++ Text.hex address)) context) with _ | ⟨_, _⟩ <;> rfl

end Store

end Monitor

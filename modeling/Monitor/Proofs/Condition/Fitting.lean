import Monitor.Proofs.Bits
import Monitor.Proofs.Condition.Sides

namespace Monitor

open Attempt

namespace Value

/-- A bit that is compared: it is within the width and within the mask of a side. -/
def Compares (v : Value) (i : Nat) : Prop :=
  i < v.bits ∧ v.mask.toNat.testBit i = true

/-- A number is what is left of some raw value after the mask. Raw values keep to the width. -/
def CanShow (v : Value) (number : UInt32) : Prop :=
  ∃ raw : UInt32, raw.toNat < 1 <<< v.bits ∧ raw &&& v.mask = number

theorem readRaw_of_number {v : Value} {number : UInt32} (h : v.number? = some number)
    (m : Machine) : v.readRaw m = number := by
  obtain ⟨source, indirect, space, bits, mask⟩ := v
  cases source <;> cases indirect <;> cases h
  rfl

end Value

namespace Condition

variable {scope : Scope} {text : String} {number : UInt32} {v w own other : Value}
  {l r : Written}

theorem testBit_visible (v : Value) (i : Nat) :
    (visible v).toNat.testBit i = true ↔ v.Compares i := by
  rw [visible, UInt32.toNat_and, Nat.testBit_and, testBit_lowBits, Bool.and_eq_true,
    decide_eq_true_iff, Value.Compares]
  refine ⟨fun h => ⟨h.1.1, h.2⟩, fun h => ⟨⟨h.1, ?_⟩, h.2⟩⟩
  by_contra hi
  rw [testBit_eq_false_of_le v.mask (Nat.not_lt.1 hi)] at h
  exact Bool.false_ne_true h.2

theorem visible_and_visible_eq_zero :
    visible v &&& visible w = 0 ↔ ¬∃ i, v.Compares i ∧ w.Compares i := by
  rw [← UInt32.toNat_inj, UInt32.toNat_and]
  constructor
  · rintro h ⟨i, hv, hw⟩
    have hbit := congrArg (·.testBit i) h
    simp [(testBit_visible v i).2 hv, (testBit_visible w i).2 hw] at hbit
  · intro h
    refine Nat.eq_of_testBit_eq fun i => ?_
    rw [Nat.testBit_and, UInt32.toNat_zero, Nat.zero_testBit, Bool.and_eq_false_iff]
    by_contra hboth
    rw [not_or, Bool.not_eq_false, Bool.not_eq_false] at hboth
    exact h ⟨i, (testBit_visible v i).1 hboth.1, (testBit_visible w i).1 hboth.2⟩

theorem canShow_iff : v.CanShow number ↔ number &&& visible v = number := by
  rw [visible, and_and_eq_self_iff]
  constructor
  · rintro ⟨raw, hraw, rfl⟩
    have hwidth : raw &&& lowBits v.bits = raw := (and_lowBits_eq_self_iff raw v.bits).2 hraw
    constructor
    · rw [UInt32.and_assoc, UInt32.and_comm v.mask, ← UInt32.and_assoc, hwidth]
    · rw [UInt32.and_assoc, UInt32.and_self]
  · rintro ⟨hwidth, hmask⟩
    exact ⟨number, (and_lowBits_eq_self_iff number v.bits).1 hwidth, hmask⟩

theorem canShow_and (h : v.CanShow number) (mask : UInt32) : v.CanShow (number &&& mask) := by
  rw [canShow_iff] at h ⊢
  rw [UInt32.and_assoc, UInt32.and_comm mask, ← UInt32.and_assoc, h]

theorem checkAgainst_eq_none_iff : checkAgainst v w = none ↔
    (∃ i, v.Compares i ∧ w.Compares i) ∧ ∀ number, w.number? = some number → v.CanShow number := by
  rw [checkAgainst]
  split
  · rename_i hzero
    exact ⟨nofun, fun h => absurd h.1 (visible_and_visible_eq_zero.1 hzero)⟩
  · rename_i hbits
    rw [visible_and_visible_eq_zero, not_not] at hbits
    rw [and_iff_right hbits]
    cases w.number? with
    | none => exact ⟨fun _ => nofun, fun _ => rfl⟩
    | some number => simp [canShow_iff]

def numberRefusal? (number : UInt32) (own other : Value) : Option Fault :=
  if visible own &&& visible other = 0 then some .masksCancel
  else if number &&& visible other = number then none
  else some .numberDoesNotFit

theorem numberRefusal?_eq_masksCancel_iff : numberRefusal? number own other = some .masksCancel ↔
    ¬∃ i, own.Compares i ∧ other.Compares i := by
  rw [← visible_and_visible_eq_zero, numberRefusal?]
  split
  · simp [*]
  · split <;> simp [*]

theorem numberRefusal?_eq_numberDoesNotFit_iff :
    numberRefusal? number own other = some .numberDoesNotFit ↔
      (∃ i, own.Compares i ∧ other.Compares i) ∧ ¬other.CanShow number := by
  rw [← not_not (a := ∃ i, _), ← visible_and_visible_eq_zero, canShow_iff, numberRefusal?]
  split
  · simp [*]
  · split <;> simp [*]

theorem numberRefusal?_eq_none_iff : numberRefusal? number own other = none ↔
    (∃ i, own.Compares i ∧ other.Compares i) ∧ other.CanShow number := by
  rw [← not_not (a := ∃ i, _), ← visible_and_visible_eq_zero, canShow_iff, numberRefusal?]
  split
  · simp [*]
  · split <;> simp [*]

theorem checkAgainst_of_number (h : own.number? = some number) :
    checkAgainst other own = numberRefusal? number own other := by
  rw [checkAgainst, numberRefusal?, h, UInt32.and_comm (visible other)]

theorem checkAgainst_of_none (h : other.number? = none) : checkAgainst own other =
    if visible own &&& visible other = 0 then some .masksCancel else none := by
  rw [checkAgainst, h]

theorem refusal?_number_right (hnumber : r.number? = some number) (hother : l.number? = none) :
    refusal? l r = numberRefusal? number (settle l r).2 (settle l r).1 := by
  have hown : (settle l r).2.number? = some number := hnumber
  have hnone : (settle l r).1.number? = none := hother
  rw [refusal?, checkAgainst_of_number hown, checkAgainst_of_none hnone, numberRefusal?]
  split
  · rfl
  · exact Option.or_none

/-- A number on the left is looked at in the same way, though not before the other side. -/
theorem refusal?_number_left (hnumber : l.number? = some number) (hother : r.number? = none) :
    refusal? l r = numberRefusal? number (settle l r).1 (settle l r).2 := by
  have hown : (settle l r).1.number? = some number := hnumber
  have hnone : (settle l r).2.number? = none := hother
  rw [refusal?, checkAgainst_of_number hown, checkAgainst_of_none hnone, numberRefusal?]
  split <;> rfl

def Refuses (scope : Scope) (text : String) (fault : Fault) : Prop :=
  ∃ e, result (parse scope text) = .error e ∧ e.fault = fault

/-- A text compares a side that is just a number, as symbols are too, with one that is not. Each
side is read alone, and both are settled. -/
inductive ComparesNumber (scope : Scope) (text : String) (number : UInt32) : Value → Value → Prop
  | right {t : Tokenized} {left right : List Token} {comparison : Comparison} {l r : Written}
    (htext : tokenize text = .ok t) (htokens : t.tokens = left ++ .compare comparison :: right)
    (hleft : Written.IsReadFrom scope left l) (hright : Written.IsReadFrom scope right r)
    (hnumber : r.number? = some number) (hother : l.number? = none) :
    ComparesNumber scope text number (settle l r).2 (settle l r).1
  | left {t : Tokenized} {left right : List Token} {comparison : Comparison} {l r : Written}
    (htext : tokenize text = .ok t) (htokens : t.tokens = left ++ .compare comparison :: right)
    (hleft : Written.IsReadFrom scope left l) (hright : Written.IsReadFrom scope right r)
    (hnumber : l.number? = some number) (hother : r.number? = none) :
    ComparesNumber scope text number (settle l r).1 (settle l r).2

/-- A text is one comparison of two sides, whichever of them is written first. -/
def Accepts (scope : Scope) (text : String) (v w : Value) : Prop :=
  ∃ parsed c, result (parse scope text) = .ok parsed ∧ parsed.conditions = [c] ∧
    (c.left = v ∧ c.right = w ∨ c.left = w ∧ c.right = v)

theorem ComparesNumber.result_parse (h : ComparesNumber scope text number own other) :
    match numberRefusal? number own other with
    | some fault => Refuses scope text fault
    | none => Accepts scope text own other := by
  cases h with
  | right htext htokens hleft hright hnumber hother =>
    have hresult := Condition.result_parse htext htokens (Written.isReadFrom_iff.1 hleft)
      (Written.isReadFrom_iff.1 hright)
    rw [refusal?_number_right hnumber hother] at hresult
    split <;> rename_i hrefusal <;> rw [hrefusal] at hresult
    · exact ⟨_, hresult, rfl⟩
    · exact ⟨_, _, hresult, rfl, .inr ⟨rfl, rfl⟩⟩
  | left htext htokens hleft hright hnumber hother =>
    have hresult := Condition.result_parse htext htokens (Written.isReadFrom_iff.1 hleft)
      (Written.isReadFrom_iff.1 hright)
    rw [refusal?_number_left hnumber hother] at hresult
    split <;> rename_i hrefusal <;> rw [hrefusal] at hresult
    · exact ⟨_, hresult, rfl⟩
    · exact ⟨_, _, hresult, rfl, .inl ⟨rfl, rfl⟩⟩

theorem ComparesNumber.refuses_iff (h : ComparesNumber scope text number own other)
    {fault : Fault} : Refuses scope text fault ↔ numberRefusal? number own other = some fault := by
  have hresult := h.result_parse
  cases hrefusal : numberRefusal? number own other with
  | none =>
    rw [hrefusal] at hresult
    obtain ⟨parsed, -, hparsed, -⟩ := hresult
    refine ⟨?_, nofun⟩
    rintro ⟨e, he, -⟩
    cases he.symm.trans hparsed
  | some fault' =>
    rw [hrefusal] at hresult
    constructor
    · rintro ⟨e, he, rfl⟩
      obtain ⟨e', he', rfl⟩ := hresult
      cases he.symm.trans he'
      rfl
    · rintro ⟨⟩
      exact hresult

theorem ComparesNumber.accepts_iff (h : ComparesNumber scope text number own other) :
    (∃ parsed, result (parse scope text) = .ok parsed) ↔ numberRefusal? number own other = none := by
  have hresult := h.result_parse
  cases hrefusal : numberRefusal? number own other with
  | none =>
    rw [hrefusal] at hresult
    obtain ⟨parsed, -, hparsed, -⟩ := hresult
    exact ⟨fun _ => rfl, fun _ => ⟨parsed, hparsed⟩⟩
  | some fault =>
    rw [hrefusal] at hresult
    obtain ⟨e, he, -⟩ := hresult
    refine ⟨?_, nofun⟩
    rintro ⟨parsed, hparsed⟩
    cases he.symm.trans hparsed

theorem ComparesNumber.number? (h : ComparesNumber scope text number own other) :
    own.number? = some number := by
  cases h with
  | right htext htokens hleft hright hnumber hother => exact hnumber
  | left htext htokens hleft hright hnumber hother => exact hnumber

/-- A number is refused for the masks just if no bit is compared on both sides. Else it is refused
for its size just if the other side can never show it. What is not refused can come to hold. -/
theorem refuses_number_iff (h : ComparesNumber scope text number own other) :
    (Refuses scope text .masksCancel ↔ ¬∃ i, own.Compares i ∧ other.Compares i) ∧
    ((∃ i, own.Compares i ∧ other.Compares i) →
      (Refuses scope text .numberDoesNotFit ↔ ¬other.CanShow number)) ∧
    ((∃ parsed, result (parse scope text) = .ok parsed) ↔
      (∃ i, own.Compares i ∧ other.Compares i) ∧ other.CanShow number) ∧
    ∀ parsed, result (parse scope text) = .ok parsed →
      Accepts scope text own other ∧ ∀ m, other.CanShow (own.read m) := by
  refine ⟨?_, fun hbits => ?_, ?_, fun parsed hparsed => ?_⟩
  · rw [h.refuses_iff, numberRefusal?_eq_masksCancel_iff]
  · rw [h.refuses_iff, numberRefusal?_eq_numberDoesNotFit_iff, and_iff_right hbits]
  · rw [h.accepts_iff, numberRefusal?_eq_none_iff]
  · have hnone := h.accepts_iff.1 ⟨parsed, hparsed⟩
    have hresult := h.result_parse
    rw [hnone] at hresult
    refine ⟨hresult, fun m => ?_⟩
    rw [Value.read, Value.readRaw_of_number h.number? m]
    exact canShow_and (numberRefusal?_eq_none_iff.1 hnone).2 own.mask

theorem refuses_masked_digit :
    ComparesNumber ⟨Machine.ofRam 16, .cpu, .hexadecimal⟩ "(8).w & ff0 = 55" 0x55
      ⟨.literal 0x55, false, none, 16, 0xff0⟩ ⟨.literal 8, true, none, 16, 0xff0⟩ ∧
    Refuses ⟨Machine.ofRam 16, .cpu, .hexadecimal⟩ "(8).w & ff0 = 55" .numberDoesNotFit := by
  have htext : tokenize "(8).w & ff0 = 55" = .ok ⟨"( 8 ) . w & ff0 = 55",
      [.opening, .word ['8'], .closing, .dot, .word ['w'], .mask, .word ['f', 'f', '0']] ++
        .compare .equal :: [.word ['5', '5']]⟩ := by decide +kernel
  have hleft : Written.IsReadFrom ⟨Machine.ofRam 16, .cpu, .hexadecimal⟩
      [.opening, .word ['8'], .closing, .dot, .word ['w'], .mask, .word ['f', 'f', '0']]
      ⟨.literal 8, true, none, some 16, some 0xff0⟩ := by
    unfold Written.IsReadFrom
    decide +kernel
  have hright : Written.IsReadFrom ⟨Machine.ofRam 16, .cpu, .hexadecimal⟩ [.word ['5', '5']]
      ⟨.literal 0x55, false, none, none, none⟩ := by
    unfold Written.IsReadFrom
    decide +kernel
  have hcompares := ComparesNumber.right htext rfl hleft hright rfl rfl
  refine ⟨hcompares, ((refuses_number_iff hcompares).2.1 ⟨4, ?_⟩).2 ?_⟩
  · unfold Value.Compares
    decide +kernel
  · rw [canShow_iff]
    decide +kernel

end Condition

end Monitor

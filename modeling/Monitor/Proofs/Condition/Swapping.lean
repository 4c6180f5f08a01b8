import Monitor.Proofs.Condition.Fitting
import Monitor.Proofs.Condition.Soundness

namespace Monitor.Condition

open Attempt

variable {scope : Scope} {left right : List Token} {l r : Written} {wl wr : Nat} {a b : String}
  {v w : Value} {parsed : Parsed}

namespace Written

/-- Two sides without masks, each with a width of its own, and not the same one. -/
structure Disparate (l r : Written) (wl wr : Nat) : Prop where
  masks : l.mask = none ∧ r.mask = none
  left : l.bits = some wl
  right : r.bits = some wr
  differ : wl ≠ wr

theorem Disparate.symm (h : Disparate l r wl wr) : Disparate r l wr wl :=
  ⟨h.masks.symm, h.right, h.left, h.differ.symm⟩

def raw (w : Written) (bits : Nat) (m : Machine) : UInt32 :=
  Value.readRaw m ⟨w.source, w.indirect, w.space, bits, 0⟩

theorem Reads.isSome_space_eq (hl : Reads scope left l) (hr : Reads scope right r) :
    l.space.isSome = r.space.isSome :=
  Bool.eq_iff_iff.2 (hl.sound.space.trans hr.sound.space.symm)

theorem bits_pos {processor : Processor} {bits : Nat} (h : bits ∈ widths processor) :
    0 < bits := by
  revert bits
  cases processor <;> decide

end Written

/-- Sides are settled alike in both orders, unless each has a width that the other lacks and there
is no mask. Then the right side takes over the mask that the left side gets for its width. -/
theorem settle_swap (hspace : l.space.isSome = r.space.isSome)
    (h : ∀ wl wr, ¬Written.Disparate l r wl wr) : settle r l = (settle l r).swap := by
  obtain ⟨ls, li, lspace, lbits, lmask⟩ := l
  obtain ⟨rs, ri, rspace, rbits, rmask⟩ := r
  cases lbits with
  | none => cases rbits <;> cases lmask <;> cases rmask <;> simp_all [settle]
  | some wl =>
    cases rbits with
    | none => cases lmask <;> cases rmask <;> simp_all [settle]
    | some wr =>
      cases lmask with
      | some => cases rmask <;> simp_all [settle]
      | none =>
        cases rmask with
        | some => simp_all [settle]
        | none =>
          have hsame : wl = wr := by
            by_contra hdiffer
            exact h wl wr ⟨⟨rfl, rfl⟩, rfl, rfl, hdiffer⟩
          subst hsame
          rfl

theorem holds_compared_swap (hswap : settle r l = (settle l r).swap) (m : Machine) :
    (compared r .equal l).holds m = (compared l .equal r).holds m := by
  rw [holds, holds, compared, compared, hswap]
  exact Bool.beq_comm

theorem refusal?_swap (hswap : settle r l = (settle l r).swap) :
    refusal? r l = none ↔ refusal? l r = none := by
  rw [refusal?, refusal?, hswap, Option.or_eq_none_iff, Option.or_eq_none_iff]
  exact and_comm

/-- An equality of two texts is read and holds just when it does with the texts exchanged. -/
structure OrderFree (scope : Scope) (a b : String) : Prop where
  reads : (∃ p, result (parse scope (a ++ " = " ++ b)) = .ok p) ↔
    ∃ q, result (parse scope (b ++ " = " ++ a)) = .ok q
  holds : ∀ p q, result (parse scope (a ++ " = " ++ b)) = .ok p →
    result (parse scope (b ++ " = " ++ a)) = .ok q → ∃ c d, p.conditions = [c] ∧
      q.conditions = [d] ∧ c.tracks = false ∧ d.tracks = false ∧ ∀ m, c.holds m = d.holds m

theorem parse_equal_iff (ha : WritesSide a left) (hb : WritesSide b right) :
    result (parse scope (a ++ " = " ++ b)) = .ok parsed ↔ ∃ l r, Written.Reads scope left l ∧
      Written.Reads scope right r ∧ refusal? l r = none ∧
        parsed = ⟨String.ofList (Token.join (left ++ .compare .equal :: right)),
          [compared l .equal r]⟩ :=
  parse_sides_iff
    (tokenize_sides ha.ofText hb.ofText (fun _ => rfl) (by decide) (by decide)) rfl ha.side hb.side

theorem reads_swap (ha : WritesSide a left) (hb : WritesSide b right)
    (hsame : ∀ l r wl wr, Written.Reads scope left l → Written.Reads scope right r →
      ¬Written.Disparate l r wl wr)
    (h : ∃ p, result (parse scope (a ++ " = " ++ b)) = .ok p) :
    ∃ q, result (parse scope (b ++ " = " ++ a)) = .ok q := by
  obtain ⟨p, hp⟩ := h
  obtain ⟨l, r, hl, hr, hrefusal, -⟩ := (parse_equal_iff ha hb).1 hp
  have hswap := settle_swap (hl.isSome_space_eq hr) fun wl wr => hsame l r wl wr hl hr
  exact ⟨_, (parse_equal_iff hb ha).2 ⟨r, l, hr, hl, (refusal?_swap hswap).2 hrefusal, rfl⟩⟩

theorem orderFree_of_not_disparate (ha : WritesSide a left) (hb : WritesSide b right)
    (hsame : ∀ l r wl wr, Written.Reads scope left l → Written.Reads scope right r →
      ¬Written.Disparate l r wl wr) : OrderFree scope a b where
  reads :=
    ⟨reads_swap ha hb hsame,
      reads_swap hb ha fun r l wr wl hr hl h => hsame l r wl wr hl hr h.symm⟩
  holds := by
    intro p q hp hq
    obtain ⟨l, r, hl, hr, -, rfl⟩ := (parse_equal_iff ha hb).1 hp
    obtain ⟨r', l', hr', hl', -, rfl⟩ := (parse_equal_iff hb ha).1 hq
    cases hl.unique hl'
    cases hr.unique hr'
    have hswap := settle_swap (hl.isSome_space_eq hr) fun wl wr => hsame l r wl wr hl hr
    exact ⟨_, _, rfl, rfl, rfl, rfl, fun m => (holds_compared_swap hswap m).symm⟩

theorem settle_of_disparate (h : Written.Disparate l r wl wr) :
    settle l r = (⟨l.source, l.indirect, l.space, wl, lowBits wl⟩,
      ⟨r.source, r.indirect, r.space, wr, lowBits wl⟩) := by
  simp [settle, h.masks.1, h.masks.2, h.left, h.right]

theorem refusal?_of_disparate (h : Written.Disparate l r wl wr) (hwl : 0 < wl) (hwr : 0 < wr) :
    refusal? l r = none ↔ (∀ number, r.number? = some number → number.toNat < 1 <<< wl) ∧
      ∀ number, l.number? = some number → number.toNat < 1 <<< wl ∧ number.toNat < 1 <<< wr := by
  have hmask : (lowBits wl).toNat.testBit 0 = true := by
    rw [testBit_lowBits]
    exact decide_eq_true ⟨hwl, by decide⟩
  have hleft : (settle l r).1.Compares 0 := by
    rw [settle_of_disparate h]
    exact ⟨hwl, hmask⟩
  have hright : (settle l r).2.Compares 0 := by
    rw [settle_of_disparate h]
    exact ⟨hwr, hmask⟩
  have hlnumber : (settle l r).1.number? = l.number? := rfl
  have hrnumber : (settle l r).2.number? = r.number? := rfl
  have hlshow (number : UInt32) : (settle l r).1.CanShow number ↔ number.toNat < 1 <<< wl := by
    rw [settle_of_disparate h, canShow_iff, visible, UInt32.and_self, and_lowBits_eq_self_iff]
  have hrshow (number : UInt32) : (settle l r).2.CanShow number ↔
      number.toNat < 1 <<< wl ∧ number.toNat < 1 <<< wr := by
    rw [settle_of_disparate h, canShow_iff, visible, and_and_eq_self_iff, and_lowBits_eq_self_iff,
      and_lowBits_eq_self_iff]
    exact and_comm
  rw [refusal?, Option.or_eq_none_iff, checkAgainst_eq_none_iff, checkAgainst_eq_none_iff]
  simp only [hlnumber, hrnumber, hlshow, hrshow]
  constructor
  · rintro ⟨⟨-, hr⟩, -, hl⟩
    exact ⟨hr, hl⟩
  · rintro ⟨hr, hl⟩
    exact ⟨⟨⟨0, hleft, hright⟩, hr⟩, ⟨0, hright, hleft⟩, hl⟩

theorem holds_of_disparate (h : Written.Disparate l r wl wr) (m : Machine) :
    (compared l .equal r).holds m = true ↔
      (l.raw wl m).toNat % 1 <<< wl = (r.raw wr m).toNat % 1 <<< wl := by
  rw [holds, compared, settle_of_disparate h]
  refine beq_iff_eq.trans ?_
  rw [← UInt32.toNat_inj, Value.read, Value.read, toNat_and_lowBits, toNat_and_lowBits]
  exact Iff.rfl

/-- The order of the sides of an equality makes no difference, unless they are disparate. Disparate
sides are compared in the width of the left one, and a number has to be within it, too. -/
theorem equal_swapped (ha : WritesSide a left) (hb : WritesSide b right) :
    ((∀ l r wl wr, Written.IsReadFrom scope left l → Written.IsReadFrom scope right r →
      ¬Written.Disparate l r wl wr) → OrderFree scope a b) ∧
    ∀ l r wl wr, Written.IsReadFrom scope left l → Written.IsReadFrom scope right r →
      Written.Disparate l r wl wr →
        ((∃ p, result (parse scope (a ++ " = " ++ b)) = .ok p) ↔
          (∀ number, r.number? = some number → number.toNat < 1 <<< wl) ∧
          ∀ number, l.number? = some number →
            number.toNat < 1 <<< wl ∧ number.toNat < 1 <<< wr) ∧
        ∀ p, result (parse scope (a ++ " = " ++ b)) = .ok p → ∃ c, p.conditions = [c] ∧
          c.tracks = false ∧ ∀ m, c.holds m = true ↔
            (l.raw wl m).toNat % 1 <<< wl = (r.raw wr m).toNat % 1 <<< wl := by
  simp only [Written.isReadFrom_iff]
  refine ⟨orderFree_of_not_disparate ha hb, fun l r wl wr hl hr h => ?_⟩
  have hwl := Written.bits_pos (hl.sound.bits wl h.left)
  have hwr := Written.bits_pos (hr.sound.bits wr h.right)
  constructor
  · rw [← refusal?_of_disparate h hwl hwr]
    constructor
    · rintro ⟨p, hp⟩
      obtain ⟨l', r', hl', hr', hrefusal, -⟩ := (parse_equal_iff ha hb).1 hp
      cases hl.unique hl'
      cases hr.unique hr'
      exact hrefusal
    · intro hrefusal
      exact ⟨_, (parse_equal_iff ha hb).2 ⟨l, r, hl, hr, hrefusal, rfl⟩⟩
  · intro p hp
    obtain ⟨l', r', hl', hr', -, rfl⟩ := (parse_equal_iff ha hb).1 hp
    cases hl.unique hl'
    cases hr.unique hr'
    exact ⟨_, rfl, rfl, holds_of_disparate h⟩

theorem orderFree_masked :
    OrderFree ⟨Machine.ofRam 16, .cpu, .hexadecimal⟩ "(8).w" "HBL & ff0" ∧
      ∃ p, result (parse ⟨Machine.ofRam 16, .cpu, .hexadecimal⟩ "(8).w = HBL & ff0") = .ok p := by
  have hleft : WritesSide "(8).w" [.opening, .word ['8'], .closing, .dot, .word ['w']] :=
    ⟨by decide +kernel, .bare (.modified ['8'] ['w'])⟩
  have hright : WritesSide "HBL & ff0" [.word ['H', 'B', 'L'], .mask, .word ['f', 'f', '0']] :=
    ⟨by decide +kernel, .masked (.word ['H', 'B', 'L']) ['f', 'f', '0']⟩
  refine ⟨(equal_swapped hleft hright).1 fun l r wl wr hl hr h => ?_, ?_⟩
  · have hmask : Written.IsReadFrom ⟨Machine.ofRam 16, .cpu, .hexadecimal⟩
        [.word ['H', 'B', 'L'], .mask, .word ['f', 'f', '0']]
        ⟨.variable .hbl, false, none, some 32, some 0xff0⟩ := by
      unfold Written.IsReadFrom
      decide +kernel
    cases (Written.isReadFrom_iff.1 hr).unique (Written.isReadFrom_iff.1 hmask)
    cases h.masks.2
  · refine ⟨⟨"( 8 ) . w = HBL & ff0", [⟨⟨.literal 8, true, none, 16, 0xff0⟩, .equal,
      ⟨.variable .hbl, false, none, 32, 0xff0⟩, false⟩]⟩, ?_⟩
    decide +kernel

/-- A counter of 32 bits whose low half is zero is equal to a register of 16 bits that is zero, but
the register is not equal to the counter. -/
theorem not_orderFree_counter :
    ¬OrderFree ⟨Machine.ofRam 16, .cpu, .hexadecimal⟩ "sr" "HBL" := by
  intro h
  have hsr : result (parse ⟨Machine.ofRam 16, .cpu, .hexadecimal⟩ "sr = HBL") = .ok ⟨"sr = HBL",
      [⟨⟨.register (.cpu .sr), false, none, 16, 0xffff⟩, .equal,
        ⟨.variable .hbl, false, none, 32, 0xffff⟩, false⟩]⟩ := by decide +kernel
  have hhbl : result (parse ⟨Machine.ofRam 16, .cpu, .hexadecimal⟩ "HBL = sr") = .ok ⟨"HBL = sr",
      [⟨⟨.variable .hbl, false, none, 32, 0xffffffff⟩, .equal,
        ⟨.register (.cpu .sr), false, none, 16, 0xffffffff⟩, false⟩]⟩ := by decide +kernel
  obtain ⟨c, d, hc, hd, -, -, hsame⟩ := h.holds _ _ hsr hhbl
  cases hc
  cases hd
  have hregister : { Machine.ofRam 16 with hbl := 0x10000 }.register (.cpu .sr) = 0 :=
    Std.HashMap.getD_empty
  have hdiffer := hsame { Machine.ofRam 16 with hbl := 0x10000 }
  simp only [holds, Value.read, Value.readRaw, Source.read, hregister] at hdiffer
  exact absurd hdiffer (by decide)

end Monitor.Condition

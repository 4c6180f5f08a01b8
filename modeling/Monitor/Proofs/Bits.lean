import Monitor.Machine.Processor

namespace Monitor

theorem toNat_lowBits {bits : Nat} (h : bits < 32) : (lowBits bits).toNat = 1 <<< bits - 1 := by
  have hlt : 2 ^ bits < 2 ^ 32 := Nat.pow_lt_pow_right (by decide) h
  rw [lowBits, if_neg (by omega), UInt32.toNat_ofNat', Nat.one_shiftLeft]
  exact Nat.mod_eq_of_lt (by omega)

theorem testBit_lowBits (bits i : Nat) :
    (lowBits bits).toNat.testBit i = decide (i < bits ∧ i < 32) := by
  by_cases h : bits < 32
  · rw [toNat_lowBits h, Nat.one_shiftLeft, Nat.testBit_two_pow_sub_one]
    exact decide_eq_decide.2 (by omega)
  · have hall : (lowBits bits).toNat = 2 ^ 32 - 1 := by
      rw [lowBits, if_pos (by omega)]
      rfl
    rw [hall, Nat.testBit_two_pow_sub_one]
    exact decide_eq_decide.2 (by omega)

theorem testBit_eq_false_of_le (n : UInt32) {i : Nat} (h : 32 ≤ i) :
    n.toNat.testBit i = false := by
  apply Nat.testBit_lt_two_pow
  exact Nat.lt_of_lt_of_le n.toNat_lt (Nat.pow_le_pow_right (by decide) h)

/-- The low bits of a number are what is left over when it is divided by a power of two. -/
theorem toNat_and_lowBits (n : UInt32) (bits : Nat) :
    (n &&& lowBits bits).toNat = n.toNat % 1 <<< bits := by
  rw [UInt32.toNat_and, Nat.one_shiftLeft]
  refine Nat.eq_of_testBit_eq fun i => ?_
  rw [Nat.testBit_and, testBit_lowBits, Nat.testBit_mod_two_pow]
  by_cases hi : i < 32
  · simp [hi, Bool.and_comm]
  · rw [testBit_eq_false_of_le n (by omega), Bool.false_and, Bool.and_false]

/-- The numbers that a width leaves as they are are those below its power of two. -/
theorem and_lowBits_eq_self_iff (n : UInt32) (bits : Nat) :
    n &&& lowBits bits = n ↔ n.toNat < 1 <<< bits := by
  rw [← UInt32.toNat_inj, toNat_and_lowBits, Nat.one_shiftLeft]
  exact Nat.mod_eq_iff_lt (Nat.ne_of_gt (Nat.two_pow_pos bits))

theorem and_and_eq_self_iff (n a b : UInt32) : n &&& (a &&& b) = n ↔ n &&& a = n ∧ n &&& b = n := by
  constructor
  · intro h
    constructor
    · rw [← h, UInt32.and_assoc, UInt32.and_comm (a &&& b), ← UInt32.and_assoc a, UInt32.and_self]
    · rw [← h, UInt32.and_assoc, UInt32.and_assoc a, UInt32.and_self]
  · rintro ⟨ha, hb⟩
    rw [← UInt32.and_assoc, ha, hb]

end Monitor

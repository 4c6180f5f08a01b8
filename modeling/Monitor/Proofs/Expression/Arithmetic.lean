import Mathlib.Algebra.Order.Ring.Int
import Mathlib.Tactic.Positivity
import Monitor.Proofs.Expression.Grammar

namespace Monitor.Expression

theorem toNat_shiftAmount {b : Int64} (h0 : 0 ≤ b.toInt) (h : b.toInt < 64) :
    (b.toBitVec.smod 64#64).toNat = b.toInt.toNat := by
  have h1 : (b.toBitVec.smod 64#64).toInt = b.toInt := by
    rw [BitVec.toInt_smod]
    change b.toInt.fmod 64 = b.toInt
    rw [Int.fmod_eq_emod_of_nonneg _ (by decide), Int.emod_eq_of_lt h0 h]
  have h2 : (b.toBitVec.smod 64#64).msb = false := by
    rw [BitVec.msb_eq_toInt, h1]
    simpa using h0
  rw [← h1, BitVec.toInt_eq_toNat_of_msb h2, Int.toNat_natCast]

theorem shiftRight_eq_ofInt {a b : Int64} (h0 : 0 ≤ b.toInt) (h : b.toInt < 64) :
    a >>> b = .ofInt (a.toInt / 2 ^ b.toInt.toNat) := by
  have hs : (a >>> b).toInt = a.toInt >>> b.toInt.toNat := by
    rw [← toNat_shiftAmount h0 h]
    exact BitVec.toInt_sshiftRight
  rw [← Int64.ofInt_toInt (a >>> b), hs, Int.shiftRight_eq_div_pow]
  norm_cast

theorem shiftLeft_eq_ofInt {a b : Int64} (h0 : 0 ≤ b.toInt) (h : b.toInt < 64) :
    a <<< b = .ofInt (a.toInt * 2 ^ b.toInt.toNat) := by
  have hs : (a <<< b).toInt = (a.toBitVec <<< b.toInt.toNat).toInt := by
    rw [← toNat_shiftAmount h0 h]
    rfl
  have ha : a.toInt = (a.toBitVec.toNat : Int).bmod (2 ^ 64) := BitVec.toInt_eq_toNat_bmod _
  apply Int64.toInt_inj.1
  rw [hs, ha, Int64.toInt_ofInt, BitVec.toInt_shiftLeft, Nat.shiftLeft_eq]
  push_cast
  exact Int.bmod_mul_bmod.symm

theorem pow_dvd_of_le_amount {b : Int64} (h : 64 ≤ b) :
    (2 ^ 64 : Int) ∣ 2 ^ b.toInt.toNat := by
  have hb : (64 : Int) ≤ b.toInt := Int64.le_iff_toInt_le.1 h
  exact pow_dvd_pow 2 (by omega)

theorem shiftRightBy_eq_ofInt {a b : Int64} (h : 0 ≤ b.toInt) :
    Operator.shiftRightBy a b = .ofInt (a.toInt / 2 ^ b.toInt.toNat) := by
  unfold Operator.shiftRightBy
  split
  · rename_i h64
    have hp := Int.le_of_dvd (by positivity) (pow_dvd_of_le_amount h64)
    have hl := a.le_toInt
    have hu := a.toInt_lt
    generalize (2 : Int) ^ b.toInt.toNat = p at hp
    by_cases ha : a < 0
    · have h0 : a.toInt < 0 := Int64.lt_iff_toInt_lt.1 ha
      rw [if_pos ha, Int.ediv_eq_neg_one_of_neg_of_le h0 (by omega)]
      rfl
    · have h0 : 0 ≤ a.toInt := Int.not_lt.1 fun hn => ha (Int64.lt_iff_toInt_lt.2 hn)
      rw [if_neg ha, Int.ediv_eq_zero_of_lt h0 (by omega)]
      rfl
  · rename_i h64
    exact shiftRight_eq_ofInt h (Int.not_le.1 fun hn => h64 (Int64.le_iff_toInt_le.2 hn))

theorem shiftLeftBy_eq_ofInt {a b : Int64} (h : 0 ≤ b.toInt) :
    Operator.shiftLeftBy a b = .ofInt (a.toInt * 2 ^ b.toInt.toNat) := by
  unfold Operator.shiftLeftBy
  split
  · rename_i h64
    apply Int64.toInt_inj.1
    rw [Int64.toInt_ofInt]
    exact (Int.bmod_eq_zero_of_dvd ((pow_dvd_of_le_amount h64).mul_left _)).symm
  · rename_i h64
    exact shiftLeft_eq_ofInt h (Int.not_le.1 fun hn => h64 (Int64.le_iff_toInt_le.2 hn))

/-- Operators compute their exact results modulo 2^64. -/
theorem Operator.apply_eq_meaning (op : Operator) (a b : Int64) :
    op.apply a b = (op.meaning? a b).elim (.error .undefined) .ok := by
  have hneg : b < 0 ↔ b.toInt < 0 := Int64.lt_iff_toInt_lt
  have hzero : b = 0 ↔ b.toInt = 0 := Int64.toInt_inj.symm
  cases op with
  | or | and | xor => rfl
  | add | subtract | multiply => simp [Operator.apply, Operator.meaning?]
  | shiftRight =>
    by_cases h : b.toInt < 0
    · simp [Operator.apply, Operator.meaning?, hneg, h]
    · simp [Operator.apply, Operator.meaning?, hneg, h, shiftRightBy_eq_ofInt (Int.not_lt.1 h)]
  | shiftLeft =>
    by_cases h : b.toInt < 0
    · simp [Operator.apply, Operator.meaning?, hneg, h]
    · simp [Operator.apply, Operator.meaning?, hneg, h, shiftLeftBy_eq_ofInt (Int.not_lt.1 h)]
  | divide =>
    by_cases h : b.toInt = 0
    · simp [Operator.apply, Operator.meaning?, hzero, h]
    · have hd : a / b = .ofInt (a.toInt.tdiv b.toInt) := Int64.toInt_inj.1 (by simp [Int64.size])
      simp only [Operator.apply, Operator.meaning?, hzero, h, if_false, hd]
      rfl

theorem Sign.apply_eq_meaning (sign : Sign) (a : Int64) : sign.apply a = sign.meaning a := by
  cases sign with
  | negate => simp [Sign.apply, Sign.meaning]
  | complement =>
    simp only [Sign.apply, Sign.meaning, Int64.not_eq_neg_add, Int64.ofInt_sub, Int64.ofInt_neg,
      Int64.ofInt_toInt]
    rfl

theorem toUInt32_toUInt64 (a : Int64) : a.toUInt64.toUInt32 = .ofInt a.toInt := by
  have ha : a.toInt = _ := BitVec.toInt_eq_toNat_cond a.toBitVec
  have hn : a.toUInt64.toNat = a.toBitVec.toNat := rfl
  apply UInt32.toNat_inj.1
  rw [UInt64.toNat_toUInt32, UInt32.ofInt, UInt32.toNat_ofNat', hn, ha]
  have := a.toBitVec.isLt
  split <;> omega

theorem toInt64_toUInt64 (n : UInt32) : n.toUInt64.toInt64 = .ofInt n.toNat := by
  apply Int64.toBitVec_inj.1
  apply BitVec.eq_of_toNat_eq
  simp

theorem read_long (m : Memory) (address : UInt32) :
    (m.read address .long).toNat = longAt m address := by
  have h0 := (m.peek address).toNat_lt
  have h1 := (m.peek (address + 1)).toNat_lt
  have h2 := (m.peek (address + 2)).toNat_lt
  have h3 := (m.peek (address + 3)).toNat_lt
  simp only [Memory.read, Width.size, Memory.readBytes, longAt]
  simp
  omega

end Monitor.Expression

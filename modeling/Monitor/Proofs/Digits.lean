import Mathlib.Data.List.TakeWhile
import Monitor.Numeral

namespace Monitor

namespace Text

variable {radix n d : Nat} {c : Char}

theorem digit?_digitChar (hradix : radix ≤ 16) (hd : d < radix) :
    digit? radix (Nat.digitChar d) = some d := by
  have hvalue : ∀ d < 16, digitValue? (Nat.digitChar d) = some d := by decide
  rw [digit?, hvalue d (Nat.lt_of_lt_of_le hd hradix)]
  exact Option.filter_some_pos (decide_eq_true hd)

theorem ofDigits_append (radix : Nat) (cs : List Char) (c : Char) :
    ofDigits radix (cs ++ [c]) = ofDigits radix cs * radix + (digit? radix c).getD 0 :=
  List.foldl_append

theorem isDigit_of_mem_toDigits (hone : 1 < radix) (hradix : radix ≤ 16)
    (h : c ∈ Nat.toDigits radix n) : isDigit radix c = true := by
  -- The last digit comes off the end, and the others write a smaller number.
  induction n using Nat.strongRecOn with
  | ind n ih =>
    rw [Nat.toDigits_eq_if hone] at h
    split at h
    · rename_i hn
      rw [List.mem_singleton.1 h, isDigit, digit?_digitChar hradix hn]
      rfl
    · rename_i hn
      rcases List.mem_append.1 h with h | h
      · exact ih _ (Nat.div_lt_self (by omega) hone) h
      · rw [List.mem_singleton.1 h, isDigit,
          digit?_digitChar hradix (Nat.mod_lt n (by omega))]
        rfl

theorem ofDigits_toDigits (hone : 1 < radix) (hradix : radix ≤ 16) (n : Nat) :
    ofDigits radix (Nat.toDigits radix n) = n := by
  induction n using Nat.strongRecOn with
  | ind n ih =>
    rw [Nat.toDigits_eq_if hone]
    split
    · rename_i hn
      rw [← List.nil_append [n.digitChar], ofDigits_append, digit?_digitChar hradix hn]
      exact (congrArg (· + n) (Nat.zero_mul radix)).trans (Nat.zero_add n)
    · rw [ofDigits_append, ih _ (Nat.div_lt_self (by omega) hone),
        digit?_digitChar hradix (Nat.mod_lt n (by omega))]
      exact Nat.div_add_mod' n radix

theorem toList_hex (n : UInt32) : (hex n).toList = Nat.toDigits 16 n.toNat :=
  String.toList_ofList

theorem isDigit_of_mem_hex {n : UInt32} (h : c ∈ (hex n).toList) : isDigit 16 c = true := by
  rw [toList_hex] at h
  exact isDigit_of_mem_toDigits (by decide) (by decide) h

theorem hex_ne_nil (n : UInt32) : (hex n).toList ≠ [] := by
  rw [toList_hex]
  exact Nat.toDigits_ne_nil

end Text

/-- A number is read back from its hexadecimal digits behind a dollar, whatever the radix is of
numbers without a marker. -/
theorem Numeral.read_hex (radix : Nat) (n : UInt32) :
    Numeral.read radix ('$' :: (Text.hex n).toList) = .ok n := by
  have hdigits : (Text.hex n).toList.takeWhile (Text.isDigit 16) = (Text.hex n).toList :=
    List.takeWhile_eq_self_iff.2 fun c hc => Text.isDigit_of_mem_hex hc
  have hvalue : Text.ofDigits 16 (Text.hex n).toList = n.toNat := by
    rw [Text.toList_hex, Text.ofDigits_toDigits (by decide) (by decide)]
  have hfront : readFront radix ('$' :: (Text.hex n).toList) =
      .ok ⟨n, 1 + (Text.hex n).toList.length, 16⟩ := by
    have hempty : (Text.hex n).toList.isEmpty = false :=
      Bool.eq_false_iff.2 fun h => Text.hex_ne_nil n (List.isEmpty_iff.1 h)
    have hsize : ¬UInt32.size ≤ n.toNat := Nat.not_le.2 n.toNat_lt_size
    simp [readFront, marker?, hdigits, hvalue, hempty, hsize]
  rw [read, hfront]
  dsimp only
  rw [if_neg (by simp [Nat.add_comm])]

end Monitor

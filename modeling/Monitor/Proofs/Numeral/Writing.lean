import Mathlib.Data.List.Induction
import Monitor.Proofs.Caret
import Monitor.Proofs.Digits

namespace Monitor.Text

variable {radix n d : Nat} {c : Char} {cs : List Char}

def IsDigitOf (radix : Nat) (c : Char) : Prop :=
  ∃ d < radix, c.toLower = Nat.digitChar d

/-- A run of digits writes a number. Its letters may be of either case, and zeros may stand before
the digits that it takes. -/
def Writes (radix n : Nat) (cs : List Char) : Prop :=
  ∃ zeros, cs.map Char.toLower = List.replicate zeros '0' ++ Nat.toDigits radix n

theorem digitValue?_eq_some_iff (hd : d < 16) :
    digitValue? c = some d ↔ c.toLower = Nat.digitChar d := by
  have hchar : ∀ d < 16, (Nat.digitChar d).toNat = if d < 10 then 48 + d else 87 + d := by decide
  have hlower : ('a' ≤ c && c ≤ 'z') = true ↔ 97 ≤ c.toNat ∧ c.toNat ≤ 122 := by
    rw [Bool.and_eq_true, decide_eq_true_iff, decide_eq_true_iff]
    exact and_congr UInt32.le_iff_toNat_le UInt32.le_iff_toNat_le
  have hupper : ('A' ≤ c && c ≤ 'Z') = true ↔ 65 ≤ c.toNat ∧ c.toNat ≤ 90 := by
    rw [Bool.and_eq_true, decide_eq_true_iff, decide_eq_true_iff]
    exact and_congr UInt32.le_iff_toNat_le UInt32.le_iff_toNat_le
  have hzero : '0'.toNat = 48 ∧ 'a'.toNat = 97 ∧ 'A'.toNat = 65 := by decide
  rw [← Char.toNat_inj, hchar d hd, toNat_toLower, digitValue?]
  simp only [isAsciiDigit_iff, hlower, hupper, hzero]
  split_ifs <;> simp only [Option.some.injEq, false_iff] <;> omega

theorem digit?_eq_some_iff (hradix : radix ≤ 16) :
    digit? radix c = some d ↔ d < radix ∧ c.toLower = Nat.digitChar d := by
  rw [digit?, Option.filter_eq_some_iff, decide_eq_true_iff, and_comm]
  exact and_congr_right fun hd => digitValue?_eq_some_iff (Nat.lt_of_lt_of_le hd hradix)

theorem isDigit_iff (hradix : radix ≤ 16) : isDigit radix c = true ↔ IsDigitOf radix c := by
  rw [isDigit, Option.isSome_iff_exists]
  exact exists_congr fun d => digit?_eq_some_iff hradix

theorem digit?_toLower (hradix : radix ≤ 16) (c : Char) :
    digit? radix c.toLower = digit? radix c := by
  have hlower : c.toLower.toLower = c.toLower := by
    rw [← Char.toNat_inj, toNat_toLower, toNat_toLower]
    split_ifs <;> omega
  refine Option.ext fun d => ?_
  rw [digit?_eq_some_iff hradix, digit?_eq_some_iff hradix, hlower]

theorem ofDigits_map_toLower (hradix : radix ≤ 16) (cs : List Char) :
    ofDigits radix (cs.map Char.toLower) = ofDigits radix cs := by
  rw [ofDigits, List.foldl_map, ofDigits]
  simp only [digit?_toLower hradix]

theorem ofDigits_zeros_append (hradix : 0 < radix) (zeros : Nat) (cs : List Char) :
    ofDigits radix (List.replicate zeros '0' ++ cs) = ofDigits radix cs := by
  induction zeros with
  | zero => rfl
  | succ zeros ih =>
    have hzero : digit? radix '0' = some 0 := Option.filter_some_pos (decide_eq_true hradix)
    rw [← ih, List.replicate_succ, List.cons_append, ofDigits, List.foldl_cons, hzero,
      Nat.zero_mul]
    rfl

theorem Writes.ofDigits_eq (hone : 1 < radix) (hradix : radix ≤ 16) (h : Writes radix n cs) :
    ofDigits radix cs = n := by
  obtain ⟨zeros, hcs⟩ := h
  rw [← ofDigits_map_toLower hradix, hcs, ofDigits_zeros_append (by omega),
    ofDigits_toDigits hone hradix]

theorem Writes.ne_nil (h : Writes radix n cs) : cs ≠ [] := by
  obtain ⟨zeros, hcs⟩ := h
  rintro rfl
  exact Nat.toDigits_ne_nil (List.append_eq_nil_iff.1 hcs.symm).2

theorem Writes.isDigit (hone : 1 < radix) (hradix : radix ≤ 16) (h : Writes radix n cs) :
    ∀ c ∈ cs, isDigit radix c = true := by
  obtain ⟨zeros, hcs⟩ := h
  intro c hc
  have hmem : c.toLower ∈ List.replicate zeros '0' ++ Nat.toDigits radix n :=
    hcs ▸ List.mem_map_of_mem hc
  rw [Text.isDigit, ← digit?_toLower hradix, ← Text.isDigit]
  rcases List.mem_append.1 hmem with hzero | hdigit
  · rw [List.eq_of_mem_replicate hzero, isDigit_iff hradix]
    exact ⟨0, by omega, rfl⟩
  · exact isDigit_of_mem_toDigits hone hradix hdigit

/-- One more digit makes a number as many times larger as the radix says, and adds the digit. -/
theorem Writes.concat (hone : 1 < radix) (h : Writes radix n cs) (hd : d < radix)
    (hc : c.toLower = Nat.digitChar d) : Writes radix (n * radix + d) (cs ++ [c]) := by
  obtain ⟨zeros, hcs⟩ := h
  rcases Nat.eq_zero_or_pos n with rfl | hpos
  · refine ⟨zeros + 1, ?_⟩
    rw [List.map_append, hcs, Nat.toDigits_zero, Nat.zero_mul, Nat.zero_add,
      Nat.toDigits_of_lt_base hd, List.replicate_succ', List.map_singleton, hc]
  · refine ⟨zeros, ?_⟩
    rw [List.map_append, hcs, List.append_assoc, List.map_singleton, hc,
      ← Nat.toDigits_of_lt_base hd, Nat.toDigits_append_toDigits hone hpos hd, Nat.mul_comm n]

theorem writes_ofDigits (hone : 1 < radix) (hradix : radix ≤ 16) (hne : cs ≠ [])
    (h : ∀ c ∈ cs, isDigit radix c = true) : Writes radix (ofDigits radix cs) cs := by
  induction cs using List.reverseRecOn with
  | nil => exact absurd rfl hne
  | append_singleton cs c ih =>
    obtain ⟨d, hd, hc⟩ := (isDigit_iff hradix).1 (h c List.mem_concat_self)
    rw [ofDigits_append, (digit?_eq_some_iff hradix).2 ⟨hd, hc⟩, Option.getD_some]
    cases cs with
    | nil =>
      refine ⟨0, ?_⟩
      rw [ofDigits, List.foldl_nil, Nat.zero_mul, Nat.zero_add, Nat.toDigits_of_lt_base hd,
        List.nil_append, List.map_singleton, hc]
      rfl
    | cons b bs =>
      have hfront := ih (List.cons_ne_nil _ _) fun e he => h e (List.mem_append_left _ he)
      exact hfront.concat hone hd hc

end Monitor.Text

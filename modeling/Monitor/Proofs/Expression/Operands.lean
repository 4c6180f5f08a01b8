import Mathlib.Data.List.TakeWhile
import Monitor.Proofs.Expression.Advance

namespace Monitor

open Attempt Text

theorem takeWhile_closing {p : Char → Bool} (h : p ')' = false) (cs : List Char) :
    (cs ++ [')']).takeWhile p = cs.takeWhile p := by
  induction cs with
  | nil => simp [h]
  | cons c cs ih => rw [List.cons_append, List.takeWhile_cons, List.takeWhile_cons, ih]

namespace Numeral

variable {radix n length : Nat} {cs : List Char} {r : Reading} {value : UInt32}

theorem length_of_marker? (h : marker? radix cs = some (n, length)) : length ≤ cs.length := by
  unfold marker? at h
  repeat' split at h
  all_goals try cases h
  all_goals simp

theorem marker?_closing (hne : cs ≠ []) : marker? radix (cs ++ [')']) = marker? radix cs := by
  obtain ⟨c, cs, rfl⟩ := List.exists_cons_of_ne_nil hne
  cases cs with
  | nil => unfold marker?; split <;> simp_all
  | cons d cs =>
    rw [List.cons_append, List.cons_append]
    unfold marker?
    split
    case h_9 heq =>
      obtain ⟨rfl, rfl⟩ := List.cons.inj heq
      split <;> simp_all
    all_goals simp_all

theorem readFront_ne_nil (h : readFront radix cs = .ok r) : cs ≠ [] := by
  rintro rfl
  cases h

theorem readFront_closing (h : readFront radix cs = .ok r) :
    readFront radix (cs ++ [')']) = .ok r := by
  have hne := readFront_ne_nil h
  rw [readFront, if_neg (by simpa using hne)] at h
  rw [readFront, if_neg (by simp), marker?_closing hne]
  cases hmarker : marker? radix cs with
  | none =>
    rw [hmarker] at h
    cases h
  | some marker =>
    obtain ⟨n, length⟩ := marker
    have hdigits : isDigit n ')' = false := rfl
    rw [hmarker] at h
    dsimp only at h ⊢
    rw [List.drop_append_of_le_length (length_of_marker? hmarker), takeWhile_closing hdigits]
    split at h
    · cases h
    · rename_i hsome
      split at h
      · cases h
      · rename_i hfits
        rw [if_neg hsome, if_neg hfits]
        exact h

theorem length_le_of_readFront (h : readFront radix cs = .ok r) : r.length ≤ cs.length := by
  rw [readFront, if_neg (by simpa using readFront_ne_nil h)] at h
  split at h
  · cases h
  · rename_i n length hmarker
    have hlength := length_of_marker? hmarker
    have hdigits := ((cs.drop length).takeWhile_sublist (isDigit n)).length_le
    rw [List.length_drop] at hdigits
    dsimp only at h
    split at h
    · cases h
    · split at h
      · cases h
      · cases h
        dsimp only
        omega

theorem readFront_of_read (h : read radix cs = .ok value) :
    ∃ n, readFront radix cs = .ok ⟨value, cs.length, n⟩ := by
  rw [read] at h
  split at h
  · cases h
  · rename_i r hfront
    split at h
    · cases h
    · rename_i hlength
      cases h
      have hle := length_le_of_readFront hfront
      have heq : r.length = cs.length := by omega
      exact ⟨r.radix, by rw [hfront, ← heq]⟩

end Numeral

namespace Operand

variable {scope : Scope} {cs : List Char} {value : UInt32} {r : Operand}

theorem readFront_closing (h : readFront scope cs = .ok r) :
    readFront scope (cs ++ [')']) = .ok r := by
  have hname : isNameChar ')' = false := rfl
  rw [readFront] at h ⊢
  rw [takeWhile_closing hname]
  split at h
  · cases h
  · rename_i hshort
    rw [if_neg hshort]
    split at h
    · exact h
    · cases hfront : Numeral.readFront scope.radix.toNat cs with
      | error e =>
        rw [hfront] at h
        cases h
      | ok n =>
        rw [hfront] at h
        rw [Numeral.readFront_closing hfront]
        exact h

theorem readFront_of_value (hname : cs.all isNameChar = true) (hne : cs ≠ [])
    (hshort : cs.length < nameLimit) (h : scope.valueOf? (String.ofList cs) = some value) :
    readFront scope cs = .ok ⟨value, cs.length, none⟩ := by
  have htake : cs.takeWhile isNameChar = cs :=
    List.takeWhile_eq_self_iff.2 (List.all_eq_true.1 hname)
  rw [readFront, htake, if_neg (Nat.not_le.2 hshort), if_neg (by simpa using hne), h]

theorem readFront_of_number (hshort : cs.length < nameLimit)
    (hvalue : cs.takeWhile isNameChar ≠ [] →
      scope.valueOf? (String.ofList (cs.takeWhile isNameChar)) = none)
    (h : Numeral.read scope.radix.toNat cs = .ok value) :
    ∃ n, readFront scope cs = .ok ⟨value, cs.length, some n⟩ := by
  obtain ⟨n, hfront⟩ := Numeral.readFront_of_read h
  have hle := (cs.takeWhile_sublist isNameChar).length_le
  refine ⟨n, ?_⟩
  rw [readFront, if_neg (by omega)]
  have hnone : (if (cs.takeWhile isNameChar).isEmpty = true then none
      else scope.valueOf? (String.ofList (cs.takeWhile isNameChar))) = none := by
    split
    · rfl
    · rename_i hne
      exact hvalue (by simpa using hne)
  rw [hnone, hfront]
  rfl

end Operand

namespace Expression

variable {scope : Scope} {cs : List Char} {r : Operand}

theorem ofInt_toInt64 (n : UInt32) : .ofInt n.toUInt64.toInt64.toInt = n := by
  rw [← toUInt32_toUInt64]
  simp

theorem evaluate_of_advance {ts : List Token} {n : UInt32} (hsplits : Splits scope cs ts)
    (hrun : advance scope.machine {} ts = .ok { operand := some n.toUInt64.toInt64 }) :
    result (evaluate scope (String.ofList cs)) = .ok n := by
  have hfinish : finish { operand := some n.toUInt64.toInt64 } = .ok n.toUInt64.toInt64 := rfl
  have houtcome : outcome scope (String.ofList cs) = .ok n := by
    rw [outcome_eq, String.toList_ofList, tokens_of_splits hsplits, hrun, ok_bind, hfinish,
      ok_bind, ofInt_toInt64]
    rfl
  exact mapError_eq_ok.1 houtcome

theorem evaluate_operand (h : Operand.readFront scope cs = .ok r) (hlength : r.length = cs.length) :
    result (evaluate scope (String.ofList cs)) = .ok r.value := by
  have hrest : Splits scope (cs.drop r.length) [] := by
    rw [hlength, List.drop_length]
    exact .nil
  exact evaluate_of_advance (.operand h hrest) rfl

theorem result_closeLevel_operand (m : Machine) (n : UInt32) :
    result (closeLevel m { outer := [{}], operand := some n.toUInt64.toInt64 }) =
      .ok { operand := some (m.memory.read n .long).toUInt64.toInt64 } := by
  have htotal : Progress.total { outer := [{}], operand := some n.toUInt64.toInt64 }
    n.toUInt64.toInt64 = .ok n.toUInt64.toInt64 := rfl
  have hlong : Int64.ofInt (longAt m.memory (.ofInt n.toUInt64.toInt64.toInt)) =
      (m.memory.read n .long).toUInt64.toInt64 := by
    rw [ofInt_toInt64, toInt64_toUInt64, read_long]
  rw [result_closeLevel rfl rfl, htotal, ok_bind, hlong]
  rfl

/-- An operand in parentheses has the value of the long that it is the address of. -/
theorem evaluate_address (h : Operand.readFront scope cs = .ok r) (hlength : r.length = cs.length) :
    result (evaluate scope (String.ofList ('(' :: (cs ++ [')'])))) =
      .ok (scope.machine.memory.read r.value .long) := by
  have hdrop : (cs ++ [')']).drop r.length = [')'] := by rw [hlength, List.drop_left]
  have hclosing : Splits scope [')'] [.closing] := .symbol (t := .closing) (s := [')']) rfl .nil
  have hinner : Splits scope (cs ++ [')']) [.operand r.value, .closing] :=
    .operand (Operand.readFront_closing h) (by rwa [hdrop])
  have hopen : result (step scope.machine {} .opening) = .ok { outer := [{}] } := rfl
  have hput : result (step scope.machine { outer := [{}] } (.operand r.value)) =
    .ok { outer := [{}], operand := some r.value.toUInt64.toInt64 } := rfl
  refine evaluate_of_advance (.symbol (t := .opening) (s := ['(']) rfl hinner) ?_
  rw [advance_cons, hopen, ok_bind, advance_cons, hput, ok_bind, advance_cons]
  exact bind_eq_ok.2 ⟨_, result_closeLevel_operand scope.machine r.value, rfl⟩

end Expression

end Monitor

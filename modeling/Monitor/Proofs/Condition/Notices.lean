import Monitor.Condition.Parsed
import Monitor.Proofs.Condition.Testing
import Monitor.Proofs.Notices

namespace Monitor.Condition

open Attempt

variable {scope : Scope} {index joints : Nat} {indirect : Bool} {name : String}
  {letters : List Char} {t : Token} {w : Written} {cursor : Cursor}

namespace Written

theorem notices_ofRegister? : (ofRegister? scope indirect name).notices = [] := by
  rw [ofRegister?]
  split
  · rfl
  · rfl
  · split <;> rfl

theorem notices_ofName? : (ofName? scope indirect name).notices = [] := by
  rw [ofName?]
  split
  · rfl
  · rw [Logged.notices_bind, notices_ofRegister?, List.nil_append]
    split <;> rfl

theorem notices_ofWord : notices (ofWord scope indirect index letters) = [] := by
  rw [ofWord]
  split
  · refine notices_bind_eq_nil ((notices_lift _).trans notices_ofName?) fun found => ?_
    cases found <;> rfl
  · split <;> rfl

theorem notices_checkAddress : notices (checkAddress scope index w) = [] := by
  unfold checkAddress
  split
  · split <;> rfl
  · rfl

theorem notices_ofToken : notices (ofToken scope indirect index t) = [] := by
  cases t with
  | word letters =>
    exact notices_bind_eq_nil notices_ofWord fun _ =>
      notices_bind_eq_nil notices_checkAddress fun _ => rfl
  | _ => rfl

theorem notices_readSource : notices (readSource scope cursor) = [] := by
  unfold readSource
  split
  · rfl
  · exact notices_bind_eq_nil notices_ofToken fun _ => rfl
  · exact notices_bind_eq_nil notices_ofToken fun _ => rfl

theorem notices_withMask : notices (w.withMask scope index t) = [] := by
  have hread (x : Attempt Failure Written) (hx : notices x = []) :
      notices (if w.isNumber then do
        Logged.warn "plain numbers shouldn't need masks"
        x else x) = [] := by
    split
    · exact notices_bind_eq_nil rfl fun _ => hx
    · exact hx
  refine hread _ ?_
  split
  · rfl
  · split <;> rfl

theorem notices_readMask : notices (w.readMask scope cursor) = [] := by
  unfold readMask
  split
  · exact notices_bind_eq_nil notices_withMask fun _ => rfl
  · rfl

theorem notices_read : notices (read scope cursor) = [] :=
  notices_bind_eq_nil notices_readSource fun _ =>
    notices_bind_eq_nil rfl fun _ => notices_readMask

end Written

theorem notices_warnOfMask (v : Value) : (warnOfMask v).notices = [] := by
  rw [warnOfMask]
  split <;> rfl

theorem notices_warnOfOddAddress (v : Value) : (warnOfOddAddress v).notices = [] := by
  unfold warnOfOddAddress
  split
  · split <;> rfl
  · rfl

theorem notices_check (index : Nat) (v other : Value) : notices (check index v other) = [] := by
  refine notices_bind_eq_nil ((notices_lift _).trans (notices_warnOfMask v)) fun _ =>
    notices_bind_eq_nil ((notices_lift _).trans (notices_warnOfOddAddress v)) fun _ => ?_
  split <;> rfl

theorem notices_readOne : notices (readOne scope cursor) = [] :=
  notices_bind_eq_nil Written.notices_read fun _ => notices_bind_eq_nil rfl fun _ =>
    notices_bind_eq_nil Written.notices_read fun _ => notices_bind_eq_nil (notices_check ..) fun _ =>
      notices_bind_eq_nil (notices_check ..) fun _ => rfl

theorem notices_readJoined : notices (readJoined scope joints cursor) = [] := by
  induction joints generalizing cursor with
  | zero =>
    refine notices_bind_eq_nil notices_readOne fun last => ?_
    dsimp only
    split <;> rfl
  | succ joints ih =>
    refine notices_bind_eq_nil notices_readOne fun first => ?_
    dsimp only
    split
    · rfl
    · exact notices_bind_eq_nil ih fun _ => rfl
    · rfl

theorem notices_parse (scope : Scope) (text : String) : notices (parse scope text) = [] :=
  notices_bind_eq_nil rfl fun _ =>
    notices_bind_eq_nil ((notices_adapt _ _).trans notices_readJoined) fun _ => rfl

theorem notices_reportFrozen_eq_nil_iff (m : Machine) (number : Nat) (c : Condition) :
    (c.reportFrozen m number).notices = [] ↔ (c.isReflexive && c.comparison == .equal) = false := by
  rw [reportFrozen]
  split
  · rename_i h
    dsimp only
    rw [Logged.notices_info, h]
    exact iff_of_false (List.cons_ne_nil _ _) Bool.noConfusion
  · rename_i h
    exact iff_of_true rfl (Bool.eq_false_iff.2 h)

theorem notices_freezeFrom_eq_nil_iff (m : Machine) (number : Nat) (cs : List Condition) :
    (freezeFrom m number cs).notices = [] ↔
      ∀ c ∈ cs, (c.isReflexive && c.comparison == .equal) = false := by
  induction cs generalizing number with
  | nil => exact iff_of_true rfl (List.forall_mem_nil _)
  | cons c more ih =>
    rw [freezeFrom, Logged.notices_bind, Logged.notices_bind, Logged.notices_pure, List.append_nil,
      List.append_eq_nil_iff, ih, List.forall_mem_cons, notices_reportFrozen_eq_nil_iff]

/-- Freezing shows something just if some condition compares a value with itself: the value of an
equality, or else that the value is tracked. -/
theorem notices_freezeAll_eq_nil_iff (m : Machine) (cs : List Condition) :
    (freezeAll m cs).notices = [] ↔ ∀ c ∈ cs, c.isReflexive = false := by
  have hnotices : (freezeAll m cs).notices = [] ↔
      (∀ c ∈ cs, (c.isReflexive && c.comparison == .equal) = false) ∧
        (cs.any fun c => c.isReflexive && c.comparison != .equal) = false := by
    rw [freezeAll, Logged.notices_bind, List.append_eq_nil_iff, notices_freezeFrom_eq_nil_iff]
    refine and_congr_right fun _ => ?_
    dsimp only
    split
    · rename_i htracks
      rw [Logged.notices_bind, Logged.notices_info, htracks]
      exact iff_of_false (List.cons_ne_nil _ _) Bool.noConfusion
    · rename_i htracks
      exact iff_of_true rfl (Bool.eq_false_iff.2 htracks)
  rw [hnotices, List.any_eq_false]
  constructor
  · rintro ⟨hequal, htracks⟩ c hc
    have heq := hequal c hc
    have hne := htracks c hc
    cases hreflexive : c.isReflexive with
    | false => rfl
    | true =>
      rw [hreflexive, Bool.true_and] at heq hne
      exact absurd (bne_iff_ne.2 (beq_eq_false_iff_ne.1 heq)) hne
  · intro h
    constructor
    · intro c hc
      rw [h c hc, Bool.false_and]
    · intro c hc
      rw [h c hc, Bool.false_and]
      exact Bool.false_ne_true

theorem notices_testAll_of_untracked (m : Machine) {cs : List Condition}
    (h : ∀ c ∈ cs, c.tracks = false) : (testAll m cs).notices = [] := by
  induction cs with
  | nil => rfl
  | cons c more ih =>
    obtain ⟨hc, hmore⟩ := List.forall_mem_cons.1 h
    have htest : (c.test m).notices = [] := by
      rw [test, report, hc]
      split <;> rfl
    rw [testAll, Logged.notices_bind, htest, List.nil_append]
    dsimp only
    split
    · rw [Logged.notices_bind, ih hmore]
      rfl
    · rfl

end Monitor.Condition

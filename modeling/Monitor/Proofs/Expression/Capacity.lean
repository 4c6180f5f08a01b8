import Monitor.Proofs.Expression.Soundness

namespace Monitor.Expression

open Attempt

variable {m : Machine}

theorem Operator.level_le (op : Operator) : op.level ≤ 3 := by
  cases op <;> decide

theorem Pending.length {operators : List Operator} {values : List Int64} {ts : List Token}
    (h : Pending m operators values ts) :
    values.length = operators.length ∧ ∀ op ∈ operators.head?, operators.length ≤ op.level + 1 := by
  induction operators generalizing values ts with
  | nil => simp [h.isPlus.1]
  | cons op operators ih =>
    cases values with
    | nil => exact h.elim
    | cons v values =>
      obtain ⟨us, -, -, -, hrest, hrise, -⟩ := h
      obtain ⟨hlen, hle⟩ := ih hrest
      refine ⟨by simp [hlen], ?_⟩
      rintro _ ⟨⟩
      cases operators with
      | nil => simp
      | cons below operators =>
        have h1 := hle below rfl
        have h2 := hrise below rfl
        simp only [List.length_cons] at h1 ⊢
        omega

/-- A level holds at most one operator for each level of precedence, and a value for each. -/
theorem Level.Reads.count_le {level : Level} {ts : List Token} (h : level.Reads m ts) :
    level.operatorCount ≤ 4 ∧ level.values.length ≤ level.operatorCount := by
  obtain ⟨sign, operators, values⟩ := level
  cases sign with
  | some sign =>
    obtain ⟨rfl, rfl, -⟩ := h
    simp [operatorCount]
  | none =>
    obtain ⟨hlen, hle⟩ := Pending.length h
    have hcount : operators.length ≤ 4 := by
      cases operators with
      | nil => simp
      | cons op operators => exact (hle op rfl).trans (Nat.succ_le_succ op.level_le)
    simpa [operatorCount, hlen] using hcount

theorem Derives.balanced {phrase : Phrase} {ts : List Token} {t : Term} (h : Derives phrase ts t) :
    ts.count .opening = ts.count .closing := by
  induction h with
  | number => rfl
  | memory _ ih => simpa using ih
  | operand _ ih | chain _ ih => exact ih
  | signed sign _ ih => cases sign <;> simpa [Sign.token] using ih
  | binary _ _ _ ihl ihr => simp [ihl, ihr]
  | plus _ ih => simpa using ih

theorem IsPlus.balanced {ts : List Token} (h : IsPlus ts) :
    ts.count .opening = ts.count .closing := by
  obtain ⟨n, rfl⟩ := h
  simp [List.count_replicate]

theorem Pending.balanced {operators : List Operator} {values : List Int64} {ts : List Token}
    (h : Pending m operators values ts) : ts.count .opening = ts.count .closing := by
  induction operators generalizing values ts with
  | nil => exact h.isPlus.2.balanced
  | cons op operators ih =>
    cases values with
    | nil => exact h.elim
    | cons v values =>
      obtain ⟨us, vs, t, rfl, hrest, -, hd, -⟩ := h
      simp [ih hrest, hd.balanced]

theorem Level.Reads.balanced {level : Level} {ts : List Token} (h : level.Reads m ts) :
    ts.count .opening = ts.count .closing := by
  obtain ⟨sign, operators, values⟩ := level
  cases sign with
  | none => exact Pending.balanced h
  | some sign =>
    obtain ⟨-, -, us, hus, rfl⟩ := h
    cases sign <;> simp [Sign.token, hus.balanced]

theorem Surrounds.count {outer : List Level} {ts : List Token} (h : Surrounds m outer ts) :
    ts.count .opening = ts.count .closing + outer.length ∧
      outer.foldr (fun level n => level.operatorCount + n) 0 ≤ 4 * outer.length ∧
      outer.foldr (fun level n => level.values.length + n) 0 ≤
        outer.foldr (fun level n => level.operatorCount + n) 0 := by
  induction outer generalizing ts with
  | nil =>
    cases h
    simp
  | cons level outer ih =>
    obtain ⟨us, vs, rfl, hus, hvs⟩ := h
    obtain ⟨hc, ho, hv⟩ := ih hus
    obtain ⟨ho', hv'⟩ := hvs.count_le
    simp only [List.count_append, List.foldr_cons, List.length_cons, hvs.balanced, hc]
    simp
    omega

theorem Progress.Reads.count {p : Progress} {ts : List Token} (h : p.Reads m ts) :
    ts.count .opening = ts.count .closing + p.outer.length ∧
      p.operatorCount ≤ 4 * p.outer.length + 4 ∧ p.valueCount ≤ p.operatorCount := by
  obtain ⟨us, vs, ws, rfl, hu, hl, hw⟩ := h
  obtain ⟨hc, ho, hv⟩ := hu.count
  obtain ⟨ho', hv'⟩ := hl.count_le
  have hws : ws.count .opening = ws.count .closing := by
    cases hp : p.operand with
    | none => rw [hp] at hw; rw [hw]; rfl
    | some v =>
      rw [hp] at hw
      obtain ⟨t, hd, -⟩ := hw
      exact hd.balanced
  simp only [Progress.operatorCount, Progress.valueCount, List.foldr_cons, List.count_append, hc,
    hl.balanced, hws]
  omega

/-- What can go wrong inside so many parentheses. A stack is full only inside more than fourteen,
and the stack of values never is. -/
def Error.ArisesAt (depth : Nat) : Error → Prop
  | .full .operators | .full .parentheses => 14 < depth
  | .full .values | .impossible => False
  | .empty | .malformed | .unbalanced | .undefined => True

variable {p : Progress} {ts : List Token} {op : Operator} {v : Int64} {e : Error}

theorem reduce_eq_error {operators : List Operator} {values : List Int64}
    (hlen : values.length = operators.length + 1)
    (h : Level.reduce op operators values = .error e) : e = .undefined := by
  induction operators generalizing values with
  | nil => cases h
  | cons below operators ih =>
    unfold Level.reduce at h
    split at h
    · cases h
    · split at h
      · rename_i b a rest
        rw [Operator.apply_eq_meaning] at h
        cases hc : below.meaning? a b with
        | none =>
          rw [hc] at h
          cases h
          rfl
        | some c =>
          rw [hc] at h
          exact ih (by simpa using hlen) h
      · rename_i hfew
        cases values with
        | nil => cases hlen
        | cons b values =>
          cases values with
          | nil => cases hlen
          | cons a rest => exact absurd rfl (hfew b a rest)

theorem Level.Reads.push_eq_error {level : Level} (h : level.Reads m ts)
    (hp : level.push op v = .error e) : e = .undefined := by
  obtain ⟨sign, operators, values⟩ := level
  cases sign with
  | some sign => cases hp
  | none => exact reduce_eq_error (congrArg (· + 1) (Pending.length h).1) hp

theorem Progress.Reads.push {next : Level} (h : p.Reads m ts) (hv : p.operand = some v)
    (hp : p.level.push op v = .ok next) : ∃ more a rest, next = ⟨none, op :: more, a :: rest⟩ := by
  obtain ⟨us, vs, ws, -, -, hl, hw⟩ := h
  rw [hv] at hw
  obtain ⟨t, hd, ht⟩ := hw
  obtain ⟨more, values, rfl, hm⟩ := hl.push hd ht hp
  cases values with
  | nil => exact hm.elim
  | cons a rest => exact ⟨more, a, rest, rfl⟩

theorem Progress.Reads.total_cases (h : p.Reads m ts) (hp : p.operand = some v) :
    (∃ e, p.putOperator .or v = .error e ∧ p.total v = .error e) ∨
      ∃ q a rest, p.putOperator .or v = .ok q ∧ q.level.values = a :: rest ∧ q.outer = p.outer ∧
        p.total v = .ok a := by
  cases hq : p.putOperator .or v with
  | error e => exact .inl ⟨e, rfl, by rw [total, hq]; rfl⟩
  | ok q =>
    obtain ⟨next, hnext, rfl⟩ := putOperator_eq_ok hq
    obtain ⟨more, a, rest, rfl⟩ := h.push hp hnext
    exact .inr ⟨_, a, rest, rfl, rfl, rfl, by rw [total, hq]; rfl⟩

theorem Progress.Reads.arises_of_putOperator (h : p.Reads m ts)
    (hs : p.putOperator op v = .error e) : e.ArisesAt p.outer.length := by
  obtain ⟨-, ho, hv⟩ := h.count
  unfold Progress.putOperator at hs
  split at hs
  · rename_i hf
    cases hs
    simp only [maxOperators] at hf
    have hdepth : 14 < p.outer.length := by omega
    exact hdepth
  · split at hs
    · rename_i hf hf'
      simp only [maxOperators, maxValues] at hf hf'
      omega
    · obtain hl | ⟨level, -, hs⟩ := bind_eq_error.1 hs
      · obtain ⟨us, vs, ws, -, -, hlevel, -⟩ := h
        cases hlevel.push_eq_error hl
        trivial
      · cases hs

theorem Progress.Reads.arises_of_total (h : p.Reads m ts) (hv : p.operand = some v)
    (hs : p.total v = .error e) : e.ArisesAt p.outer.length := by
  obtain ⟨e', hput, htotal⟩ | ⟨q, a, rest, -, -, -, htotal⟩ := h.total_cases hv
  · cases hs.symm.trans htotal
    exact h.arises_of_putOperator hput
  · cases hs.symm.trans htotal

theorem Progress.Reads.arises_of_putSign {sign : Sign} (h : p.Reads m ts)
    (hs : p.putSign sign = .error e) : e.ArisesAt p.outer.length := by
  obtain ⟨-, ho, -⟩ := h.count
  unfold Progress.putSign at hs
  split at hs
  · cases hs
    trivial
  · split at hs
    · rename_i hf
      cases hs
      simp only [maxOperators] at hf
      have hdepth : 14 < p.outer.length := by omega
      exact hdepth
    · cases hs

/-- The stacks are not full as long as fewer than fifteen parentheses are open. -/
theorem Progress.Reads.arises_of_step {t : Token} (h : p.Reads m ts)
    (hs : result (Expression.step m p t) = .error e) : e.ArisesAt p.outer.length := by
  cases t with
  | operand value =>
    simp only [Expression.step] at hs
    split at hs <;> cases hs
    trivial
  | unreadable =>
    cases hs
    trivial
  | complement => exact h.arises_of_putSign hs
  | operator op =>
    cases hp : p.operand with
    | some v =>
      have hs' : p.putOperator op v = .error e := by
        simpa [Expression.step, ofExcept, Progress.operator, hp] using hs
      exact h.arises_of_putOperator hs'
    | none =>
      simp only [Expression.step, ofExcept, result_mk, Progress.operator, hp] at hs
      cases op with
      | subtract => exact h.arises_of_putSign hs
      | add =>
        simp only [Progress.putPlus] at hs
        split at hs <;> cases hs
        trivial
      | or | and | xor | shiftRight | shiftLeft | multiply | divide =>
        cases hs
        trivial
  | opening =>
    simp only [Expression.step, ofExcept, result_mk, Progress.openLevel] at hs
    split at hs
    · cases hs
      trivial
    · split at hs
      · rename_i hf
        cases hs
        exact Nat.lt_of_lt_of_le (by decide) hf
      · cases hs
  | closing =>
    cases hp : p.operand with
    | none =>
      simp only [Expression.step, Expression.closeLevel, hp] at hs
      cases hs
      trivial
    | some v =>
      cases ho : p.outer with
      | nil =>
        simp only [Expression.step, Expression.closeLevel, hp, ho] at hs
        cases hs
        trivial
      | cons level outer =>
        rw [Expression.step, result_closeLevel hp ho, bind_eq_error] at hs
        rw [← ho]
        obtain ht | ⟨a, -, hs⟩ := hs
        · exact h.arises_of_total hp ht
        · cases hs

theorem NestsOver.append {n : Nat} {ts : List Token} (h : NestsOver n ts) (us : List Token) :
    NestsOver n (ts ++ us) := by
  obtain ⟨vs, hvs, hn⟩ := h
  exact ⟨vs, hvs.trans (List.prefix_append ts us), hn⟩

theorem Progress.Reads.nestsOver {p : Progress} {ts : List Token} (h : p.Reads m ts)
    (hp : 14 < p.outer.length) : NestsOver 14 ts :=
  ⟨ts, List.prefix_refl ts, by rw [h.count.1]; omega⟩

def ArisesWithin (m : Machine) (e : Error) (ts : List Token) : Prop :=
  ∃ (p : Progress) (us : List Token), us <+: ts ∧ p.Reads m us ∧ e.ArisesAt p.outer.length

theorem Progress.Reads.arises_of_advance {us : List Token} (h : p.Reads m ts)
    (hs : Expression.advance m p us = .error e) : ArisesWithin m e (ts ++ us) := by
  induction us generalizing p ts with
  | nil => cases hs
  | cons t us ih =>
    rw [advance_cons, bind_eq_error] at hs
    obtain hq | ⟨r, hq, hs⟩ := hs
    · exact ⟨p, ts, List.prefix_append ts (t :: us), h, h.arises_of_step hq⟩
    · simpa using ih (h.step hq) hs

theorem Progress.Reads.arises_of_finish (h : p.Reads m ts) (hs : finish p = .error e) :
    e.ArisesAt p.outer.length := by
  rw [finish] at hs
  split at hs
  · split at hs <;> cases hs <;> trivial
  · rename_i v hv
    obtain ht | ⟨a, -, hs⟩ := bind_eq_error.1 hs
    · exact h.arises_of_total hv ht
    · split at hs <;> cases hs
      trivial

theorem arises_of_outcome {scope : Scope} {text : String} (h : outcome scope text = .error e) :
    ArisesWithin scope.machine e ((tokens scope 0 text.toList).map Placed.token) := by
  rw [outcome_eq, bind_eq_error] at h
  obtain hp | ⟨p, hp, h⟩ := h
  · exact Progress.reads_empty.arises_of_advance hp
  · have hreads := Progress.reads_empty.advance hp
    obtain hf | ⟨value, -, h⟩ := bind_eq_error.1 h
    · exact ⟨p, _, List.prefix_refl _, hreads, hreads.arises_of_finish hf⟩
    · cases h

theorem nestsOver_of_full {scope : Scope} {text : String} {stack : Stack}
    (h : outcome scope text = .error (.full stack)) :
    NestsOver 14 ((tokens scope 0 text.toList).map Placed.token) := by
  obtain ⟨p, us, ⟨vs, hvs⟩, hreads, harises⟩ := arises_of_outcome h
  have hdepth : 14 < p.outer.length := by
    cases stack with
    | operators | parentheses => exact harises
    | values => exact harises.elim
  rw [← hvs]
  exact (hreads.nestsOver hdepth).append vs

end Monitor.Expression
